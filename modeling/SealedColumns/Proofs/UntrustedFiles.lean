import SealedColumns.Proofs.BoundedPages
import SealedColumns.Proofs.OpeningFiles

/-!
# Files that nobody vouches for

A reader is given any bytes, any settings, and asks for any row groups, columns and pages in any
order, also after failures and after the file was closed. Each request ends in a value or in an
error that breaks no promise.

Lengths, offsets and counts come from the file, also where they were decrypted before. The proof
follows them from the check that limits them to the sum, the slice or the counter that relies on it:
the length in the trailer has four bytes, offsets and sizes of a chunk are not negative and have 63
bits, and a chunk is read to its padded length only.

Key retrievers and verifiers of the stored prefix are functions of the caller. What a retriever
reports is wrapped; a verifier's own error is handed on, so it has to be one that breaks no promise.
-/

namespace SealedColumns

/-- The operation answers in any session. -/
abbrev Session.Answers {α : Type} (Good : α → Prop) (op : Session α) : Prop :=
  Yields (fun _ => True) op (SealedColumns.Answers Good)

namespace Session.Answers

variable {α β : Type} {Good : α → Prop} {Good' : β → Prop} {op : Session α}

theorem seq {f : α → Session β} (first : Session.Answers Good op)
    (rest : ∀ a, Good a → Session.Answers Good' (f a)) : Session.Answers Good' (op >>= f) :=
  Yields.seq first rest fun _ h => h

theorem lift {x : Except Error α} {f : α → Session β} (first : SealedColumns.Answers Good x)
    (rest : ∀ a, Good a → Session.Answers Good' (f a)) : Session.Answers Good' (liftM x >>= f) :=
  seq (Yields.lift first) rest

theorem guard {c : Prop} [Decidable c] {e : Error} {f : α → Session β} {rest : Session β}
    (refusal : (e.kind == .assertion) = false) (h : ¬ c → Session.Answers Good' rest) :
    Session.Answers Good' (if c then throw e >>= f else rest) := by
  by_cases hc : c
  · rw [if_pos hc]
    exact Yields.throw (.error refusal)
  · rw [if_neg hc]
    exact h hc

/-- The operation answers, and no more is said of its value. -/
abbrev Plainly (op : Session α) : Prop :=
  Session.Answers (fun _ => True) op

end Session.Answers

/-! ### Sources and keys -/

theorem ByteSource.get_answers (source : ByteSource) (start length : Nat) :
    Answers (fun bs => bs.length = length) (source.get start length) := by
  rw [get]
  cases source.kind with
  | memory =>
      refine .ite (fun inside => ?_) fun _ => .error rfl
      refine (Bytes.slice_answers (Nat.le_add_right _ _) inside).mono fun bs h => ?_
      rw [h, Nat.add_sub_cancel_left]
  | disk =>
      refine .ite (fun _ => .error rfl) fun _ => ?_
      exact .ite (fun found => .ok found) fun _ => .error rfl

namespace Session

theorem modify_answers (f : ReadState → ReadState) :
    Session.Answers.Plainly (modify f : Session PUnit) :=
  (Yields.modify fun _ _ => trivial).mono fun _ done => done ▸ trivial

theorem read_answers (source : ByteSource) (start length : Nat) :
    Session.Answers (fun bs => bs.length = length) (Session.read source start length) :=
  .seq (modify_answers _) fun _ _ => Yields.lift (source.get_answers start length)

theorem verify_answers {verifier : AadPrefixVerifier} {aadPrefix : Bytes}
    (h : SealedColumns.Answers.Plainly (verifier aadPrefix)) :
    Session.Answers.Plainly (verify verifier aadPrefix) :=
  .seq (modify_answers _) fun _ _ => Yields.lift h

theorem checkKeysHeld_answers : Session.Answers.Plainly checkKeysHeld := by
  refine .get_bind fun s _ => ?_
  split
  · exact ⟨.error rfl, trivial⟩
  · exact ⟨trivial, trivial⟩

end Session

namespace FileDecryption

variable {d : FileDecryption}

/-- Whatever a retriever reports, its failure is a key that was not found. -/
theorem retrieveKey_answers (subject : KeySubject) (keyMetadata : Option Bytes) :
    Session.Answers.Plainly (d.retrieveKey subject keyMetadata) := by
  rw [retrieveKey]
  cases d.properties.keyRetriever with
  | none => exact Yields.throw (.error rfl)
  | some retriever =>
      dsimp only
      cases keyMetadata.filter (!·.isEmpty) with
      | none => exact Yields.throw (.error rfl)
      | some stored =>
          have asked : Yields (fun _ => True) (Session.retrieve retriever subject stored)
              fun _ => True :=
            fun _ _ => ⟨trivial, trivial⟩
          have wrapped : Session.Answers.Plainly
              (ExceptT.adapt (retrievalError subject)
                (Session.retrieve retriever subject stored)) := by
            refine asked.adapt ?_
            rintro (e | key) _
            · change (retrievalError subject e).kind ≠ .assertion
              rw [kind_retrievalError]
              decide
            · trivial
          exact .seq wrapped fun key _ => Yields.lift (Key.ofBytes_answers key)

theorem footerKey_answers : Session.Answers.Plainly d.footerKey := by
  refine .seq Session.checkKeysHeld_answers fun _ _ => .get_bind fun s _ => ?_
  cases s.footerKey with
  | some key => exact ⟨trivial, trivial⟩
  | none =>
      have keep (key : Key) : Session.Answers.Plainly (do
          modify fun s => { s with footerKey := some key }
          return key : Session Key) :=
        .seq (Session.modify_answers _) fun _ _ => Yields.pure trivial
      cases d.properties.footerKey with
      | some key => exact keep key s trivial
      | none =>
          exact Session.Answers.seq (retrieveKey_answers _ _) (fun key _ => keep key) s trivial

theorem columnKey_answers (path : ColumnPath) (crypto : ColumnCrypto) :
    Session.Answers.Plainly (d.columnKey path crypto) := by
  refine .seq Session.checkKeysHeld_answers fun _ _ => ?_
  cases crypto with
  | footerKey => exact footerKey_answers
  | columnKey info =>
      dsimp only
      cases d.properties.columnKey path with
      | some key => exact Yields.pure trivial
      | none => exact retrieveKey_answers _ _

theorem opener_answers (key : Key) (moduleClass : ModuleClass) :
    Session.Answers.Plainly (d.opener key moduleClass) :=
  (opener_yields (fun _ _ _ => trivial) key moduleClass).mono fun _ found => found ▸ trivial

theorem columnOpener_answers (path : ColumnPath) (crypto : ColumnCrypto)
    (moduleClass : ModuleClass) :
    Session.Answers.Plainly (d.columnOpener path crypto moduleClass) :=
  .seq (columnKey_answers path crypto) fun key _ => opener_answers key moduleClass

end FileDecryption

/-- The caller's verifier reports no broken promises. -/
def DecryptionProperties.VerifierAnswers (p : DecryptionProperties) : Prop :=
  ∀ verifier ∈ p.aadPrefixVerifier, ∀ aadPrefix, Answers.Plainly (verifier aadPrefix)

/-- The same of the settings of a reader. -/
def ReaderProperties.VerifierAnswers (r : ReaderProperties) : Prop :=
  ∀ p ∈ r.decryption, p.VerifierAnswers

/-! ### Opening -/

namespace Schema

theorem ofElements_answers (name : String) (elements : List SchemaElement) :
    Answers.Plainly (ofElements name elements) := by
  rw [ofElements]
  split
  · exact .ok trivial
  · exact .error rfl

theorem column_answers (schema : Schema) (i : Nat) : Answers.Plainly (schema.column i) := by
  rw [column]
  split
  · exact .ok trivial
  · exact .error rfl

end Schema

namespace Opening

theorem rowGroupInfos_answers (numColumns i : Nat) (acc : Array RowGroupInfo)
    (rowGroups : List RowGroup) : Answers.Plainly (rowGroupInfos numColumns i acc rowGroups) := by
  induction rowGroups generalizing i acc with
  | nil => exact .ok trivial
  | cons g rowGroups ih =>
      rw [rowGroupInfos]
      refine .guard rfl fun _ => ?_
      dsimp only
      split
      · exact ih _ _
      · exact .error rfl

theorem fileInfo_answers (m : FileMetaData) (decryption : Option FileDecryption) :
    Answers.Plainly (fileInfo m decryption) :=
  (Schema.ofElements_answers _ _).bind fun _ _ =>
    (rowGroupInfos_answers _ _ _ _).bind fun _ _ => .pure trivial

variable {properties : DecryptionProperties}

theorem reconcilePrefix_answers (stored : AadParameters) (verified : properties.VerifierAnswers) :
    Session.Answers.Plainly (reconcilePrefix stored properties) := by
  rw [DecryptionProperties.VerifierAnswers] at verified
  rw [reconcilePrefix]
  cases stored.aadPrefix with
  | some aadPrefix =>
      refine .guard rfl fun _ => ?_
      cases hverifier : properties.aadPrefixVerifier with
      | none => exact Yields.pure trivial
      | some verifier =>
          exact .seq (Session.verify_answers (verified verifier hverifier aadPrefix)) fun _ _ =>
            Yields.pure trivial
  | none =>
      cases properties.aadPrefix with
      | some supplied => exact Yields.pure trivial
      | none => exact .guard rfl fun _ => Yields.pure trivial

theorem fileDecryption_answers (description : EncryptionAlgorithm) (keyMetadata : Option Bytes)
    (verified : properties.VerifierAnswers) :
    Session.Answers.Plainly (fileDecryption description keyMetadata properties) := by
  rw [fileDecryption]
  cases description.parameters.fileUnique with
  | none => exact Yields.throw (.error rfl)
  | some fileUnique =>
      exact .seq (reconcilePrefix_answers _ verified) fun _ _ => Yields.pure trivial

/-- A signature of the right length has a nonce and a tag, and the footer can be sealed again. -/
theorem verifySignature_answers (d : FileDecryption) {footer signature : Bytes}
    (size : signature.length = signatureSize) (short : footer.length < UInt32.size) :
    Session.Answers.Plainly (verifySignature d footer signature) := by
  have drawn : nonceLength ≤ signature.length := by
    rw [size, signatureSize]
    exact Nat.le_add_right _ _
  refine .seq FileDecryption.footerKey_answers fun key _ => ?_
  refine .lift (footerAad_answers _) fun aad _ => ?_
  refine .lift (Bytes.cut_answers drawn) ?_
  rintro ⟨nonce, tag⟩ _
  refine .lift (Engine.encryptForSignature_answers short) fun sealedFooter same => ?_
  have length : sealedFooter.length = lengthWidth + footer.length + signatureSize := same
  dsimp only
  rw [if_neg (not_not_intro length)]
  have tagged : tagLength ≤ sealedFooter.length := by
    rw [same]
    omega
  refine .lift (subSizes_answers tagged) ?_
  rintro start rfl
  refine .lift (Bytes.sliceFrom_answers (Nat.sub_le _ _)) fun expected _ => ?_
  split
  · exact Yields.throw (.error rfl)
  · exact Yields.pure trivial

theorem plaintextSection_answers {decryption : Option DecryptionProperties}
    (verified : ∀ p ∈ decryption, p.VerifierAnswers)
    {bs : Bytes} (short : bs.length < UInt32.size) :
    Session.Answers.Plainly (plaintextSection decryption bs) := by
  refine .lift decodePart_answers ?_
  rintro ⟨m, consumed⟩ inside
  dsimp only at inside ⊢
  cases m.encryptionAlgorithm with
  | none =>
      dsimp only
      split
      · exact .lift (subSizes_answers inside) fun _ _ => Yields.throw (.error rfl)
      · exact Yields.lift (fileInfo_answers _ _)
  | some description =>
      cases decryption with
      | none => exact Yields.lift (fileInfo_answers _ _)
      | some properties =>
          refine .seq (fileDecryption_answers _ _ (verified properties rfl)) fun d _ => ?_
          split
          · refine .lift (Bytes.sliceFrom_answers inside) fun signature _ => ?_
            refine .guard rfl fun size => ?_
            refine .lift (Bytes.slice_answers (Nat.zero_le _) inside) fun footer length => ?_
            rw [Nat.sub_zero] at length
            refine .seq (verifySignature_answers d (Decidable.not_not.mp size) (by omega)) ?_
            exact fun _ _ => Yields.lift (fileInfo_answers _ _)
          · exact Yields.lift (fileInfo_answers _ _)

theorem sealedFooterError_answers {e : Error} (h : e.kind ≠ .assertion) :
    (sealedFooterError e).kind ≠ .assertion := by
  rw [sealedFooterError]
  split
  · rintro ⟨⟩
  · rintro ⟨⟩
  · rintro ⟨⟩
  · exact h

theorem encryptedSection_answers {decryption : Option DecryptionProperties}
    (verified : ∀ p ∈ decryption, p.VerifierAnswers) (bs : Bytes) :
    Session.Answers.Plainly (encryptedSection decryption bs) := by
  unfold encryptedSection
  cases decryption with
  | none => exact Yields.throw (.error rfl)
  | some properties =>
      refine .lift (decodePart_answers (α := FileCryptoMetaData)) ?_
      rintro ⟨crypto, consumed⟩ inside
      refine .seq (fileDecryption_answers _ _ (verified properties rfl)) fun d _ => ?_
      have footer : Session.Answers.Plainly d.footerOpener :=
        .seq FileDecryption.footerKey_answers fun key _ => FileDecryption.opener_answers key _
      refine .seq footer fun opener _ => ?_
      refine .lift (footerAad_answers _) fun aad _ => ?_
      refine .lift (Bytes.sliceFrom_answers inside) fun input _ => ?_
      have opened : Answers _ (readSealed (opener.decrypt aad) input) :=
        readSealed_answers (fun _ => Engine.decrypt_answers) input
      have wrapped : Session.Answers.Plainly
          (ExceptT.adapt sealedFooterError (liftM (readSealed (opener.decrypt aad) input)) :
            Session (Bytes × Bytes)) := by
        refine (Yields.lift opened).adapt ?_
        rintro (e | part) answer
        · exact sealedFooterError_answers answer
        · trivial
      refine .seq wrapped ?_
      rintro ⟨plain, rest⟩ _
      refine .guard rfl fun _ => .lift decodeFront_answers ?_
      rintro ⟨m, more⟩ _
      exact Yields.lift (fileInfo_answers _ _)

theorem trailer_answers {bs : Bytes} (size : bs.length = Trailer.size) :
    Answers (fun trailer => trailer.metadataLength < UInt32.size) (Trailer.decode bs) := by
  have four : (bs.take 4).length = 4 := by
    rw [List.length_take, size]
    rfl
  have small : Bytes.toNat (bs.take 4) < UInt32.size := by
    have bound := Bytes.toNat_lt (bs.take 4)
    rwa [four] at bound
  rw [Trailer.decode]
  exact .ite (fun _ => .ok small) fun _ => .ite (fun _ => .ok small) fun _ => .error rfl

/-- A window that is read has a trailer at its end, with a length of 32 bits in it. -/
theorem readWindow_answers (properties : ReaderProperties) (source : ByteSource) :
    Session.Answers (fun window => Trailer.size ≤ window.bytes.length ∧
      window.trailer.metadataLength < UInt32.size) (readWindow properties source) := by
  rw [readWindow]
  refine .guard rfl fun large => ?_
  have window : min source.size (max properties.footerReadSize Trailer.size) ≤ source.size :=
    Nat.min_le_left _ _
  have trailed : Trailer.size ≤ min source.size (max properties.footerReadSize Trailer.size) :=
    Nat.le_min.mpr ⟨Nat.not_lt.mp large, Nat.le_max_right _ _⟩
  refine .lift (subSizes_answers window) ?_
  rintro start rfl
  refine .seq (Session.read_answers _ _ _) fun bs read => ?_
  rw [← read] at trailed
  refine .lift (subSizes_answers trailed) ?_
  rintro stop rfl
  refine .lift (Bytes.sliceFrom_answers (Nat.sub_le _ _)) fun last length => ?_
  rw [Nat.sub_sub_self trailed] at length
  exact .lift (trailer_answers length) fun trailer small => Yields.pure ⟨trailed, small⟩

/-- A section that is read is as long as the trailer says. -/
theorem readSection_answers (source : ByteSource) {window : Window}
    (trailed : Trailer.size ≤ window.bytes.length)
    (small : window.trailer.metadataLength < UInt32.size) :
    Session.Answers (fun bs : Bytes => bs.length = window.trailer.metadataLength)
      (readSection source window) := by
  have fits : Trailer.size + window.trailer.metadataLength < UInt64.size := by
    have words : Trailer.size + UInt32.size < UInt64.size := by decide
    omega
  rw [readSection]
  refine .lift (addSizes_answers fits) ?_
  rintro footerSize rfl
  refine .guard rfl fun inside => ?_
  split
  · refine .lift (subSizes_answers (Nat.not_lt.mp inside)) fun start _ => ?_
    exact Session.read_answers _ _ _
  · next held =>
      refine .lift (subSizes_answers (Nat.not_lt.mp held)) ?_
      rintro start rfl
      refine .lift (subSizes_answers trailed) ?_
      rintro stop rfl
      refine Yields.lift ((Bytes.slice_answers (by omega) (Nat.sub_le _ _)).mono ?_)
      intro bs length
      omega

/-- The footer of any file is understood or refused. -/
theorem readFooter_answers {properties : ReaderProperties} (verified : properties.VerifierAnswers)
    (source : ByteSource) : Session.Answers.Plainly (readFooter properties source) := by
  refine .seq (readWindow_answers properties source) ?_
  rintro window ⟨trailed, small⟩
  refine .seq (readSection_answers source trailed small) fun bs length => ?_
  split
  · exact plaintextSection_answers verified (length ▸ small)
  · exact encryptedSection_answers verified bs

end Opening

/-! ### Chunks -/

namespace ChunkInfo

/-- Position, length and number of values of the chunk are not negative. -/
structure Natural (c : ChunkInfo) : Prop where
  numValues : ¬ c.numValues < 0
  start : ¬ c.dictionaryPageOffset.getD c.dataPageOffset < 0
  size : ¬ c.compressedSize < 0

theorem ofMetaData_answers (column : Column) (chunk : ColumnChunk) (m : ColumnMetaData) :
    Answers Natural (ofMetaData column chunk m) := by
  rw [ofMetaData]
  refine .ite (fun _ => .error rfl) fun valid => .ok ⟨?_, ?_, ?_⟩
  · exact fun negative => valid (.inl negative)
  · dsimp only
    cases hoffset : m.dictionaryPageOffset with
    | none => exact fun negative => valid (.inr (.inr (.inl negative)))
    | some offset =>
        intro negative
        apply valid
        rw [hoffset]
        exact .inr (.inr (.inr (decide_eq_true negative)))
  · exact fun negative => valid (.inr (.inl negative))

/-- The assertion that position and length are not negative holds of all
metadata that was accepted. -/
theorem byteRange_answers {c : ChunkInfo} (h : c.Natural) :
    Answers (fun range => range.1 < 0x8000000000000000 ∧ range.2 < 0x8000000000000000)
      c.byteRange := by
  have valid : ¬ (c.dictionaryPageOffset.getD c.dataPageOffset < 0 ∨ c.compressedSize < 0) := by
    rintro (negative | negative)
    · exact h.start negative
    · exact h.size negative
  have start := (c.dictionaryPageOffset.getD c.dataPageOffset).toInt_lt
  have size := c.compressedSize.toInt_lt
  rw [byteRange]
  rw [if_neg valid]
  exact .ok ⟨by omega, by omega⟩

end ChunkInfo

namespace FileInfo

variable (f : FileInfo)

theorem columnMetaData_answers (i j : Nat) (path : ColumnPath) (c : ColumnChunk) :
    Session.Answers.Plainly (f.columnMetaData i j path c) := by
  rw [columnMetaData]
  split
  · refine .seq (FileDecryption.columnOpener_answers _ _ _) fun opener _ => ?_
    refine .lift (moduleAad_answers _ _ _ _ _) fun aad _ => ?_
    refine .lift Engine.decrypt_answers fun plain _ => ?_
    exact .lift decodeFront_answers fun _ _ => Yields.pure trivial
  · split
    · exact Yields.pure trivial
    · split
      · exact Yields.throw (.error rfl)
      · exact Yields.throw (.error rfl)

theorem columnChunk_answers (i j : Nat) :
    Session.Answers ChunkInfo.Natural (f.columnChunk i j) := by
  rw [columnChunk]
  cases f.rowGroups[i]? with
  | none => exact Yields.throw (.error rfl)
  | some g =>
      dsimp only
      cases g.columns[j]? with
      | none => exact Yields.throw (.error rfl)
      | some c =>
          refine .lift (f.schema.column_answers j) fun column _ => ?_
          refine .seq (f.columnMetaData_answers i j _ c) fun m _ => ?_
          exact .guard rfl fun _ => Yields.lift (ChunkInfo.ofMetaData_answers column c m)

end FileInfo

namespace OpenFile

variable (f : OpenFile)

theorem rowGroup_answers (i : Nat) : Session.Answers.Plainly (f.rowGroup i) := by
  refine .get_bind fun s _ => ?_
  split
  · exact ⟨.error rfl, trivial⟩
  · split
    · exact ⟨trivial, trivial⟩
    · exact ⟨.error rfl, trivial⟩

/-- Position and length of a chunk can be added, and so can the few bytes that are read beyond
it. -/
theorem paddedLength_answers {start length : Nat} (start_lt : start < 0x8000000000000000)
    (length_lt : length < 0x8000000000000000) :
    Answers (fun padded => padded ≤ length + maxDictionaryHeader)
      (f.paddedLength start length) := by
  have words : UInt64.size = 0x8000000000000000 + 0x8000000000000000 := rfl
  have few (left : Nat) : min left maxDictionaryHeader ≤ 100 := Nat.min_le_right _ _
  rw [paddedLength]
  split
  · refine (addSizes_answers (by omega)).bind ?_
    rintro stop rfl
    have padding := few (f.source.size - (start + length))
    refine (addSizes_answers (by omega)).mono ?_
    rintro padded rfl
    exact Nat.add_le_add_left (few _) _
  · exact .pure (Nat.le_add_right _ _)

theorem columnOpener_answers (i j : Nat) (chunk : ChunkInfo) :
    Session.Answers.Plainly (f.columnOpener i j chunk) := by
  rw [columnOpener]
  cases chunk.crypto with
  | none => exact Yields.pure trivial
  | some crypto =>
      dsimp only
      cases f.info.decryption with
      | none => exact Yields.throw (.error rfl)
      | some d =>
          exact .seq (FileDecryption.columnOpener_answers _ _ _) fun _ _ =>
            .seq (FileDecryption.columnOpener_answers _ _ _) fun _ _ => Yields.pure trivial

/-- A page reader starts at the front of the bytes that were read for it. -/
theorem columnPages_answers (i j : Nat) :
    Session.Answers (fun pages => pages.Within pages.rest) (f.columnPages i j) := by
  refine .seq (f.info.columnChunk_answers i j) fun chunk natural => ?_
  refine .lift (ChunkInfo.byteRange_answers natural) ?_
  rintro ⟨start, length⟩ ⟨start_lt, length_lt⟩
  dsimp only at start_lt length_lt ⊢
  refine .lift (f.paddedLength_answers start_lt length_lt) fun padded limit => ?_
  refine .seq (f.columnOpener_answers i j chunk) fun opener _ => ?_
  refine .seq (Session.read_answers _ _ _) fun bs read => Yields.pure ?_
  have words : 0x8000000000000000 + maxDictionaryHeader < UInt64.size := by decide
  have declared : 0 ≤ chunk.numValues.toInt :=
    Int.not_lt.mp fun negative => natural.numValues (Int64.lt_iff_toInt_lt.mpr negative)
  exact {
    position := ⟨[], rfl, Nat.zero_le _⟩
    short := by
      change bs.length < UInt64.size
      omega
    remaining_lt := chunk.numValues.toInt_lt
    lt_remaining := Int.lt_of_lt_of_le (by decide) declared }

theorem columnReader_answers (i j : Nat) :
    Session.Answers (fun reader => reader.Within reader.source.rest) (f.columnReader i j) := by
  refine .lift (f.info.schema.column_answers j) fun column _ => ?_
  exact .seq (f.columnPages_answers i j) fun pages start => Yields.pure start

theorem readColumn_answers (i j : Nat) : Session.Answers.Plainly (f.readColumn i j) := by
  refine .seq (f.columnReader_answers i j) fun reader start => Yields.lift ?_
  have ended := ColumnReader.readAll_answers reader start
  generalize (ColumnReader.readAll : ColumnReader.Step ChunkPages ColumnValues) reader = outcome
    at ended ⊢
  rcases outcome with ⟨e | values, _⟩
  · exact ended.1
  · trivial

theorem offsetIndex_answers (i j : Nat) : Session.Answers.Plainly (f.offsetIndex i j) := by
  refine .seq (f.info.columnChunk_answers i j) fun chunk _ => ?_
  split
  · split
    · refine .lift (natural_answers _) fun start _ => .lift (natural_answers _) fun length _ => ?_
      refine .seq (Session.read_answers _ _ _) fun bs _ => ?_
      refine .seq (f.columnOpener_answers i j chunk) fun opener _ => ?_
      cases opener with
      | none =>
          have unsealed : Session.Answers.Plainly (pure bs) := Yields.pure trivial
          refine unsealed.seq fun plain _ => ?_
          exact .lift (decodeFront_answers (α := OffsetIndex)) fun _ _ => Yields.pure trivial
      | some o =>
          refine .lift (o.openOffsetIndex_answers bs) fun plain _ => ?_
          exact .lift (decodeFront_answers (α := OffsetIndex)) fun _ _ => Yields.pure trivial
    · exact Yields.pure trivial
  · exact Yields.pure trivial

theorem inRowGroup_answers {α : Type} {Good : α → Prop} (i : Nat) {op : Session α}
    (h : Session.Answers Good op) : Session.Answers Good (f.inRowGroup i op) :=
  .seq (f.rowGroup_answers i) fun _ _ => h

theorem openSource_answers {properties : ReaderProperties} (verified : properties.VerifierAnswers)
    (source : ByteSource) : Session.Answers.Plainly (openSource properties source) := by
  intro s hs
  have answer := (Opening.readFooter_answers verified source s hs).1
  rw [openSource_run]
  refine ⟨?_, trivial⟩
  generalize Opening.readFooter properties source s = outcome at answer ⊢
  rcases outcome with ⟨e | info, _⟩
  · exact answer
  · trivial

end OpenFile

end SealedColumns
