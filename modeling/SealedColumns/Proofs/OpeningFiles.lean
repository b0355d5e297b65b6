import SealedColumns.Proofs.ReadColumns
import SealedColumns.Proofs.StoredFile

/-!
# Finished files are opened

Opening reads a window from the end of the file, and the section of the metadata anew if the window
does not hold it; either way the section is found between the row groups and the trailer. With the
footer key and the prefix each form of the section is understood, and what the reader learns is what
was written.

The one thing in which a reader can be stricter than a writer is the number of row groups: it has to
tell a position for each of them that fits a signed word of 16 bits.
-/

namespace SealedColumns

namespace Bytes

theorem sliceFrom_of_le {bs : Bytes} {start : Nat} (h : start ≤ bs.length) :
    bs.sliceFrom start = .ok (bs.drop start) := by
  rw [sliceFrom, slice, if_pos ⟨h, Nat.le_refl _⟩]
  congr 1
  exact List.take_of_length_le (by rw [List.length_drop])

end Bytes

namespace Trailer

theorem length_encode (t : Trailer) : (encode t).length = size := by
  rw [encode, List.length_append, Bytes.length_ofNat]
  cases t.mode <;> rfl

theorem decode_encode {t : Trailer} (h : t.metadataLength < UInt32.size) :
    decode (encode t) = .ok t := by
  have width := Bytes.length_ofNat 4 t.metadataLength
  unfold decode encode
  dsimp only
  rw [List.take_left' width, List.drop_left' width, Bytes.toNat_ofNat 4 _ h]
  obtain ⟨length, mode⟩ := t
  cases mode <;> rfl

end Trailer

namespace Opening

/-! ### Finding the section -/

section

variable {front bytes trailer : Bytes} {skip width : Nat}
variable (whole : skip + width = front.length + bytes.length + Trailer.size)
variable (enough : Trailer.size ≤ width)
include whole enough

theorem length_window (sized : trailer.length = Trailer.size) :
    ((front ++ bytes).drop skip ++ trailer).length = width := by
  rw [List.length_append, List.length_drop, List.length_append, sized]
  omega

/-- A window is the end of a file behind the bytes that are skipped. -/
theorem get_window (sized : trailer.length = Trailer.size) :
    (ByteSource.mk .memory (front ++ (bytes ++ trailer))).get skip width =
    .ok ((front ++ bytes).drop skip ++ trailer) := by
  have split : front ++ (bytes ++ trailer) =
      (front ++ bytes).take skip ++ (((front ++ bytes).drop skip ++ trailer) ++ []) := by
    rw [List.append_nil, ← List.append_assoc, ← List.append_assoc, List.take_append_drop]
  have before : ((front ++ bytes).take skip).length = skip := by
    rw [List.length_take, List.length_append]
    omega
  have got := OpenFile.get_memory ((front ++ bytes).take skip)
    ((front ++ bytes).drop skip ++ trailer) []
  rwa [← split, before, length_window whole enough sized] at got

theorem sliceFrom_window :
    Bytes.sliceFrom ((front ++ bytes).drop skip ++ trailer) (width - Trailer.size) =
      .ok trailer := by
  have before : ((front ++ bytes).drop skip).length = width - Trailer.size := by
    rw [List.length_drop, List.length_append]
    omega
  rw [← before]
  exact Bytes.sliceFrom_append _ _

/-- The section in a window that is wide enough. -/
theorem slice_window (inside : Trailer.size + bytes.length ≤ width) :
    Bytes.slice ((front ++ bytes).drop skip ++ trailer) (width - (Trailer.size + bytes.length))
      (width - Trailer.size) = .ok bytes := by
  have before : (front.drop skip).length = width - (Trailer.size + bytes.length) := by
    rw [List.length_drop]
    omega
  have after : (front.drop skip).length + bytes.length = width - Trailer.size := by omega
  rw [List.drop_append_of_le_length (by omega), List.append_assoc, ← after, ← before]
  exact Bytes.slice_append _ _ _

end

/-- What is read of a file with a trailer is the section that the trailer announces, in its mode. -/
theorem readFooter_yields {P : ReadState → Prop} {R : Except Error FileInfo → Prop}
    {properties : ReaderProperties} {front bytes : Bytes} {mode : FooterMode}
    (read : ∀ source start length,
      Yields P (Session.read source start length) (· = source.get start length))
    (short : bytes.length < UInt32.size)
    (h : Yields P (match mode with
      | .plaintext => plaintextSection properties.decryption bytes
      | .encrypted => encryptedSection properties.decryption bytes) R) :
    Yields P (readFooter properties
      ⟨.memory, front ++ (bytes ++ Trailer.encode ⟨bytes.length, mode⟩)⟩) R := by
  have sized := Trailer.length_encode ⟨bytes.length, mode⟩
  have decoded : Trailer.decode (Trailer.encode ⟨bytes.length, mode⟩) = .ok ⟨bytes.length, mode⟩ :=
    Trailer.decode_encode short
  generalize Trailer.encode ⟨bytes.length, mode⟩ = trailer at sized decoded ⊢
  have total : (ByteSource.mk .memory (front ++ (bytes ++ trailer))).size =
      front.length + bytes.length + Trailer.size := by
    rw [ByteSource.size, List.length_append, List.length_append, sized, Nat.add_assoc]
  have footerSize : addSizes Trailer.size bytes.length = .ok (Trailer.size + bytes.length) :=
    addSizes_of_lt (Nat.lt_trans (Nat.add_lt_add_left short Trailer.size) (by decide))
  generalize hwidth : min (front.length + bytes.length + Trailer.size)
    (max properties.footerReadSize Trailer.size) = width
  generalize hskip : front.length + bytes.length + Trailer.size - width = skip
  have enough : Trailer.size ≤ width := by omega
  have whole : skip + width = front.length + bytes.length + Trailer.size := by omega
  have length := length_window whole enough sized
  have windowed : Yields P (readWindow properties ⟨.memory, front ++ (bytes ++ trailer)⟩)
      (· = .ok ⟨(front ++ bytes).drop skip ++ trailer, bytes.length, mode⟩) := by
    have window := read ⟨.memory, front ++ (bytes ++ trailer)⟩ skip width
    rw [get_window whole enough sized] at window
    rw [readWindow]
    dsimp only
    rw [total, if_neg (by omega), hwidth]
    refine .seq_ok (.lift (subSizes_of_le (by omega))) (.seq_ok (by rwa [hskip]) ?_)
    rw [length]
    refine .seq_ok (.lift (subSizes_of_le enough)) ?_
    refine .seq_ok (.lift (sliceFrom_window whole enough)) ?_
    exact .seq_ok (.lift decoded) (.pure rfl)
  have found : Yields P (readSection ⟨.memory, front ++ (bytes ++ trailer)⟩
      ⟨(front ++ bytes).drop skip ++ trailer, bytes.length, mode⟩) (· = .ok bytes) := by
    rw [readSection]
    dsimp only
    refine .seq_ok (.lift footerSize) ?_
    rw [total, if_neg (by omega), length]
    split
    · -- The section is not in the window, and is read anew.
      have start : front.length + bytes.length + Trailer.size - (Trailer.size + bytes.length) =
          front.length := by omega
      have anew := read ⟨.memory, front ++ (bytes ++ trailer)⟩ front.length bytes.length
      rw [OpenFile.get_memory front bytes trailer] at anew
      exact .seq_ok (.lift (subSizes_of_le (by omega))) (by rwa [start])
    · next inside =>
      refine .seq_ok (.lift (subSizes_of_le (by omega)))
        (.seq_ok (.lift (subSizes_of_le enough)) ?_)
      exact .lift (slice_window whole enough (Nat.le_of_not_lt inside))
  exact .seq_ok windowed (.seq_ok found h)

/-! ### Understanding the metadata -/

/-- Row groups that are numbered by their positions are taken over, as long as there are not too
many of them. -/
theorem rowGroupInfos_of_positions {numColumns i : Nat} (acc : Array RowGroupInfo)
    {groups : List RowGroup}
    (positions : ∀ k g, groups[k]? = some g → g.columns.length = numColumns ∧
      g.ordinal = int16? (i + k))
    (few : i + groups.length ≤ maxOrdinal + 1) :
    ∃ infos, rowGroupInfos numColumns i acc groups = .ok infos ∧
      infos.toList.map RowGroupInfo.columns =
        acc.toList.map RowGroupInfo.columns ++ groups.map RowGroup.columns := by
  induction groups generalizing i acc with
  | nil => exact ⟨acc, rfl, (List.append_nil _).symm⟩
  | cons g groups ih =>
      obtain ⟨width, ordinal⟩ := positions 0 g rfl
      obtain ⟨word, hword⟩ := Option.isSome_iff_exists.mp
        (isSome_int16?_iff.mpr (by rw [List.length_cons] at few; omega : i ≤ maxOrdinal))
      have others : ∀ k g', groups[k]? = some g' → g'.columns.length = numColumns ∧
          g'.ordinal = int16? (i + 1 + k) := by
        intro k g' hk
        have next := positions (k + 1) g' hk
        rwa [← Nat.add_assoc, Nat.add_right_comm] at next
      obtain ⟨infos, run, columns⟩ := ih
        (acc.push ⟨g.columns, g.numRows, g.totalByteSize, g.fileOffset, word⟩) others
        (by rw [List.length_cons] at few; omega)
      refine ⟨infos, ?_, ?_⟩
      · rw [rowGroupInfos, if_neg (not_not_intro width), ordinal, Nat.add_zero, hword]
        exact run
      · rw [columns, Array.toList_push, List.map_append, List.append_assoc]
        rfl

/-- With one row group too many the first that has no possible position is refused. -/
theorem rowGroupInfos_of_too_many {numColumns i : Nat} (acc : Array RowGroupInfo)
    {groups : List RowGroup}
    (positions : ∀ k g, groups[k]? = some g → g.columns.length = numColumns ∧
      g.ordinal = int16? (i + k))
    (start : i ≤ maxOrdinal + 1) (many : maxOrdinal + 1 < i + groups.length) :
    rowGroupInfos numColumns i acc groups = .error (.rowGroupOrdinal (maxOrdinal + 1)) := by
  induction groups generalizing i acc with
  | nil => exact absurd many (by simpa using start)
  | cons g groups ih =>
      obtain ⟨width, ordinal⟩ := positions 0 g rfl
      rw [rowGroupInfos, if_neg (not_not_intro width), ordinal, Nat.add_zero]
      by_cases possible : i ≤ maxOrdinal
      · obtain ⟨word, hword⟩ := Option.isSome_iff_exists.mp (isSome_int16?_iff.mpr possible)
        rw [hword]
        refine ih _ (fun k g' hk => ?_) (Nat.succ_le_succ possible) (by
          rw [List.length_cons] at many
          omega)
        have next := positions (k + 1) g' hk
        rwa [← Nat.add_assoc, Nat.add_right_comm] at next
      · have here : i = maxOrdinal + 1 := by omega
        have absent : int16? i = none := by
          rw [← Option.not_isSome_iff_eq_none, isSome_int16?_iff]
          exact possible
        rw [absent, here]
        rfl

end Opening

namespace DecryptionProperties

/-- The reader has the prefix of the associated data where the file does not store it. Where the
file does, the reader need not have it, must not have another one, and must not have a verifier that
refuses it. -/
def KnowsPrefix (r : DecryptionProperties) (p : EncryptionProperties) : Prop :=
  if p.storesAadPrefix then
    (∀ supplied ∈ r.aadPrefix, p.aadPrefix = some supplied) ∧
      ∀ verifier ∈ r.aadPrefixVerifier, ∀ stored ∈ p.aadPrefix, verifier stored = .ok ()
  else r.aadPrefix = p.aadPrefix

/-- The reader has what it takes to understand the footer. -/
structure OpensFooter (r : DecryptionProperties) (p : EncryptionProperties) : Prop where
  footerKey : r.Finds r.footerKey p.footerKeyMetadata p.footerKey
  aadPrefix : r.KnowsPrefix p
  metadata : p.MetadataNonempty

end DecryptionProperties

/-- The decryption that undoes an encryption. -/
def FileEncryption.decryption (e : FileEncryption) (r : DecryptionProperties) : FileDecryption :=
  ⟨r, e.properties.algorithm, e.fileAad, e.properties.footerKeyMetadata⟩

theorem FileEncryption.decryption_decrypts {e : FileEncryption} {r : DecryptionProperties}
    (opens : r.OpensFooter e.properties) : (e.decryption r).Decrypts e :=
  ⟨rfl, rfl, rfl, opens.footerKey, opens.metadata⟩

namespace Opening

variable {e : FileEncryption} {r : DecryptionProperties} {expected : Option Key}

open FileDecryption (Sessions)

/-- The prefix that the reader arrives at is the one that the writer used. -/
theorem reconcilePrefix_yields (known : r.KnowsPrefix e.properties) :
    Yields (ReadState.Keeps expected) (reconcilePrefix e.description.parameters r)
      (· = .ok (e.properties.aadPrefix.getD [])) := by
  rw [DecryptionProperties.KnowsPrefix] at known
  rw [reconcilePrefix, FileEncryption.description, EncryptionProperties.description]
  dsimp only
  cases hstores : e.properties.storesAadPrefix with
  | true =>
      rw [hstores, if_pos rfl] at known
      obtain ⟨supplied, verified⟩ := known
      have present : e.properties.aadPrefix.isSome := by
        rw [EncryptionProperties.storesAadPrefix, Bool.and_eq_true] at hstores
        exact hstores.2
      obtain ⟨stored, hstored⟩ := Option.isSome_iff_exists.mp present
      have agreed : r.aadPrefix.any (· ≠ stored) = false := by
        cases hsupplied : r.aadPrefix with
        | none => rfl
        | some bs =>
            have same := supplied bs hsupplied
            rw [hstored] at same
            cases same
            exact decide_eq_false (not_not_intro rfl)
      rw [if_pos rfl, hstored]
      dsimp only
      rw [agreed, if_neg Bool.false_ne_true]
      cases hverifier : r.aadPrefixVerifier with
      | none => exact .pure rfl
      | some verifier =>
          have accepted : Yields (ReadState.Keeps expected) (Session.verify verifier stored)
              (· = verifier stored) := Session.verify_yields verifier stored
          rw [verified verifier hverifier stored hstored] at accepted
          exact .seq_ok accepted (.pure rfl)
  | false =>
      rw [hstores, if_neg Bool.false_ne_true] at known
      rw [if_neg Bool.false_ne_true, known]
      cases e.properties.aadPrefix with
      | none => exact .pure rfl
      | some supplied => exact .pure rfl

theorem fileDecryption_yields (known : r.KnowsPrefix e.properties) :
    Yields (ReadState.Keeps expected)
      (fileDecryption e.description e.properties.footerKeyMetadata r) (· = .ok (e.decryption r)) :=
  .seq_ok (reconcilePrefix_yields known) (.pure rfl)

/-! ### The three forms of the section -/

variable {schema : Schema} {properties : WriterProperties} {encryption : Option FileEncryption}
variable {groups : List (List ColumnValues)} {m : FileMetaData} {bytes : Bytes}

theorem fits_of_short {α : Type} [Wire α] [LawfulWire α] {a : α}
    (h : (Wire.encode a).length < UInt32.size) : LawfulWire.Fits a :=
  LawfulWire.fits_of_length a (Nat.lt_trans h (by decide))

/-- Metadata without a description of the encryption has nothing behind it. -/
theorem plaintextSection_of_plain {P : ReadState → Prop} (decryption : Option DecryptionProperties)
    (plain : m.encryptionAlgorithm = none) (short : (Wire.encode m).length < UInt32.size) :
    Yields P (plaintextSection decryption (Wire.encode m)) (· = fileInfo m none) := by
  have decoded := decodePart_encode (fits_of_short short) []
  rw [List.append_nil] at decoded
  rw [plaintextSection]
  refine .seq_ok (.lift decoded) ?_
  dsimp only
  rw [plain, if_neg (not_not_intro rfl)]
  exact .lift rfl

/-- All algorithms seal metadata in the same way. -/
theorem engine_metadata (key : Key) (algorithm : Algorithm) :
    key.engine algorithm .metadata = ⟨.gcm, key.bytes.length⟩ := by
  cases algorithm <;> rfl

/-- The module whose nonce and tag a signature is. -/
theorem module_of_signature {footer nonce sealedFooter : Bytes}
    (length : nonce.length = nonceLength)
    (sealing : (e.footerRequest footer).sealer.engine.encryptWithNonce footer
      e.properties.footerKey.bytes (e.footerRequest footer).aad nonce = .ok sealedFooter) :
    (e.properties.footerKey.engine .gcm .metadata).encryptForSignature footer
        e.properties.footerKey.bytes (e.footerRequest footer).aad nonce = .ok sealedFooter ∧
      sealedFooter.length = lengthWidth + footer.length + signatureSize := by
  have mode : (e.footerRequest footer).sealer.engine =
      ⟨.gcm, e.properties.footerKey.bytes.length⟩ :=
    engine_metadata _ _
  have long := Engine.length_of_encryptWithNonce length sealing
  rw [mode] at sealing long
  have delta : (Engine.mk .gcm e.properties.footerKey.bytes.length).sizeDelta = signatureSize := rfl
  rw [engine_metadata]
  refine ⟨?_, ?_⟩
  · rw [Engine.encryptForSignature]
    dsimp only
    rw [if_neg (not_not_intro rfl), if_neg (not_not_intro length)]
    exact sealing
  · rw [long, delta, Nat.add_assoc]

/-- The signature of a footer is verified with the footer key. -/
theorem verifySignature_yields (opens : r.OpensFooter e.properties) {footer signature : Bytes}
    (signed : FooterSignature e footer signature) :
    Yields (Sessions (some e)) (verifySignature (e.decryption r) footer signature)
      (· = .ok ⟨⟩) := by
  obtain ⟨nonce, sealedFooter, length, sealing, rfl⟩ := signed
  obtain ⟨sealedAgain, size⟩ := module_of_signature length sealing
  have long : tagLength ≤ sealedFooter.length := by
    rw [size, signatureSize]
    omega
  have parts :
      Bytes.cut (nonce ++ sealedFooter.drop (sealedFooter.length - tagLength)) nonceLength =
        .ok (nonce, sealedFooter.drop (sealedFooter.length - tagLength)) := by
    rw [← length]
    exact Bytes.cut_append _ _
  have tag : Bytes.sliceFrom sealedFooter (sealedFooter.length - tagLength) =
      .ok (sealedFooter.drop (sealedFooter.length - tagLength)) :=
    Bytes.sliceFrom_of_le (Nat.sub_le _ _)
  rw [verifySignature]
  refine .seq_ok (FileEncryption.decryption_decrypts opens).footerKey_yields ?_
  refine .seq_ok (.lift rfl) ?_
  refine .seq_ok (.lift parts) (.seq_ok (.lift sealedAgain) ?_)
  dsimp only
  rw [if_neg (not_not_intro size)]
  refine .seq_ok (.lift (subSizes_of_le long)) (.seq_ok (.lift tag) ?_)
  rw [if_neg (not_not_intro rfl)]
  exact .pure rfl

theorem length_of_footerSignature {footer signature : Bytes}
    (signed : FooterSignature e footer signature) : signature.length = signatureSize := by
  obtain ⟨nonce, sealedFooter, length, sealing, rfl⟩ := signed
  obtain ⟨_, size⟩ := module_of_signature length sealing
  have long : tagLength ≤ sealedFooter.length := by
    rw [size, signatureSize]
    omega
  rw [List.length_append, List.length_drop, length, Nat.sub_sub_self long, signatureSize]

/-- Signed metadata is taken over once the signature was verified, or without that. -/
theorem plaintextSection_of_signed (opens : r.OpensFooter e.properties) {signature : Bytes}
    (described : m.encryptionAlgorithm = some e.description)
    (signingKey : m.footerSigningKeyMetadata = e.properties.footerKeyMetadata)
    (signed : FooterSignature e (Wire.encode m) signature)
    (short : (Wire.encode m).length < UInt32.size) :
    Yields (Sessions (some e)) (plaintextSection (some r) (Wire.encode m ++ signature))
      (· = fileInfo m (some (e.decryption r))) := by
  have decoded := decodePart_encode (fits_of_short short) signature
  rw [plaintextSection]
  refine .seq_ok (.lift decoded) ?_
  dsimp only
  rw [described, signingKey]
  refine .seq_ok (fileDecryption_yields opens.aadPrefix) ?_
  split
  · refine .seq_ok (.lift (Bytes.sliceFrom_append _ _)) ?_
    rw [if_neg (not_not_intro (length_of_footerSignature signed))]
    have front : Bytes.slice (Wire.encode m ++ signature) 0 (Wire.encode m).length =
        .ok (Wire.encode m) := by
      have cut := Bytes.slice_append [] (Wire.encode m) signature
      rwa [List.length_nil, Nat.zero_add] at cut
    exact .seq_ok (.lift front) (.seq_ok (verifySignature_yields opens signed) (.lift rfl))
  · exact .lift rfl

/-- Sealed metadata is opened with the footer key. -/
theorem encryptedSection_of_sealed (opens : r.OpensFooter e.properties) {sealedFooter : Bytes}
    (seals : (e.footerRequest (Wire.encode m)).Seals sealedFooter)
    (short : (Wire.encode e.cryptoMetaData).length < UInt32.size) :
    Yields (Sessions (some e))
      (encryptedSection (some r) (Wire.encode e.cryptoMetaData ++ sealedFooter))
      (· = fileInfo m (some (e.decryption r))) := by
  have described := decodePart_encode (fits_of_short short) sealedFooter
  have opened := seals.readSealed []
  rw [List.append_nil] at opened
  have decoded := decodeFront_whole (fits_of_short (a := m) seals.plaintext_lt)
  rw [encryptedSection]
  refine .seq_ok (.lift described) (.seq_ok (fileDecryption_yields opens.aadPrefix) ?_)
  refine .seq_ok (FileEncryption.decryption_decrypts opens).footerOpener_yields ?_
  refine .seq_ok (.lift rfl) ?_
  refine .seq_ok (.lift (Bytes.sliceFrom_append _ _)) ?_
  have entered : Yields (Sessions (some e))
      (ExceptT.adapt sealedFooterError (liftM (readSealed
        ((e.properties.footerKey.opener (e.decryption r).algorithm .metadata).decrypt
          ((e.decryption r).fileAad ++ [ModuleKind.footer.code])) sealedFooter) : Session _) :
            Session _)
      (· = .ok (Wire.encode m, [])) := by
    refine Yields.adapt (R := (· = .ok (Wire.encode m, []))) (.lift opened) ?_
    rintro _ rfl
    rfl
  exact .seq_ok entered (.seq_ok (.lift decoded) (.lift rfl))

/-! ### Finished files -/

/-- The reader can open the footer of a file under some encryption or none. -/
def Equipped (decryption : Option DecryptionProperties)
    (encryption : Option FileEncryption) : Prop :=
  ∀ e ∈ encryption, ∃ r, decryption = some r ∧ r.OpensFooter e.properties

/-- What the reader decrypts a file with. -/
def decryptionFor (decryption : Option DecryptionProperties) (encryption : Option FileEncryption) :
    Option FileDecryption := do
  let e ← encryption
  let r ← decryption
  return e.decryption r

variable {file : Bytes} {readerProperties : ReaderProperties}

/-- A signed footer names the footer key. -/
theorem footerSigningKeyMetadata_of_signed {p : EncryptionProperties}
    (inPlainForm : p.encryptedFooter = false) :
    p.footerSigningKeyMetadata = p.footerKeyMetadata := by
  rw [EncryptionProperties.footerSigningKeyMetadata, inPlainForm, if_neg Bool.false_ne_true]

/-- Reading the footer of a finished file comes down to taking over the metadata. -/
theorem readFooter_of_stored (stored : StoredFile schema properties encryption groups m file)
    (equipped : Equipped readerProperties.decryption encryption) :
    Yields (Sessions encryption) (readFooter readerProperties ⟨.memory, file⟩)
      (· = fileInfo m (decryptionFor readerProperties.decryption encryption)) := by
  obtain ⟨front, bytes, rfl, short, form⟩ := stored.layout
  have described := stored.encryptionAlgorithm
  have signingKey := stored.signingKey
  refine readFooter_yields (fun _ _ _ => Session.read_yields _ _ _) short ?_
  rw [signing] at described signingKey
  rw [FileWriter.footerMode]
  cases form with
  | plain => exact plaintextSection_of_plain _ described short
  | @signed e signature inPlainForm signed =>
      obtain ⟨r, present, opens⟩ := equipped e rfl
      rw [Option.filter_some, inPlainForm] at described signingKey
      have shown := footerSigningKeyMetadata_of_signed inPlainForm
      rw [List.length_append] at short
      rw [present, Option.any_some, inPlainForm]
      exact plaintextSection_of_signed opens described (signingKey.trans shown) signed (by omega)
  | @inSealedForm e sealedFooter encrypted seals =>
      obtain ⟨r, present, opens⟩ := equipped e rfl
      rw [List.length_append] at short
      rw [present, Option.any_some, encrypted]
      exact encryptedSection_of_sealed opens seals (by omega)

/-- What the reader knows of a file is what its metadata says. -/
structure Describes (schema : Schema) (m : FileMetaData) (decryption : Option FileDecryption)
    (info : FileInfo) : Prop where
  schema : info.schema = schema
  createdBy : info.createdBy = m.createdBy
  numRows : info.numRows = m.numRows
  columns : info.rowGroups.toList.map RowGroupInfo.columns = m.rowGroups.map RowGroup.columns
  decryption : info.decryption = decryption

/-- An entry in the metadata is found at its place in the open file. -/
theorem Describes.locates {decryption : Option FileDecryption} {info : FileInfo} {i j : Nat}
    {column : Column} {g : RowGroup} {c : ColumnChunk}
    (describes : Describes schema m decryption info) (hcolumn : schema.columns[j]? = some column)
    (hg : m.rowGroups[i]? = some g) (hc : g.columns[j]? = some c) : info.Locates i j column c := by
  have known : (info.rowGroups.toList.map RowGroupInfo.columns)[i]? = some g.columns := by
    rw [describes.columns, List.getElem?_map, hg]
    rfl
  rw [List.getElem?_map, Option.map_eq_some_iff] at known
  obtain ⟨rowGroup, hrowGroup, same⟩ := known
  rw [Array.getElem?_toList] at hrowGroup
  refine ⟨?_, rowGroup, hrowGroup, by rwa [same]⟩
  rw [describes.schema]
  exact hcolumn

/-- The row groups of a finished file are numbered by their positions and have all columns. -/
theorem positions_of_stored (stored : StoredFile schema properties encryption groups m file)
    {k : Nat}
    {g : RowGroup} (hg : m.rowGroups[k]? = some g) :
    g.columns.length = schema.numColumns ∧ g.ordinal = int16? (0 + k) := by
  obtain ⟨inside, _⟩ := List.getElem?_eq_some_iff.mp hg
  have present := List.getElem?_eq_getElem (stored.size ▸ inside)
  obtain ⟨width, g', hg', group⟩ := stored.stored k _ present
  cases Option.some.inj (hg.symm.trans hg')
  refine ⟨?_, by rw [Nat.zero_add]; exact group.ordinal⟩
  rw [group.length, List.length_zip, width, Schema.numColumns, Nat.min_self]

theorem fileInfo_of_stored (wellFormed : Schema.ofColumns schema.name schema.columns = .ok schema)
    (stored : StoredFile schema properties encryption groups m file)
    (few : groups.length ≤ maxOrdinal + 1) (decryption : Option FileDecryption) :
    ∃ info, fileInfo m decryption = .ok info ∧ Describes schema m decryption info := by
  obtain ⟨infos, taken, columns⟩ := rowGroupInfos_of_positions #[]
    (fun k g hg => positions_of_stored stored hg) (by rw [stored.size]; omega)
  rw [fileInfo]
  rw [stored.schemaName, stored.elements, Schema.ofElements_toElements wellFormed, Except.ok_bind,
    taken]
  exact ⟨_, rfl, rfl, rfl, rfl, columns, rfl⟩

/-- The metadata of a file with too many row groups is refused. -/
theorem fileInfo_of_too_many (wellFormed : Schema.ofColumns schema.name schema.columns = .ok schema)
    (stored : StoredFile schema properties encryption groups m file)
    (many : maxOrdinal + 1 < groups.length) (decryption : Option FileDecryption) :
    fileInfo m decryption = .error (.rowGroupOrdinal (maxOrdinal + 1)) := by
  have refused := rowGroupInfos_of_too_many #[]
    (fun k g hg => positions_of_stored stored hg) (Nat.zero_le _) (by rw [stored.size]; omega)
  rw [fileInfo]
  rw [stored.schemaName, stored.elements, Schema.ofElements_toElements wellFormed, Except.ok_bind,
    refused]
  rfl

end Opening

namespace FooterReader

/-- The first attempt of a reader is to read the footer. -/
theorem tryParse_unopened {reader : FooterReader} (unopened : reader.state = .unopened)
    (source : ByteSource) (s : ReadState) :
    tryParse reader source s =
      (match (Opening.readFooter reader.properties source s).1 with
        | .ok info => (.ok (), { reader with state := .metadataParsed, info := some info })
        | .error e => (.error e, { reader with state := .failed }),
      (Opening.readFooter reader.properties source s).2) := by
  unfold tryParse
  rw [if_neg (not_not_intro unopened), Opening.readFooter, Operation.run_bind]
  cases hwindow : Opening.readWindow reader.properties source s with
  | mk found t =>
      have windowed : (Opening.readWindow reader.properties source).run s = (found, t) := hwindow
      simp only [bind, StateT.bind, windowed]
      cases found with
      | error e => rfl
      | ok window =>
          cases hfooter : Opening.readDetected reader.properties source window t with
          | mk result u =>
              have parsed : (Opening.readDetected reader.properties source window).run t =
                  (result, u) := hfooter
              simp only [StateT.bind, parsed, hfooter]
              cases result <;> rfl

/-- A reader that was used refuses, and nothing else happens. -/
theorem tryParse_used {reader : FooterReader} (used : reader.state ≠ .unopened)
    (source : ByteSource) (s : ReadState) :
    reader.tryParse source s = ((.error (.metadataReaderUsed reader.state), reader), s) := by
  rw [tryParse, if_pos used]
  rfl

end FooterReader

namespace OpenFile

/-- Opening a file is reading its footer, once. -/
theorem openSource_run (properties : ReaderProperties) (source : ByteSource) (s : ReadState) :
    openSource properties source s =
      ((Opening.readFooter properties source s).1.map (OpenFile.mk source),
        (Opening.readFooter properties source s).2) := by
  let reader : FooterReader := ⟨properties, .unopened, none⟩
  have attempt := FooterReader.tryParse_unopened (rfl : reader.state = .unopened) source s
  have lifted : (liftM (FooterReader.tryParse ⟨properties, .unopened, none⟩ source) : Session _) s =
      (.ok (FooterReader.tryParse ⟨properties, .unopened, none⟩ source s).1,
        (FooterReader.tryParse ⟨properties, .unopened, none⟩ source s).2) := rfl
  rw [openSource, Operation.run_bind, lifted, attempt]
  generalize Opening.readFooter properties source s = outcome
  rcases outcome with ⟨e | info, t⟩
  · rfl
  · rfl

theorem openSource_yields {P : ReadState → Prop} {properties : ReaderProperties}
    {source : ByteSource}
    {x : Except Error FileInfo} (h : Yields P (Opening.readFooter properties source) (· = x)) :
    Yields P (openSource properties source) (· = x.map (OpenFile.mk source)) := by
  intro s hs
  obtain ⟨result, kept⟩ := h s hs
  rw [openSource_run]
  exact ⟨congrArg (Except.map (OpenFile.mk source)) result, kept⟩

/-- A file whose footer is in plain form and describes no encryption is opened with what the footer
says, whatever stands in front of it. -/
theorem openSource_of_plain (properties : ReaderProperties) {m : FileMetaData} {info : FileInfo}
    (front : Bytes) (plain : m.encryptionAlgorithm = none)
    (short : (Wire.encode m).length < UInt32.size)
    (understood : Opening.fileInfo m none = .ok info) (s : ReadState) :
    (openSource properties ⟨.memory, front ++ (Wire.encode m ++
        Trailer.encode ⟨(Wire.encode m).length, .plaintext⟩)⟩ s).1 =
      .ok ⟨⟨.memory, front ++ (Wire.encode m ++
        Trailer.encode ⟨(Wire.encode m).length, .plaintext⟩)⟩, info⟩ := by
  have reads (source : ByteSource) (start length : Nat) :
      Yields (fun _ => True) (Session.read source start length) (· = source.get start length) :=
    .seq_ok (.modify fun _ _ => trivial) (.lift rfl)
  have taken : Yields (fun _ => True)
      (Opening.plaintextSection properties.decryption (Wire.encode m)) (· = .ok info) := by
    rw [← understood]
    exact Opening.plaintextSection_of_plain _ plain short
  have footer : Yields (fun _ => True) (Opening.readFooter properties
      ⟨.memory, front ++ (Wire.encode m ++
        Trailer.encode ⟨(Wire.encode m).length, .plaintext⟩)⟩) (· = .ok info) :=
    Opening.readFooter_yields reads short taken
  exact (openSource_yields footer s trivial).1

end OpenFile

end SealedColumns
