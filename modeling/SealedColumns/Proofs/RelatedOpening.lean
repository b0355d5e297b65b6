import SealedColumns.Proofs.AcceptedFooters

/-!
# Opening a file with two retrievers

The footer of a file is read in two sessions, by readers that differ in nothing but the retriever
of keys. A retriever is asked for the footer key only, to open a sealed footer or to verify a
signature. If the sessions agree on the footer key, both readers come to know the same file, or
fail with the same error.
-/

namespace SealedColumns

/-- The same settings with another retriever, or none. -/
def ReaderProperties.withRetriever (r : ReaderProperties) (retriever : Option KeyRetriever) :
    ReaderProperties :=
  { r with decryption := r.decryption.map (·.withRetriever retriever) }

open ReadState (Companions)

variable {P : ReadState → ReadState → Prop} {retriever : Option KeyRetriever}

/-- The footer key is the same with the other retriever, whatever the file says about it. -/
def DecryptionProperties.FooterKeyBeside (P : ReadState → ReadState → Prop)
    (retriever : Option KeyRetriever) (p : DecryptionProperties) : Prop :=
  ∀ d : FileDecryption, d.properties = p →
    SideBySide P Eq d.footerKey (d.withRetriever retriever).footerKey

namespace Opening

variable {p : DecryptionProperties} {d d' : FileDecryption} {f f' : FileInfo}

/-- Two decryptions by the given properties and another retriever. -/
structure SameDecryption (p : DecryptionProperties) (retriever : Option KeyRetriever)
    (d d' : FileDecryption) : Prop where
  properties : d.properties = p
  other : d' = d.withRetriever retriever

/-- Two files, the second known by the same properties as the first and another retriever. -/
structure SameFile (p : Option DecryptionProperties) (retriever : Option KeyRetriever)
    (f f' : FileInfo) : Prop where
  properties : ∀ d ∈ f.decryption, p = some d.properties
  other : f' = f.withRetriever retriever

theorem reconcilePrefix_beside (companions : Companions P) (stored : AadParameters) :
    SideBySide P Eq (reconcilePrefix stored p)
      (reconcilePrefix stored (p.withRetriever retriever)) := by
  rw [reconcilePrefix, reconcilePrefix, DecryptionProperties.withRetriever]
  cases stored.aadPrefix with
  | some aadPrefix =>
      refine .guard ?_
      dsimp only
      cases p.aadPrefixVerifier with
      | none => exact .pure rfl
      | some verifier =>
          have verified : SideBySide P Eq (Session.verify verifier aadPrefix)
              (Session.verify verifier aadPrefix) :=
            (companions.verification aadPrefix).seq_eq fun _ => .lift _
          exact verified.seq_eq fun _ => .pure rfl
  | none =>
      cases p.aadPrefix with
      | some supplied => exact .pure rfl
      | none => exact .guard (.pure rfl)

theorem fileDecryption_beside (companions : Companions P) (description : EncryptionAlgorithm)
    (keyMetadata : Option Bytes) :
    SideBySide P (SameDecryption p retriever) (fileDecryption description keyMetadata p)
      (fileDecryption description keyMetadata (p.withRetriever retriever)) := by
  rw [fileDecryption, fileDecryption]
  cases description.parameters.fileUnique with
  | none => exact .throw _
  | some fileUnique =>
      exact (reconcilePrefix_beside companions _).seq_eq fun aadPrefix => .pure ⟨rfl, rfl⟩

theorem verifySignature_beside (key : p.FooterKeyBeside P retriever) (hd : d.properties = p)
    (footer signature : Bytes) :
    SideBySide P Eq (verifySignature d footer signature)
      (verifySignature (d.withRetriever retriever) footer signature) := by
  refine (key d hd).seq_eq fun key => ?_
  refine (SideBySide.lift _).seq_eq fun aad => (SideBySide.lift _).seq_eq fun parts => ?_
  refine (SideBySide.lift _).seq_eq fun sealedFooter => .guard ?_
  refine (SideBySide.lift _).seq_eq fun start => (SideBySide.lift _).seq_eq fun expected => ?_
  split
  · exact .throw _
  · exact .pure rfl

/-- The metadata of a file does not depend on its decryption. -/
theorem fileInfo_withRetriever (m : FileMetaData) (d : Option FileDecryption) :
    fileInfo m (d.map (·.withRetriever retriever)) =
      (fileInfo m d).map (·.withRetriever retriever) := by
  rw [fileInfo, fileInfo]
  cases Schema.ofElements m.schemaName m.schema with
  | error e => rfl
  | ok schema =>
      simp only [Except.ok_bind]
      cases rowGroupInfos schema.numColumns 0 #[] m.rowGroups with
      | error e => rfl
      | ok infos => rfl

theorem fileInfo_beside {properties : Option DecryptionProperties} (m : FileMetaData)
    {d : Option FileDecryption} (known : ∀ d' ∈ d, properties = some d'.properties) :
    SideBySide P (SameFile properties retriever) (liftM (fileInfo m d) : Session FileInfo)
      (liftM (fileInfo m (d.map (·.withRetriever retriever))) : Session FileInfo) := by
  rw [fileInfo_withRetriever]
  intro s t related
  refine ⟨?_, related⟩
  change EndsAlike _ (fileInfo m d) ((fileInfo m d).map _)
  cases made : fileInfo m d with
  | error e => exact .error e
  | ok f =>
      refine .ok ⟨?_, rfl⟩
      rw [(fileInfo_eq_ok made).decryption]
      exact known

theorem plaintextSection_beside (companions : Companions P)
    {properties : Option DecryptionProperties}
    (keys : ∀ p ∈ properties, p.FooterKeyBeside P retriever) (bs : Bytes) :
    SideBySide P (SameFile properties retriever) (plaintextSection properties bs)
      (plaintextSection (properties.map (·.withRetriever retriever)) bs) := by
  have undecrypted (m : FileMetaData) : SideBySide P (SameFile properties retriever)
      (liftM (fileInfo m none) : Session FileInfo)
      (liftM (fileInfo m none) : Session FileInfo) := by
    refine fileInfo_beside m ?_
    rintro _ ⟨⟩
  refine (SideBySide.lift _).seq_eq fun decoded => ?_
  rcases decoded with ⟨m, consumed⟩
  dsimp only
  cases m.encryptionAlgorithm with
  | none =>
      dsimp only
      split
      · exact (SideBySide.lift _).seq_eq fun _ => .throw _
      · exact undecrypted m
  | some description =>
      cases properties with
      | none => exact undecrypted m
      | some p =>
          refine (fileDecryption_beside companions _ _).seq ?_
          rintro d _ ⟨hd, rfl⟩
          have decrypted : SideBySide P (SameFile (some p) retriever)
              (liftM (fileInfo m (some d)) : Session FileInfo)
              (liftM (fileInfo m (some (d.withRetriever retriever))) : Session FileInfo) := by
            refine fileInfo_beside m ?_
            rintro _ ⟨⟩
            rw [hd]
          change SideBySide P _ (if p.checkFooterSignature = true then _ else _)
            (if p.checkFooterSignature = true then _ else _)
          split
          · refine (SideBySide.lift _).seq_eq fun signature => .guard ?_
            refine (SideBySide.lift _).seq_eq fun footer => ?_
            exact (verifySignature_beside (keys p rfl) hd _ _).seq_eq fun _ => decrypted
          · exact decrypted

theorem encryptedSection_beside (companions : Companions P)
    {properties : Option DecryptionProperties}
    (keys : ∀ p ∈ properties, p.FooterKeyBeside P retriever) (bs : Bytes) :
    SideBySide P (SameFile properties retriever) (encryptedSection properties bs)
      (encryptedSection (properties.map (·.withRetriever retriever)) bs) := by
  unfold encryptedSection
  cases properties with
  | none => exact .throw _
  | some p =>
      refine (SideBySide.lift _).seq_eq fun decoded => ?_
      rcases decoded with ⟨crypto, consumed⟩
      refine (fileDecryption_beside companions _ _).seq ?_
      rintro d _ ⟨hd, rfl⟩
      refine (FileDecryption.footerOpener_beside companions (keys p rfl d hd)).seq_eq
        fun opener => ?_
      refine (SideBySide.lift _).seq_eq fun aad => (SideBySide.lift _).seq_eq fun input => ?_
      refine ((SideBySide.lift _).adapt _).seq_eq fun opened => ?_
      rcases opened with ⟨plain, rest⟩
      refine .guard ((SideBySide.lift _).seq_eq fun decoded => ?_)
      rcases decoded with ⟨m, more⟩
      refine fileInfo_beside m ?_
      rintro _ ⟨⟩
      rw [hd]

theorem readWindow_beside (companions : Companions P) (properties : ReaderProperties)
    (source : ByteSource) :
    SideBySide P Eq (readWindow properties source)
      (readWindow (properties.withRetriever retriever) source) := by
  refine .guard ((SideBySide.lift _).seq_eq fun start => ?_)
  refine (Session.read_beside companions _ _ _).seq_eq fun window => ?_
  refine (SideBySide.lift _).seq_eq fun stop => (SideBySide.lift _).seq_eq fun last => ?_
  exact (SideBySide.lift _).seq_eq fun trailer => .pure rfl

theorem readSection_beside (companions : Companions P) (source : ByteSource) (window : Window) :
    SideBySide P Eq (readSection source window) (readSection source window) := by
  refine (SideBySide.lift _).seq_eq fun footerSize => .guard ?_
  dsimp only
  split
  · exact (SideBySide.lift _).seq_eq fun start => Session.read_beside companions _ _ _
  · exact (SideBySide.lift _).seq_eq fun start => (SideBySide.lift _).seq_eq fun stop => .lift _

/-- Readers with two retrievers come to know the same file. -/
theorem readFooter_beside (companions : Companions P) {properties : ReaderProperties}
    (keys : ∀ p ∈ properties.decryption, p.FooterKeyBeside P retriever) (source : ByteSource) :
    SideBySide P (SameFile properties.decryption retriever) (readFooter properties source)
      (readFooter (properties.withRetriever retriever) source) := by
  refine (readWindow_beside companions properties source).seq_eq fun window => ?_
  refine (readSection_beside companions source window).seq_eq fun bs => ?_
  cases window.trailer.mode with
  | plaintext => exact plaintextSection_beside companions keys bs
  | encrypted => exact encryptedSection_beside companions keys bs

end Opening

/-- Two open files, the second opened by the same settings as the first and another retriever. -/
structure OpenFile.Same (properties : ReaderProperties) (retriever : Option KeyRetriever)
    (f f' : OpenFile) : Prop where
  properties : ∀ d ∈ f.info.decryption, properties.decryption = some d.properties
  other : f' = f.withRetriever retriever

/-- Readers with two retrievers open a source side by side. -/
theorem OpenFile.openSource_beside (companions : Companions P) {properties : ReaderProperties}
    (keys : ∀ p ∈ properties.decryption, p.FooterKeyBeside P retriever) (source : ByteSource) :
    SideBySide P (OpenFile.Same properties retriever) (openSource properties source)
      (openSource (properties.withRetriever retriever) source) := by
  intro s t related
  obtain ⟨alike, related⟩ := Opening.readFooter_beside companions keys source s t related
  rw [openSource_run, openSource_run]
  refine ⟨?_, related⟩
  generalize Opening.readFooter properties source s = left at alike ⊢
  generalize Opening.readFooter (properties.withRetriever retriever) source t = right at alike ⊢
  rcases left with ⟨result, _⟩
  rcases right with ⟨result', _⟩
  cases alike with
  | error e => exact .error e
  | @ok f f' same =>
      refine .ok ⟨same.properties, ?_⟩
      rw [same.other]
      rfl

end SealedColumns
