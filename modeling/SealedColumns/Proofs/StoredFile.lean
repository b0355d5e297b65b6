import SealedColumns.Proofs.StoredChunks
import SealedColumns.Writer.FileWriter

/-!
# The form of a finished file

A finished file is its column chunks and offset indexes, the metadata section and the trailer. The
metadata section has one of three forms: the metadata in plain form; the same followed by a
signature, which is the nonce and the tag of sealing it; or the description of the encryption
followed by the sealed metadata.
-/

namespace SealedColumns

namespace Schema

theorem checkColumns_eq_ok_iff {seen : Std.HashSet ColumnPath} {columns : List Column} :
    checkColumns seen columns = .ok () ↔
      (∀ c ∈ columns, c.path.parts ≠ [] ∧ c.path ∉ seen) ∧ (columns.map Column.path).Nodup := by
  induction columns generalizing seen with
  | nil => simp [checkColumns]
  | cons c columns ih =>
      rw [checkColumns, Except.guard_eq_ok, Except.guard_eq_ok, ih]
      simp only [List.isEmpty_iff, Std.HashSet.mem_insert, Std.HashSet.contains_iff_mem,
        List.mem_cons, List.map_cons, List.nodup_cons, List.mem_map, beq_iff_eq]
      constructor
      · rintro ⟨named, fresh, others, distinct⟩
        refine ⟨?_, ?_, distinct⟩
        · rintro d (rfl | hd)
          · exact ⟨named, fresh⟩
          · exact ⟨(others d hd).1, fun old => (others d hd).2 (.inr old)⟩
        · rintro ⟨d, hd, same⟩
          exact (others d hd).2 (.inl same.symm)
      · rintro ⟨all, unlike, distinct⟩
        refine ⟨(all c (.inl rfl)).1, (all c (.inl rfl)).2, fun d hd => ⟨(all d (.inr hd)).1, ?_⟩,
          distinct⟩
        rintro (same | old)
        · exact unlike ⟨d, hd, same.symm⟩
        · exact (all d (.inr hd)).2 old

/-- The columns of a schema have distinct paths, none of them empty, and nothing else is asked. -/
theorem ofColumns_eq_ok_iff {name : String} {columns : List Column} {schema : Schema} :
    ofColumns name columns = .ok schema ↔ schema = ⟨name, columns⟩ ∧
      (∀ c ∈ columns, c.path.parts ≠ []) ∧ (columns.map Column.path).Nodup := by
  rw [ofColumns, Except.bind_eq_ok]
  constructor
  · rintro ⟨_, checked, built⟩
    obtain ⟨all, distinct⟩ := checkColumns_eq_ok_iff.mp checked
    exact ⟨(Except.pure_eq_ok.mp built).symm, fun c hc => (all c hc).1, distinct⟩
  · rintro ⟨rfl, named, distinct⟩
    exact ⟨(), checkColumns_eq_ok_iff.mpr
      ⟨fun c hc => ⟨named c hc, Std.HashSet.not_mem_empty⟩, distinct⟩, rfl⟩

/-- The stored form of a schema gives the schema again. -/
theorem ofElements_toElements {schema : Schema}
    (h : ofColumns schema.name schema.columns = .ok schema) :
    ofElements schema.name schema.toElements = .ok schema := by
  have columns :
      schema.toElements.map (fun e => (⟨⟨e.path⟩, e.type⟩ : Column)) = schema.columns := by
    rw [toElements, List.map_map]
    exact (List.map_congr_left fun _ _ => rfl).trans (List.map_id _)
  rw [ofElements, columns, h]

end Schema

/-- The request that seals or signs a footer. -/
def FileEncryption.footerRequest (e : FileEncryption) (plaintext : Bytes) : SealRequest :=
  ⟨e.properties.footerKey.sealer e.properties.algorithm .metadata,
    e.fileAad ++ [ModuleKind.footer.code], plaintext⟩

/-- A signature of a footer: the nonce and the tag of a sealing of it. -/
def FooterSignature (e : FileEncryption) (footer signature : Bytes) : Prop :=
  ∃ nonce sealedFooter, nonce.length = nonceLength ∧
    (e.footerRequest footer).sealer.engine.encryptWithNonce footer e.properties.footerKey.bytes
      (e.footerRequest footer).aad nonce = .ok sealedFooter ∧
    signature = nonce ++ sealedFooter.drop (sealedFooter.length - tagLength)

/-- The metadata section that holds the metadata of a file, in each of its forms. -/
inductive MetadataSection (m : FileMetaData) : Option FileEncryption → Bytes → Prop where
  | plain : MetadataSection m none (Wire.encode m)
  | signed {e : FileEncryption} {signature : Bytes}
      (inPlainForm : e.properties.encryptedFooter = false)
      (signed : FooterSignature e (Wire.encode m) signature) :
      MetadataSection m (some e) (Wire.encode m ++ signature)
  | inSealedForm {e : FileEncryption} {sealedFooter : Bytes}
      (encrypted : e.properties.encryptedFooter = true)
      (seals : (e.footerRequest (Wire.encode m)).Seals sealedFooter) :
      MetadataSection m (some e) (Wire.encode e.cryptoMetaData ++ sealedFooter)

/-- The encryption under which a footer is signed and not sealed. -/
def signing (encryption : Option FileEncryption) : Option FileEncryption :=
  encryption.filter fun e => !e.properties.encryptedFooter

/-- A finished file with the given row groups and metadata. -/
structure StoredFile (schema : Schema) (properties : WriterProperties)
    (encryption : Option FileEncryption) (groups : List (List ColumnValues)) (m : FileMetaData)
    (file : Bytes) : Prop where
  layout : ∃ front metadataSection,
    file = front ++ (metadataSection ++
      Trailer.encode ⟨metadataSection.length, FileWriter.footerMode encryption⟩) ∧
    metadataSection.length < UInt32.size ∧ MetadataSection m encryption metadataSection
  schemaName : m.schemaName = schema.name
  elements : m.schema = schema.toElements
  createdBy : m.createdBy = some properties.createdBy
  encryptionAlgorithm : m.encryptionAlgorithm = (signing encryption).map FileEncryption.description
  signingKey : m.footerSigningKeyMetadata =
    (signing encryption).bind fun e => e.properties.footerSigningKeyMetadata
  size : m.rowGroups.length = groups.length
  stored : ∀ i columns, groups[i]? = some columns → columns.length = schema.numColumns ∧
    ∃ g, m.rowGroups[i]? = some g ∧
      StoredRowGroup properties encryption file i (schema.columns.zip columns) g
  ordinals : encryption.isSome → groups.length ≤ maxOrdinal + 1

/-! ### Entering the places of offset indexes -/

theorem getElem?_of_forall₂ {α β : Type} {R : α → β → Prop} {as : List α} {bs : List β}
    (h : List.Forall₂ R as bs) {i : Nat} {a : α} (ha : as[i]? = some a) :
    ∃ b, bs[i]? = some b ∧ R a b := by
  induction h generalizing i with
  | nil => cases ha
  | @cons _ b _ _ first _ ih =>
      cases i with
      | zero =>
          cases ha
          exact ⟨b, rfl, first⟩
      | succ i => exact ih ha

/-- Two entries that differ at most in the place of the offset index. -/
def SameChunk (c d : ColumnChunk) : Prop :=
  d = { c with offsetIndexOffset := d.offsetIndexOffset, offsetIndexLength := d.offsetIndexLength }

/-- Two row groups that differ at most in the places of their offset indexes. -/
def SameRowGroup (g h : RowGroup) : Prop :=
  h = { g with columns := h.columns } ∧ List.Forall₂ SameChunk g.columns h.columns

theorem SameChunk.refl_all (chunks : List ColumnChunk) : List.Forall₂ SameChunk chunks chunks :=
  List.forall₂_same.mpr fun _ _ => rfl

theorem SameChunk.enter (c : ColumnChunk) (offset : Option Int64) (length : Option Int32) :
    SameChunk c { c with offsetIndexOffset := offset, offsetIndexLength := length } := rfl

theorem SameRowGroup.refl_all (groups : List RowGroup) : List.Forall₂ SameRowGroup groups groups :=
  List.forall₂_same.mpr fun g _ => ⟨rfl, SameChunk.refl_all g.columns⟩

section

variable {encryption : Option FileEncryption} {file : Bytes} {index ordinal : Nat}

/-- The place of an offset index says nothing about the metadata of a chunk. -/
theorem SameChunk.chunkEntry {path : ColumnPath} {m : ColumnMetaData} {c d : ColumnChunk}
    (same : SameChunk c d) (entry : ChunkEntry encryption index ordinal path m c) :
    ChunkEntry encryption index ordinal path m d := by
  rw [same]
  exact ⟨entry.crypto, entry.shown, entry.plain, entry.sealedForm, entry.ownKey⟩

theorem SameChunk.storedColumn {path : ColumnPath} {values : ColumnValues} {c d : ColumnChunk}
    (same : SameChunk c d) (h : StoredColumn encryption file index ordinal path values c) :
    StoredColumn encryption file index ordinal path values d := by
  obtain ⟨m, entry, chunk⟩ := h
  exact ⟨m, same.chunkEntry entry, chunk⟩

theorem SameRowGroup.storedRowGroup {properties : WriterProperties}
    {columns : List (Column × ColumnValues)} {g h : RowGroup} (same : SameRowGroup g h)
    (stored : StoredRowGroup properties encryption file index columns g) :
    StoredRowGroup properties encryption file index columns h where
  length := same.2.length_eq.symm.trans stored.length
  ordinal := by rw [same.1]; exact stored.ordinal
  chunk j column values hj := by
    obtain ⟨type, c, hc, chunk⟩ := stored.chunk j column values hj
    obtain ⟨d, hd, same⟩ := getElem?_of_forall₂ same.2 hc
    exact ⟨type, d, hd, same.storedColumn chunk⟩

end

end SealedColumns
