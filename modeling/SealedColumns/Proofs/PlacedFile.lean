import SealedColumns.Proofs.PlacedChunks
import SealedColumns.Proofs.StoredFile

/-!
# A finished file from end to end

A finished file is the magic word, its row groups, their offset indexes, the metadata section and
the trailer, in this order and with nothing between them. The entries of the chunks in the footer
tell where their offset indexes are.
-/

namespace SealedColumns

theorem FooterMode.length_magic (mode : FooterMode) : mode.magic.length = 4 := by
  cases mode <;> rfl

/-- The stored form of an offset index stands at a position that the entry of its chunk tells. -/
structure IndexAt (_ordinal start : Nat) (index : Bytes) (c : ColumnChunk) (bytes : Bytes) :
    Prop where
  bytes_eq : bytes = index
  offset : c.offsetIndexOffset.map Int64.toInt = some (start : Int)
  length : c.offsetIndexLength.map Int32.toInt = some (bytes.length : Int)

/-- The offset indexes of a row group stand one after the other, in the order of its chunks. -/
def IndexesAt (_index start : Nat) (indexes : List Bytes) (g : RowGroup) (bytes : Bytes) : Prop :=
  Laid IndexAt 0 start indexes g.columns bytes

/-- Row groups and their offset indexes in a file, in front of its metadata section. What was kept
of each row group when it was written is in `stored`; the entries in the footer differ from it in
nothing but the places of the offset indexes. -/
structure PlacedGroups (schema : Schema) (properties : WriterProperties)
    (encryption : Option FileEncryption) (groups : List (List ColumnValues))
    (stored : List (RowGroup × List Bytes)) (entries : List RowGroup) (chunks indexes : Bytes) :
    Prop where
  rowGroups : Laid (RowGroupAt schema properties encryption) 0 4 groups stored chunks
  described : List.Forall₂ SameRowGroup (stored.map Prod.fst) entries
  offsetIndexes : Laid IndexesAt 0 (4 + chunks.length) (stored.map Prod.snd) entries indexes

/-- The form of a finished file, with the position of everything in it. -/
structure PlacedFile (schema : Schema) (properties : WriterProperties)
    (encryption : Option FileEncryption) (groups : List (List ColumnValues)) (m : FileMetaData)
    (file : Bytes) : Prop where
  layout : ∃ stored chunks indexes metadataSection,
    file = (FileWriter.footerMode encryption).magic ++ (chunks ++ (indexes ++ (metadataSection ++
      Trailer.encode ⟨metadataSection.length, FileWriter.footerMode encryption⟩))) ∧
    PlacedGroups schema properties encryption groups stored m.rowGroups chunks indexes ∧
    metadataSection.length < UInt32.size ∧ MetadataSection m encryption metadataSection
  version : m.version = 1
  schemaName : m.schemaName = schema.name
  elements : m.schema = schema.toElements
  numRows : m.numRows = m.rowGroups.foldl (fun sum g => sum + g.numRows) 0
  createdBy : m.createdBy = some properties.createdBy
  encryptionAlgorithm : m.encryptionAlgorithm = (signing encryption).map FileEncryption.description
  signingKey : m.footerSigningKeyMetadata =
    (signing encryption).bind fun e => e.properties.footerSigningKeyMetadata
  ordinals : encryption.isSome → groups.length ≤ maxOrdinal + 1

variable {schema : Schema} {properties : WriterProperties} {encryption : Option FileEncryption}
variable {groups : List (List ColumnValues)}

/-- Every row group is found where it is placed. -/
theorem PlacedGroups.storedRowGroup {stored : List (RowGroup × List Bytes)}
    {entries : List RowGroup} {chunks indexes before after : Bytes}
    (h : PlacedGroups schema properties encryption groups stored entries chunks indexes)
    (place : before.length = 4) {i : Nat} {columns : List ColumnValues}
    (hi : groups[i]? = some columns) :
    columns.length = schema.numColumns ∧ ∃ g, entries[i]? = some g ∧
      StoredRowGroup properties encryption (before ++ (chunks ++ after)) i
        (schema.columns.zip columns) g := by
  obtain ⟨group, first, own, last, hgroup, rfl, placed⟩ := h.rowGroups.exists_of_getElem? hi
  rw [Nat.zero_add] at placed
  have kept : (stored.map Prod.fst)[i]? = some group.1 := by
    rw [List.getElem?_map, hgroup]
    rfl
  obtain ⟨g, hg, same⟩ := getElem?_of_forall₂ h.described kept
  have position : (before ++ first).length = 4 + first.length := by
    rw [List.length_append, place]
  have found := placed.storedRowGroup position (last ++ after)
  refine ⟨placed.width, g, hg, same.storedRowGroup ?_⟩
  simp only [List.append_assoc] at found ⊢
  exact found

/-- The chunk of a column and its offset index, each at its place, with the
entry that tells both. -/
theorem PlacedGroups.exists_chunk {stored : List (RowGroup × List Bytes)} {entries : List RowGroup}
    {chunks indexes : Bytes} {i j : Nat} {columns : List ColumnValues}
    {column : Column × ColumnValues}
    (h : PlacedGroups schema properties encryption groups stored entries chunks indexes)
    (hi : groups[i]? = some columns) (hj : (schema.columns.zip columns)[j]? = some column) :
    ∃ g c chunk, entries[i]? = some g ∧ g.columns[j]? = some c ∧ SameChunk chunk.1 c ∧
      (∃ before own after, chunks = before ++ (own ++ after) ∧
        ChunkAt properties encryption i j (4 + before.length) column chunk own) ∧
      ∃ before own after, indexes = before ++ (own ++ after) ∧
        IndexAt j (4 + chunks.length + before.length) chunk.2 c own := by
  obtain ⟨group, front, ofGroup, back, hgroup, rfl, placed⟩ := h.rowGroups.exists_of_getElem? hi
  obtain ⟨written, entriesOf, indexesOf, laid⟩ := placed.chunks
  obtain ⟨chunk, before, own, after, hchunk, rfl, chunkAt⟩ := laid.exists_of_getElem? hj
  rw [Nat.zero_add, Nat.zero_add, Nat.add_assoc, ← List.length_append] at chunkAt
  have keptGroup : (stored.map Prod.fst)[i]? = some group.1 := by
    rw [List.getElem?_map, hgroup]
    rfl
  have keptIndexes : (stored.map Prod.snd)[i]? = some group.2 := by
    rw [List.getElem?_map, hgroup]
    rfl
  have made : group.1.columns[j]? = some chunk.1 := by
    rw [entriesOf, List.getElem?_map, hchunk]
    rfl
  have madeIndex : group.2[j]? = some chunk.2 := by
    rw [indexesOf, List.getElem?_map, hchunk]
    rfl
  obtain ⟨g, hg, sameGroup⟩ := getElem?_of_forall₂ h.described keptGroup
  obtain ⟨c, hc, same⟩ := getElem?_of_forall₂ sameGroup.2 made
  obtain ⟨g', front', ofIndexes, back', hg', rfl, indexesAt⟩ :=
    h.offsetIndexes.exists_of_getElem? keptIndexes
  cases Option.some.inj (hg'.symm.trans hg)
  obtain ⟨c', before', own', after', hc', rfl, indexAt⟩ :=
    Laid.exists_of_getElem? indexesAt madeIndex
  cases Option.some.inj (hc'.symm.trans hc)
  rw [Nat.zero_add, Nat.add_assoc _ front'.length, ← List.length_append] at indexAt
  refine ⟨g, c, chunk, hg, hc, same, ⟨front ++ before, own, after ++ back, ?_, chunkAt⟩,
    front' ++ before', own', after' ++ back', ?_, indexAt⟩
  · simp only [List.append_assoc]
  · simp only [List.append_assoc]

/-- A file in which everything is placed is one that can be read. -/
theorem PlacedFile.storedFile {m : FileMetaData} {file : Bytes}
    (h : PlacedFile schema properties encryption groups m file) :
    StoredFile schema properties encryption groups m file := by
  obtain ⟨stored, chunks, indexes, metadataSection, rfl, placed, short, form⟩ := h.layout
  refine ⟨⟨(FileWriter.footerMode encryption).magic ++ (chunks ++ indexes), metadataSection, ?_,
    short, form⟩, h.schemaName, h.elements, h.createdBy, h.encryptionAlgorithm, h.signingKey, ?_,
    ?_, h.ordinals⟩
  · simp only [List.append_assoc]
  · rw [← placed.described.length_eq, List.length_map, ← placed.rowGroups.length_eq]
  · intro i columns hi
    exact placed.storedRowGroup (FooterMode.length_magic _) hi

end SealedColumns
