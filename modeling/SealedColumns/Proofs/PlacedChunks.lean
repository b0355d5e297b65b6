import SealedColumns.Proofs.Forecast
import SealedColumns.Proofs.Laid

/-!
# Column chunks and what is recorded of their places

A chunk is its dictionary page, if it has one, and its data pages. Its metadata and its offset index
record where each of them starts, how long it is and which rows it holds. A chunk at a position
agrees with what is recorded of it there; a row group is its chunks, one after the other.

A chunk that is placed in a file is one that can be read from it.
-/

namespace SealedColumns

/-- A location records a page with the given position, length and first row. -/
structure PageLocation.Locates (l : PageLocation) (start length firstRow : Nat) : Prop where
  offset : l.offset.toInt = start
  compressedSize : l.compressedSize.toInt = length
  firstRow : l.firstRowIndex.toInt = firstRow

/-- A data page with its location. -/
structure PageAt (sealing : Option ChunkSealing) (page start : Nat) (q : PlannedPage)
    (l : PageLocation) (bytes : Bytes) : Prop where
  kind : q.kind = .data
  stored : ∃ header body, bytes = header ++ body ∧ q.StoredAs sealing page header body
  located : l.Locates start bytes.length q.firstRow

/-- The dictionary page at the front of a chunk, if the chunk has one. -/
def DictionaryAt (sealing : Option ChunkSealing) : Option PlannedPage → Bytes → Prop
  | none, bytes => bytes = []
  | some q, bytes => ∃ header body, bytes = header ++ body ∧ q.StoredAs sealing 0 header body

section

variable {sealing : Option ChunkSealing} {page start : Nat} {data : List PlannedPage}
variable {locations : List PageLocation} {bytes : Bytes}

theorem Laid.storedPages (h : Laid (PageAt sealing) page start data locations bytes) :
    StoredPages sealing page data bytes := by
  induction h with
  | nil => exact .nil _
  | @cons page start q l data locations bytes more first rest ih =>
      obtain ⟨header, body, rfl, stored⟩ := first.stored
      refine .cons stored ?_
      rw [first.kind]
      exact ih

theorem DictionaryAt.storedPages {dictionary : Option PlannedPage} {front : Bytes}
    (kind : ∀ q ∈ dictionary, q.kind = .dictionary) (h : DictionaryAt sealing dictionary front)
    (pages : Laid (PageAt sealing) 0 start data locations bytes) :
    StoredPages sealing 0 (dictionary.toList ++ data) (front ++ bytes) := by
  cases dictionary with
  | none =>
      obtain rfl : front = [] := h
      exact pages.storedPages
  | some q =>
      obtain ⟨header, body, rfl, stored⟩ := h
      refine .cons stored ?_
      rw [kind q rfl]
      exact pages.storedPages

end

/-- The metadata names the column and counts its values. -/
structure ColumnMetaData.Describes (m : ColumnMetaData) (column : Column) (rows : Nat) : Prop where
  type : m.type = column.type
  path : m.pathInSchema = column.path.parts
  numValues : m.numValues.toInt = rows

/-- The metadata tells the size of the pages before their bodies were sealed. It is not larger than
the size that they have now, and zero only where there are no pages. -/
structure ColumnMetaData.Sized (m : ColumnMetaData) (rows : Nat) : Prop where
  nonneg : 0 ≤ m.totalUncompressedSize.toInt
  le_compressed : m.totalUncompressedSize.toInt ≤ m.totalCompressedSize.toInt
  eq_zero_iff : m.totalUncompressedSize.toInt = 0 ↔ rows = 0

/-- The pages of a column stand at a position, and the metadata of the chunk and its
offset index tell where. -/
inductive PlacedChunk (sealing : Option ChunkSealing) (limit : Nat) (useDictionary : Bool)
    (c : ColumnValues) (m : ColumnMetaData) (index : OffsetIndex) (start : Nat) (bytes : Bytes) :
    Prop where
  | intro {dictionary : Option PlannedPage} {entries : Option ColumnValues}
      {data : List PlannedPage} {front pages : Bytes}
      (bytes_eq : bytes = front ++ pages)
      (holds : PagePlan.Holds c.type (PagePlan.storedValues c useDictionary) c.length dictionary
        data)
      (division : PagePlan.Division c limit useDictionary dictionary entries data)
      (dictionary_at : DictionaryAt sealing dictionary front)
      (data_at : Laid (PageAt sealing) 0 (start + front.length) data index.pageLocations pages)
      (size : m.totalCompressedSize.toInt = bytes.length)
      (dataPage : m.dataPageOffset.toInt = (start + front.length : Nat))
      (dictionaryPage : m.dictionaryPageOffset.map Int64.toInt =
        dictionary.map fun _ => (start : Int))

section

variable {sealing : Option ChunkSealing} {limit : Nat} {useDictionary : Bool} {c : ColumnValues}
variable {m : ColumnMetaData} {index : OffsetIndex} {start : Nat} {bytes : Bytes}

/-- A chunk starts with its dictionary page, or else with its data pages. -/
theorem PlacedChunk.starts (h : PlacedChunk sealing limit useDictionary c m index start bytes) :
    (m.dictionaryPageOffset.getD m.dataPageOffset).toInt = start := by
  cases h with
  | @intro dictionary _ _ front _ _ _ _ dictionary_at _ _ dataPage dictionaryPage =>
      cases dictionary with
      | none =>
          obtain rfl : front = [] := dictionary_at
          rw [Option.map_none, Option.map_eq_none_iff] at dictionaryPage
          rw [dictionaryPage, Option.getD_none, dataPage]
          rfl
      | some q =>
          rw [Option.map_some, Option.map_eq_some_iff] at dictionaryPage
          obtain ⟨offset, found, place⟩ := dictionaryPage
          rw [found, Option.getD_some, place]

theorem PlacedChunk.size (h : PlacedChunk sealing limit useDictionary c m index start bytes) :
    m.totalCompressedSize.toInt = bytes.length := by
  cases h with
  | intro _ _ _ _ _ size _ _ => exact size

/-- A chunk is found where it is placed. -/
theorem PlacedChunk.storedChunk {column : Column}
    (h : PlacedChunk sealing limit useDictionary c m index start bytes)
    (type : c.type = column.type) (describes : m.Describes column c.length) {before after : Bytes}
    (place : before.length = start) :
    StoredChunk sealing (before ++ (bytes ++ after)) (c.stored useDictionary) m := by
  have first := h.starts
  cases h with
  | @intro dictionary _ _ _ _ bytes_eq holds _ dictionary_at data_at size dataPage
      dictionaryPage =>
      have stored := dictionary_at.storedPages holds.kind data_at
      rw [← bytes_eq] at stored
      refine .intro rfl holds stored (describes.type.trans type.symm) describes.numValues size
        (first.trans (congrArg Nat.cast place.symm)) ?_ ?_
      · rw [dataPage]
        exact Int.natCast_nonneg _
      · have shown := congrArg Option.isSome dictionaryPage
        rwa [Option.isSome_map, Option.isSome_map] at shown

end

/-- The chunk of a column stands at a position. Its entry in the footer tells the position and
shows the metadata in the forms that are due, and its offset index has the given stored form.
Both can be forecast. -/
structure ChunkAt (properties : WriterProperties) (encryption : Option FileEncryption)
    (rowGroup ordinal start : Nat) (column : Column × ColumnValues) (chunk : ColumnChunk × Bytes)
    (bytes : Bytes) : Prop where
  type : column.2.type = column.1.type
  fileOffset : chunk.1.fileOffset.toInt = start
  forms : EntryForms encryption column.1.path chunk.1
  placed : ∃ m index, ChunkEntry encryption rowGroup ordinal column.1.path m chunk.1 ∧
    m.Describes column.1 column.2.length ∧
    PlacedChunk (chunkSealing encryption rowGroup ordinal column.1.path) properties.pageRowLimit
      (properties.usesDictionary column.1.path) column.2 m index start bytes ∧
    StoredModule (chunkSealing encryption rowGroup ordinal column.1.path) .metadata .offsetIndex
      none (Wire.encode index) chunk.2 ∧
    m.Sized column.2.length ∧
    properties.forecast (sealingOverhead (chunkSealing encryption rowGroup ordinal column.1.path))
      column start = .ok (m, index)

theorem ChunkAt.storedColumn {properties : WriterProperties} {encryption : Option FileEncryption}
    {rowGroup ordinal start : Nat} {column : Column} {values : ColumnValues}
    {chunk : ColumnChunk × Bytes} {bytes before : Bytes}
    (h : ChunkAt properties encryption rowGroup ordinal start (column, values) chunk bytes)
    (place : before.length = start) (after : Bytes) :
    StoredColumn encryption (before ++ (bytes ++ after)) rowGroup ordinal column.path
      (values.stored (properties.usesDictionary column.path)) chunk.1 := by
  obtain ⟨m, index, entry, describes, placed, _⟩ := h.placed
  exact ⟨m, entry, placed.storedChunk h.type describes place⟩

/-- The size that the entry of a row group states: what those metadata state that
appear in plain form. -/
def shownByteSize (chunks : List ColumnChunk) : Int64 :=
  (chunks.filterMap ColumnChunk.metaData).foldl (fun sum m => sum + m.totalUncompressedSize) 0

/-- The chunks of a row group stand one after the other, in the order of the schema, and its entry
in the footer tells where. All columns have as many values as the row group has rows. -/
structure RowGroupAt (schema : Schema) (properties : WriterProperties)
    (encryption : Option FileEncryption) (index start : Nat) (columns : List ColumnValues)
    (group : RowGroup × List Bytes) (bytes : Bytes) : Prop where
  width : columns.length = schema.numColumns
  rows : ∃ rows : Nat, group.1.numRows.toInt = rows ∧ (∀ values ∈ columns, values.length = rows) ∧
    (columns = [] → rows = 0)
  ordinal : group.1.ordinal = int16? index
  fileOffset : group.1.fileOffset.map Int64.toInt = some (start : Int)
  size : group.1.totalCompressedSize.map Int64.toInt = some (bytes.length : Int)
  byteSize : group.1.totalByteSize = shownByteSize group.1.columns
  chunks : ∃ chunks : List (ColumnChunk × Bytes), group.1.columns = chunks.map Prod.fst ∧
    group.2 = chunks.map Prod.snd ∧
    Laid (ChunkAt properties encryption index) 0 start (schema.columns.zip columns) chunks bytes

/-- A row group is found where it is placed. -/
theorem RowGroupAt.storedRowGroup {schema : Schema} {properties : WriterProperties}
    {encryption : Option FileEncryption} {index start : Nat} {columns : List ColumnValues}
    {group : RowGroup × List Bytes} {bytes before : Bytes}
    (h : RowGroupAt schema properties encryption index start columns group bytes)
    (place : before.length = start) (after : Bytes) :
    StoredRowGroup properties encryption (before ++ (bytes ++ after)) index
      (schema.columns.zip columns) group.1 := by
  obtain ⟨chunks, entries, _, laid⟩ := h.chunks
  refine ⟨?_, h.ordinal, ?_⟩
  · rw [entries, List.length_map, laid.length_eq]
  · intro j column values hj
    obtain ⟨chunk, first, own, last, hchunk, rfl, placed⟩ := laid.exists_of_getElem? hj
    rw [Nat.zero_add] at placed
    have position : (before ++ first).length = start + first.length := by
      rw [List.length_append, place]
    have stored := placed.storedColumn position (last ++ after)
    refine ⟨placed.type, chunk.1, ?_, ?_⟩
    · rw [entries, List.getElem?_map, hchunk]
      rfl
    · simp only [List.append_assoc] at stored ⊢
      exact stored

end SealedColumns
