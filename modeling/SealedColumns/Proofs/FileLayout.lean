import SealedColumns.Proofs.RoundTrip
import SealedColumns.Proofs.WriterStates

/-!
# The layout of finished files

Behind the magic word the column chunks tile a finished file, and behind them their offset
indexes do, up to the metadata section. All that a reader is told of positions and lengths is
exact: in the entries of the chunks, in the metadata of each chunk and in its offset index. A
page that is looked up in the offset index can be read on its own, under its number, and gives
the rows that it is said to hold.
-/

namespace SealedColumns

/-- A reader of pages that stands before the bytes, with `page` data pages behind it, is delivered
the page in front of it and then stands behind the bytes. -/
def Delivered (sealing : Option ChunkSealing) (awaitsDictionary : Bool) (page : Nat)
    (q : PlannedPage) (bytes : Bytes) : Prop :=
  ∀ values rest p, ChunkPages.Before sealing awaitsDictionary page values (bytes ++ rest) p →
    (q.kind = .data → q.count ≤ values) → page + values < 0x8000000000000000 →
    ∃ after, (ChunkPages.next : ChunkPages.Step (Option Page)) p = (.ok (some q.page), after) ∧
      after.rest = rest

theorem delivered_of_stored {sealing : Option ChunkSealing} {awaitsDictionary : Bool} {page : Nat}
    {q : PlannedPage} {header body : Bytes} (stored : q.StoredAs sealing page header body)
    (kind : q.kind = if awaitsDictionary then .dictionary else .data)
    (nonempty : q.kind = .data → 0 < q.count) :
    Delivered sealing awaitsDictionary page q (header ++ body) := by
  intro values rest p before declared bound
  obtain ⟨after, delivered, behind⟩ := ChunkPages.next_of_stored stored before kind
    (fun data => ⟨nonempty data, declared data⟩) bound
  exact ⟨after, delivered, behind.rest⟩

/-- The data page with number `k` in a chunk, where its location tells. It is delivered under this
number, and it holds the rows from `k * limit` on that come before those of the next page. -/
structure PageLayout (sealing : Option ChunkSealing) (limit : Nat) (c : ColumnValues)
    (entries : Option ColumnValues) (k start : Nat) (q : PlannedPage) (l : PageLocation)
    (bytes : Bytes) : Prop where
  located : l.Locates start bytes.length (k * limit)
  inside : k * limit < c.length
  stored : ∃ header body, bytes = header ++ body ∧ q.StoredAs sealing k header body
  delivered : Delivered sealing false k q bytes
  decode : ColumnReader.decodePage c.type entries q.page =
    .ok ⟨c.type, PagePlan.pageRows limit k c.values⟩

/-- The dictionary page at the front of a chunk with the entries that it gives, or neither. -/
inductive DictionaryLayout (sealing : Option ChunkSealing) (t : PhysicalType) (start : Nat) :
    Option Int64 → Option ColumnValues → Bytes → Prop where
  | none : DictionaryLayout sealing t start none none []
  | some {offset : Int64} {q : PlannedPage} {entries : ColumnValues} {header body : Bytes}
      (place : offset.toInt = start)
      (stored : q.StoredAs sealing 0 header body)
      (delivered : Delivered sealing true 0 q (header ++ body))
      (decode : ColumnValues.decodePlain t q.page.body q.page.numValues.toNat = .ok entries) :
      DictionaryLayout sealing t start (some offset) (some entries) (header ++ body)

/-- The chunk of a column: a dictionary page or none, and then the data pages, in the bytes that its
metadata and its offset index tell. The metadata is what the entry of the chunk shows, and the
offset index is the one whose stored form comes with the entry. -/
inductive ChunkLayout (properties : WriterProperties) (encryption : Option FileEncryption)
    (rowGroup ordinal start : Nat) (column : Column × ColumnValues) (chunk : ColumnChunk × Bytes)
    (bytes : Bytes) : Prop where
  | intro {m : ColumnMetaData} {index : OffsetIndex} {entries : Option ColumnValues}
      {data : List PlannedPage} {front pages : Bytes}
      (entry : ChunkEntry encryption rowGroup ordinal column.1.path m chunk.1)
      (describes : m.Describes column.1 column.2.length)
      (index_stored : StoredModule (chunkSealing encryption rowGroup ordinal column.1.path)
        .metadata .offsetIndex none (Wire.encode index) chunk.2)
      (bytes_eq : bytes = front ++ pages)
      (start_eq : (m.dictionaryPageOffset.getD m.dataPageOffset).toInt = start)
      (size : m.totalCompressedSize.toInt = bytes.length)
      (dataPage : m.dataPageOffset.toInt = (start + front.length : Nat))
      (dictionary : DictionaryLayout (chunkSealing encryption rowGroup ordinal column.1.path)
        column.2.type start m.dictionaryPageOffset entries front)
      (count : data.length = PagePlan.runCount properties.pageRowLimit column.2.length)
      (dataPages : Laid (PageLayout (chunkSealing encryption rowGroup ordinal column.1.path)
        properties.pageRowLimit column.2 entries) 0 (start + front.length) data
        index.pageLocations pages)

/-- The chunks of a row group, in the order of the schema, in the bytes that its entry tells. -/
structure RowGroupLayout (schema : Schema) (properties : WriterProperties)
    (encryption : Option FileEncryption) (index start : Nat) (columns : List ColumnValues)
    (group : RowGroup × List Bytes) (bytes : Bytes) : Prop where
  width : columns.length = schema.numColumns
  chunkCount : group.1.columns.length = schema.numColumns
  indexCount : group.2.length = schema.numColumns
  fileOffset : group.1.fileOffset.map Int64.toInt = some (start : Int)
  size : group.1.totalCompressedSize.map Int64.toInt = some (bytes.length : Int)
  chunks : Laid (ChunkLayout properties encryption index) 0 start (schema.columns.zip columns)
    (group.1.columns.zip group.2) bytes

/-- A finished file from its magic word to its trailer, with the stored forms of the
offset indexes in `stored`. -/
inductive FileLayout (schema : Schema) (properties : WriterProperties)
    (encryption : Option FileEncryption) (groups : List (List ColumnValues)) (m : FileMetaData)
    (file : Bytes) : Prop where
  | intro {stored : List (List Bytes)} {chunks indexes metadataSection : Bytes}
      (file_eq : file = (FileWriter.footerMode encryption).magic ++ (chunks ++ (indexes ++
        (metadataSection ++
          Trailer.encode ⟨metadataSection.length, FileWriter.footerMode encryption⟩))))
      (footer : MetadataSection m encryption metadataSection)
      (rowGroups : Laid (RowGroupLayout schema properties encryption) 0 4 groups
        (m.rowGroups.zip stored) chunks)
      (offsetIndexes : Laid IndexesAt 0 (4 + chunks.length) stored m.rowGroups indexes)

/-! ### From the writer -/

section

variable {properties : WriterProperties} {encryption : Option FileEncryption}
variable {rowGroup ordinal start : Nat} {bytes : Bytes}

theorem pageLayout_of_holds {sealing : Option ChunkSealing} {limit k : Nat} {c : ColumnValues}
    {useDictionary : Bool} {entries : Option ColumnValues} {q : PlannedPage} {l : PageLocation}
    (pos : 0 < limit) (short : c.length < UInt32.size)
    (holds : PagePlan.HoldsRows c limit useDictionary entries k q)
    (placed : PageAt sealing k start q l bytes) :
    PageLayout sealing limit c entries k start q l bytes := by
  obtain ⟨header, body, rfl, stored⟩ := placed.stored
  have located := placed.located
  have decode := holds.decode
  rw [holds.firstRow] at located
  rw [PagePlan.storedValues_eq_self short] at decode
  exact ⟨located, holds.inside, ⟨header, body, rfl, stored⟩,
    delivered_of_stored stored holds.kind fun _ => holds.count_pos pos, decode⟩

theorem dictionaryLayout_of_holds {sealing : Option ChunkSealing} {t : PhysicalType}
    {dictionary : Option PlannedPage} {entries : Option ColumnValues} {offset : Option Int64}
    (holds : PagePlan.HoldsDictionary t dictionary entries)
    (placed : DictionaryAt sealing dictionary bytes)
    (told : offset.map Int64.toInt = dictionary.map fun _ => (start : Int)) :
    DictionaryLayout sealing t start offset entries bytes := by
  cases holds with
  | none =>
      obtain rfl : bytes = [] := placed
      obtain rfl := Option.map_eq_none_iff.mp told
      exact .none
  | some kind _ decode =>
      obtain ⟨header, body, rfl, stored⟩ := placed
      obtain ⟨offset, rfl, place⟩ := Option.map_eq_some_iff.mp told
      exact .some place stored
        (delivered_of_stored stored kind fun data => absurd (kind.symm.trans data) (by decide))
        decode

theorem ChunkAt.chunkLayout {column : Column × ColumnValues} {chunk : ColumnChunk × Bytes}
    (h : ChunkAt properties encryption rowGroup ordinal start column chunk bytes)
    (short : column.2.length < UInt32.size) :
    ChunkLayout properties encryption rowGroup ordinal start column chunk bytes := by
  obtain ⟨m, index, entry, describes, placed, index_stored, _⟩ := h.placed
  have start_eq := placed.starts
  cases placed with
  | @intro _ entries data front pages bytes_eq _ division dictionary_at data_at size dataPage
      dictionaryPage =>
      refine .intro entry describes index_stored bytes_eq start_eq size dataPage
        (dictionaryLayout_of_holds division.front dictionary_at dictionaryPage) division.size ?_
      refine data_at.mono fun k q l before own after hk _ page => ?_
      rw [Nat.zero_add] at page ⊢
      exact pageLayout_of_holds properties.pageRowLimit_pos short (division.page k q hk) page

/-- The place of an offset index says nothing about a chunk. -/
theorem ChunkLayout.sameChunk {column : Column × ColumnValues} {c d : ColumnChunk} {index : Bytes}
    (h : ChunkLayout properties encryption rowGroup ordinal start column (c, index) bytes)
    (same : SameChunk c d) :
    ChunkLayout properties encryption rowGroup ordinal start column (d, index) bytes := by
  cases h with
  | intro entry describes index_stored bytes_eq start_eq size dataPage dictionary count dataPages =>
      exact .intro (same.chunkEntry entry) describes index_stored bytes_eq start_eq size dataPage
        dictionary count dataPages

/-- Related lists are still related beside a common one. -/
theorem forall₂_zip_common {α β : Type} {R : α → α → Prop} {as bs : List α}
    (related : List.Forall₂ R as bs) (cs : List β) :
    List.Forall₂ (fun p q => R p.1 q.1 ∧ p.2 = q.2) (as.zip cs) (bs.zip cs) := by
  induction related generalizing cs with
  | nil => exact .nil
  | cons first _ ih =>
      cases cs with
      | nil => exact .nil
      | cons c cs => exact .cons ⟨first, rfl⟩ (ih cs)

theorem RowGroupAt.rowGroupLayout {schema : Schema} {columns : List ColumnValues} {g h : RowGroup}
    {indexes : List Bytes}
    (placed : RowGroupAt schema properties encryption rowGroup start columns (g, indexes) bytes)
    (short : ∀ c ∈ columns, c.length < UInt32.size) (same : SameRowGroup g h) :
    RowGroupLayout schema properties encryption rowGroup start columns (h, indexes) bytes := by
  obtain ⟨chunks, entries, stored, laid⟩ := placed.chunks
  dsimp only at entries stored
  have size : chunks.length = schema.numColumns := by
    rw [← laid.length_eq, List.length_zip, placed.width]
    exact Nat.min_self _
  have paired : chunks = g.columns.zip indexes := List.zip_of_prod entries.symm stored.symm
  refine ⟨placed.width, ?_, ?_, ?_, ?_, ?_⟩
  · rw [← same.2.length_eq, entries, List.length_map, size]
  · rw [stored, List.length_map, size]
  · rw [same.1]
    exact placed.fileOffset
  · rw [same.1]
    exact placed.size
  · have known : Laid (ChunkLayout properties encryption rowGroup) 0 start
        (schema.columns.zip columns) chunks bytes :=
      laid.mono fun k column chunk before own after hk _ chunkAt =>
        chunkAt.chunkLayout (short _ (List.of_mem_zip (List.mem_of_getElem? hk)).2)
    rw [paired] at known
    refine known.replace (forall₂_zip_common same.2 indexes) ?_
    rintro _ _ _ ⟨c, index⟩ ⟨d, _⟩ _ layout ⟨sameChunk, rfl⟩
    exact layout.sameChunk sameChunk

end

theorem PlacedFile.fileLayout {schema : Schema} {properties : WriterProperties}
    {encryption : Option FileEncryption} {groups : List (List ColumnValues)} {m : FileMetaData}
    {file : Bytes} (h : PlacedFile schema properties encryption groups m file)
    (short : ColumnValues.AllShort groups) :
    FileLayout schema properties encryption groups m file := by
  obtain ⟨stored, chunks, indexes, metadataSection, file_eq, placed, _, form⟩ := h.layout
  refine .intro file_eq form ?_ placed.offsetIndexes
  have known : Laid (fun i start columns (group : RowGroup × List Bytes) bytes =>
      RowGroupAt schema properties encryption i start columns group bytes ∧
        ∀ c ∈ columns, c.length < UInt32.size) 0 4 groups stored chunks :=
    placed.rowGroups.mono fun k columns group before own after hk _ groupAt =>
      ⟨groupAt, short columns (List.mem_of_getElem? hk)⟩
  rw [List.zip_of_prod (rfl : stored.map Prod.fst = _) (rfl : stored.map Prod.snd = _)] at known
  refine known.replace (forall₂_zip_common placed.described _) ?_
  rintro _ _ _ ⟨g, indexes⟩ ⟨h, _⟩ _ ⟨groupAt, short⟩ ⟨same, rfl⟩
  exact groupAt.rowGroupLayout short same

/-- A row group is taken in and another one is rejected. -/
def Sample.writing : List FileWriter.Call :=
  [.writeRowGroup Sample.columns, .writeRowGroup []]

namespace FileWriter

/-- However a writer was used before, if it is finished then positions, lengths and offset indexes
are exact in the file. -/
theorem finish_fileLayout {schema : Schema} {properties : WriterProperties} {random : RandomSource}
    {limit : Option Nat} {w w₁ : FileWriter} {m : FileMetaData}
    (created : create schema properties random { limit } = .ok w) (calls : List Call)
    (finished : finish (w.afterCalls calls) = (.ok m, w₁))
    (short : ColumnValues.AllShort (w.accepted calls)) :
    w.encryption.map FileEncryption.properties = properties.encryption ∧
      ∃ file, release w₁ = (.ok file, w₁) ∧
        FileLayout schema properties w.encryption (w.accepted calls) m file := by
  obtain ⟨placed, _, released⟩ := (tracks_of_create created calls).placedFile finished
  obtain ⟨_, _, _, form, _, _, drawn⟩ := create_eq_ok created
  have settings : w.schema = schema ∧ w.properties = properties ∧
      w.encryption.map FileEncryption.properties = properties.encryption := by
    rw [form]
    exact ⟨rfl, rfl, drawn.map_properties⟩
  obtain ⟨rfl, rfl, encryption⟩ := settings
  exact ⟨encryption, w₁.contents, released, placed.fileLayout short⟩

theorem finish_fileLayout_sample : ∃ w m w₁ file,
    create Sample.schema (Sample.properties (some Sample.encryption)) Sample.random = .ok w ∧
      finish (w.afterCalls Sample.writing) = (.ok m, w₁) ∧ release w₁ = (.ok file, w₁) ∧
      FileLayout Sample.schema (Sample.properties (some Sample.encryption)) w.encryption
        [Sample.columns] m file := by
  have runs : ((create Sample.schema (Sample.properties (some Sample.encryption))
      Sample.random).toOption.any fun w => decide (w.accepted Sample.writing = [Sample.columns]) &&
        (finish (w.afterCalls Sample.writing)).1.isOk) = true := by
    decide +kernel
  obtain ⟨w, created, run⟩ := Except.exists_of_any runs
  obtain ⟨taken, ends⟩ := Bool.and_eq_true_iff.mp run
  obtain ⟨m, w₁, finished⟩ := Operation.exists_of_isOk ends
  have accepted : w.accepted Sample.writing = [Sample.columns] := of_decide_eq_true taken
  have short : ColumnValues.AllShort (w.accepted Sample.writing) := by
    rw [accepted]
    exact Sample.short
  obtain ⟨_, file, released, layout⟩ := finish_fileLayout created Sample.writing finished short
  rw [accepted] at layout
  exact ⟨w, m, w₁, file, created, finished, released, layout⟩

end FileWriter

end SealedColumns
