import SealedColumns.Proofs.WrittenFile

/-!
# Files of many row groups

A writer that does not encrypt, and whose destination takes everything, fails only where a number
does not fit the word that it is stored in. So a column chunk is written whenever its metadata can
be forecast, and a file is finished whenever it stays small enough.

Nothing else limits the number of row groups. A row group that takes 48 bytes is taken in more often
than a reader can number row groups.
-/

namespace SealedColumns

namespace FileWriter

variable {w w₁ : FileWriter}

/-- The writer does not encrypt, and its destination takes everything. -/
structure Unhindered (w : FileWriter) : Prop where
  encryption : w.encryption = none
  limit : w.sink.limit = none

theorem put_of_unhindered (h : w.Unhindered) (bs : Bytes) :
    ∃ w₁, put bs w = (.ok (), w₁) ∧ Wrote bs w w₁ ∧ w₁.Unhindered := by
  obtain ⟨after, written, took⟩ := Sink.writeAll_of_unlimited h.limit bs
  refine ⟨{ w with sink := after }, ?_, ⟨took.grew, rfl⟩, h.encryption, took.limit.trans h.limit⟩
  rw [put, onSink, written]

theorem position_run (w : FileWriter) : position w = (.ok w.bytesWritten, w) := rfl

/-! ### Column chunks -/

section

variable {p p₁ : ChunkProgress} {q : PlannedPage} {pages : List PlannedPage} {page : Nat}

/-- The length of a page with its header in a file without encryption. -/
abbrev pageLength (q : PlannedPage) : Nat :=
  q.plainLength fun _ => 0

theorem sealer_of_serves_none (serves : p.Serves none page) : p.sealer = none := by
  rw [ChunkProgress.Serves] at serves
  generalize p.sealer = sealer at serves ⊢
  cases serves
  rfl

/-- A page is written if its location can be recorded. -/
theorem writePage_of_record (h : w.Unhindered) (serves : p.Serves none page) (small : q.Small)
    (recorded : p.record q w.bytesWritten (pageLength q) (pageLength q) = .ok p₁) :
    ∃ w₁ bs, writePage p q w = (.ok p₁, w₁) ∧ Wrote bs w w₁ ∧ w₁.Unhindered ∧
      bs.length = pageLength q := by
  have count_lt : q.count < UInt32.size := Nat.lt_trans small.count_lt (by decide)
  have count : (UInt32.ofNat q.count).toNat = q.count := Nat.mod_eq_of_lt count_lt
  have unsealed := sealer_of_serves_none serves
  have body : storedBody p q.kind q.body = pure (q.body, p) := by
    simp only [storedBody, unsealed]
  have header (h : PageHeader) : storedHeader p h = pure (Wire.encode h, p) := by
    simp only [storedHeader, unsealed]
  have length (h : PageHeader) : (Wire.encode h).length + q.body.length = pageLength q := by
    rw [PlannedPage.length_encode_header]
    rfl
  obtain ⟨w₁, headerPut, wroteHeader, h⟩ :=
    put_of_unhindered h (Wire.encode (q.header q.body.length))
  obtain ⟨w₂, bodyPut, wroteBody, h⟩ := put_of_unhindered h q.body
  refine ⟨w₂, _, ?_, wroteHeader.trans wroteBody, h, List.length_append.trans (length _)⟩
  rw [writePage, Operation.run_lift_bind (uint32_eq_ok.mpr ⟨count_lt, rfl⟩),
    Operation.run_bind_ok (position_run w), body, pure_bind]
  dsimp only
  rw [Operation.run_lift_bind (int32_eq_ok.mpr ⟨small.body_lt, rfl⟩),
    Operation.run_lift_bind (int32_eq_ok.mpr ⟨small.body_lt, rfl⟩), count,
    Operation.run_lift_bind (int32_eq_ok.mpr ⟨small.count_lt, rfl⟩), header, pure_bind]
  dsimp only
  rw [length, ← PlannedPage.header, Operation.run_bind_ok headerPut,
    Operation.run_bind_ok bodyPut, recorded]
  rfl

theorem writePages_of_forecast (h : w.Unhindered) (serves : p.Serves none page)
    (small : ∀ q ∈ pages, q.Small)
    (forecast : p.forecast (fun _ => 0) w.bytesWritten pages = .ok p₁) :
    ∃ w₁ bs, writePages p pages w = (.ok p₁, w₁) ∧ Wrote bs w w₁ ∧ w₁.Unhindered ∧
      p₁.sealer = none ∧ p₁.compressedSize = p.compressedSize + bs.length := by
  induction pages generalizing p w page with
  | nil =>
      cases forecast
      exact ⟨w, [], rfl, .refl w, h, sealer_of_serves_none serves, rfl⟩
  | cons q pages ih =>
      obtain ⟨first, others⟩ := List.forall_mem_cons.mp small
      obtain ⟨p₂, recorded, later⟩ := Except.bind_eq_ok.mp forecast
      obtain ⟨w₂, bs, run, wrote, h, length⟩ := writePage_of_record h serves first recorded
      obtain ⟨serves, size⟩ := record_eq_ok serves recorded
      change p₂.forecast _ (w.bytesWritten + pageLength q) pages = _ at later
      rw [← length, ← wrote.bytesWritten] at later
      obtain ⟨w₁, more, rest, wroteRest, h, plain, total⟩ := ih h serves others later
      refine ⟨w₁, _, (Operation.run_bind_ok run).trans rest, wrote.trans wroteRest, h, plain, ?_⟩
      rw [total, size.compressedSize, List.length_append, length, Nat.add_assoc]
      rfl

end

/-- The entry of a chunk in the footer of a file without encryption. -/
def plainEntry (m : ColumnMetaData) : ColumnChunk :=
  ⟨m.dictionaryPageOffset.getD m.dataPageOffset, some m, none, none, none, none⟩

/-- All numbers of a column chunk at `start` fit, and its metadata and its
offset index are these. -/
structure ChunkFits (p : WriterProperties) (column : Column) (values : ColumnValues) (start : Nat)
    (m : ColumnMetaData) (index : OffsetIndex) : Prop where
  type : values.type = column.type
  rows_lt : values.length < 0x8000000000000000
  start_lt : start < 0x8000000000000000
  pages : ∃ pages, PagePlan.ofValues values p.pageRowLimit (p.usesDictionary column.path) =
    .ok pages ∧ ∀ q ∈ pages, q.Small
  forecast : p.forecast (fun _ => 0) (column, values) start = .ok (m, index)

variable {column : Column} {values : ColumnValues} {m : ColumnMetaData} {index : OffsetIndex}

theorem writeChunk_of_fits (rowGroup ordinal : Nat) (h : w.Unhindered)
    (fits : ChunkFits w.properties column values w.bytesWritten m index) :
    ∃ w₁ bs, writeChunk rowGroup ordinal column values w =
        (.ok (plainEntry m, Wire.encode index), w₁) ∧
      Wrote bs w w₁ ∧ w₁.Unhindered ∧ m.totalCompressedSize.toInt = bs.length := by
  obtain ⟨pages, plan, small⟩ := fits.pages
  obtain ⟨_, same, forecast⟩ := Except.bind_eq_ok.mp fits.forecast
  cases plan.symm.trans same
  obtain ⟨p, reached, forecast⟩ := Except.bind_eq_ok.mp forecast
  obtain ⟨_, metaData, forecast⟩ := Except.bind_eq_ok.mp forecast
  cases Except.pure_eq_ok.mp forecast
  have serves : ChunkProgress.Serves none 0 { sealer := none } := .none
  obtain ⟨w₁, bs, run, wrote, h₁, unsealed, total⟩ := writePages_of_forecast h serves small reached
  obtain ⟨_, _, compressed, _⟩ := metaData_eq_ok metaData
  refine ⟨w₁, bs, ?_, wrote, h₁, by rw [compressed, total, Nat.zero_add]⟩
  have sealer : chunkSealer rowGroup ordinal column.path w = (.ok none, w) := by
    rw [chunkSealer, Operation.run_get_bind, h.encryption]
    rfl
  have entry : chunkEntry column m none w₁ = (.ok (plainEntry m), w₁) := by
    rw [chunkEntry, Operation.run_get_bind, h₁.encryption]
    rfl
  rw [writeChunk, Operation.run_bind_ok sealer, Operation.run_get_bind,
    if_neg (not_not_intro fits.type)]
  dsimp only
  rw [Operation.run_bind_ok (position_run w), Operation.run_lift_bind plan,
    Operation.run_bind_ok run, Operation.run_lift_bind metaData, unsealed]
  dsimp only
  rw [pure_bind, Operation.run_bind_ok entry]
  rfl

/-! ### Row groups -/

/-- The entry of row group `index`, which is one chunk of `size` bytes at `start`. -/
def singleRowGroup (index start size rows : Nat) (m : ColumnMetaData) : RowGroup where
  columns := [plainEntry m]
  totalByteSize := 0 + m.totalUncompressedSize
  numRows := Int64.ofNat rows
  fileOffset := some (Int64.ofNat start)
  totalCompressedSize := some (Int64.ofNat size)
  ordinal := int16? index

theorem writeColumns_of_fits (ordinal : Nat) (h : w.Unhindered)
    (fits : ChunkFits w.properties column values w.bytesWritten m index) :
    ∃ w₁ bs, Wrote bs w w₁ ∧ w₁.Unhindered ∧ m.totalCompressedSize.toInt = bs.length ∧
      writeColumns ordinal (int16? ordinal) values.length [(column, values)] w =
        (.ok (), { w₁ with
          rowGroups := w₁.rowGroups.push
            (singleRowGroup ordinal w.bytesWritten bs.length values.length m)
          offsetIndexes := w₁.offsetIndexes.push [Wire.encode index] }) := by
  obtain ⟨w₁, bs, run, wrote, h₁, size⟩ := writeChunk_of_fits ordinal 0 h fits
  have size_lt : bs.length < 0x8000000000000000 := by
    have := m.totalCompressedSize.toInt_lt
    omega
  have chunks : writeChunks ordinal 0 [] [(column, values)] w =
      (.ok [(plainEntry m, Wire.encode index)], w₁) := by
    rw [writeChunks, Operation.run_bind_ok run]
    rfl
  refine ⟨w₁, bs, wrote, h₁, size, ?_⟩
  rw [writeColumns, Operation.run_bind_ok (position_run w), Operation.run_bind_ok chunks,
    Operation.run_bind_ok (position_run w₁), wrote.bytesWritten, Nat.add_sub_cancel_left,
    Operation.run_lift_bind (int64_eq_ok.mpr ⟨size_lt, rfl⟩),
    Operation.run_lift_bind (int64_eq_ok.mpr ⟨fits.rows_lt, rfl⟩),
    Operation.run_lift_bind (int64_eq_ok.mpr ⟨fits.start_lt, rfl⟩)]
  rfl

/-- A row group of one column is taken in if its chunk fits. -/
theorem writeRowGroup_of_fits (h : w.Unhindered) (usable : w.phase = .usable)
    (schema : w.schema.columns = [column])
    (fits : ChunkFits w.properties column values w.bytesWritten m index) :
    ∃ w₁ bs, Wrote bs w w₁ ∧ w₁.Unhindered ∧ m.totalCompressedSize.toInt = bs.length ∧
      writeRowGroup [values] w = (.ok (), { w₁ with
        rowGroups := w₁.rowGroups.push
          (singleRowGroup w.rowGroups.size w.bytesWritten bs.length values.length m)
        offsetIndexes := w₁.offsetIndexes.push [Wire.encode index] }) := by
  obtain ⟨w₁, bs, wrote, h₁, size, run⟩ := writeColumns_of_fits w.rowGroups.size h fits
  refine ⟨w₁, bs, wrote, h₁, size, ?_⟩
  rw [writeRowGroup, Operation.run_bind_ok (checkUsable_of_usable usable),
    Operation.run_get_bind, Schema.numColumns, schema]
  dsimp only
  rw [if_neg (by simp), Operation.run_lift_bind (checkRows_eq_ok_iff.mpr (by simp)),
    if_neg (by simp [h.encryption])]
  change failingFor (writeColumns _ _ values.length [(column, values)]) w = _
  rw [failingFor, run]

/-! ### Finishing -/

theorem placeChunkIndexes_of_room (done chunks : List ColumnChunk) (indexes : List Bytes)
    {sink : Sink} (unlimited : sink.limit = none)
    (room : sink.bytesWritten + indexes.flatten.length < 0x80000000) :
    ∃ columns after, placeChunkIndexes done chunks indexes sink = (columns, .ok (), after) ∧
      after.limit = none ∧ after.bytesWritten ≤ sink.bytesWritten + indexes.flatten.length := by
  induction chunks generalizing done indexes sink with
  | nil => exact ⟨_, sink, rfl, unlimited, Nat.le_add_right _ _⟩
  | cons c chunks ih =>
      cases indexes with
      | nil => exact ⟨_, sink, rfl, unlimited, Nat.le_refl _⟩
      | cons index indexes =>
          obtain ⟨middle, written, took⟩ := Sink.writeAll_of_unlimited unlimited index
          simp only [List.flatten_cons, List.length_append] at room ⊢
          have counted := took.bytesWritten
          have offset : int64 sink.bytesWritten = .ok _ := int64_eq_ok.mpr ⟨by omega, rfl⟩
          have length : int32 index.length = .ok _ := int32_eq_ok.mpr ⟨by omega, rfl⟩
          obtain ⟨columns, after, run, still, reached⟩ :=
            ih _ indexes (took.limit.trans unlimited) (by omega)
          refine ⟨columns, after, ?_, still, by omega⟩
          rw [placeChunkIndexes, written]
          dsimp only
          rw [offset]
          dsimp only
          rw [length]
          exact run

theorem placeIndexes_of_room (done : Array RowGroup) (groups : List RowGroup)
    (indexes : List (List Bytes)) {sink : Sink} (unlimited : sink.limit = none)
    (room : sink.bytesWritten + indexes.flatten.flatten.length < 0x80000000) :
    ∃ rowGroups after, placeIndexes done groups indexes sink = (rowGroups, .ok (), after) ∧
      after.limit = none := by
  induction groups generalizing done indexes sink with
  | nil => exact ⟨_, sink, rfl, unlimited⟩
  | cons g groups ih =>
      cases indexes with
      | nil => exact ⟨_, sink, rfl, unlimited⟩
      | cons first indexes =>
          simp only [List.flatten_cons, List.flatten_append, List.length_append] at room
          obtain ⟨columns, middle, placed, still, reached⟩ :=
            placeChunkIndexes_of_room [] g.columns first unlimited (by omega)
          obtain ⟨rowGroups, after, run, free⟩ :=
            ih (done.push { g with columns }) indexes still (by omega)
          refine ⟨rowGroups, after, ?_, free⟩
          rw [placeIndexes, placed]
          exact run

theorem writeFooter_of_short {m : FileMetaData} (h : w.Unhindered)
    (short : (Wire.encode m).length < UInt32.size) :
    ∃ w₁, writeFooter m w = (.ok (), w₁) ∧ w₁.Unhindered := by
  obtain ⟨w₁, metaDataPut, wrote, h₁⟩ := put_of_unhindered h (Wire.encode m)
  have metaDataRun : writeMetadataSection m w = (.ok (), w₁) := by
    rw [writeMetadataSection, Operation.run_get_bind, h.encryption]
    exact metaDataPut
  have length_lt : w₁.bytesWritten - w.bytesWritten < UInt32.size := by
    rwa [wrote.bytesWritten, Nat.add_sub_cancel_left]
  obtain ⟨w₂, lengthPut, _, h₂⟩ := put_of_unhindered h₁
    (Bytes.ofNat 4 (UInt32.ofNat (w₁.bytesWritten - w.bytesWritten)).toNat)
  obtain ⟨w₃, magicPut, _, h₃⟩ := put_of_unhindered h₂ (footerMode w₂.encryption).magic
  refine ⟨w₃, ?_, h₃⟩
  rw [writeFooter, Operation.run_bind_ok (position_run w), Operation.run_bind_ok metaDataRun,
    Operation.run_bind_ok (position_run w₁),
    Operation.run_lift_bind (uint32_eq_ok.mpr ⟨length_lt, rfl⟩),
    Operation.run_bind_ok lengthPut, Operation.run_get_bind]
  exact magicPut

/-- A file is finished if its offset indexes and its footer fit. -/
theorem finish_of_room (h : w.Unhindered) (usable : w.phase = .usable)
    (room : w.bytesWritten + w.offsetIndexes.toList.flatten.flatten.length < 0x80000000)
    (short : ∀ w₁, Entered { w with phase := .finished } w₁ →
      (Wire.encode w₁.fileMetaData).length < UInt32.size) :
    ∃ m w₁, finish w = (.ok m, w₁) := by
  obtain ⟨rowGroups, sink, placed, unlimited⟩ :=
    placeIndexes_of_room #[] w.rowGroups.toList w.offsetIndexes.toList h.limit room
  have indexRun : writeIndexes { w with phase := .finished } =
      (.ok (), { w with phase := .finished, rowGroups, sink }) := by
    rw [writeIndexes, placed]
  have entered := writeIndexes_entered { w with phase := .finished }
  rw [indexRun] at entered
  have still : Unhindered { w with phase := .finished, rowGroups, sink } :=
    ⟨h.encryption, unlimited⟩
  obtain ⟨w₁, footerRun, h₁⟩ := writeFooter_of_short still (short _ entered)
  obtain ⟨after, emptied, _⟩ := Sink.empty_of_unlimited h₁.limit
  have flushRun : onSink Sink.flush w₁ = (.ok (), { w₁ with sink := after }) := by
    rw [onSink, Sink.flush, emptied]
  refine ⟨fileMetaData { w with phase := .finished, rowGroups, sink },
    { w₁ with sink := after, engines := {} }, ?_⟩
  rw [finish, Operation.run_bind_ok (checkUsable_of_usable usable), Operation.run_modify_bind,
    Operation.run_bind_ok indexRun, Operation.run_get_bind, Operation.run_bind_ok footerRun,
    Operation.run_bind_ok flushRun]
  rfl

end FileWriter

/-! ### The length of a footer -/

theorem length_encode_int64 (n : Int64) : (Wire.encode n).length = 8 :=
  Bytes.length_ofNat _ _

theorem length_encode_option_le {α : Type} [Wire α] {n : Nat}
    (h : ∀ a : α, (Wire.encode a).length = n) (o : Option α) :
    (Wire.encode o).length ≤ 1 + n := by
  cases o with
  | none => exact Nat.le_add_right 1 n
  | some a =>
      show ((1 : UInt8) :: Wire.encode a).length ≤ 1 + n
      simp only [List.length_cons, h]
      omega

theorem length_flatMap_le {α : Type} {f : α → Bytes} {n : Nat} {as : List α}
    (h : ∀ a ∈ as, (f a).length ≤ n) : (as.flatMap f).length ≤ n * as.length := by
  induction as with
  | nil => simp
  | cons a as ih =>
      obtain ⟨first, others⟩ := List.forall_mem_cons.mp h
      have rest := ih others
      simp only [List.flatMap_cons, List.length_append, List.length_cons, Nat.mul_succ]
      omega

theorem length_encode_rowGroup_le (g : RowGroup) :
    (Wire.encode g).length ≤ (Wire.encode g.columns).length + 37 := by
  have start := length_encode_option_le length_encode_int64 g.fileOffset
  have size := length_encode_option_le length_encode_int64 g.totalCompressedSize
  have ordinal := length_encode_option_le (fun _ : Int16 => Bytes.length_ofNat _ _) g.ordinal
  show (Wire.encode g.columns ++ (Wire.encode g.totalByteSize ++ (Wire.encode g.numRows ++
    (Wire.encode g.fileOffset ++ (Wire.encode g.totalCompressedSize ++
      Wire.encode g.ordinal))))).length ≤ _
  simp only [List.length_append, length_encode_int64]
  omega

/-- The place of an offset index takes twelve bytes in addition. -/
theorem length_encode_plainEntry_le {m : ColumnMetaData} {c : ColumnChunk}
    (same : SameChunk (FileWriter.plainEntry m) c) :
    (Wire.encode c).length ≤ (Wire.encode m).length + 25 := by
  have offset := length_encode_option_le length_encode_int64 c.offsetIndexOffset
  have length := length_encode_option_le (fun _ : Int32 => Bytes.length_ofNat _ _)
    c.offsetIndexLength
  rw [same]
  show (Wire.encode (m.dictionaryPageOffset.getD m.dataPageOffset) ++ ((1 :: Wire.encode m) ++
    (Wire.encode c.offsetIndexOffset ++ (Wire.encode c.offsetIndexLength ++ [0, 0])))).length ≤ _
  simp only [List.length_append, List.length_cons, List.length_nil, length_encode_int64]
  omega

theorem length_encode_singleRowGroup_le {index start size rows : Nat} {m : ColumnMetaData}
    {g : RowGroup} (same : SameRowGroup (FileWriter.singleRowGroup index start size rows m) g) :
    (Wire.encode g).length ≤ (Wire.encode m).length + 70 := by
  have group := length_encode_rowGroup_le g
  have columns : List.Forall₂ SameChunk [FileWriter.plainEntry m] g.columns := same.2
  generalize g.columns = chunks at columns group
  cases columns with
  | @cons _ c _ _ chunk none =>
      cases none
      have entry := length_encode_plainEntry_le chunk
      change _ ≤ (Bytes.ofNat 8 1 ++ (Wire.encode c ++ [])).length + 37 at group
      simp only [List.length_append, Bytes.length_ofNat, List.length_nil] at group
      omega

/-- What a footer says of the file comes on top of its row groups. -/
theorem length_encode_fileMetaData (m : FileMetaData) :
    (Wire.encode m).length = 20 + (m.rowGroups.flatMap Wire.encode).length +
      ((Wire.encode m.schemaName).length + (Wire.encode m.schema).length +
        (Wire.encode m.createdBy).length + (Wire.encode m.encryptionAlgorithm).length +
        (Wire.encode m.footerSigningKeyMetadata).length) := by
  show (Bytes.ofNat 4 m.version.toUInt32.toNat ++ (Wire.encode m.schemaName ++
    (Wire.encode m.schema ++ (Wire.encode m.numRows ++ ((Bytes.ofNat 8 m.rowGroups.length ++
      m.rowGroups.flatMap Wire.encode) ++ (Wire.encode m.createdBy ++
        (Wire.encode m.encryptionAlgorithm ++
          Wire.encode m.footerSigningKeyMetadata))))))).length = _
  simp only [List.length_append, Bytes.length_ofNat, length_encode_int64]
  omega

/-! ### One row group again and again -/

namespace Sample

def numberColumn : Column :=
  ⟨⟨["a"]⟩, .int32⟩

def numbers : Schema :=
  ⟨"numbers", [numberColumn]⟩

def number : ColumnValues :=
  ⟨.int32, [7]⟩

def numberPages : List PlannedPage :=
  [⟨.dictionary, [7, 0, 0, 0], 1, .plain, 0⟩, ⟨.data, [0, 0, 0, 0], 1, .dictionary, 0⟩]

def numberIndex (start : Nat) : OffsetIndex :=
  ⟨[⟨Int64.ofNat (start + 24), 24, 0⟩]⟩

/-- What is known of a chunk at `start` after its pages. -/
def numberProgress (start : Nat) : FileWriter.ChunkProgress where
  sealer := none
  encodings := [.plain, .dictionary]
  uncompressedSize := 48
  compressedSize := 48
  dictionaryOffset := some start
  dataOffset := some (start + 24)
  locations := (numberIndex start).pageLocations

def numberMetaData (start : Nat) : ColumnMetaData where
  type := .int32
  encodings := [.plain, .dictionary]
  pathInSchema := ["a"]
  numValues := 1
  totalUncompressedSize := 48
  totalCompressedSize := 48
  dataPageOffset := Int64.ofNat (start + 24)
  dictionaryPageOffset := some (Int64.ofNat start)

theorem length_encode_numberIndex (start : Nat) : (Wire.encode (numberIndex start)).length = 28 :=
  rfl

theorem length_encode_numberMetaData (start : Nat) :
    (Wire.encode (numberMetaData start)).length = 78 :=
  rfl

theorem number_forecast {start : Nat} (near : start < 0x80000000) :
    (properties none).forecast (fun _ => 0) (numberColumn, number) start =
      .ok (numberMetaData start, numberIndex start) := by
  have dictionary : int64 start = .ok _ := int64_eq_ok.mpr ⟨by omega, rfl⟩
  have data : int64 (start + 24) = .ok _ := int64_eq_ok.mpr ⟨by omega, rfl⟩
  have plan : PagePlan.ofValues number 2 true = .ok numberPages := rfl
  have reached : FileWriter.ChunkProgress.forecast (fun _ => 0) { sealer := none } start
      numberPages = .ok (numberProgress start) := by
    rw [numberPages, FileWriter.ChunkProgress.forecast, FileWriter.ChunkProgress.record]
    change (int64 (start + 24) >>= _) >>= _ = _
    rw [data]
    rfl
  have metaData : (numberProgress start).metaData numberColumn number.length start =
      .ok (numberMetaData start) := by
    rw [FileWriter.ChunkProgress.metaData]
    change (int64 (start + 24) >>= fun _ => (some <$> int64 start) >>= fun _ => _) = _
    rw [data, dictionary]
    rfl
  rw [WriterProperties.forecast]
  change (PagePlan.ofValues number 2 true >>= _) = _
  rw [plan, Except.ok_bind, reached, Except.ok_bind, metaData]
  rfl

theorem number_fits {start : Nat} (near : start < 0x80000000) :
    FileWriter.ChunkFits (properties none) numberColumn number start (numberMetaData start)
      (numberIndex start) where
  type := rfl
  rows_lt := by decide
  start_lt := by omega
  pages := by
    refine ⟨numberPages, rfl, ?_⟩
    simp only [numberPages, List.forall_mem_cons]
    exact ⟨⟨by decide, by decide⟩, ⟨by decide, by decide⟩, by simp⟩
  forecast := number_forecast near

/-- The writer has taken in the number `n` times. -/
structure Repeated (n : Nat) (w : FileWriter) : Prop where
  unhindered : w.Unhindered
  usable : w.phase = .usable
  schema : w.schema = numbers
  properties : w.properties = properties none
  bytesWritten : w.bytesWritten = 4 + 48 * n
  indexes : w.offsetIndexes.toList.flatten.flatten.length = 28 * n
  size : w.rowGroups.size = n
  rowGroups : ∀ g ∈ w.rowGroups, ∃ index start size rows,
    g = FileWriter.singleRowGroup index start size rows (numberMetaData start)

namespace Repeated

variable {k n : Nat} {w w₁ : FileWriter}

theorem next (h : Repeated n w) (few : n < 0x100000) :
    ∃ w₁, FileWriter.writeRowGroup [number] w = (.ok (), w₁) ∧ Repeated (n + 1) w₁ := by
  have near : w.bytesWritten < 0x80000000 := by
    rw [h.bytesWritten]
    omega
  have columns : w.schema.columns = [numberColumn] := by rw [h.schema, numbers]
  have fits := number_fits near
  rw [← h.properties] at fits
  obtain ⟨w₁, bs, wrote, unhindered, size, run⟩ :=
    FileWriter.writeRowGroup_of_fits h.unhindered h.usable columns fits
  have size : bs.length = 48 := Int.ofNat.inj size.symm
  refine ⟨_, run, ⟨unhindered.encryption, unhindered.limit⟩, wrote.phase.trans h.usable,
    wrote.schema.trans h.schema, wrote.properties.trans h.properties, ?_, ?_, ?_, ?_⟩
  · show w₁.bytesWritten = _
    rw [wrote.bytesWritten, h.bytesWritten, size]
    omega
  · simp only [wrote.offsetIndexes, Array.toList_push, List.flatten_append, List.flatten_cons,
      List.flatten_nil, List.append_nil, List.length_append, h.indexes]
    rw [length_encode_numberIndex]
    omega
  · simp [wrote.rowGroups, h.size]
  · intro g hg
    rw [wrote.rowGroups] at hg
    obtain old | rfl := Array.mem_push.mp hg
    · exact h.rowGroups g old
    · exact ⟨_, _, _, _, rfl⟩

theorem run (h : Repeated n w) (few : n + k ≤ 0x100000) :
    ∃ w₁, ((List.replicate k [number]).forM FileWriter.writeRowGroup : FileWriter.Step PUnit) w =
      (.ok (), w₁) ∧ Repeated (n + k) w₁ := by
  induction k generalizing n w with
  | zero => exact ⟨w, rfl, h⟩
  | succ k ih =>
      obtain ⟨w₁, first, next⟩ := h.next (by omega)
      obtain ⟨w₂, rest, whole⟩ := ih next (by omega)
      rw [Nat.add_right_comm] at whole
      exact ⟨w₂, (Operation.run_bind_ok first).trans rest, whole⟩

/-- The row groups take at most 148 bytes each of the footer. -/
theorem footer_lt (h : Repeated n w) (few : n ≤ 0x100000)
    (entered : FileWriter.Entered { w with phase := .finished } w₁) :
    (Wire.encode w₁.fileMetaData).length < UInt32.size := by
  have paired : List.Forall₂ SameRowGroup w.rowGroups.toList w₁.rowGroups.toList :=
    entered.rowGroups
  have each : ∀ g ∈ w₁.rowGroups.toList, (Wire.encode g).length ≤ 148 := by
    intro g hg
    obtain ⟨i, hi⟩ := List.getElem?_of_mem hg
    obtain ⟨before, written, same⟩ := getElem?_of_forall₂ paired.flip hi
    obtain ⟨_, start, _, _, rfl⟩ :=
      h.rowGroups before (Array.mem_toList_iff.mp (List.mem_of_getElem? written))
    have length := length_encode_singleRowGroup_le same
    rwa [length_encode_numberMetaData] at length
  have count : w₁.rowGroups.toList.length = n := by
    rw [← paired.length_eq, Array.length_toList, h.size]
  have total := length_flatMap_le each
  rw [count] at total
  have schema : w₁.schema = numbers := entered.settings.schema.trans h.schema
  have settings : w₁.properties = Sample.properties none :=
    entered.settings.properties.trans h.properties
  have encryption : w₁.encryption = none :=
    entered.settings.encryption.trans h.unhindered.encryption
  have front : (Wire.encode numbers.name).length + (Wire.encode numbers.toElements).length +
      (Wire.encode (some (Sample.properties none).createdBy)).length +
      (Wire.encode (none : Option EncryptionAlgorithm)).length +
      (Wire.encode (none : Option Bytes)).length ≤ 100 := by
    decide
  rw [length_encode_fileMetaData, FileWriter.fileMetaData, schema, settings, encryption]
  refine Nat.lt_of_le_of_lt (Nat.add_le_add (Nat.add_le_add_left total 20) front) ?_
  rw [UInt32.size]
  omega

end Repeated

/-- A file can have the number about a million times. -/
theorem numbers_finished {n : Nat} (few : n ≤ 0x100000) :
    ∃ m w, FileWriter.Finished numbers (properties none) (List.replicate n [number]) m w := by
  have wellFormed : Schema.ofColumns numbers.name numbers.columns = .ok numbers :=
    Schema.ofColumns_eq_ok_iff.mpr ⟨rfl, by decide, by decide⟩
  obtain ⟨start, created, before⟩ : ∃ start,
      FileWriter.create numbers (properties none) random = .ok start ∧ Repeated 0 start :=
    ⟨_, rfl, ⟨rfl, rfl⟩, rfl, rfl, rfl, rfl, rfl, rfl, by simp⟩
  obtain ⟨w, run, after⟩ := before.run (k := n) (by omega)
  rw [Nat.zero_add] at after
  have room : w.bytesWritten + w.offsetIndexes.toList.flatten.flatten.length < 0x80000000 := by
    rw [after.bytesWritten, after.indexes]
    omega
  obtain ⟨m, w₁, finished⟩ := FileWriter.finish_of_room after.unhindered after.usable room
    fun _ => after.footer_lt few
  exact ⟨m, w₁, wellFormed, random, none, start, created,
    (Operation.run_bind_ok run).trans finished⟩

end Sample

end SealedColumns
