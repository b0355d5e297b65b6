import SealedColumns.Proofs.CountedPages
import SealedColumns.Proofs.IndependentReads

/-!
# How many values a column has

The metadata of a column chunk declare a number of values. A column that is read has at least as
many, from any file: too few are an error. It may have more, since the last page may announce more
values than are left for it and all of them are taken. `ReadUntil` says what is known of the number,
and when it is the declared one.
-/

namespace SealedColumns

/-- The values of a column, compared with the declared number and with the data pages they are
from. -/
structure ReadUntil (declared : Int) (data : List Page) (values : ColumnValues) : Prop where
  length_eq : values.length = announced data
  le_length : declared ≤ values.length
  /-- Without its last page the column would have too few values. -/
  announced_lt : ∀ front last back, data = front ++ last :: back → announced front < declared
  /-- The declared number is met exactly if the last page announces no more than are left for it. -/
  length_eq_declared_iff : (values.length : Int) = declared ↔
    ∀ front last, data = front ++ [last] →
      (announced front + last.numValues.toNat : Int) ≤ declared

theorem CountsDown.readUntil {declared : Int} {data : List Page} {values : ColumnValues}
    (h : CountsDown declared data) (nonneg : 0 ≤ declared)
    (length : values.length = announced data) : ReadUntil declared data values where
  length_eq := length
  le_length := by
    rw [length]
    exact h.le_announced
  announced_lt := by
    rintro front last back rfl
    exact h.announced_lt
  length_eq_declared_iff := by
    rw [length]
    exact h.announced_eq_iff nonneg

namespace OpenFile

variable {f : OpenFile} {i j : Nat} {s t : ReadState}

/-- A declared number is not negative. -/
theorem numValues_nonneg {chunk : ChunkInfo} (h : f.info.columnChunk i j s = (.ok chunk, t)) :
    0 ≤ chunk.numValues.toInt := by
  have answered := (f.info.columnChunk_answers i j s trivial).1
  rw [h] at answered
  have natural : chunk.Natural := answered
  exact Int.not_lt.mp fun negative => natural.numValues (Int64.lt_iff_toInt_lt.mpr negative)

theorem columnPages_eq_ok {pages : ChunkPages} (h : f.columnPages i j s = (.ok pages, t)) :
    ∃ chunk u, f.info.columnChunk i j s = (.ok chunk, u) ∧
      pages.remaining = chunk.numValues.toInt := by
  rw [columnPages] at h
  obtain ⟨chunk, u, known, h⟩ := Operation.bind_eq_ok.mp h
  obtain ⟨_, _, h⟩ := Operation.lift_bind_eq_ok.mp h
  obtain ⟨_, _, h⟩ := Operation.lift_bind_eq_ok.mp h
  obtain ⟨_, _, _, h⟩ := Operation.bind_eq_ok.mp h
  obtain ⟨_, _, _, h⟩ := Operation.bind_eq_ok.mp h
  cases h
  exact ⟨chunk, u, known, rfl⟩

theorem readColumn_eq_ok {values : ColumnValues} (h : f.readColumn i j s = (.ok values, t)) :
    ∃ pages u, f.columnPages i j s = (.ok pages, u) ∧
      ∃ type reader, (ColumnReader.readAll : ColumnReader.Step ChunkPages ColumnValues)
        ⟨type, pages, none⟩ = (.ok values, reader) := by
  rw [readColumn] at h
  obtain ⟨reader, u, opened, h⟩ := Operation.bind_eq_ok.mp h
  obtain ⟨c, _, opened⟩ := Operation.lift_bind_eq_ok.mp opened
  obtain ⟨pages, v, pagesOpened, opened⟩ := Operation.bind_eq_ok.mp opened
  cases opened
  obtain ⟨read, _⟩ := Operation.lift_eq_ok.mp h
  exact ⟨pages, u, pagesOpened, c.type, _, Prod.ext read rfl⟩

/-- Reading a column in any state of a session. -/
theorem readUntil_of_readColumn {values : ColumnValues} (h : f.readColumn i j s = (.ok values, t)) :
    ∃ chunk pages u v, f.info.columnChunk i j s = (.ok chunk, u) ∧
      f.columnPages i j s = (.ok pages, v) ∧
      ∃ dictionary data, PageSource.Delivers (Option.toList dictionary ++ data) pages ∧
        (∀ page ∈ dictionary, page.kind = .dictionary) ∧ (∀ page ∈ data, page.kind = .data) ∧
        ReadUntil chunk.numValues.toInt data values := by
  obtain ⟨pages, v, opened, type, reader, read⟩ := readColumn_eq_ok h
  obtain ⟨chunk, u, known, remaining⟩ := columnPages_eq_ok opened
  obtain ⟨all, found, delivers, accepted, rfl⟩ :=
    ColumnReader.readAll_eq_ok ChunkPages.shrinks read
  obtain ⟨dictionary, data, rfl, first, counted⟩ := ChunkPages.counted_of_delivers delivers
  rw [remaining] at counted
  have length : List.length found = announced data :=
    accepted.length_eq.trans (announced_dictionary first data)
  exact ⟨chunk, pages, u, v, known, opened, dictionary, data, delivers, first, counted.kind_of_mem,
    counted.readUntil (numValues_nonneg known) length⟩

/-- A row group that is reached for one thing is reached for any other. -/
theorem inRowGroup_eq_ok {α : Type} {op : Session α} {a : α} :
    f.inRowGroup i op s = (.ok a, t) ↔ (∃ g, f.rowGroup i s = (.ok g, s)) ∧ op s = (.ok a, t) := by
  have unchanged {g : RowGroupInfo} {u : ReadState} (h : f.rowGroup i s = (.ok g, u)) : u = s := by
    rw [rowGroup, Operation.run_get_bind] at h
    obtain ⟨_, h⟩ := Operation.guard_eq_ok.mp h
    split at h <;> cases h
    rfl
  rw [inRowGroup, Operation.bind_eq_ok]
  constructor
  · rintro ⟨g, u, reached, performed⟩
    obtain rfl := unchanged reached
    exact ⟨⟨g, reached⟩, performed⟩
  · rintro ⟨⟨g, reached⟩, performed⟩
    exact ⟨g, s, reached, performed⟩

end OpenFile

namespace Reading

variable {properties : ReaderProperties} {source : ByteSource} {f : OpenFile} {s : ReadState}

/-- A column that is read, from any file and at any time while the file is open, has the values that
its data pages announce, and so at least the number of values that its metadata declare; and it has
exactly this number if and only if the last data page announces no more values than are left for it.
What the metadata declare, and which pages there are, does not depend on the time either. -/
theorem readColumn_readUntil (opening : OpenFile.openSource properties source {} = (.ok f, s))
    {requests : List ReadRequest} (stay : ∀ request ∈ requests, request.staysOpen = true)
    {i j : Nat} {values : ColumnValues}
    (read : (((opened f s).serve properties source requests).2.reply properties source
      (.readColumn i j)).1 = .ok (.values values)) :
    ∃ chunk pages,
      (∀ others : List ReadRequest, (∀ request ∈ others, request.staysOpen = true) →
        (((opened f s).serve properties source others).2.reply properties source
          (.columnChunk i j)).1 = .ok (.chunk chunk) ∧
        (((opened f s).serve properties source others).2.reply properties source
          (.columnPages i j)).1 = .ok (.pages pages)) ∧
      ∃ dictionary data, PageSource.Delivers (Option.toList dictionary ++ data) pages ∧
        (∀ page ∈ dictionary, page.kind = .dictionary) ∧ (∀ page ∈ data, page.kind = .data) ∧
        ReadUntil chunk.numValues.toInt data values := by
  rw [reply_of_served opening stay rfl] at read
  generalize run : (ReadRequest.readColumn i j).onFile f s = outcome at read
  rcases outcome with ⟨_, t⟩
  cases read
  obtain ⟨_, _, reading, kept⟩ := Operation.bind_eq_ok.mp run
  cases kept
  obtain ⟨reached, performed⟩ := OpenFile.inRowGroup_eq_ok.mp reading
  obtain ⟨chunk, pages, u, v, known, delivered, rest⟩ := OpenFile.readUntil_of_readColumn performed
  refine ⟨chunk, pages, fun others stay => ⟨?_, ?_⟩, rest⟩
  · have chunkKnown := OpenFile.inRowGroup_eq_ok.mpr ⟨reached, known⟩
    rw [reply_of_served opening stay rfl, ReadRequest.onFile, Operation.run_bind_ok chunkKnown]
    rfl
  · have pagesKnown := OpenFile.inRowGroup_eq_ok.mpr ⟨reached, delivered⟩
    rw [reply_of_served opening stay rfl, ReadRequest.onFile, Operation.run_bind_ok pagesKnown]
    rfl

end Reading

namespace Sample

/-- A chunk that declares one value. -/
def overfullChunk : ColumnChunk where
  fileOffset := 4
  metaData := some
    { type := .int32, encodings := [.plain], pathInSchema := ["a"], numValues := 1,
      totalUncompressedSize := 28, totalCompressedSize := 28, dataPageOffset := 4,
      dictionaryPageOffset := none }
  offsetIndexOffset := none
  offsetIndexLength := none
  crypto := none
  encryptedMetaData := none

def overfullFooter : FileMetaData :=
  { unsignedFooter with
    version := 2
    numRows := 1
    rowGroups := [⟨[overfullChunk], 28, 1, none, none, none⟩]
    createdBy := none }

/-- The only page of the chunk, which announces and holds two values. -/
def overfullPage : Bytes :=
  Wire.encode (⟨.data, 8, 8, 2, .plain⟩ : PageHeader) ++
    ColumnValues.encodePlain ⟨.int32, [7, 8]⟩

def overfullFile : ByteSource where
  kind := .memory
  bytes := FooterMode.plaintext.magic ++ (overfullPage ++ (Wire.encode overfullFooter ++
    Trailer.encode ⟨(Wire.encode overfullFooter).length, .plaintext⟩))

/-- What a reader takes the file to be. -/
def overfullOpen : OpenFile where
  source := overfullFile
  info := {
    version := 2
    numRows := 1
    createdBy := none
    schema := claimedSchema
    rowGroups := #[⟨[overfullChunk], 1, 28, none, 0⟩]
    decryption := none }

theorem overfullFile_opens (s : ReadState) :
    (OpenFile.openSource {} overfullFile s).1 = .ok overfullOpen := by
  have understood : Opening.fileInfo overfullFooter none = .ok overfullOpen.info := by
    change (Schema.ofElements "m" claimedSchema.toElements >>= _) = _
    rw [claimedSchema_elements]
    rfl
  have short : (Wire.encode overfullFooter).length < UInt32.size := by decide +kernel
  have opened := OpenFile.openSource_of_plain {} (FooterMode.plaintext.magic ++ overfullPage) rfl
    short understood s
  rwa [List.append_assoc] at opened

/-- What is known of the chunk. -/
def overfullInfo : ChunkInfo where
  column := ⟨⟨["a"]⟩, .int32⟩
  encodings := [.plain]
  numValues := 1
  compressedSize := 28
  uncompressedSize := 28
  dataPageOffset := 4
  dictionaryPageOffset := none
  offsetIndexOffset := none
  offsetIndexLength := none
  crypto := none

set_option maxRecDepth 4096 in
theorem readColumn_overfullOpen :
    ((ReadRequest.readColumn 0 0).onFile overfullOpen {}).1 = .ok (.values ⟨.int32, [7, 8]⟩) := by
  rfl

theorem columnChunk_overfullOpen :
    ((ReadRequest.columnChunk 0 0).onFile overfullOpen {}).1 = .ok (.chunk overfullInfo) := by
  rfl

end Sample

/-- The column declares one value, and two are read, because its only page announces two. -/
theorem Reading.readColumn_readUntil_overfull :
    ∃ s, OpenFile.openSource {} Sample.overfullFile {} = (.ok Sample.overfullOpen, s) ∧
      ((opened Sample.overfullOpen s).reply {} Sample.overfullFile (.readColumn 0 0)).1 =
        .ok (.values ⟨.int32, [7, 8]⟩) ∧
      ((opened Sample.overfullOpen s).reply {} Sample.overfullFile (.columnChunk 0 0)).1 =
        .ok (.chunk Sample.overfullInfo) ∧
      ∃ data, ReadUntil 1 data ⟨.int32, [7, 8]⟩ := by
  have opens := Sample.overfullFile_opens {}
  generalize opening : OpenFile.openSource {} Sample.overfullFile {} = outcome at opens
  obtain ⟨result, s⟩ := outcome
  obtain rfl : result = .ok Sample.overfullOpen := opens
  have read := (reply_of_opened opening rfl).trans Sample.readColumn_overfullOpen
  have declared := (reply_of_opened opening rfl).trans Sample.columnChunk_overfullOpen
  have stay : ∀ request ∈ ([] : List ReadRequest), request.staysOpen = true :=
    fun _ none => absurd none List.not_mem_nil
  obtain ⟨chunk, pages, replies, dictionary, data, _, _, _, counted⟩ :=
    readColumn_readUntil opening stay read
  cases declared.symm.trans (replies [] stay).1
  exact ⟨s, rfl, read, declared, data, counted⟩

end SealedColumns
