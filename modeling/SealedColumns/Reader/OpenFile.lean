import SealedColumns.Column.Reader
import SealedColumns.Reader.ChunkPages
import SealedColumns.Reader.Opening

/-!
# Reading open files

An open file gives access to its row groups: the metadata of a column chunk, its pages, its values
and its offset index. Once the file is closed its row groups cannot be reached any more, while
readers of columns that were opened before go on.
-/

namespace SealedColumns

/-- A file whose footer was read. -/
structure OpenFile where
  source : ByteSource
  info : FileInfo

namespace OpenFile

/-- Opens a file. -/
def openSource (properties : ReaderProperties) (source : ByteSource) : Session OpenFile := do
  let (result, reader) ← (FooterReader.tryParse ⟨properties, .unopened, none⟩ source : StateM _ _)
  result
  return ⟨source, ← reader.finish.1⟩

/-- The metadata of a row group, while the file is not closed. -/
def rowGroup (f : OpenFile) (i : Nat) : Session RowGroupInfo := do
  if (← get).closed then throw (.readerClosed i)
  match f.info.rowGroups[i]? with
  | some g => return g
  | none => throw (.indexOutOfBound i f.info.numRowGroups)

/-- The largest size of a dictionary page header that a chunk size may lack. -/
def maxDictionaryHeader : Nat :=
  100

/-- The length to read for a chunk of the given position and length. Files of
applications that leave the header of the dictionary page out get up to a hundred bytes
more, as far as the file goes. -/
def paddedLength (f : OpenFile) (start length : Nat) : Except Error Nat := do
  if f.info.writerVersion.any ApplicationVersion.omitsDictionaryHeader then
    let left := f.source.size - (← addSizes start length)
    addSizes length (min left maxDictionaryHeader)
  else return length

/-- What opens the modules of a column chunk, if it is encrypted. -/
def columnOpener (f : OpenFile) (rowGroup column : Nat) (chunk : ChunkInfo) :
    Session (Option ColumnOpener) := do
  let some crypto := chunk.crypto | return none
  let some d := f.info.decryption | throw (.columnEncrypted chunk.column.path)
  let metadata ← d.columnOpener chunk.column.path crypto .metadata
  let data ← d.columnOpener chunk.column.path crypto .data
  return some (.start metadata data d.fileAad rowGroup column)

/-- The pages of a column chunk. -/
def columnPages (f : OpenFile) (rowGroup column : Nat) : Session ChunkPages := do
  let chunk ← f.info.columnChunk rowGroup column
  let (start, length) ← chunk.byteRange
  let length ← f.paddedLength start length
  let opener ← f.columnOpener rowGroup column chunk
  let bs ← Session.read f.source start length
  return .start bs chunk.numValues chunk.dictionaryPageOffset.isSome opener

/-- The reader of the values of a column chunk. -/
def columnReader (f : OpenFile) (rowGroup column : Nat) : Session (ColumnReader ChunkPages) := do
  let c ← f.info.schema.column column
  let pages ← f.columnPages rowGroup column
  return { type := c.type, source := pages }

/-- All values of a column chunk. -/
def readColumn (f : OpenFile) (rowGroup column : Nat) : Session ColumnValues := do
  let reader ← f.columnReader rowGroup column
  ((ColumnReader.readAll : ColumnReader.Step ChunkPages ColumnValues) reader).1

/-- The offset index of a column chunk, if it has one. -/
def offsetIndex (f : OpenFile) (rowGroup column : Nat) : Session (Option OffsetIndex) := do
  let chunk ← f.info.columnChunk rowGroup column
  let some offset := chunk.offsetIndexOffset | return none
  let some length := chunk.offsetIndexLength | return none
  let bs ← Session.read f.source (← natural offset.toInt) (← natural length.toInt)
  let bs ← match ← f.columnOpener rowGroup column chunk with
    | some opener => opener.openOffsetIndex bs
    | none => pure bs
  let ((index : OffsetIndex), _) ← decodeFront bs
  return some index

end OpenFile

end SealedColumns
