import SealedColumns.Aad
import SealedColumns.Reader.CreatedBy
import SealedColumns.Reader.Session

/-!
# Metadata of an open file

What a reader knows about a file once its footer was understood: the schema, the row groups with
their column chunks as stored, and how modules are decrypted. The metadata of a column chunk
that is stored in sealed form is opened when it is asked for, so that columns without a known
key do no harm to the others.
-/

namespace SealedColumns

/-- A row group of an open file. -/
structure RowGroupInfo where
  columns : List ColumnChunk
  numRows : Int64
  totalByteSize : Int64
  fileOffset : Option Int64
  ordinal : Int16
  deriving DecidableEq

/-- The metadata of an open file. -/
structure FileInfo where
  version : Int32
  numRows : Int64
  createdBy : Option String
  schema : Schema
  rowGroups : Array RowGroupInfo
  /-- Present if the file is encrypted and the reader brought decryption properties. -/
  decryption : Option FileDecryption

/-- The metadata of a column chunk of an open file. -/
structure ChunkInfo where
  column : Column
  encodings : List Encoding
  numValues : Int64
  compressedSize : Int64
  uncompressedSize : Int64
  dataPageOffset : Int64
  dictionaryPageOffset : Option Int64
  offsetIndexOffset : Option Int64
  offsetIndexLength : Option Int32
  crypto : Option ColumnCrypto
  deriving DecidableEq

namespace ChunkInfo

/-- The metadata of a chunk of a column. Sizes and offsets must not be negative. -/
def ofMetaData (column : Column) (chunk : ColumnChunk) (m : ColumnMetaData) :
    Except Error ChunkInfo :=
  if m.numValues < 0 ∨ m.totalCompressedSize < 0 ∨ m.dataPageOffset < 0 ∨
      m.dictionaryPageOffset.any (· < 0) then
    .error (.columnMetadataNegative column.path)
  else
    .ok {
      column
      encodings := m.encodings
      numValues := m.numValues
      compressedSize := m.totalCompressedSize
      uncompressedSize := m.totalUncompressedSize
      dataPageOffset := m.dataPageOffset
      dictionaryPageOffset := m.dictionaryPageOffset
      offsetIndexOffset := chunk.offsetIndexOffset
      offsetIndexLength := chunk.offsetIndexLength
      crypto := chunk.crypto }

/-- The position of the chunk in the file and its length. -/
def byteRange (c : ChunkInfo) : Except Error (Nat × Nat) :=
  let start := c.dictionaryPageOffset.getD c.dataPageOffset
  if start < 0 ∨ c.compressedSize < 0 then .error .negativeByteRange
  else .ok (start.toInt.toNat, c.compressedSize.toInt.toNat)

/-- Whether the chunk is encrypted. -/
def isEncrypted (c : ChunkInfo) : Bool :=
  c.crypto.isSome

end ChunkInfo

namespace FileInfo

/-- The application that wrote the file, if its name can be read. -/
def writerVersion (f : FileInfo) : Option ApplicationVersion :=
  f.createdBy.bind ApplicationVersion.parse?

/-- The number of row groups. -/
def numRowGroups (f : FileInfo) : Nat :=
  f.rowGroups.size

/-- The algorithm of the file, if modules can be decrypted. -/
def algorithm (f : FileInfo) : Option Algorithm :=
  f.decryption.map FileDecryption.algorithm

/-- The stored metadata of a column chunk, opened if it is sealed and can be opened. -/
def columnMetaData (f : FileInfo) (rowGroup column : Nat) (path : ColumnPath)
    (chunk : ColumnChunk) : Session ColumnMetaData := do
  match chunk.crypto, chunk.encryptedMetaData, f.decryption with
  | some crypto, some sealedModule, some d =>
    let opener ← d.columnOpener path crypto .metadata
    let aad ← moduleAad d.fileAad .columnMetaData rowGroup column none
    let plain ← opener.decrypt aad sealedModule
    let (metaData, _) ← decodeFront plain
    return metaData
  | _, encrypted, decryption =>
    match chunk.metaData with
    | some metaData => return metaData
    | none =>
      if encrypted.isSome && decryption.isNone then throw (.columnMetadataEncrypted path)
      else throw (.columnMetadataMissing path)

/-- The metadata of a column chunk. -/
def columnChunk (f : FileInfo) (rowGroup column : Nat) : Session ChunkInfo := do
  let some g := f.rowGroups[rowGroup]? | throw (.indexOutOfBound rowGroup f.numRowGroups)
  let some chunk := g.columns[column]? | throw (.indexOutOfBound column g.columns.length)
  let c ← f.schema.column column
  let metaData ← f.columnMetaData rowGroup column c.path chunk
  if metaData.type ≠ c.type then throw (.columnMetadataType c.path c.type metaData.type)
  ChunkInfo.ofMetaData c chunk metaData

end FileInfo

end SealedColumns
