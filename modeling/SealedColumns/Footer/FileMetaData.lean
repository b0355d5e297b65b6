import SealedColumns.Footer.EncryptionAlgorithm
import SealedColumns.Schema.PhysicalType

/-!
# Stored metadata of a file

The structures of the footer: the file, its row groups, and a column chunk with its metadata in
plain or in sealed form.
-/

namespace SealedColumns

/-- A leaf column of a stored schema. -/
structure SchemaElement where
  path : List String
  type : PhysicalType
  deriving DecidableEq

instance : Wire SchemaElement :=
  Wire.ofEquivalent (α := List String × PhysicalType)
    (fun e => (e.path, e.type)) (fun (p, t) => ⟨p, t⟩)

/-- The metadata of a column chunk. -/
structure ColumnMetaData where
  type : PhysicalType
  /-- The encodings of the chunk's pages. -/
  encodings : List Encoding
  pathInSchema : List String
  numValues : Int64
  /-- The size of all pages with their headers, before encryption of the bodies. -/
  totalUncompressedSize : Int64
  /-- The size of all pages with their headers, as stored. -/
  totalCompressedSize : Int64
  /-- Where the first data page starts in the file. -/
  dataPageOffset : Int64
  /-- Where the dictionary page starts, if there is one. -/
  dictionaryPageOffset : Option Int64
  deriving DecidableEq

instance : Wire ColumnMetaData :=
  Wire.ofEquivalent
    (α := PhysicalType × List Encoding × List String × Int64 × Int64 × Int64 × Int64 × Option Int64)
    (fun m => (m.type, m.encodings, m.pathInSchema, m.numValues, m.totalUncompressedSize,
      m.totalCompressedSize, m.dataPageOffset, m.dictionaryPageOffset))
    (fun (t, e, p, n, u, c, d, o) => ⟨t, e, p, n, u, c, d, o⟩)

/-- A column chunk as the footer describes it. -/
structure ColumnChunk where
  /-- Where the chunk starts in the file. -/
  fileOffset : Int64
  /-- The metadata in plain form. -/
  metaData : Option ColumnMetaData
  /-- Where the offset index of the chunk starts in the file. -/
  offsetIndexOffset : Option Int64
  offsetIndexLength : Option Int32
  /-- The key that the chunk is sealed with, if it is. -/
  crypto : Option ColumnCrypto
  /-- The metadata in sealed form. -/
  encryptedMetaData : Option Bytes
  deriving DecidableEq

instance : Wire ColumnChunk :=
  Wire.ofEquivalent
    (α := Int64 × Option ColumnMetaData × Option Int64 × Option Int32 × Option ColumnCrypto ×
      Option Bytes)
    (fun c => (c.fileOffset, c.metaData, c.offsetIndexOffset, c.offsetIndexLength, c.crypto,
      c.encryptedMetaData))
    (fun (f, m, o, l, c, e) => ⟨f, m, o, l, c, e⟩)

/-- A row group as the footer describes it. -/
structure RowGroup where
  /-- The column chunks, in the order of the schema. -/
  columns : List ColumnChunk
  totalByteSize : Int64
  numRows : Int64
  /-- Where the first page of the row group starts in the file. -/
  fileOffset : Option Int64
  totalCompressedSize : Option Int64
  /-- The position of the row group in the file. -/
  ordinal : Option Int16
  deriving DecidableEq

instance : Wire RowGroup :=
  Wire.ofEquivalent
    (α := List ColumnChunk × Int64 × Int64 × Option Int64 × Option Int64 × Option Int16)
    (fun g => (g.columns, g.totalByteSize, g.numRows, g.fileOffset, g.totalCompressedSize,
      g.ordinal))
    (fun (c, b, n, f, t, o) => ⟨c, b, n, f, t, o⟩)

/-- The metadata of a file. -/
structure FileMetaData where
  version : Int32
  schemaName : String
  schema : List SchemaElement
  numRows : Int64
  rowGroups : List RowGroup
  /-- The application that wrote the file. -/
  createdBy : Option String
  /-- The encryption of the file, stored here only if the footer is signed and not sealed. -/
  encryptionAlgorithm : Option EncryptionAlgorithm
  /-- What a key retriever needs to find the key of the footer's signature. -/
  footerSigningKeyMetadata : Option Bytes
  deriving DecidableEq

instance : Wire FileMetaData :=
  Wire.ofEquivalent
    (α := Int32 × String × List SchemaElement × Int64 × List RowGroup × Option String ×
      Option EncryptionAlgorithm × Option Bytes)
    (fun m => (m.version, m.schemaName, m.schema, m.numRows, m.rowGroups, m.createdBy,
      m.encryptionAlgorithm, m.footerSigningKeyMetadata))
    (fun (v, s, e, n, g, c, a, k) => ⟨v, s, e, n, g, c, a, k⟩)

end SealedColumns
