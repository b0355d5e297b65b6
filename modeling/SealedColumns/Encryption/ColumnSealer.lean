import SealedColumns.Aad
import SealedColumns.Cipher.EnginePool
import SealedColumns.Column.Page
import SealedColumns.Encryption.Properties

/-!
# Sealing the modules of a column chunk

A sealing request says which plaintext is sealed by what, with which associated data; drawing
the nonce and encrypting is left to the writer. A column sealer makes the requests of one
column chunk and counts its data pages. What seals the modules of a file under a key comes from
the pool of its engines.
-/

namespace SealedColumns

/-- The encryption of a file that is being written. -/
structure FileEncryption where
  properties : EncryptionProperties
  /-- The random identifier of the file. -/
  fileUnique : Bytes

namespace FileEncryption

/-- The length of the random identifier. -/
def fileUniqueLength : Nat :=
  8

/-- The associated data of the file: the prefix, if any, and the identifier. -/
def fileAad (e : FileEncryption) : Bytes :=
  e.properties.aadPrefix.getD [] ++ e.fileUnique

/-- What the file says about its encryption. -/
def description (e : FileEncryption) : EncryptionAlgorithm :=
  e.properties.description e.fileUnique

/-- What stands in front of a sealed footer. -/
def cryptoMetaData (e : FileEncryption) : FileCryptoMetaData :=
  ⟨e.description, e.properties.footerKeyMetadata⟩

/-- What seals modules of a class under a key. -/
def sealer (e : FileEncryption) (key : Key) (moduleClass : ModuleClass) :
    EnginePool.Step ModuleSealer := do
  return ⟨← EnginePool.engine ⟨e.properties.algorithm, key.bytes.length, moduleClass⟩, key⟩

/-- What seals, or signs, the footer. -/
def footerSealer (e : FileEncryption) : EnginePool.Step ModuleSealer :=
  e.sealer e.properties.footerKey .metadata

/-- What seals the modules of a class of a column, if the column is encrypted. -/
def columnSealer? (e : FileEncryption) (path : ColumnPath) (moduleClass : ModuleClass) :
    EnginePool.Step (Option ModuleSealer) :=
  match e.properties.columnKey path with
  | none => return none
  | some key => some <$> e.sealer key moduleClass

end FileEncryption

/-- A plaintext that is to be sealed. -/
structure SealRequest where
  sealer : ModuleSealer
  aad : Bytes
  plaintext : Bytes

/-- The request that seals, or signs, the footer. -/
def FileEncryption.sealFooter (e : FileEncryption) (sealer : ModuleSealer) (plaintext : Bytes) :
    Except Error SealRequest :=
  return ⟨sealer, ← footerAad e.fileAad, plaintext⟩

/-- Makes the sealing requests of one column chunk. -/
structure ColumnSealer where
  /-- Seals page headers, the metadata of the chunk and its offset index. -/
  metadata : ModuleSealer
  /-- Seals page bodies. -/
  data : ModuleSealer
  fileAad : Bytes
  rowGroup : Nat
  column : Nat
  /-- The ordinal of the next data page. -/
  page : Nat
  bodyAad : PageAad
  headerAad : PageAad

namespace ColumnSealer

/-- The sealer of a column chunk. -/
def start (metadata data : ModuleSealer) (fileAad : Bytes) (rowGroup column : Nat) : ColumnSealer :=
  { metadata, data, fileAad, rowGroup, column
    page := 0
    bodyAad := .start fileAad .body rowGroup column
    headerAad := .start fileAad .header rowGroup column }

/-- The sealer of a column chunk, if the column is encrypted. -/
def ofColumn? (e : FileEncryption) (rowGroup column : Nat) (path : ColumnPath) :
    EnginePool.Step (Option ColumnSealer) := do
  let metadata ← e.columnSealer? path .metadata
  let data ← e.columnSealer? path .data
  match metadata, data with
  | some metadata, some data => return some (.start metadata data e.fileAad rowGroup column)
  | _, _ => return none

/-- The associated data of a module without page ordinal. -/
def aad (s : ColumnSealer) (kind : ModuleKind) : Except Error Bytes :=
  moduleAad s.fileAad kind s.rowGroup s.column none

/-- A request for a metadata module of the chunk. -/
def metadataRequest (s : ColumnSealer) (aad plaintext : Bytes) : SealRequest :=
  ⟨s.metadata, aad, plaintext⟩

/-- The request for the body of a page. -/
def sealBody (s : ColumnSealer) (kind : PageKind) (body : Bytes) :
    Except Error SealRequest × ColumnSealer :=
  let (aad, s) := match kind with
    | .data =>
      let (aad, bodyAad) := s.bodyAad.forPage s.page
      (aad, { s with bodyAad })
    | .dictionary => (s.aad .dictionaryPage, s)
  (aad.map fun aad => ⟨s.data, aad, body⟩, s)

/-- The request for the header of a page. -/
def sealHeader (s : ColumnSealer) (header : PageHeader) : Except Error SealRequest × ColumnSealer :=
  let (aad, s) := match header.kind with
    | .data =>
      let (aad, headerAad) := s.headerAad.forPage s.page
      (aad, { s with headerAad })
    | .dictionary => (s.aad .dictionaryPageHeader, s)
  (aad.map fun aad => s.metadataRequest aad (Wire.encode header), s)

/-- The request for the metadata of the chunk. -/
def sealMetaData (s : ColumnSealer) (metaData : ColumnMetaData) : Except Error SealRequest :=
  return s.metadataRequest (← s.aad .columnMetaData) (Wire.encode metaData)

/-- The request for the offset index of the chunk. -/
def sealOffsetIndex (s : ColumnSealer) (index : OffsetIndex) : Except Error SealRequest :=
  return s.metadataRequest (← s.aad .offsetIndex) (Wire.encode index)

/-- Goes on to the next data page. -/
def nextPage (s : ColumnSealer) : ColumnSealer :=
  { s with page := s.page + 1 }

end ColumnSealer

end SealedColumns
