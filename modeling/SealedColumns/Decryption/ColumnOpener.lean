import SealedColumns.Aad
import SealedColumns.Column.Page
import SealedColumns.Cipher.EnginePool
import SealedColumns.Decryption.SealedStream

/-!
# Opening the modules of a column chunk

A column opener holds what opens the modules of one column chunk and builds the associated
data of its pages and of its offset index, which have to be what the writer used for
modules in the same place.
-/

namespace SealedColumns

/-- Opens the modules of one column chunk. -/
structure ColumnOpener where
  /-- Opens page headers and the offset index. -/
  metadata : ModuleOpener
  /-- Opens page bodies. -/
  data : ModuleOpener
  fileAad : Bytes
  rowGroup : Nat
  column : Nat
  bodyAad : PageAad
  headerAad : PageAad

namespace ColumnOpener

/-- The opener of a column chunk. -/
def start (metadata data : ModuleOpener) (fileAad : Bytes) (rowGroup column : Nat) : ColumnOpener :=
  { metadata, data, fileAad, rowGroup, column
    bodyAad := .start fileAad .body rowGroup column
    headerAad := .start fileAad .header rowGroup column }

/-- The associated data of a module without page ordinal. -/
def aad (o : ColumnOpener) (kind : ModuleKind) : Except Error Bytes :=
  moduleAad o.fileAad kind o.rowGroup o.column none

/-- Opens a metadata module of the chunk. -/
def openMetadata (o : ColumnOpener) (aad sealedModule : Bytes) : Except Error Bytes :=
  o.metadata.decrypt aad sealedModule

/-- Opens a page body of the chunk. -/
def openData (o : ColumnOpener) (aad sealedModule : Bytes) : Except Error Bytes :=
  o.data.decrypt aad sealedModule

/-- Reads the header of a page from the front of `input` and returns its stored form in plain,
with the bytes after it. -/
def readHeader (o : ColumnOpener) (kind : PageKind) (page : Nat) (input : Bytes) :
    Except Error (Bytes × Bytes) × ColumnOpener :=
  let (aad, o) := match kind with
    | .data =>
      let (aad, headerAad) := o.headerAad.forPage page
      (aad, { o with headerAad })
    | .dictionary => (o.aad .dictionaryPageHeader, o)
  (aad.bind fun aad => readSealed (o.openMetadata aad) input, o)

/-- Opens the body of a page. -/
def openBody (o : ColumnOpener) (kind : PageKind) (page : Nat) (body : Bytes) :
    Except Error Bytes × ColumnOpener :=
  let (aad, o) := match kind with
    | .data =>
      let (aad, bodyAad) := o.bodyAad.forPage page
      (aad, { o with bodyAad })
    | .dictionary => (o.aad .dictionaryPage, o)
  (aad.bind fun aad => o.openData aad body, o)

/-- Opens the offset index of the chunk. -/
def openOffsetIndex (o : ColumnOpener) (sealedModule : Bytes) : Except Error Bytes := do
  o.openMetadata (← o.aad .offsetIndex) sealedModule

end ColumnOpener

end SealedColumns
