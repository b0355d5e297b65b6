import SealedColumns.Encryption.ColumnSealer
import SealedColumns.Footer.Trailer
import SealedColumns.Writer.PagePlan
import SealedColumns.Writer.Properties
import SealedColumns.Writer.Sink

/-!
# Writing files

A file writer takes row groups one by one and then finishes the file. It writes the pages of each
column chunk as they come, keeps what the footer will say about them, and writes the offset indexes
and the footer at the end.

A writer is usable until it is finished or a row group fails in the middle. An attempt to
finish ends its use whether it succeeds or not. Row groups of the wrong shape are refused
before anything is written.

The writer records what it seals, in order: the request, the nonce and the module that came of it.
-/

namespace SealedColumns

/-- Whether a writer can be used. -/
inductive WriterPhase where
  | usable
  /-- A row group failed after some of it was written. -/
  | failed
  /-- The file was finished, or the attempt was made. -/
  | finished
  deriving DecidableEq

/-- The record of a sealed module. -/
structure SealRecord where
  request : SealRequest
  nonce : Bytes
  sealedModule : Bytes

/-- The associated data of the module. -/
def SealRecord.aad (record : SealRecord) : Bytes :=
  record.request.aad

/-- A file in the making. -/
structure FileWriter where
  schema : Schema
  properties : WriterProperties
  encryption : Option FileEncryption
  random : RandomSource
  sink : Sink
  phase : WriterPhase := .usable
  /-- The row groups written so far. -/
  rowGroups : Array RowGroup := #[]
  /-- The stored forms of their offset indexes, one for each column. -/
  offsetIndexes : Array (List Bytes) := #[]
  /-- The modules sealed so far. -/
  seals : Array SealRecord := #[]
  /-- The engines made so far. -/
  engines : EnginePool := {}

namespace FileWriter

/-- An operation of a writer, which may fail after it has had effects. -/
abbrev Step (α : Type) := ExceptT Error (StateM FileWriter) α

/-- Runs an operation of the random source. -/
def onRandom {α : Type} (op : ExceptT Error (StateM RandomSource) α) : Step α := fun w =>
  let (result, random) := op w.random
  (result, { w with random })

/-- Runs an operation of the engine pool. -/
def onEngines {α : Type} (op : EnginePool.Step α) : Step α := fun w =>
  let (result, engines) := op w.engines
  (result, { w with engines })

/-- Runs an operation of the sink. -/
def onSink {α : Type} (op : Sink.Step α) : Step α := fun w =>
  let (result, sink) := op w.sink
  (result, { w with sink })

/-- Writes bytes. -/
def put (bs : Bytes) : Step Unit :=
  onSink (Sink.writeAll bs)

/-- The number of bytes written so far, which is the position of the next byte in the file. -/
def position : Step Nat :=
  return (← get).sink.bytesWritten

/-- Seals a plaintext under a fresh nonce and records it. -/
def sealModule (request : SealRequest) : Step Bytes := do
  let sealedModule ← onRandom (request.sealer.encrypt request.aad request.plaintext)
  let nonce := (sealedModule.drop lengthWidth).take nonceLength
  modify fun w => { w with seals := w.seals.push ⟨request, nonce, sealedModule⟩ }
  return sealedModule

/-! ### Column chunks -/

/-- What is known about a column chunk after some of its pages. -/
structure ChunkProgress where
  /-- Seals the modules of the chunk, if it is encrypted. -/
  sealer : Option ColumnSealer
  encodings : List Encoding := []
  uncompressedSize : Nat := 0
  compressedSize : Nat := 0
  dictionaryOffset : Option Nat := none
  dataOffset : Option Nat := none
  /-- The locations of the data pages, latest first. -/
  locations : List PageLocation := []

/-- The stored form of the body of a page. -/
def storedBody (p : ChunkProgress) (kind : PageKind) (body : Bytes) :
    Step (Bytes × ChunkProgress) :=
  match p.sealer with
  | none => return (body, p)
  | some s => do
    let (request, s) := s.sealBody kind body
    return (← sealModule (← request), { p with sealer := some s })

/-- The stored form of the header of a page. -/
def storedHeader (p : ChunkProgress) (header : PageHeader) : Step (Bytes × ChunkProgress) :=
  match p.sealer with
  | none => return (Wire.encode header, p)
  | some s => do
    let (request, s) := s.sealHeader header
    return (← sealModule (← request), { p with sealer := some s })

/-- Takes a page that was written at `offset` into account. -/
def ChunkProgress.record (p : ChunkProgress) (page : PlannedPage) (offset : Nat)
    (uncompressedSize compressedSize : Nat) : Except Error ChunkProgress := do
  let p := { p with
    encodings := if p.encodings.contains page.encoding then p.encodings
      else p.encodings ++ [page.encoding]
    uncompressedSize := p.uncompressedSize + uncompressedSize
    compressedSize := p.compressedSize + compressedSize }
  match page.kind with
  | .dictionary => return { p with dictionaryOffset := some offset }
  | .data =>
    let location := ⟨← int64 offset, ← int32 compressedSize, ← int64 page.firstRow⟩
    return { p with
      sealer := p.sealer.map ColumnSealer.nextPage
      dataOffset := p.dataOffset <|> some offset
      locations := location :: p.locations }

/-- Writes a page: header, then body. The body is sealed first, because the
header tells its length. -/
def writePage (p : ChunkProgress) (page : PlannedPage) : Step ChunkProgress := do
  let numValues ← uint32 page.count
  let offset ← position
  let (body, p) ← storedBody p page.kind page.body
  let header : PageHeader := {
    kind := page.kind
    uncompressedSize := ← int32 page.body.length
    compressedSize := ← int32 body.length
    numValues := ← int32 numValues.toNat
    encoding := page.encoding }
  let (header, p) ← storedHeader p header
  put header
  put body
  p.record page offset (header.length + page.body.length) (header.length + body.length)

/-- Writes pages in order. -/
def writePages : (p : ChunkProgress) → List PlannedPage → Step ChunkProgress
  | p, [] => return p
  | p, page :: rest => do
    let p ← writePage p page
    writePages p rest

/-- The metadata of a column chunk that starts at `start`. -/
def ChunkProgress.metaData (p : ChunkProgress) (column : Column) (numValues start : Nat) :
    Except Error ColumnMetaData := do
  return {
    type := column.type
    encodings := Encoding.all.filter p.encodings.contains
    pathInSchema := column.path.parts
    numValues := ← int64 numValues
    totalUncompressedSize := ← int64 p.uncompressedSize
    totalCompressedSize := ← int64 p.compressedSize
    dataPageOffset := ← int64 (p.dataOffset.getD start)
    dictionaryPageOffset := ← p.dictionaryOffset.mapM int64 }

/-- The entry of a column chunk in the footer. In a sealed footer the metadata of a column with its
own key appears sealed only. In a footer in plain form the metadata of every encrypted column
appears sealed and, for readers without keys, in plain form too. -/
def chunkEntry (column : Column) (metaData : ColumnMetaData) (sealer : Option ColumnSealer) :
    Step ColumnChunk := do
  let w ← get
  let crypto := w.encryption.bind fun e => e.properties.columnCrypto column.path
  let encryptedFooter := w.encryption.any fun e => e.properties.encryptedFooter
  let fileOffset := metaData.dictionaryPageOffset.getD metaData.dataPageOffset
  let entry (plain : Option ColumnMetaData) (encrypted : Option Bytes) : ColumnChunk :=
    ⟨fileOffset, plain, none, none, crypto, encrypted⟩
  match crypto, sealer with
  | some (.columnKey _), some s =>
    let encrypted ← sealModule (← s.sealMetaData metaData)
    return entry (if encryptedFooter then none else some metaData) (some encrypted)
  | some .footerKey, some s =>
    if encryptedFooter then return entry (some metaData) none
    else
      let encrypted ← sealModule (← s.sealMetaData metaData)
      return entry (some metaData) (some encrypted)
  | _, _ => return entry (some metaData) none

/-- What seals the modules of a column chunk, if it is encrypted. -/
def chunkSealer (rowGroup ordinal : Nat) (path : ColumnPath) : Step (Option ColumnSealer) := do
  match (← get).encryption with
  | none => return none
  | some e => onEngines (ColumnSealer.ofColumn? e rowGroup ordinal path)

/-- Writes a column chunk. Returns its entry in the footer and the stored form of its offset
index. -/
def writeChunk (rowGroup ordinal : Nat) (column : Column) (values : ColumnValues) :
    Step (ColumnChunk × Bytes) := do
  let sealer ← chunkSealer rowGroup ordinal column.path
  let w ← get
  if values.type ≠ column.type then
    throw (.columnType column.path column.type values.type)
  let start ← position
  let pages ← PagePlan.ofValues values w.properties.pageRowLimit
    (w.properties.usesDictionary column.path)
  let p ← writePages { sealer } pages
  let metaData ← p.metaData column values.length start
  let index : OffsetIndex := ⟨p.locations.reverse⟩
  let storedIndex ← match p.sealer with
    | none => pure (Wire.encode index)
    | some s => sealModule (← s.sealOffsetIndex index)
  return (← chunkEntry column metaData p.sealer, storedIndex)

/-- Writes column chunks in order, after those in `acc`, which holds the latest first. -/
def writeChunks (rowGroup : Nat) : (ordinal : Nat) → (acc : List (ColumnChunk × Bytes)) →
    List (Column × ColumnValues) → Step (List (ColumnChunk × Bytes))
  | _, acc, [] => return acc.reverse
  | ordinal, acc, (column, values) :: rest => do
    let chunk ← writeChunk rowGroup ordinal column values
    writeChunks rowGroup (ordinal + 1) (chunk :: acc) rest

/-! ### Row groups -/

/-- Fails if the writer is finished or has failed. -/
def checkUsable : Step Unit := do
  match (← get).phase with
  | .usable => return
  | .finished => throw .writerFinished
  | .failed => throw .writerFailed

/-- Fails at the first column whose number of values differs from `rows`. -/
def checkRows (rows : Nat) : List (Column × ColumnValues) → Except Error Unit
  | [] => .ok ()
  | (column, values) :: rest =>
    if values.length ≠ rows then .error (.rowCount column.path rows values.length)
    else checkRows rows rest

/-- Writes the columns of row group `index` and keeps its description. -/
def writeColumns (index : Nat) (ordinal : Option Int16) (rows : Nat)
    (columns : List (Column × ColumnValues)) : Step Unit := do
  let start ← position
  let chunks ← writeChunks index 0 [] columns
  let totalByteSize := (chunks.filterMap fun (c, _) => c.metaData).foldl
    (fun sum m => sum + m.totalUncompressedSize) (0 : Int64)
  let totalCompressedSize ← int64 ((← position) - start)
  let rowGroup : RowGroup := {
    columns := chunks.map Prod.fst
    totalByteSize
    numRows := ← int64 rows
    fileOffset := some (← int64 start)
    totalCompressedSize := some totalCompressedSize
    ordinal }
  modify fun w => { w with
    rowGroups := w.rowGroups.push rowGroup
    offsetIndexes := w.offsetIndexes.push (chunks.map Prod.snd) }

/-- Marks the writer as failed if an operation fails. -/
def failingFor {α : Type} (op : Step α) : Step α := fun w =>
  match op w with
  | (.ok a, w) => (.ok a, w)
  | (.error e, w) => (.error e, { w with phase := .failed })

/-- Writes a row group, given the values of each column of the schema in order. -/
def writeRowGroup (columns : List ColumnValues) : Step Unit := do
  checkUsable
  let w ← get
  if columns.length ≠ w.schema.numColumns then
    throw (.columnCount w.schema.numColumns columns.length)
  let rows := (columns.head?.map ColumnValues.length).getD 0
  let columns := w.schema.columns.zip columns
  checkRows rows columns
  let index := w.rowGroups.size
  let ordinal := int16? index
  if ordinal.isNone && w.encryption.isSome then
    throw (.ordinalTooLarge .rowGroup index)
  failingFor (writeColumns index ordinal rows columns)

/-! ### Finishing -/

/-- Writes the offset indexes of a row group and enters their places, up to the first failure. The
first list holds the chunks already done, latest first. -/
def placeChunkIndexes : (done : List ColumnChunk) → List ColumnChunk → List Bytes → Sink →
    List ColumnChunk × Except Error Unit × Sink
  | done, c :: chunks, index :: indexes, sink =>
    let start := sink.bytesWritten
    match (Sink.writeAll index : Sink.Step Unit) sink with
    | (.error e, sink) => (done.reverse ++ c :: chunks, .error e, sink)
    | (.ok (), sink) =>
      match int64 start with
      | .error e => (done.reverse ++ c :: chunks, .error e, sink)
      | .ok offset =>
        let c := { c with offsetIndexOffset := some offset }
        match int32 index.length with
        | .error e => (done.reverse ++ c :: chunks, .error e, sink)
        | .ok length =>
          placeChunkIndexes ({ c with offsetIndexLength := some length } :: done) chunks indexes
            sink
  | done, chunks, _, sink => (done.reverse ++ chunks, .ok (), sink)

/-- Writes the offset indexes of row groups and enters their places, up to the first failure. -/
def placeIndexes : (done : Array RowGroup) → List RowGroup → List (List Bytes) → Sink →
    Array RowGroup × Except Error Unit × Sink
  | done, g :: groups, indexes :: rest, sink =>
    match placeChunkIndexes [] g.columns indexes sink with
    | (columns, .ok (), sink) => placeIndexes (done.push { g with columns }) groups rest sink
    | (columns, .error e, sink) => (done.push { g with columns } ++ groups, .error e, sink)
  | done, groups, _, sink => (done ++ groups, .ok (), sink)

/-- Writes all offset indexes. -/
def writeIndexes : Step Unit := fun w =>
  let (rowGroups, result, sink) :=
    placeIndexes #[] w.rowGroups.toList w.offsetIndexes.toList w.sink
  (result, { w with rowGroups, sink })

/-- The metadata of the file. The encryption is described here only if the footer is signed. -/
def fileMetaData (w : FileWriter) : FileMetaData :=
  let signing := w.encryption.filter fun e => !e.properties.encryptedFooter
  { version := 1
    schemaName := w.schema.name
    schema := w.schema.toElements
    numRows := w.rowGroups.foldl (fun sum g => sum + g.numRows) 0
    rowGroups := w.rowGroups.toList
    createdBy := some w.properties.createdBy
    encryptionAlgorithm := signing.map FileEncryption.description
    footerSigningKeyMetadata := signing.bind fun e => e.properties.footerSigningKeyMetadata }

/-- The mode of the footer under some encryption or none. -/
def footerMode (encryption : Option FileEncryption) : FooterMode :=
  if encryption.any fun e => e.properties.encryptedFooter then .encrypted else .plaintext

/-- Writes the metadata section: in plain form, in plain form with the nonce and the tag of its own
sealing as signature, or sealed behind the description of the encryption. -/
def writeMetadataSection (metaData : FileMetaData) : Step Unit := do
  let plaintext := Wire.encode metaData
  match (← get).encryption with
  | none => put plaintext
  | some e =>
    if e.properties.encryptedFooter then
      put (Wire.encode e.cryptoMetaData)
      let sealer ← onEngines e.footerSealer
      put (← sealModule (← e.sealFooter sealer plaintext))
    else
      let sealer ← onEngines e.footerSealer
      put plaintext
      let sealedFooter ← sealModule (← e.sealFooter sealer plaintext)
      put ((sealedFooter.drop lengthWidth).take nonceLength)
      put (sealedFooter.drop (sealedFooter.length - tagLength))

/-- Writes the footer: the metadata section, its length and the magic word. -/
def writeFooter (metaData : FileMetaData) : Step Unit := do
  let start ← position
  writeMetadataSection metaData
  let length ← uint32 ((← position) - start)
  put (Bytes.ofNat 4 length.toNat)
  put (footerMode (← get).encryption).magic

/-- Finishes the file and returns its metadata. The engines are given up once
everything is written. -/
def finish : Step FileMetaData := do
  checkUsable
  modify fun w => { w with phase := .finished }
  writeIndexes
  let metaData := (← get).fileMetaData
  writeFooter metaData
  onSink Sink.flush
  modify fun w => { w with engines := {} }
  return metaData

/-- Finishes the file unless that was tried before, and gives up the writer for
the bytes of the file. -/
def release : Step Bytes := do
  if (← get).phase ≠ .finished then
    let _ ← finish
  onSink Sink.release

/-- A writer with nothing but the magic word written. -/
def create (schema : Schema) (properties : WriterProperties) (random : RandomSource)
    (sink : Sink := {}) : Except Error FileWriter := do
  let (encryption, random) ← match properties.encryption with
    | none => pure (none, random)
    | some p =>
      p.checkColumns schema
      let (fileUnique, random) := RandomSource.draw FileEncryption.fileUniqueLength random
      pure (some ⟨p, ← fileUnique⟩, random)
  let w : FileWriter := { schema, properties, encryption, random, sink }
  let (result, w) := (put (footerMode encryption).magic : Step Unit) w
  result
  return w

/-- The number of bytes written so far. -/
def bytesWritten (w : FileWriter) : Nat :=
  w.sink.bytesWritten

end FileWriter

end SealedColumns
