import SealedColumns.Decryption.SealedStream
import SealedColumns.Footer.Trailer
import SealedColumns.Reader.FileInfo

/-!
# Opening files

A file is opened from its end. One window of bytes is read, the trailer in it tells length and mode
of the metadata section, and a second read fetches the section if the window does not hold it.

A section in plain form is the metadata, followed in encrypted files by a signature that is verified
unless the reader declines it. A sealed section is the description of the encryption followed by the
sealed metadata. In both cases the prefix stored in the file, if any, has to agree with the one that
the reader supplies and has to pass the reader's verifier.
-/

namespace SealedColumns

/-- The settings of a reader. -/
structure ReaderProperties where
  /-- The number of bytes read from the end of the file to begin with. -/
  footerReadSize : Nat := 65536
  decryption : Option DecryptionProperties := none

/-- The length of a footer signature: a nonce and a tag. -/
def signatureSize : Nat :=
  nonceLength + tagLength

namespace Opening

/-- The prefix that the associated data of the file starts with, from what is stored and
what the reader supplies. -/
def reconcilePrefix (stored : AadParameters) (properties : DecryptionProperties) :
    Session Bytes := do
  match stored.aadPrefix, properties.aadPrefix with
  | some stored, supplied =>
    if supplied.any (· ≠ stored) then throw .aadPrefixMismatch
    if let some verifier := properties.aadPrefixVerifier then
      Session.verify verifier stored
    return stored
  | none, some supplied => return supplied
  | none, none =>
    if stored.supplyAadPrefix.getD false then throw .aadPrefixMissing
    return []

/-- The decryption of a file with the given description. -/
def fileDecryption (description : EncryptionAlgorithm) (footerKeyMetadata : Option Bytes)
    (properties : DecryptionProperties) : Session FileDecryption := do
  let some fileUnique := description.parameters.fileUnique | throw .fileUniqueMissing
  let aadPrefix ← reconcilePrefix description.parameters properties
  return ⟨properties, description.algorithm, aadPrefix ++ fileUnique, footerKeyMetadata⟩

/-- Verifies the signature of a footer: the tag of sealing the footer under the
nonce in the signature. -/
def verifySignature (d : FileDecryption) (footer signature : Bytes) : Session Unit := do
  let key ← d.footerKey
  let aad ← footerAad d.fileAad
  let engine := key.engine .gcm .metadata
  let (nonce, tag) ← signature.cut nonceLength
  let sealedFooter ← engine.encryptForSignature footer key.bytes aad nonce
  let length := lengthWidth + footer.length + signatureSize
  if sealedFooter.length ≠ length then throw (.signedFooterLength sealedFooter.length length)
  let expected ← sealedFooter.sliceFrom (← subSizes sealedFooter.length tagLength)
  if tag ≠ expected then throw .signatureMismatch

/-- The row groups of a footer from position `i` on, after those in `acc`. Each has one
chunk for every column of the schema. A row group without ordinal gets its position, which
has to be a possible one. -/
def rowGroupInfos (numColumns : Nat) : (i : Nat) → (acc : Array RowGroupInfo) → List RowGroup →
    Except Error (Array RowGroupInfo)
  | _, acc, [] => .ok acc
  | i, acc, g :: rest => do
    if g.columns.length ≠ numColumns then
      throw (.rowGroupColumns i g.columns.length numColumns)
    let some ordinal := g.ordinal <|> int16? i | throw (.rowGroupOrdinal i)
    rowGroupInfos numColumns (i + 1)
      (acc.push ⟨g.columns, g.numRows, g.totalByteSize, g.fileOffset, ordinal⟩) rest

/-- The metadata of an open file from that in its footer. -/
def fileInfo (m : FileMetaData) (decryption : Option FileDecryption) : Except Error FileInfo := do
  let schema ← Schema.ofElements m.schemaName m.schema
  let rowGroups ← rowGroupInfos schema.numColumns 0 #[] m.rowGroups
  return { version := m.version, numRows := m.numRows, createdBy := m.createdBy, schema, rowGroups,
           decryption }

/-- Reads a metadata section in plain form. Without encryption it holds the
metadata and nothing else. -/
def plaintextSection (properties : Option DecryptionProperties) (bs : Bytes) :
    Session FileInfo := do
  let ((metaData : FileMetaData), consumed) ← decodePart bs
  match metaData.encryptionAlgorithm, properties with
  | none, _ =>
    if consumed ≠ bs.length then throw (.footerTrailingBytes (← subSizes bs.length consumed))
    fileInfo metaData none
  | some _, none => fileInfo metaData none
  | some description, some properties =>
    let d ← fileDecryption description metaData.footerSigningKeyMetadata properties
    if properties.checkFooterSignature then
      let signature ← bs.sliceFrom consumed
      if signature.length ≠ signatureSize then throw (.signatureLength signature.length)
      verifySignature d (← bs.slice 0 consumed) signature
    fileInfo metaData (some d)

/-- What the failure to read a sealed footer means for the file. -/
def sealedFooterError (e : Error) : Error :=
  match e.kind with
  | .authenticationFailure => .footerUndecryptable
  | .endOfFile | .external => .encryptedFooterCutShort e
  | _ => e

/-- Reads a sealed metadata section. -/
def encryptedSection (properties : Option DecryptionProperties) (bs : Bytes) :
    Session FileInfo := do
  let some properties := properties | throw .decryptionMissing
  let ((crypto : FileCryptoMetaData), consumed) ← decodePart bs
  let d ← fileDecryption crypto.encryptionAlgorithm crypto.keyMetadata properties
  let opener ← d.footerOpener
  let aad ← footerAad d.fileAad
  let input ← bs.sliceFrom consumed
  let (plain, rest) ← ExceptT.adapt sealedFooterError
    (readSealed (opener.decrypt aad) input : Except Error (Bytes × Bytes))
  if !rest.isEmpty then throw (.encryptedFooterTrailingBytes rest.length)
  let ((metaData : FileMetaData), _) ← decodeFront plain
  fileInfo metaData (some d)

/-- The end of a file that was read to begin with, and the trailer in it. -/
structure Window where
  bytes : Bytes
  trailer : Trailer

/-- Reads the end of a file and finds the trailer in it. -/
def readWindow (properties : ReaderProperties) (source : ByteSource) : Session Window := do
  let size := source.size
  if size < Trailer.size then throw (.fileTooSmall size)
  let windowSize := min size (max properties.footerReadSize Trailer.size)
  let window ← Session.read source (← subSizes size windowSize) windowSize
  let trailer ← Trailer.decode (← window.sliceFrom (← subSizes window.length Trailer.size))
  return ⟨window, trailer⟩

/-- The metadata section in front of the trailer, which is read unless the window holds it. -/
def readSection (source : ByteSource) (window : Window) : Session Bytes := do
  let size := source.size
  let footerSize ← addSizes Trailer.size window.trailer.metadataLength
  if size < footerSize then throw (.metadataLength window.trailer.metadataLength size)
  if window.bytes.length < footerSize then
    Session.read source (← subSizes size footerSize) window.trailer.metadataLength
  else
    window.bytes.slice (← subSizes window.bytes.length footerSize)
      (← subSizes window.bytes.length Trailer.size)

/-- Reads the footer of a file whose trailer is known. -/
def readDetected (properties : ReaderProperties) (source : ByteSource) (window : Window) :
    Session FileInfo := do
  let bs ← readSection source window
  match window.trailer.mode with
  | .plaintext => plaintextSection properties.decryption bs
  | .encrypted => encryptedSection properties.decryption bs

/-- Reads the footer of a file. -/
def readFooter (properties : ReaderProperties) (source : ByteSource) : Session FileInfo := do
  readDetected properties source (← readWindow properties source)

end Opening

/-- Reads the footer of one file, once. -/
structure FooterReader where
  properties : ReaderProperties
  state : OpeningState := .unopened
  /-- The metadata read, until it is handed out. -/
  info : Option FileInfo := none

namespace FooterReader

/-- Tries to read the footer of a file. Only the first attempt has any effect. The reader notes the
mode of the footer once it knows the trailer, and how the attempt ended. -/
def tryParse (reader : FooterReader) (source : ByteSource) :
    StateM ReadState (Except Error Unit × FooterReader) := do
  if reader.state ≠ .unopened then
    return (.error (.metadataReaderUsed reader.state), reader)
  match ← (Opening.readWindow reader.properties source).run with
  | .error e => return (.error e, { reader with state := .failed })
  | .ok window =>
    let reader := { reader with state := .footerDetected window.trailer.mode }
    match ← (Opening.readDetected reader.properties source window).run with
    | .ok info => return (.ok (), { reader with state := .metadataParsed, info := some info })
    | .error e => return (.error e, { reader with state := .failed })

/-- Hands out the metadata, once. -/
def finish (reader : FooterReader) : Except Error FileInfo × FooterReader :=
  match reader.info with
  | some info => (.ok info, { reader with info := none })
  | none => (.error .metadataNotParsed, reader)

end FooterReader

end SealedColumns
