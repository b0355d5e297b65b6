import SealedColumns.Schema.ColumnPath
import SealedColumns.Schema.PhysicalType
import SealedColumns.Text.Quoted

/-!
# Errors

Everything that can go wrong is a cause. A cause belongs to a kind, which tells a caller how to
react, and has a wording; `Error.message` is the label of the kind followed by the wording.

The kind `assertion` is for causes that report a broken promise of a caller or of the library
itself, such as a slice outside its byte string. The reading operations check every slice and every
sum of sizes, so that the absence of such causes can be stated and proved.
-/

namespace SealedColumns

/-- How a caller should take an error. -/
inductive ErrorKind where
  | general
  | endOfFile
  | indexOutOfBound
  | external
  | encryptionConfig
  | corruptFile
  | authenticationFailure
  | keyNotFound
  | aadPrefixMismatch
  | missingAadPrefix
  | footerIntegrity
  /-- A promise was broken; see the module comment. -/
  | assertion
  deriving DecidableEq

/-- The label that stands before the wording of a cause. -/
def ErrorKind.label : ErrorKind → String
  | .general => "Parquet error: "
  | .endOfFile => "EOF: "
  | .indexOutOfBound => ""
  | .external => "External: "
  | .encryptionConfig => "Encryption configuration error: "
  | .corruptFile => "Corrupt file: "
  | .authenticationFailure => "Authentication failure: "
  | .keyNotFound => "Key not found: "
  | .aadPrefixMismatch => "AAD prefix mismatch: "
  | .missingAadPrefix => "Missing AAD prefix: "
  | .footerIntegrity => "Footer integrity error: "
  | .assertion => ""

/-- What an ordinal counts. -/
inductive OrdinalKind where
  | rowGroup
  | column
  | page
  deriving DecidableEq

/-- The things counted by an ordinal. -/
def OrdinalKind.plural : OrdinalKind → String
  | .rowGroup => "row groups"
  | .column => "columns"
  | .page => "pages per column chunk"

/-- The largest ordinal that a module of an encrypted file can have. -/
def maxOrdinal : Nat :=
  32767

/-- The wording for an ordinal that is too large. -/
def OrdinalKind.tooLarge (kind : OrdinalKind) (ordinal : Nat) : String :=
  s!"Encrypted parquet files can't have more than {maxOrdinal} {kind.plural}: {ordinal}"

/-- Whose key is looked for. -/
inductive KeySubject where
  | footer
  | column (path : ColumnPath)
  deriving DecidableEq

/-- The wording for the subject of a key. -/
def KeySubject.name : KeySubject → String
  | .footer => "footer"
  | .column path => s!"column '{path.dotted}'"

/-- What column properties are for. -/
inductive PropertyRole where
  | encryption
  | decryption
  deriving DecidableEq

/-- The name of a role. -/
def PropertyRole.name : PropertyRole → String
  | .encryption => "encryption"
  | .decryption => "decryption"

/-- Whether a footer can be read without its key. -/
inductive FooterMode where
  /-- In plain form, signed if the file is encrypted. -/
  | plaintext
  /-- Sealed. -/
  | encrypted
  deriving DecidableEq

/-- The name of a mode. -/
def FooterMode.name : FooterMode → String
  | .plaintext => "Plaintext"
  | .encrypted => "Encrypted"

/-- How far a metadata reader has come. -/
inductive OpeningState where
  /-- Nothing was read yet. -/
  | unopened
  /-- The trailer was read and told the mode of the footer. -/
  | footerDetected (mode : FooterMode)
  /-- The footer was read and understood. -/
  | metadataParsed
  /-- Reading the footer failed. -/
  | failed
  deriving DecidableEq

/-- The name of a state. -/
def OpeningState.name : OpeningState → String
  | .unopened => "Unopened"
  | .footerDetected mode => s!"FooterDetected({mode.name})"
  | .metadataParsed => "MetadataParsed"
  | .failed => "Failed"

/-- The causes of failure. -/
inductive Error where
  /-- A failure that a caller's own code reported. -/
  | reported (kind : ErrorKind) (text : String)
  -- ordinals, AADs and modules
  | ordinalTooLarge (kind : OrdinalKind) (ordinal : Nat)
  | pageOrdinalMissing
  | aadTooShort (length : Nat)
  | moduleTooLarge (length : Nat)
  | signingNeedsGcm
  | nonceLength (length : Nat)
  | ciphertextTooShort (length minimum : Nat)
  | ciphertextLength (announced actual : Nat)
  | tagMismatch
  | ciphertextCutShort (announced found : Nat)
  | lengthCutShort
  | randomnessExhausted
  -- words
  | numberTooSmall
  | numberTooLarge
  -- keys
  | keyLength (length : Nat)
  | engineKeyLength (length expected : Nat)
  | keyIdNotText (fault : Utf8.Fault)
  | unknownTextKeyId (id : String)
  | keyIdLength (length : Nat)
  | unknownNumericKeyId (id : Nat)
  | noKeySource (subject : KeySubject)
  | noKeyMetadata (subject : KeySubject)
  | keyRetrieval (subject : KeySubject) (cause : Error)
  | keysReleased
  -- encryption and decryption properties
  | columnKeyMetadataSet (path : ColumnPath)
  | columnKeyMetadataAlone (path : ColumnPath)
  | footerKeyMetadataSet
  | aadPrefixNotSet
  | columnPropertiesSet
  | columnPropertiesRepeated (path : ColumnPath) (role : PropertyRole)
  | columnsNotInSchema (paths : List ColumnPath)
  | pageRowLimitZero
  -- schemas and values
  | columnPathEmpty
  | columnRepeated (path : ColumnPath)
  | indexOutOfBound (index bound : Nat)
  | appendType (given expected : PhysicalType)
  | valuesCutShort (count : Nat)
  | byteArrayCutShort (length : Nat)
  | indicesCutShort (count : Nat)
  | dictionaryEncoding (encoding : Encoding)
  | dictionaryRepeated
  | dictionaryMissing
  -- writing
  | columnCount (expected given : Nat)
  | rowCount (path : ColumnPath) (expected given : Nat)
  | columnType (path : ColumnPath) (expected given : PhysicalType)
  | writerFinished
  | writerFailed
  | sinkFull
  | sinkNotReleased (cause : String)
  -- byte sources
  | sourceRange (length start size : Nat)
  | sourceShort (length found : Nat)
  | sourcePosition
  -- footers
  | fileTooSmall (size : Nat)
  | footerMagic
  | metadataLength (length size : Nat)
  | undecodable (fault : DecodeFault)
  | schemaInvalid (cause : Error)
  | rowGroupColumns (rowGroup given expected : Nat)
  | rowGroupOrdinal (rowGroup : Nat)
  | fileUniqueMissing
  | footerTrailingBytes (count : Nat)
  | signatureLength (length : Nat)
  | signatureMismatch
  | decryptionMissing
  | footerUndecryptable
  | encryptedFooterCutShort (cause : Error)
  | encryptedFooterTrailingBytes (count : Nat)
  | aadPrefixMismatch
  | aadPrefixMissing
  | metadataReaderUsed (state : OpeningState)
  | metadataNotParsed
  -- row groups and pages
  | readerClosed (rowGroup : Nat)
  | columnEncrypted (path : ColumnPath)
  | columnMetadataEncrypted (path : ColumnPath)
  | columnMetadataMissing (path : ColumnPath)
  | columnMetadataType (path : ColumnPath) (inSchema inMetadata : PhysicalType)
  | columnMetadataNegative (path : ColumnPath)
  | chunkEnded (remaining : Int)
  | unexpectedPage (kind : PageKind) (page : Nat)
  | pageTooLong (length left : Nat)
  -- broken promises
  | sliceOutOfRange (start stop length : Nat)
  | sizeOverflow
  | negativeByteRange
  | signedFooterLength (length expected : Nat)

namespace Error

/-- The kind of a cause. -/
def kind : Error → ErrorKind
  | reported kind _ => kind
  | ordinalTooLarge .. | pageOrdinalMissing | aadTooShort _ | moduleTooLarge _ | signingNeedsGcm
  | nonceLength _ | numberTooSmall | numberTooLarge | keysReleased | columnPathEmpty
  | columnRepeated _ | appendType .. | columnCount .. | rowCount .. | columnType ..
  | writerFinished | writerFailed | sinkNotReleased _ | metadataReaderUsed _
  | metadataNotParsed | readerClosed _ => .general
  | ciphertextCutShort .. | valuesCutShort _ | byteArrayCutShort _ | indicesCutShort _
  | sourceRange .. | sourceShort .. | chunkEnded _ | pageTooLong .. => .endOfFile
  | indexOutOfBound .. => .indexOutOfBound
  | lengthCutShort | randomnessExhausted | sinkFull | sourcePosition => .external
  | keyLength _ | engineKeyLength .. | columnKeyMetadataSet _ | columnKeyMetadataAlone _
  | footerKeyMetadataSet | aadPrefixNotSet | columnPropertiesSet | columnPropertiesRepeated ..
  | columnsNotInSchema _ | decryptionMissing | columnEncrypted _
  | columnMetadataEncrypted _ => .encryptionConfig
  | dictionaryEncoding _ | dictionaryRepeated | dictionaryMissing | fileTooSmall _ | footerMagic
  | metadataLength .. | undecodable _ | schemaInvalid _ | rowGroupColumns .. | rowGroupOrdinal _
  | fileUniqueMissing | footerTrailingBytes _ | signatureLength _ | encryptedFooterCutShort _
  | encryptedFooterTrailingBytes _ | columnMetadataMissing _ | columnMetadataType ..
  | columnMetadataNegative _ | unexpectedPage .. => .corruptFile
  | ciphertextTooShort .. | ciphertextLength .. | tagMismatch
  | footerUndecryptable => .authenticationFailure
  | keyIdNotText _ | unknownTextKeyId _ | keyIdLength _ | unknownNumericKeyId _ | noKeySource _
  | noKeyMetadata _ | keyRetrieval .. => .keyNotFound
  | aadPrefixMismatch => .aadPrefixMismatch
  | aadPrefixMissing => .missingAadPrefix
  | signatureMismatch => .footerIntegrity
  | pageRowLimitZero | sliceOutOfRange .. | sizeOverflow | negativeByteRange
  | signedFooterLength .. => .assertion

/-- The wording of a cause, without the label of its kind. -/
def detail : Error → String
  | reported _ text => text
  | ordinalTooLarge kind ordinal => kind.tooLarge ordinal
  | pageOrdinalMissing => "Page ordinal must be set for data pages"
  | aadTooShort length => s!"AAD of {length} bytes has no page ordinal"
  | moduleTooLarge length => s!"Module of {length} bytes is too large to encrypt"
  | signingNeedsGcm => "Must use AES-GCM cipher for footer signing"
  | nonceLength length => s!"Wrong nonce length {length}"
  | ciphertextTooShort length minimum =>
    s!"Ciphertext of {length} bytes is shorter than the minimum of {minimum}"
  | ciphertextLength announced actual =>
    s!"Wrong ciphertext length {announced}, expected {actual}"
  | tagMismatch => "Failed to decrypt module: tag mismatch"
  | ciphertextCutShort announced found =>
    s!"Expected {announced} bytes of ciphertext, got {found}"
  | lengthCutShort => "failed to fill whole buffer"
  | randomnessExhausted => "ring::error::Unspecified"
  | numberTooSmall => "Integer overflow: number too small to fit in target type"
  | numberTooLarge => "Integer overflow: number too large to fit in target type"
  | keyLength length => s!"Wrong key length: {length}. Keys must be 16, 24 or 32 bytes"
  | engineKeyLength length expected =>
    s!"Wrong key length {length}, engine expects {expected} bytes"
  | keyIdNotText fault => "Could not convert key metadata to string: " ++ fault.message
  | unknownTextKeyId id => "Could not retrieve key for id " ++ Text.quote id
  | keyIdLength length => s!"Integer key id must be 4 bytes, got {length}"
  | unknownNumericKeyId id => s!"Could not retrieve key for id {id}"
  | noKeySource subject => s!"No key or key retriever available for {subject.name}"
  | noKeyMetadata subject => s!"No key metadata available to retrieve key for {subject.name}"
  | keyRetrieval subject cause =>
    s!"Could not retrieve key for {subject.name}: " ++ cause.kind.label ++ cause.detail
  | keysReleased => "Decryption keys of the file have been wiped out"
  | columnKeyMetadataSet path => s!"Key metadata already set for column {path.dotted}"
  | columnKeyMetadataAlone path =>
    s!"Key metadata set for column {path.dotted} without a column key"
  | footerKeyMetadataSet => "Footer key metadata already set"
  | aadPrefixNotSet => "AAD prefix not yet set"
  | columnPropertiesSet => "Column properties already set"
  | columnPropertiesRepeated path role =>
    s!"Column {path.dotted} has more than one set of {role.name} properties"
  | columnsNotInSchema paths =>
    "The following columns with encryption keys specified were not found in the schema: " ++
      String.intercalate ", " (paths.map ColumnPath.dotted)
  | pageRowLimitZero => "Cannot have a 0 data page row count limit"
  | columnPathEmpty => "Column path must not be empty"
  | columnRepeated path => s!"Duplicate column in schema: {path.dotted}"
  | indexOutOfBound index bound => s!"Index {index} out of bound: {bound}"
  | appendType given expected =>
    s!"Cannot append {given.name} values to a {expected.name} column"
  | valuesCutShort count => s!"Not enough bytes to decode {count} values"
  | byteArrayCutShort length => s!"Not enough bytes to decode byte array of {length}"
  | indicesCutShort count => s!"Not enough bytes to decode {count} indices"
  | dictionaryEncoding encoding => s!"Unsupported dictionary page encoding {encoding.name}"
  | dictionaryRepeated => "Column chunk has more than one dictionary page"
  | dictionaryMissing => "Dictionary encoded page without a dictionary page"
  | columnCount expected given => s!"Column length mismatch: {expected} != {given}"
  | rowCount path expected given =>
    s!"Incorrect number of rows in column '{path.dotted}', expected {expected} != {given} rows"
  | columnType path expected given =>
    s!"Column '{path.dotted}' expects {expected.name} values, got {given.name}"
  | writerFinished => "SerializedFileWriter already finished"
  | writerFailed => "SerializedFileWriter failed while writing a row group"
  | sinkFull => "sink is full"
  | sinkNotReleased cause => "fail to get inner writer: " ++ Text.quote cause
  | sourceRange length start size =>
    s!"Expected to read {length} bytes at offset {start}, but source has {size} bytes"
  | sourceShort length found => s!"Expected to read {length} bytes, read only {found}"
  | sourcePosition => "Invalid argument (os error 22)"
  | fileTooSmall size => s!"Invalid Parquet file. Size is smaller than footer: {size}"
  | footerMagic => "Invalid Parquet file. Corrupt footer"
  | metadataLength length size =>
    s!"Invalid Parquet file. Reported metadata length of {length} + 8 byte footer, " ++
      s!"but file is only {size} bytes"
  | undecodable fault => "Could not parse metadata: " ++ fault.message
  | schemaInvalid cause => "Invalid schema: " ++ cause.kind.label ++ cause.detail
  | rowGroupColumns rowGroup given expected =>
    s!"Row group {rowGroup} has {given} columns, schema has {expected}"
  | rowGroupOrdinal rowGroup => OrdinalKind.rowGroup.tooLarge rowGroup
  | fileUniqueMissing => "AAD unique file identifier is not set"
  | footerTrailingBytes count => s!"Footer metadata has {count} trailing bytes"
  | signatureLength length =>
    s!"Plaintext footer is followed by {length} bytes, expected a 28 byte signature"
  | signatureMismatch => "Signature mismatch in plaintext footer"
  | decryptionMissing =>
    "Parquet file has an encrypted footer but decryption properties were not provided"
  | footerUndecryptable => "Provided footer key and AAD were unable to decrypt parquet footer"
  | encryptedFooterCutShort cause =>
    "Encrypted footer is truncated: " ++ cause.kind.label ++ cause.detail
  | encryptedFooterTrailingBytes count => s!"Encrypted footer has {count} trailing bytes"
  | aadPrefixMismatch =>
    "AAD prefix used for file encryption does not match the AAD prefix supplied " ++
      "in decryption properties"
  | aadPrefixMissing =>
    "AAD prefix used for file encryption, but not stored in file and not supplied " ++
      "in decryption properties"
  | metadataReaderUsed state => s!"Cannot parse metadata in state {state.name}"
  | metadataNotParsed => "could not parse parquet metadata"
  | readerClosed rowGroup => s!"Cannot read row group {rowGroup} in state Closed"
  | columnEncrypted path =>
    s!"Column '{path.dotted}' is encrypted but no decryption properties were provided"
  | columnMetadataEncrypted path =>
    s!"Column '{path.dotted}' metadata is encrypted but no decryption properties were provided"
  | columnMetadataMissing path => s!"Column '{path.dotted}' metadata is missing"
  | columnMetadataType path inSchema inMetadata =>
    s!"Column '{path.dotted}' has type {inSchema.name} in the schema but " ++
      s!"{inMetadata.name} in its metadata"
  | columnMetadataNegative path =>
    s!"Column '{path.dotted}' has negative sizes or offsets in its metadata"
  | chunkEnded remaining => s!"Column chunk ended with {remaining} values remaining"
  | unexpectedPage kind page => s!"Unexpected {kind.name} at page {page} of column chunk"
  | pageTooLong length left =>
    s!"Page of {length} bytes exceeds the {left} bytes left in the column chunk"
  | sliceOutOfRange start stop length =>
    s!"range {start}..{stop} out of range for a byte string of {length} bytes"
  | sizeOverflow => "a size exceeds 64 bits"
  | negativeByteRange => "column start and length should not be negative"
  | signedFooterLength length expected =>
    s!"signed footer of {length} bytes, expected {expected}"

/-- The whole text of an error. -/
def message (e : Error) : String :=
  e.kind.label ++ e.detail

end Error

end SealedColumns
