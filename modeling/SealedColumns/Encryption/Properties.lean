import SealedColumns.Cipher.Engine
import SealedColumns.Schema

/-!
# Encryption properties

How a file is to be encrypted: algorithm, footer key, prefix of the associated data, and the columns
to encrypt. Properties are put together by a builder that keeps what it is given and checks keys at
the end. Without column properties the whole file is encrypted with the footer key; otherwise
exactly the columns with properties are, each with its own key or else the footer key.
-/

namespace SealedColumns

/-- The encryption of one column. Columns that are not to be encrypted have no such properties. -/
structure ColumnEncryption where
  path : ColumnPath
  isEncrypted : Bool
  /-- Whether the footer key protects the column. -/
  usesFooterKey : Bool
  /-- The column's own key; without one the footer key is used. -/
  key : Option Key
  /-- What a key retriever needs to find the column's own key. -/
  keyMetadata : Option Bytes
  isEncrypted_eq : isEncrypted = true := by rfl
  usesFooterKey_eq : usesFooterKey = key.isNone := by rfl
  deriving DecidableEq

namespace ColumnEncryption

/-- Column properties in the making. -/
structure Builder where
  path : ColumnPath
  key : Option Bytes := none
  keyMetadata : Option Bytes := none

namespace Builder

/-- Sets the column's own key. An empty key is ignored. -/
def withKey (b : Builder) (key : Bytes) : Builder :=
  if key.isEmpty then b else { b with key := some key }

/-- Sets the key metadata, once. Empty metadata is ignored. -/
def withKeyMetadata (b : Builder) (keyMetadata : Bytes) : Except Error Builder :=
  if keyMetadata.isEmpty then .ok b
  else if b.keyMetadata.isSome then .error (.columnKeyMetadataSet b.path)
  else .ok { b with keyMetadata := some keyMetadata }

/-- Sets a key identifier as key metadata. -/
def withKeyId (b : Builder) (id : String) : Except Error Builder :=
  b.withKeyMetadata (Utf8.encode id)

/-- The finished properties. Key metadata makes sense only with a key. -/
def build (b : Builder) : Except Error ColumnEncryption := do
  let key ← Key.ofBytes? b.key
  if key.isNone && b.keyMetadata.isSome then throw (.columnKeyMetadataAlone b.path)
  return {
    path := b.path
    isEncrypted := true
    usesFooterKey := key.isNone
    key
    keyMetadata := b.keyMetadata }

end Builder

end ColumnEncryption

/-- Puts column properties into a map; two sets for one path are refused. -/
def collectColumns {α : Type} (role : PropertyRole) (path : α → ColumnPath) :
    (m : PathMap α) → List α → Except Error (PathMap α)
  | m, [] => .ok m
  | m, a :: rest =>
    if m.contains (path a) then .error (.columnPropertiesRepeated (path a) role)
    else collectColumns role path (m.insert (path a) a) rest

/-- The encryption of a file. -/
structure EncryptionProperties where
  algorithm : Algorithm
  /-- Whether the footer is sealed; otherwise it is signed. -/
  encryptedFooter : Bool
  footerKey : Key
  footerKeyMetadata : Option Bytes
  aadPrefix : Option Bytes
  /-- Whether the prefix was asked to be stored. -/
  storeAadPrefix : Bool
  columns : PathMap ColumnEncryption

namespace EncryptionProperties

/-- File properties in the making. -/
structure Builder where
  footerKey : Bytes
  algorithm : Algorithm := .gcm
  encryptedFooter : Bool := true
  footerKeyMetadata : Option Bytes := none
  aadPrefix : Option Bytes := none
  storeAadPrefix : Bool := false
  columns : PathMap ColumnEncryption := {}

namespace Builder

/-- Chooses between a signed footer in plain form and a sealed footer. -/
def withPlaintextFooter (b : Builder) (plaintext : Bool) : Builder :=
  { b with encryptedFooter := !plaintext }

/-- Sets the algorithm. -/
def withAlgorithm (b : Builder) (algorithm : Algorithm) : Builder :=
  { b with algorithm }

/-- Sets the metadata of the footer key, once. Empty metadata is ignored. -/
def withFooterKeyMetadata (b : Builder) (keyMetadata : Bytes) : Except Error Builder :=
  if keyMetadata.isEmpty then .ok b
  else if b.footerKeyMetadata.isSome then .error .footerKeyMetadataSet
  else .ok { b with footerKeyMetadata := some keyMetadata }

/-- Sets a key identifier as metadata of the footer key. -/
def withFooterKeyId (b : Builder) (id : String) : Except Error Builder :=
  b.withFooterKeyMetadata (Utf8.encode id)

/-- Sets the prefix and has it stored. An empty prefix is ignored. -/
def withAadPrefix (b : Builder) (aadPrefix : Bytes) : Builder :=
  if aadPrefix.isEmpty then b
  else { b with aadPrefix := some aadPrefix, storeAadPrefix := true }

/-- Has the prefix, which must be set, left out of the file. -/
def disableAadPrefixStorage (b : Builder) : Except Error Builder :=
  if b.aadPrefix.isNone then .error .aadPrefixNotSet else .ok { b with storeAadPrefix := false }

/-- Sets the columns to encrypt, once. An empty list is ignored. -/
def withColumns (b : Builder) (columns : List ColumnEncryption) : Except Error Builder := do
  if columns.isEmpty then return b
  if !b.columns.isEmpty then throw .columnPropertiesSet
  return { b with columns := ← collectColumns .encryption ColumnEncryption.path b.columns columns }

/-- The finished properties. -/
def build (b : Builder) : Except Error EncryptionProperties := do
  let footerKey ← Key.ofBytes b.footerKey
  return {
    algorithm := b.algorithm
    encryptedFooter := b.encryptedFooter
    footerKey
    footerKeyMetadata := b.footerKeyMetadata
    aadPrefix := b.aadPrefix
    storeAadPrefix := b.storeAadPrefix
    columns := b.columns }

end Builder

/-- Whether every column is encrypted with the footer key. -/
def isUniform (p : EncryptionProperties) : Bool :=
  p.columns.isEmpty

/-- Whether a column is encrypted. -/
def encryptsColumn (p : EncryptionProperties) (path : ColumnPath) : Bool :=
  p.isUniform || p.columns.contains path

/-- Whether the prefix is stored in the file. -/
def storesAadPrefix (p : EncryptionProperties) : Bool :=
  p.storeAadPrefix && p.aadPrefix.isSome

/-- The key that seals the footer, if it is sealed. -/
def footerEncryptionKey (p : EncryptionProperties) : Option Key :=
  if p.encryptedFooter then some p.footerKey else none

/-- The metadata of the key that seals the footer. -/
def footerEncryptionKeyMetadata (p : EncryptionProperties) : Option Bytes :=
  if p.encryptedFooter then p.footerKeyMetadata else none

/-- The key that signs the footer, if it is signed. -/
def footerSigningKey (p : EncryptionProperties) : Option Key :=
  if p.encryptedFooter then none else some p.footerKey

/-- The metadata of the key that signs the footer. -/
def footerSigningKeyMetadata (p : EncryptionProperties) : Option Bytes :=
  if p.encryptedFooter then none else p.footerKeyMetadata

/-- The key of a column, if the column is encrypted. -/
def columnKey (p : EncryptionProperties) (path : ColumnPath) : Option Key :=
  if p.isUniform then some p.footerKey
  else (p.columns.get? path).map fun c => c.key.getD p.footerKey

/-- What the file says about the key of a column, if the column is encrypted. -/
def columnCrypto (p : EncryptionProperties) (path : ColumnPath) : Option ColumnCrypto :=
  if p.isUniform then some .footerKey
  else (p.columns.get? path).map fun c =>
    if c.usesFooterKey then .footerKey else .columnKey ⟨path.parts, c.keyMetadata⟩

/-- Fails if a column to encrypt is not in the schema. -/
def checkColumns (p : EncryptionProperties) (schema : Schema) : Except Error Unit :=
  let missing := p.columns.paths.filter fun path => (schema.indexOf? path).isNone
  if missing.isEmpty then .ok () else .error (.columnsNotInSchema missing)

/-- What the file says about its encryption. -/
def description (p : EncryptionProperties) (fileUnique : Bytes) : EncryptionAlgorithm where
  algorithm := p.algorithm
  parameters := {
    aadPrefix := if p.storesAadPrefix then p.aadPrefix else none
    fileUnique := some fileUnique
    supplyAadPrefix := p.aadPrefix.map fun _ => !p.storesAadPrefix }

end EncryptionProperties

end SealedColumns
