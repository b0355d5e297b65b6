import SealedColumns.Decryption.KeyRing
import SealedColumns.Encryption.Properties

/-!
# Decryption properties

What a reader brings along: explicit keys for the footer and for columns, a retriever for the other
keys, the prefix of the associated data, and a check of the prefix that a file stores. Both the
retriever and the check are functions supplied by the caller.
-/

namespace SealedColumns

/-- The explicit key of one column. -/
structure ColumnDecryption where
  path : ColumnPath
  key : Option Key
  deriving DecidableEq

namespace ColumnDecryption

/-- Column properties in the making. -/
structure Builder where
  path : ColumnPath
  key : Option Bytes := none

/-- Sets the key. An empty key is ignored. -/
def Builder.withKey (b : Builder) (key : Bytes) : Builder :=
  if key.isEmpty then b else { b with key := some key }

/-- The finished properties. -/
def Builder.build (b : Builder) : Except Error ColumnDecryption :=
  return ⟨b.path, ← Key.ofBytes? b.key⟩

end ColumnDecryption

/-- Accepts or refuses the prefix that a file stores. -/
abbrev AadPrefixVerifier := Bytes → Except Error Unit

/-- What a reader needs to decrypt a file. -/
structure DecryptionProperties where
  footerKey : Option Key
  columns : PathMap ColumnDecryption
  keyRetriever : Option KeyRetriever
  /-- Whether the signature of a footer in plain form is verified. -/
  checkFooterSignature : Bool
  aadPrefix : Option Bytes
  aadPrefixVerifier : Option AadPrefixVerifier

namespace DecryptionProperties

/-- Properties in the making. -/
structure Builder where
  footerKey : Option Bytes := none
  columns : PathMap ColumnDecryption := {}
  keyRetriever : Option KeyRetriever := none
  checkFooterSignature : Bool := true
  aadPrefix : Option Bytes := none
  aadPrefixVerifier : Option AadPrefixVerifier := none

namespace Builder

/-- Sets the explicit footer key. An empty key is ignored. -/
def withFooterKey (b : Builder) (key : Bytes) : Builder :=
  if key.isEmpty then b else { b with footerKey := some key }

/-- Sets the explicit column keys, once. An empty list is ignored. -/
def withColumns (b : Builder) (columns : List ColumnDecryption) : Except Error Builder := do
  if columns.isEmpty then return b
  if !b.columns.isEmpty then throw .columnPropertiesSet
  return { b with columns := ← collectColumns .decryption ColumnDecryption.path b.columns columns }

/-- Sets the retriever for keys that are not explicit. -/
def withKeyRetriever (b : Builder) (retriever : KeyRetriever) : Builder :=
  { b with keyRetriever := some retriever }

/-- Leaves the signature of a footer in plain form unverified. -/
def disableFooterSignatureCheck (b : Builder) : Builder :=
  { b with checkFooterSignature := false }

/-- Supplies the prefix of the associated data. An empty prefix is ignored. -/
def withAadPrefix (b : Builder) (aadPrefix : Bytes) : Builder :=
  if aadPrefix.isEmpty then b else { b with aadPrefix := some aadPrefix }

/-- Sets the check of a stored prefix. -/
def withAadPrefixVerifier (b : Builder) (verifier : AadPrefixVerifier) : Builder :=
  { b with aadPrefixVerifier := some verifier }

/-- The finished properties. -/
def build (b : Builder) : Except Error DecryptionProperties := do
  let footerKey ← Key.ofBytes? b.footerKey
  return {
    footerKey
    columns := b.columns
    keyRetriever := b.keyRetriever
    checkFooterSignature := b.checkFooterSignature
    aadPrefix := b.aadPrefix
    aadPrefixVerifier := b.aadPrefixVerifier }

end Builder

/-- The explicit key of a column. -/
def columnKey (p : DecryptionProperties) (path : ColumnPath) : Option Key :=
  (p.columns.get? path).bind ColumnDecryption.key

end DecryptionProperties

end SealedColumns
