import SealedColumns.Cipher.Engine
import SealedColumns.Wire

/-!
# Stored description of the encryption

What a file says about its own encryption: the algorithm, the parts of the associated data that are
stored, and how a reader finds the keys of the footer and of each column.
-/

namespace SealedColumns

namespace Algorithm

/-- Both algorithms, in the order of their stored indices. -/
def all : List Algorithm :=
  [gcm, gcmCtr]

/-- The stored index of an algorithm. -/
def index : Algorithm → Nat
  | gcm => 0
  | gcmCtr => 1

instance : Wire Algorithm :=
  Wire.ofVariants all index

end Algorithm

/-- The stored parts of the associated data of a file. -/
structure AadParameters where
  /-- The prefix, where it is stored. -/
  aadPrefix : Option Bytes
  /-- The random identifier of the file. -/
  fileUnique : Option Bytes
  /-- Whether a reader has to supply the prefix. -/
  supplyAadPrefix : Option Bool
  deriving DecidableEq

instance : Wire AadParameters :=
  Wire.ofEquivalent (α := Option Bytes × Option Bytes × Option Bool)
    (fun p => (p.aadPrefix, p.fileUnique, p.supplyAadPrefix))
    (fun (aadPrefix, fileUnique, supplyAadPrefix) => ⟨aadPrefix, fileUnique, supplyAadPrefix⟩)

/-- The algorithm of a file with the parameters stored for it. -/
structure EncryptionAlgorithm where
  algorithm : Algorithm
  parameters : AadParameters
  deriving DecidableEq

instance : Wire EncryptionAlgorithm :=
  Wire.ofEquivalent (α := Algorithm × AadParameters)
    (fun a => (a.algorithm, a.parameters)) (fun (a, p) => ⟨a, p⟩)

/-- What stands in front of an encrypted footer. -/
structure FileCryptoMetaData where
  encryptionAlgorithm : EncryptionAlgorithm
  /-- What a key retriever needs to find the footer key. -/
  keyMetadata : Option Bytes
  deriving DecidableEq

instance : Wire FileCryptoMetaData :=
  Wire.ofEquivalent (α := EncryptionAlgorithm × Option Bytes)
    (fun m => (m.encryptionAlgorithm, m.keyMetadata)) (fun (a, k) => ⟨a, k⟩)

/-- The stored description of a column key. -/
structure ColumnKeyInfo where
  /-- The names of the column's path. -/
  pathInSchema : List String
  /-- What a key retriever needs to find the key. -/
  keyMetadata : Option Bytes
  deriving DecidableEq

instance : Wire ColumnKeyInfo :=
  Wire.ofEquivalent (α := List String × Option Bytes)
    (fun k => (k.pathInSchema, k.keyMetadata)) (fun (p, k) => ⟨p, k⟩)

/-- The key that an encrypted column chunk is sealed with. -/
inductive ColumnCrypto where
  /-- The key of the footer. -/
  | footerKey
  /-- A key of the column's own. -/
  | columnKey (info : ColumnKeyInfo)
  deriving DecidableEq

instance : Wire ColumnCrypto where
  encode
    | .footerKey => Bytes.ofNat 4 0
    | .columnKey info => Bytes.ofNat 4 1 ++ Wire.encode info
  decode := do
    match ← Decoder.variant 2 with
    | 0 => return .footerKey
    | _ => return .columnKey (← Wire.decode)

end SealedColumns
