import SealedColumns.Checked
import SealedColumns.Cipher.Aes
import SealedColumns.Cipher.Gcm
import SealedColumns.Cipher.Key
import SealedColumns.RandomSource

/-!
# Engines and sealed modules

An engine seals and opens modules of one class under one algorithm with keys of one
length. Metadata is always sealed with GCM; data is sealed with GCM or, under the second
algorithm, in plain counter mode.

A sealed module is its length in four bytes, a nonce of twelve bytes, the ciphertext, and under GCM
a tag of sixteen bytes; the length counts what comes after it.
-/

namespace SealedColumns

/-- The two algorithms of encrypted files. -/
inductive Algorithm where
  /-- GCM for every module. -/
  | gcm
  /-- GCM for metadata and page headers, counter mode for page bodies. -/
  | gcmCtr
  deriving DecidableEq

/-- The name of an algorithm. -/
def Algorithm.name : Algorithm → String
  | .gcm => "AES_GCM_V1"
  | .gcmCtr => "AES_GCM_CTR_V1"

/-- What a module holds, as far as the choice of a cipher mode goes. -/
inductive ModuleClass where
  /-- Headers, indexes, column metadata and footers. -/
  | metadata
  /-- Page bodies. -/
  | data
  deriving DecidableEq

/-- How a module is sealed. -/
inductive CipherMode where
  /-- With a tag. -/
  | gcm
  /-- Without a tag. -/
  | ctr
  deriving DecidableEq

namespace CipherMode

/-- The mode that an algorithm uses for a class of modules. -/
def of : Algorithm → ModuleClass → CipherMode
  | .gcmCtr, .data => ctr
  | _, _ => gcm

/-- The length of the tag. -/
def tagLength : CipherMode → Nat
  | gcm => 16
  | ctr => 0

end CipherMode

/-- The length of the length field of a sealed module. -/
def lengthWidth : Nat :=
  4

/-- The length of a nonce. -/
def nonceLength : Nat :=
  12

/-- The length of a GCM tag. -/
def tagLength : Nat :=
  16

/-- Seals and opens modules of one class under one algorithm with keys of one length. -/
structure Engine where
  mode : CipherMode
  keyLength : Nat
  deriving DecidableEq

namespace Engine

/-- The engine for an algorithm, a key length and a class of modules. -/
def create (algorithm : Algorithm) (keyLength : Nat) (moduleClass : ModuleClass) :
    Except Error Engine := do
  checkKeyLength keyLength
  return ⟨.of algorithm moduleClass, keyLength⟩

/-- The bytes that sealing adds, not counting the length field. -/
def sizeDelta (engine : Engine) : Nat :=
  nonceLength + engine.mode.tagLength

/-- Fails on a key of a length other than the engine's. -/
def checkKey (engine : Engine) (key : Bytes) : Except Error Unit :=
  if key.length = engine.keyLength then .ok ()
  else .error (.engineKeyLength key.length engine.keyLength)

/-- What stands behind the nonce: the ciphertext, and the tag where there is one. -/
def body (mode : CipherMode) (f : Block → Block) (nonce aad plaintext : Bytes) : Bytes :=
  match mode with
  | .gcm =>
    let (ciphertext, tag) := Gcm.encrypt f nonce aad plaintext
    ciphertext ++ tag
  | .ctr => Counter.apply f nonce 1 plaintext

/-- The sealed module of a plaintext under a given nonce. -/
def encryptWithNonce (engine : Engine) (plaintext key aad nonce : Bytes) : Except Error Bytes := do
  engine.checkKey key
  let length ← addSizes plaintext.length engine.sizeDelta
  if UInt32.size ≤ length then throw (.moduleTooLarge length)
  return Bytes.ofNat lengthWidth length ++
    (nonce ++ body engine.mode (Aes.cipher key) nonce aad plaintext)

/-- The sealed module of a plaintext under a fresh nonce, which is drawn before anything is
checked. -/
def encrypt (engine : Engine) (plaintext key aad : Bytes) :
    ExceptT Error (StateM RandomSource) Bytes := do
  let nonce ← RandomSource.draw nonceLength
  engine.encryptWithNonce plaintext key aad nonce

/-- The sealed module of a footer under the nonce of its signature. Signatures always use GCM. -/
def encryptForSignature (engine : Engine) (footer key aad nonce : Bytes) : Except Error Bytes := do
  if engine.mode ≠ .gcm then throw .signingNeedsGcm
  if nonce.length ≠ nonceLength then throw (.nonceLength nonce.length)
  engine.encryptWithNonce footer key aad nonce

/-- The plaintext of a sealed module. Under GCM nothing is released unless the tag is right. -/
def decrypt (engine : Engine) (sealedModule key aad : Bytes) : Except Error Bytes := do
  engine.checkKey key
  let minimum := lengthWidth + engine.sizeDelta
  if sealedModule.length < minimum then
    throw (.ciphertextTooShort sealedModule.length minimum)
  let (field, contents) ← sealedModule.cut lengthWidth
  if Bytes.toNat field ≠ contents.length then
    throw (.ciphertextLength (Bytes.toNat field) contents.length)
  let (nonce, body) ← contents.cut nonceLength
  match engine.mode with
  | .gcm =>
    let (ciphertext, tag) ← body.cut (← subSizes body.length tagLength)
    match Gcm.decrypt? (Aes.cipher key) nonce aad ciphertext tag with
    | some plaintext => return plaintext
    | none => throw .tagMismatch
  | .ctr => return Counter.apply (Aes.cipher key) nonce 1 body

end Engine

/-- The engine for a key, which is never refused. -/
def Key.engine (key : Key) (algorithm : Algorithm) (moduleClass : ModuleClass) : Engine :=
  ⟨.of algorithm moduleClass, key.bytes.length⟩

end SealedColumns
