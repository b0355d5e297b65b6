import SealedColumns.Cipher.Counter
import SealedColumns.Cipher.Ghash

/-!
# Authenticated encryption

Galois/counter mode over any block function: counter mode from counter two, and a tag that is the
hash of the associated data and the ciphertext, masked with the image of counter one. Opening
recomputes the tag and releases the plaintext only if it agrees.
-/

namespace SealedColumns.Gcm

/-- The tag of a ciphertext under a nonce and associated data. -/
def tag (f : Block → Block) (nonce aad ciphertext : Bytes) : Bytes :=
  (Ghash.hash (f Block.zero) (Ghash.inputBlocks aad ciphertext) ^^^
    f (Counter.block nonce 1)).toBytes

/-- The ciphertext of a plaintext, and its tag. -/
def encrypt (f : Block → Block) (nonce aad plaintext : Bytes) : Bytes × Bytes :=
  let ciphertext := Counter.apply f nonce 2 plaintext
  (ciphertext, tag f nonce aad ciphertext)

/-- The plaintext of a ciphertext, if its tag is right. -/
def decrypt? (f : Block → Block) (nonce aad ciphertext sealTag : Bytes) : Option Bytes :=
  if tag f nonce aad ciphertext = sealTag then some (Counter.apply f nonce 2 ciphertext) else none

@[simp] theorem length_tag (f : Block → Block) (nonce aad ciphertext : Bytes) :
    (tag f nonce aad ciphertext).length = 16 := rfl

end SealedColumns.Gcm
