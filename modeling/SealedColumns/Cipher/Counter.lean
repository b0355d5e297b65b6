import SealedColumns.Cipher.Block

/-!
# Counter mode

A keystream is the images of successive counter blocks under a block function; it is combined with
the data by exclusive or, so the same operation encrypts and decrypts. A counter block is the nonce
followed by a 32-bit big-endian counter, which wraps around.
-/

namespace SealedColumns.Counter

/-- The counter block of a nonce. -/
def block (nonce : Bytes) (counter : UInt32) : Block :=
  { Block.ofBytes nonce with w3 := counter }

/-- The keystream of `n` blocks from a counter on. -/
def keystream (f : Block → Block) (nonce : Bytes) (start : UInt32) (n : Nat) : Bytes :=
  (List.range n).flatMap fun i => (f (block nonce (start + i.toUInt32))).toBytes

/-- The data combined with as much keystream as it needs. -/
def apply (f : Block → Block) (nonce : Bytes) (start : UInt32) (data : Bytes) : Bytes :=
  data.zipWith (· ^^^ ·) (keystream f nonce start (Block.count data.length))

end SealedColumns.Counter
