import SealedColumns.Bytes

/-!
# Blocks of sixteen bytes

A block is four words of 32 bits, each holding four bytes with the first in the top position. This
is the unit of the block cipher, of counter mode and of the authentication hash, all of which are
stated over blocks and meet byte strings only here.
-/

namespace SealedColumns

/-- Sixteen bytes as four big-endian words. -/
structure Block where
  w0 : UInt32
  w1 : UInt32
  w2 : UInt32
  w3 : UInt32
  deriving DecidableEq, Inhabited

namespace Block

/-- The block of zero bytes. -/
def zero : Block :=
  ⟨0, 0, 0, 0⟩

/-- Bytewise exclusive or. -/
protected def xor (a b : Block) : Block :=
  ⟨a.w0 ^^^ b.w0, a.w1 ^^^ b.w1, a.w2 ^^^ b.w2, a.w3 ^^^ b.w3⟩

instance : XorOp Block :=
  ⟨Block.xor⟩

/-- The word of four bytes, the first on top. -/
def wordOfBytes (a b c d : UInt8) : UInt32 :=
  (a.toUInt32 <<< 24) ||| (b.toUInt32 <<< 16) ||| (c.toUInt32 <<< 8) ||| d.toUInt32

/-- The word at the front of a byte string, with zeros for missing bytes. -/
def frontWord (bs : Bytes) : UInt32 :=
  wordOfBytes (bs.getD 0 0) (bs.getD 1 0) (bs.getD 2 0) (bs.getD 3 0)

/-- The bytes of a word, the top one first, before those of `rest`. -/
def wordBytes (w : UInt32) (rest : Bytes) : Bytes :=
  (w >>> 24).toUInt8 :: (w >>> 16).toUInt8 :: (w >>> 8).toUInt8 :: w.toUInt8 :: rest

/-- The block at the front of a byte string, with zeros for missing bytes. -/
def ofBytes (bs : Bytes) : Block :=
  let bs₁ := bs.drop 4
  let bs₂ := bs₁.drop 4
  ⟨frontWord bs, frontWord bs₁, frontWord bs₂, frontWord (bs₂.drop 4)⟩

/-- The sixteen bytes of a block. -/
def toBytes (b : Block) : Bytes :=
  wordBytes b.w0 (wordBytes b.w1 (wordBytes b.w2 (wordBytes b.w3 [])))

/-- The number of blocks that hold `length` bytes. -/
def count (length : Nat) : Nat :=
  (length + 15) / 16

/-- The next `n` blocks of a byte string, after those in `acc`, which holds the latest first. -/
def split : (n : Nat) → (acc : List Block) → Bytes → List Block
  | 0, acc, _ => acc.reverse
  | n + 1, acc, bs => split n (ofBytes bs :: acc) (bs.drop 16)

/-- The blocks of a byte string, the last one filled up with zeros. -/
def ofPadded (bs : Bytes) : List Block :=
  split (count bs.length) [] bs

@[simp] theorem length_toBytes (b : Block) : b.toBytes.length = 16 := rfl

end Block

end SealedColumns
