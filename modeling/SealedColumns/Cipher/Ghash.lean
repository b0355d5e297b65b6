import SealedColumns.Cipher.Block

/-!
# The authentication hash

GHASH reads blocks as elements of the field of `2 ^ 128` elements, the first bit of a block
being the constant coefficient, and evaluates the polynomial whose coefficients are the
input blocks at the hash key. Multiplication goes through the bits of one factor and adds up
the shifted other factor.
-/

namespace SealedColumns.Ghash

/-- A field element times the variable: the bits move one place towards the end, and the bit that
falls off is reduced modulo `x ^ 128 + x ^ 7 + x ^ 2 + x + 1`. -/
def timesX (v : Block) : Block :=
  let reduced : UInt32 := if v.w3 &&& 1 = 0 then 0 else 0xe1000000
  ⟨(v.w0 >>> 1) ^^^ reduced, (v.w1 >>> 1) ||| (v.w0 <<< 31), (v.w2 >>> 1) ||| (v.w1 <<< 31),
    (v.w3 >>> 1) ||| (v.w2 <<< 31)⟩

/-- The first `n` bits of `bits`, from the top, select which shifts of `v` are added to `sum`.
Returns the shift that comes next and the sum. -/
def addShifts : (n : Nat) → (bits : UInt32) → (v sum : Block) → Block × Block
  | 0, _, v, sum => (v, sum)
  | n + 1, bits, v, sum =>
    addShifts n (bits <<< 1) (timesX v) (if bits &&& 0x80000000 = 0 then sum else sum ^^^ v)

/-- The product of two field elements. -/
def mul (a b : Block) : Block :=
  let (v, sum) := addShifts 32 a.w0 b Block.zero
  let (v, sum) := addShifts 32 a.w1 v sum
  let (v, sum) := addShifts 32 a.w2 v sum
  (addShifts 32 a.w3 v sum).2

/-- A length in bits as the two words of a 64-bit number. -/
def bitLength (bytes : Nat) : UInt32 × UInt32 :=
  let bits := (8 * bytes).toUInt64
  ((bits >>> 32).toUInt32, bits.toUInt32)

/-- The block that holds the lengths of both inputs. -/
def lengthBlock (aad ciphertext : Bytes) : Block :=
  let (a, b) := bitLength aad.length
  let (c, d) := bitLength ciphertext.length
  ⟨a, b, c, d⟩

/-- The input of the hash: the associated data, the ciphertext, and their lengths. -/
def inputBlocks (aad ciphertext : Bytes) : List Block :=
  Block.ofPadded aad ++ Block.ofPadded ciphertext ++ [lengthBlock aad ciphertext]

/-- The hash of a list of blocks under a hash key. -/
def hash (key : Block) (blocks : List Block) : Block :=
  blocks.foldl (fun sum b => mul (sum ^^^ b) key) Block.zero

end SealedColumns.Ghash
