import SealedColumns.Error

/-!
# Checked words, slices and structures

Numbers are unbounded inside the library and fixed-width in files. The functions here carry one
across into the other, cut byte strings, and decode structures, with an error for what does not fit.
-/

namespace SealedColumns

/-- A number as a signed word of 16 bits, if it fits. -/
def int16? (n : Nat) : Option Int16 :=
  if n < 0x8000 then some (Int16.ofNat n) else none

/-- A number as a signed word of 32 bits. -/
def int32 (n : Nat) : Except Error Int32 :=
  if n < 0x80000000 then .ok (Int32.ofNat n) else .error .numberTooLarge

/-- A number as a signed word of 64 bits. -/
def int64 (n : Nat) : Except Error Int64 :=
  if n < 0x8000000000000000 then .ok (Int64.ofNat n) else .error .numberTooLarge

/-- A number as an unsigned word of 32 bits. -/
def uint32 (n : Nat) : Except Error UInt32 :=
  if n < UInt32.size then .ok (UInt32.ofNat n) else .error .numberTooLarge

/-- A signed word as a number. -/
def natural (n : Int) : Except Error Nat :=
  if n < 0 then .error .numberTooSmall else .ok n.toNat

/-- The sum of two sizes, which must fit 64 bits. -/
def addSizes (a b : Nat) : Except Error Nat :=
  if a + b < UInt64.size then .ok (a + b) else .error .sizeOverflow

/-- The difference of two sizes, the first of which must be the larger. -/
def subSizes (a b : Nat) : Except Error Nat :=
  if b ≤ a then .ok (a - b) else .error .sizeOverflow

/-- The product of two sizes, which must fit 64 bits. -/
def mulSizes (a b : Nat) : Except Error Nat :=
  if a * b < UInt64.size then .ok (a * b) else .error .sizeOverflow

/-- The difference of two counts, which must fit a signed word of 64 bits. -/
def subCounts (a b : Int) : Except Error Int :=
  if -0x8000000000000000 ≤ a - b ∧ a - b < 0x8000000000000000 then .ok (a - b)
  else .error .sizeOverflow

/-- The bytes from `start` up to `stop`, which must be positions of the byte
string in this order. -/
def Bytes.slice (bs : Bytes) (start stop : Nat) : Except Error Bytes :=
  if start ≤ stop ∧ stop ≤ bs.length then .ok ((bs.drop start).take (stop - start))
  else .error (.sliceOutOfRange start stop bs.length)

/-- The bytes from `start` on, which must be a position of the byte string. -/
def Bytes.sliceFrom (bs : Bytes) (start : Nat) : Except Error Bytes :=
  bs.slice start bs.length

/-- The first `n` bytes, which must be there, and the bytes after them. -/
def Bytes.cut (bs : Bytes) (n : Nat) : Except Error (Bytes × Bytes) :=
  let front := bs.take n
  if front.length = n then .ok (front, bs.drop n) else .error (.sliceOutOfRange 0 n bs.length)

/-- The value at a position, which must be one of the array. -/
def valueAt {α : Type} (values : Array α) (i : Nat) : Except Error α :=
  match values[i]? with
  | some v => .ok v
  | none => .error (.sliceOutOfRange i (i + 1) values.size)

/-- The structure at the front of a byte string, and the bytes after it. -/
def decodeFront {α : Type} [Wire α] (bs : Bytes) : Except Error (α × Bytes) :=
  match (Wire.decode : Decoder α) bs with
  | .ok decoded => .ok decoded
  | .error fault => .error (.undecodable fault)

/-- The structure at the front of a byte string, and the number of bytes it takes. -/
def decodePart {α : Type} [Wire α] (bs : Bytes) : Except Error (α × Nat) := do
  let (a, rest) ← decodeFront bs
  return (a, ← subSizes bs.length rest.length)

end SealedColumns
