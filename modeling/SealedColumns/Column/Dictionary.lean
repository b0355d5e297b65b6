import SealedColumns.Column.Values

/-!
# Dictionary encoding

A column is split into its distinct values, in the order of their first occurrence, and the position
of each value among them. Two values count as the same if their plain encodings agree. Positions are
words of 32 bits, in the data pages and in the bookkeeping of first occurrences alike.
-/

namespace SealedColumns.Dictionary

/-- What is known after a number of values. -/
structure Progress where
  /-- The plain encodings of the distinct values, in order of first occurrence. -/
  keys : List Bytes := []
  /-- The position of the first occurrence of each, latest first. -/
  firstSeen : List UInt32 := []
  /-- The index of each value, latest first. -/
  indices : List UInt32 := []

/-- Takes in the value with plain encoding `key` at position `position`. -/
def step (p : Progress) (position : Nat) (key : Bytes) : Except Error Progress := do
  let next ← uint32 p.keys.length
  match p.keys.idxOf? key with
  | some i => return { p with indices := i.toUInt32 :: p.indices }
  | none =>
    return ⟨p.keys ++ [key], position.toUInt32 :: p.firstSeen, next :: p.indices⟩

/-- Takes in the values with the given plain encodings, from position `position` on. -/
def run (p : Progress) (position : Nat) : List Bytes → Except Error Progress
  | [] => .ok p
  | key :: rest => do
    let p ← step p position key
    run p (position + 1) rest

/-- The distinct values of a column and the index of each of its values among them. -/
def encode (c : ColumnValues) : Except Error (ColumnValues × List UInt32) := do
  let p ← run {} 0 (c.values.map (Plain.encodeValue c.type))
  return (← c.take p.firstSeen.reverse, p.indices.reverse)

/-- The stored form of indices. -/
def encodeIndices (indices : List UInt32) : Bytes :=
  indices.flatMap fun i => Bytes.ofNat 4 i.toNat

/-- The next `n` stored indices, which must be there, after those in `acc`, which holds the latest
first. -/
def readIndices : (n : Nat) → (acc : List UInt32) → Bytes → Except Error (List UInt32)
  | 0, acc, _ => .ok acc.reverse
  | n + 1, acc, bs => do
    let (word, rest) ← bs.cut 4
    readIndices n (UInt32.ofNat (Bytes.toNat word) :: acc) rest

/-- Decodes `n` indices. Bytes after them are ignored. -/
def decodeIndices (bs : Bytes) (n : Nat) : Except Error (List UInt32) := do
  if bs.length < (← mulSizes n 4) then throw (.indicesCutShort n)
  readIndices n [] bs

end SealedColumns.Dictionary
