import SealedColumns.Checked

/-!
# Column values

The values of a column are a list over the value type of its physical type. Floating-point values
are kept as their bits, so that every payload and the sign of zero survive.

The plain encoding writes values one after the other: a truth value as one byte, numbers in
little-endian order, a byte array behind its length in four bytes.
-/

namespace SealedColumns

/-- The values of a physical type. -/
abbrev PhysicalType.Value : PhysicalType → Type
  | .boolean => Bool
  | .int32 => Int32
  | .int64 => Int64
  | .float => UInt32
  | .double => UInt64
  | .byteArray => Bytes

instance (t : PhysicalType) : DecidableEq t.Value :=
  match t with
  | .boolean => inferInstanceAs (DecidableEq Bool)
  | .int32 => inferInstanceAs (DecidableEq Int32)
  | .int64 => inferInstanceAs (DecidableEq Int64)
  | .float => inferInstanceAs (DecidableEq UInt32)
  | .double => inferInstanceAs (DecidableEq UInt64)
  | .byteArray => inferInstanceAs (DecidableEq Bytes)

/-- The bytes that every value of a type has at least. -/
def PhysicalType.width : PhysicalType → Nat
  | .boolean => 1
  | .int32 | .float | .byteArray => 4
  | .int64 | .double => 8

namespace Plain

/-- The plain encoding of a value. -/
def encodeValue : (t : PhysicalType) → t.Value → Bytes
  | .boolean, b => [if b then 1 else 0]
  | .int32, n => Bytes.ofNat 4 n.toUInt32.toNat
  | .int64, n => Bytes.ofNat 8 n.toUInt64.toNat
  | .float, bits => Bytes.ofNat 4 bits.toNat
  | .double, bits => Bytes.ofNat 8 bits.toNat
  | .byteArray, bs => Bytes.ofNat 4 (bs.length % UInt32.size) ++ bs

/-- The value whose fixed part is `front`, which has the width of the type, and the bytes after it.
Only a byte array takes more than the fixed part. -/
def decodeValue (t : PhysicalType) (front rest : Bytes) : Except Error (t.Value × Bytes) :=
  match t with
  | .boolean => .ok (Bytes.toNat front != 0, rest)
  | .int32 => .ok ((UInt32.ofNat (Bytes.toNat front)).toInt32, rest)
  | .int64 => .ok ((UInt64.ofNat (Bytes.toNat front)).toInt64, rest)
  | .float => .ok (UInt32.ofNat (Bytes.toNat front), rest)
  | .double => .ok (UInt64.ofNat (Bytes.toNat front), rest)
  | .byteArray => do
    let length := Bytes.toNat front
    if (rest.take length).length < length then throw (.byteArrayCutShort length)
    rest.cut length

/-- Decodes `n` more values after those in `acc`, which holds the latest first; `total` is the
number of values wanted in all. -/
def decodeValues (t : PhysicalType) (total : Nat) :
    (n : Nat) → (acc : List t.Value) → Bytes → Except Error (List t.Value)
  | 0, acc, _ => .ok acc.reverse
  | n + 1, acc, bs => do
    if (bs.take t.width).length < t.width then throw (.valuesCutShort total)
    let (front, rest) ← bs.cut t.width
    let (v, rest) ← decodeValue t front rest
    decodeValues t total n (v :: acc) rest

end Plain

/-- The values of a column with their type. -/
structure ColumnValues where
  type : PhysicalType
  values : List type.Value
  deriving DecidableEq

namespace ColumnValues

/-- A column without values. -/
def empty (t : PhysicalType) : ColumnValues :=
  ⟨t, []⟩

/-- The number of values. -/
def length (c : ColumnValues) : Nat :=
  c.values.length

/-- The plain encoding of all values. -/
def encodePlain (c : ColumnValues) : Bytes :=
  c.values.flatMap (Plain.encodeValue c.type)

/-- Decodes `n` values of a type. Bytes after them are ignored. -/
def decodePlain (t : PhysicalType) (bs : Bytes) (n : Nat) : Except Error ColumnValues :=
  return ⟨t, ← Plain.decodeValues t n n [] bs⟩

/-- The values at the given positions, all of which must exist. -/
def take (c : ColumnValues) (indices : List UInt32) : Except Error ColumnValues :=
  let length := c.length
  match indices.find? fun i => length ≤ i.toNat with
  | some i => .error (.indexOutOfBound i.toNat length)
  | none => do
    let values := c.values.toArray
    return ⟨c.type, ← indices.mapM fun i => valueAt values i.toNat⟩

/-- The values followed by those of another column of the same type. -/
def append (c d : ColumnValues) : Except Error ColumnValues :=
  if h : d.type = c.type then .ok ⟨c.type, c.values ++ h ▸ d.values⟩
  else .error (.appendType d.type c.type)

end ColumnValues

end SealedColumns
