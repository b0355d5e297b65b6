import SealedColumns.Text.Utf8

/-!
# Wire form of structures

The fixed binary form of everything the footer and the page headers hold. Words have a fixed
width and are little-endian; text and lists are preceded by their length in eight bytes, an
optional value by a byte that is zero or one, a variant by its index in four bytes;
a structure is its fields in order.

A decoder works on the bytes it has: whatever is missing is reported as `DecodeFault.sizeLimit`, and
bytes after the value are handed back.
-/

namespace SealedColumns

/-- Why bytes are no wire form of a value. -/
inductive DecodeFault where
  /-- The bytes end before the value does. -/
  | sizeLimit
  /-- A variant index is not below the number of variants. -/
  | unknownVariant (index count : Nat)
  /-- A truth value is neither zero nor one. -/
  | invalidBool (found : UInt8)
  /-- The byte before an optional value is neither zero nor one. -/
  | invalidOptionTag (found : UInt8)
  /-- The bytes of a text are not UTF-8. -/
  | invalidText (fault : Utf8.Fault)
  deriving DecidableEq

/-- The wording of a decoding fault. -/
def DecodeFault.message : DecodeFault → String
  | .sizeLimit => "the size limit has been reached"
  | .unknownVariant index count =>
    s!"invalid value: integer `{index}`, expected variant index 0 <= i < {count}"
  | .invalidBool found =>
    s!"invalid u8 while decoding bool, expected 0 or 1, found {found.toNat}"
  | .invalidOptionTag found => s!"tag for enum is not valid, found {found.toNat}"
  | .invalidText fault => "string is not valid utf8: " ++ fault.message

/-- Reads a value from the front of a byte string and leaves the rest. -/
abbrev Decoder := StateT Bytes (Except DecodeFault)

/-- Values with a wire form. -/
class Wire (α : Type) where
  /-- The wire form of a value. -/
  encode : α → Bytes
  /-- Reads a value from the front of a byte string. -/
  decode : Decoder α

namespace Decoder

/-- Fails with a fault. -/
def fail {α : Type} (fault : DecodeFault) : Decoder α :=
  fun _ => .error fault

/-- The next `n` bytes. -/
def take (n : Nat) : Decoder Bytes := fun bs =>
  let front := bs.take n
  if front.length = n then .ok (front, bs.drop n) else .error .sizeLimit

/-- The next `width` bytes as a number. -/
def word (width : Nat) : Decoder Nat :=
  return Bytes.toNat (← take width)

/-- The next byte. -/
def byte : Decoder UInt8 := fun
  | b :: rest => .ok (b, rest)
  | [] => .error .sizeLimit

/-- The index of one of `count` variants. -/
def variant (count : Nat) : Decoder Nat := do
  let index ← word 4
  if index < count then return index else fail (.unknownVariant index count)

/-- The next `n` values, after those in `acc`, which holds the latest first. -/
def items {α : Type} (one : Decoder α) : (n : Nat) → (acc : List α) → Decoder (List α)
  | 0, acc => return acc.reverse
  | n + 1, acc => do
    let a ← one
    items one n (a :: acc)

end Decoder

namespace Wire

instance : Wire UInt8 where
  encode b := [b]
  decode := Decoder.byte

instance : Wire Int16 where
  encode n := Bytes.ofNat 2 n.toUInt16.toNat
  decode := return (UInt16.ofNat (← Decoder.word 2)).toInt16

instance : Wire Int32 where
  encode n := Bytes.ofNat 4 n.toUInt32.toNat
  decode := return (UInt32.ofNat (← Decoder.word 4)).toInt32

instance : Wire Int64 where
  encode n := Bytes.ofNat 8 n.toUInt64.toNat
  decode := return (UInt64.ofNat (← Decoder.word 8)).toInt64

instance : Wire Bool where
  encode b := [if b then 1 else 0]
  decode := do
    match ← Decoder.byte with
    | 0 => return false
    | 1 => return true
    | found => Decoder.fail (.invalidBool found)

instance : Wire String where
  encode s :=
    let text := Utf8.encode s
    Bytes.ofNat 8 text.length ++ text
  decode := do
    let length ← Decoder.word 8
    match Utf8.decode (← Decoder.take length) with
    | .ok s => return s
    | .error fault => Decoder.fail (.invalidText fault)

instance {α : Type} [Wire α] : Wire (List α) where
  encode as := Bytes.ofNat 8 as.length ++ as.flatMap encode
  decode := do
    let length ← Decoder.word 8
    Decoder.items decode length []

instance {α : Type} [Wire α] : Wire (Option α) where
  encode
    | none => [0]
    | some a => 1 :: encode a
  decode := do
    match ← Decoder.byte with
    | 0 => return none
    | 1 => return some (← decode)
    | found => Decoder.fail (.invalidOptionTag found)

instance {α β : Type} [Wire α] [Wire β] : Wire (α × β) where
  encode p := encode p.1 ++ encode p.2
  decode := do
    let a ← decode
    let b ← decode
    return (a, b)

/-- The wire form of a structure that holds the same data as another type. -/
@[reducible] def ofEquivalent {α β : Type} [Wire α] (toData : β → α) (ofData : α → β) : Wire β where
  encode b := encode (toData b)
  decode := ofData <$> decode

/-- The wire form of a closed choice: the position in the list of variants. -/
@[reducible] def ofVariants {α : Type} (variants : List α) (index : α → Nat) : Wire α where
  encode a := Bytes.ofNat 4 (index a)
  decode := do
    let i ← Decoder.word 4
    match variants[i]? with
    | some a => return a
    | none => Decoder.fail (.unknownVariant i variants.length)

end Wire

end SealedColumns
