/-!
# Byte strings

Every module, structure and file of the library is a list of bytes. Numbers are written with a fixed
width, least significant byte first; `toNat_ofNat` and `ofNat_toNat` say that the numbers below
`Bytes.count width` and the byte strings of length `width` correspond one to one.
-/

namespace SealedColumns

/-- A byte string. -/
abbrev Bytes := List UInt8

namespace Bytes

/-- The `width` low bytes of `n`, least significant first. -/
def ofNat : (width n : Nat) → Bytes
  | 0, _ => []
  | width + 1, n => n.toUInt8 :: ofNat width (n / 256)

/-- The number written in a byte string, least significant byte first. -/
def toNat : Bytes → Nat
  | [] => 0
  | b :: rest => b.toNat + 256 * toNat rest

/-- The number of byte strings of a length. -/
def count : (width : Nat) → Nat
  | 0 => 1
  | width + 1 => 256 * count width

@[simp] theorem length_ofNat (width n : Nat) : (ofNat width n).length = width := by
  induction width generalizing n with
  | zero => rfl
  | succ width ih => simp [ofNat, ih]

theorem toNat_lt (bs : Bytes) : toNat bs < count bs.length := by
  induction bs with
  | nil => exact Nat.one_pos
  | cons b rest ih =>
    have hb : b.toNat < 256 := b.toNat_lt
    simp only [toNat, List.length_cons, count]
    omega

/-- A number that fits the width is read back. -/
theorem toNat_ofNat (width n : Nat) (h : n < count width) : toNat (ofNat width n) = n := by
  induction width generalizing n with
  | zero =>
    have hn : n = 0 := Nat.lt_one_iff.mp h
    simp [ofNat, toNat, hn]
  | succ width ih =>
    have hq : n / 256 < count width := by
      simp only [count] at h
      omega
    simp only [ofNat, toNat, ih _ hq, Nat.toUInt8_eq, UInt8.toNat_ofNat']
    omega

/-- A byte string is the writing of its number in its own length. -/
theorem ofNat_toNat (bs : Bytes) : ofNat bs.length (toNat bs) = bs := by
  induction bs with
  | nil => rfl
  | cons b rest ih =>
    have hb : b.toNat < 256 := b.toNat_lt
    have hdiv : (b.toNat + 256 * toNat rest) / 256 = toNat rest := by omega
    have hmod : (b.toNat + 256 * toNat rest).toUInt8 = b := by
      apply UInt8.toNat_inj.mp
      simp only [Nat.toUInt8_eq, UInt8.toNat_ofNat']
      omega
    simp only [List.length_cons, ofNat, toNat, hdiv, hmod, ih]

end Bytes

end SealedColumns
