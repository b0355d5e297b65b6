import SealedColumns.Bytes

/-!
# Text as bytes

Names, paths and key identifiers are stored in UTF-8. Encoding and decoding are inverse to each
other on valid text (`decode_encode`, `encode_of_decode`). Bytes that are no text are reported by a
fault, which says how many bytes were valid text and how long the offending sequence is.
-/

namespace SealedColumns.Utf8

/-- Where a byte string stops being text. -/
structure Fault where
  /-- The number of bytes before the offending sequence. -/
  validUpTo : Nat
  /-- The length of the offending sequence, absent if the bytes end inside a character. -/
  invalidLength : Option Nat
  deriving DecidableEq, Inhabited

/-- The wording of a fault. -/
def Fault.message (fault : Fault) : String :=
  match fault.invalidLength with
  | some n => s!"invalid utf-8 sequence of {n} bytes from index {fault.validUpTo}"
  | none => s!"incomplete utf-8 byte sequence from index {fault.validUpTo}"

/-- Checks the bytes that a character still owes. The next one lies between `low` and `high`, the
ones after it are plain continuation bytes; `seen` counts the bytes of the character so far. -/
def continuation (low high : UInt8) (seen : Nat) : (owed : Nat) → Bytes → Except (Option Nat) Nat
  | 0, _ => .ok seen
  | _ + 1, [] => .error none
  | owed + 1, b :: rest =>
    if low ≤ b ∧ b ≤ high then continuation 0x80 0xBF (seen + 1) owed rest else .error (some seen)

/-- The length of the character that starts with byte `first`, or the length of the sequence
that rules it out. The range of the second byte excludes overlong forms, surrogates and code
points past the last. -/
def characterLength (first : UInt8) (rest : Bytes) : Except (Option Nat) Nat :=
  if first < 0x80 then .ok 1
  else if first < 0xC2 then .error (some 1)
  else if first < 0xE0 then continuation 0x80 0xBF 1 1 rest
  else if first = 0xE0 then continuation 0xA0 0xBF 1 2 rest
  else if first = 0xED then continuation 0x80 0x9F 1 2 rest
  else if first < 0xF0 then continuation 0x80 0xBF 1 2 rest
  else if first = 0xF0 then continuation 0x90 0xBF 1 3 rest
  else if first < 0xF4 then continuation 0x80 0xBF 1 3 rest
  else if first = 0xF4 then continuation 0x80 0x8F 1 3 rest
  else .error (some 1)

/-- The first fault of a byte string, of which `position` bytes were read before and `skip` more
bytes belong to a character already checked. -/
def faultFrom (position skip : Nat) : Bytes → Option Fault
  | [] => none
  | b :: rest =>
    match skip with
    | skip + 1 => faultFrom (position + 1) skip rest
    | 0 =>
      match characterLength b rest with
      | .ok length => faultFrom (position + 1) (length - 1) rest
      | .error invalidLength => some ⟨position, invalidLength⟩

/-- The bytes of a text. -/
def encode (s : String) : Bytes :=
  s.toUTF8.data.toList

/-- The text that a byte string holds, or its first fault. -/
def decode (bs : Bytes) : Except Fault String :=
  match String.fromUTF8? bs.toByteArray with
  | some s => .ok s
  | none => .error ((faultFrom 0 0 bs).getD default)

theorem fromUTF8?_toUTF8 (s : String) : String.fromUTF8? s.toUTF8 = some s := by
  unfold String.fromUTF8?
  rw [String.toUTF8_eq_toByteArray, dif_pos s.isValidUTF8]
  rfl

theorem toByteArray_toList (b : ByteArray) : b.data.toList.toByteArray = b := by
  apply ByteArray.ext
  rw [List.data_toByteArray, Array.toArray_toList]

/-- Text is read back from its bytes. -/
theorem decode_encode (s : String) : decode (encode s) = .ok s := by
  simp only [decode, encode, toByteArray_toList, fromUTF8?_toUTF8]

/-- Only the bytes of a text are accepted for it. -/
theorem encode_of_decode {bs : Bytes} {s : String} (h : decode bs = .ok s) : encode s = bs := by
  unfold decode at h
  split at h
  · next t ht =>
    cases h
    unfold String.fromUTF8? at ht
    split at ht
    · next hv =>
      cases ht
      change (List.toByteArray bs).data.toList = bs
      rw [List.data_toByteArray, List.toList_toArray]
    · cases ht
  · cases h

end SealedColumns.Utf8
