import SealedColumns.Checked
import SealedColumns.Proofs.Operation

/-!
# Words and slices that pass their checks

A number that passed the check of a word is read back from the word, and a slice that lies in the
middle of a byte string is the part it was put together from.
-/

namespace SealedColumns

theorem uint32_eq_ok {n : Nat} {word : UInt32} :
    uint32 n = .ok word ↔ n < UInt32.size ∧ UInt32.ofNat n = word := by
  rw [uint32]
  split
  · next h => simp [h]
  · next h => simp [h]

theorem int32_eq_ok {n : Nat} {word : Int32} :
    int32 n = .ok word ↔ n < 0x80000000 ∧ Int32.ofNat n = word := by
  rw [int32]
  split
  · next h => simp [h]
  · next h => simp [h]

theorem int64_eq_ok {n : Nat} {word : Int64} :
    int64 n = .ok word ↔ n < 0x8000000000000000 ∧ Int64.ofNat n = word := by
  rw [int64]
  split
  · next h => simp [h]
  · next h => simp [h]

theorem toNat_toUInt32 (n : Nat) : n.toUInt32.toNat = n % UInt32.size := rfl

theorem toInt_int32 {n : Nat} (h : n < 0x80000000) : (Int32.ofNat n).toInt = n :=
  Int32.toInt_ofNat_of_lt h

theorem toInt_int64 {n : Nat} (h : n < 0x8000000000000000) : (Int64.ofNat n).toInt = n :=
  Int64.toInt_ofNat_of_lt h

theorem isSome_int16?_iff {n : Nat} : (int16? n).isSome ↔ n ≤ maxOrdinal := by
  rw [int16?, maxOrdinal]
  split <;> simp <;> omega

theorem toInt_int16? (n : Nat) :
    (int16? n).map Int16.toInt = if n ≤ maxOrdinal then some (n : Int) else none := by
  rw [int16?, maxOrdinal]
  split
  · next few =>
    rw [if_pos (Nat.le_of_lt_succ few), Option.map_some, Int16.toInt_ofNat_of_lt few]
  · next many => rw [if_neg (by omega), Option.map_none]

theorem natural_natCast (n : Nat) : natural n = .ok n := by
  have nonneg : ¬ (n : Int) < 0 := by omega
  rw [natural, if_neg nonneg, Int.toNat_natCast]

theorem addSizes_of_lt {a b : Nat} (h : a + b < UInt64.size) : addSizes a b = .ok (a + b) :=
  if_pos h

theorem subSizes_of_le {a b : Nat} (h : b ≤ a) : subSizes a b = .ok (a - b) :=
  if_pos h

theorem addSizes_eq_ok {a b c : Nat} (h : addSizes a b = .ok c) : a + b = c := by
  rw [addSizes] at h
  split at h
  · cases h
    rfl
  · cases h

theorem subSizes_eq_ok {a b c : Nat} (h : subSizes a b = .ok c) : b ≤ a ∧ a - b = c := by
  rw [subSizes] at h
  split at h
  · next le =>
      cases h
      exact ⟨le, rfl⟩
  · cases h

theorem valueAt_of_getElem? {α : Type} {values : List α} {i : Nat} {v : α}
    (h : values[i]? = some v) : valueAt values.toArray i = .ok v := by
  rw [valueAt, List.getElem?_toArray, h]

namespace Bytes

theorem slice_append (before part after : Bytes) :
    (before ++ (part ++ after)).slice before.length (before.length + part.length) = .ok part := by
  have inside : before.length ≤ before.length + part.length ∧
      before.length + part.length ≤ (before ++ (part ++ after)).length := by
    simp only [List.length_append]
    omega
  rw [slice, if_pos inside, List.drop_left, Nat.add_sub_cancel_left, List.take_left]

theorem slice_eq_ok {bs part : Bytes} {start stop : Nat} (h : bs.slice start stop = .ok part) :
    start ≤ stop ∧ stop ≤ bs.length ∧ (bs.drop start).take (stop - start) = part := by
  rw [slice] at h
  split at h
  · next inside =>
      cases h
      exact ⟨inside.1, inside.2, rfl⟩
  · cases h

theorem sliceFrom_eq_ok {bs part : Bytes} {start : Nat} (h : bs.sliceFrom start = .ok part) :
    start ≤ bs.length ∧ bs.drop start = part := by
  obtain ⟨inside, _, rfl⟩ := slice_eq_ok h
  have whole : (bs.drop start).length ≤ bs.length - start := Nat.le_of_eq List.length_drop
  exact ⟨inside, (List.take_of_length_le whole).symm⟩

theorem cut_append (front rest : Bytes) : (front ++ rest).cut front.length = .ok (front, rest) := by
  simp [cut]

/-- A byte string that is cut is put together from the two parts. -/
theorem cut_eq_ok {bs front rest : Bytes} {n : Nat} (h : bs.cut n = .ok (front, rest)) :
    front.length = n ∧ bs = front ++ rest := by
  rw [cut] at h
  split at h
  · next long =>
      cases h
      exact ⟨long, (List.take_append_drop n bs).symm⟩
  · cases h

theorem sliceFrom_append (before part : Bytes) :
    (before ++ part).sliceFrom before.length = .ok part := by
  have whole := slice_append before part []
  rwa [List.append_nil, ← List.length_append] at whole

end Bytes

end SealedColumns
