import Mathlib.Data.FinEnum
import Mathlib.Data.Fintype.EquivFin
import Mathlib.Tactic.IntervalCases
import SealedColumns.Cipher.Aes
import SealedColumns.Proofs.Blocks

/-!
# The block cipher is a permutation

Under any list of round keys different blocks have different images: every step of a round can be
undone. The S-box takes every value; moving the rows only moves bytes; mixing a column four times
gives the column back; and a round key is added by exclusive or.
-/

namespace SealedColumns.Aes

/-! ### The S-box -/

/-- The bytes of a list, each a bit of a number. -/
def marks : List UInt8 → Nat
  | [] => 0
  | b :: rest => 1 <<< b.toNat ||| marks rest

theorem testBit_marks (bs : List UInt8) (c : UInt8) :
    (marks bs).testBit c.toNat = true ↔ c ∈ bs := by
  induction bs with
  | nil => simp [marks]
  | cons b bs ih =>
    have mark : (1 <<< b.toNat).testBit c.toNat = true ↔ c = b := by
      rw [Nat.one_shiftLeft, Nat.testBit_two_pow, decide_eq_true_eq, UInt8.toNat_inj, eq_comm]
    rw [marks, Nat.testBit_or, Bool.or_eq_true, mark, ih, List.mem_cons]

/-- Every byte stands in the table of the S-box. -/
theorem marks_sBoxTable : marks sBoxTable.data.toList = 2 ^ 256 - 1 := by decide +kernel

theorem sBox_surjective : Function.Surjective sBox := by
  intro c
  have listed : c ∈ sBoxTable.data.toList := by
    rw [← testBit_marks, marks_sBoxTable, Nat.testBit_two_pow_sub_one]
    exact decide_eq_true c.toNat_lt
  obtain ⟨i, hi, found⟩ := List.getElem_of_mem listed
  have small : i < 256 := by
    rw [← size_sBoxTable]
    exact hi
  have place : i.toUInt8.toNat = i := by
    rw [Nat.toUInt8_eq, UInt8.toNat_ofNat']
    exact Nat.mod_eq_of_lt small
  refine ⟨i.toUInt8, ?_⟩
  simp only [sBox, place]
  exact found

theorem sBox_injective : Function.Injective sBox :=
  Finite.injective_iff_surjective.mpr sBox_surjective

/-- Substitution and the moving of rows keep blocks apart. -/
theorem subShift_injective : Function.Injective subShift := by
  intro s t same
  simp only [subShift, subDiagonal, Block.mk.injEq, Block.wordOfBytes_inj,
    sBox_injective.eq_iff] at same
  obtain ⟨⟨a₀, b₁, c₂, d₃⟩, ⟨a₁, b₂, c₃, d₀⟩, ⟨a₂, b₃, c₀, d₁⟩, a₃, b₀, c₁, d₂⟩ := same
  have word₀ : s.w0 = t.w0 := Block.word_ext a₀ b₀ c₀ d₀
  have word₁ : s.w1 = t.w1 := Block.word_ext a₁ b₁ c₁ d₁
  have word₂ : s.w2 = t.w2 := Block.word_ext a₂ b₂ c₂ d₂
  have word₃ : s.w3 = t.w3 := Block.word_ext a₃ b₃ c₃ d₃
  cases s
  cases t
  simp_all

/-! ### Mixing -/

/-- Words with the same bits are the same. -/
theorem eq_of_bits {a b : UInt32}
    (same : ∀ i < 32, a.toBitVec.getLsbD i = b.toBitVec.getLsbD i) : a = b :=
  UInt32.toBitVec_inj.mp (BitVec.eq_of_getLsbD_eq same)

theorem getLsbD_rotWord (w : UInt32) {i : Nat} (hi : i < 32) :
    (rotWord w).toBitVec.getLsbD i = w.toBitVec.getLsbD ((i + 24) % 32) := by
  by_cases small : i < 8
  · have place : (i + 24) % 32 = 24 + i := by omega
    simp [rotWord, hi, small, place]
  · have place : (i + 24) % 32 = i - 8 := by omega
    have inside : i - 8 < 32 := by omega
    have beyond : 32 ≤ 24 + i := by omega
    simp [rotWord, hi, small, place, inside, beyond]

theorem rotWord_xor (a b : UInt32) : rotWord (a ^^^ b) = rotWord a ^^^ rotWord b := by
  apply eq_of_bits
  intro i hi
  simp only [UInt32.toBitVec_xor, BitVec.getLsbD_xor, getLsbD_rotWord _ hi]

/-- Four rotations by a byte turn a word round. -/
theorem rotWord_four (w : UInt32) : rotWord (rotWord (rotWord (rotWord w))) = w := by
  apply eq_of_bits
  intro i hi
  have inside (j : Nat) : j % 32 < 32 := Nat.mod_lt _ (by decide)
  rw [getLsbD_rotWord _ hi, getLsbD_rotWord _ (inside _), getLsbD_rotWord _ (inside _),
    getLsbD_rotWord _ (inside _)]
  exact congrArg _ (by omega)

theorem and_xor (a b mask : UInt32) : (a ^^^ b) &&& mask = (a &&& mask) ^^^ (b &&& mask) := by
  apply eq_of_bits
  intro i hi
  simp [Bool.and_xor_distrib_right]

theorem doubleWord_xor (a b : UInt32) : doubleWord (a ^^^ b) = doubleWord a ^^^ doubleWord b := by
  simp only [doubleWord, UInt32.shiftRight_xor, and_xor, UInt32.shiftLeft_xor]
  ac_rfl

/-- All bytes of a word are doubled alike. -/
theorem doubleWord_rotWord (w : UInt32) : doubleWord (rotWord w) = rotWord (doubleWord w) := by
  apply eq_of_bits
  intro i hi
  interval_cases i <;> simp [rotWord, doubleWord]

theorem xor_left_comm (a b c : UInt32) : a ^^^ (b ^^^ c) = b ^^^ (a ^^^ c) := by
  ac_rfl

theorem xor_cancel (a b : UInt32) : a ^^^ (a ^^^ b) = b := by
  rw [← UInt32.xor_assoc, UInt32.xor_self, UInt32.zero_xor]

/-- Mixing twice: the terms with an odd number of rotations cancel each other. -/
theorem mixWord_mixWord (w : UInt32) :
    mixWord (mixWord w) = doubleWord (doubleWord (w ^^^ rotWord (rotWord w))) ^^^ w := by
  simp only [mixWord, doubleWord_xor, doubleWord_rotWord, rotWord_xor, rotWord_four]
  simp only [UInt32.xor_assoc, UInt32.xor_comm, xor_left_comm, xor_cancel, UInt32.xor_self]

/-- Mixing four times gives the column back. -/
theorem mixWord_four (w : UInt32) : mixWord (mixWord (mixWord (mixWord w))) = w := by
  rw [mixWord_mixWord (mixWord (mixWord w)), mixWord_mixWord]
  simp only [doubleWord_xor, doubleWord_rotWord, rotWord_xor, rotWord_four]
  simp only [UInt32.xor_assoc, UInt32.xor_comm, xor_left_comm, xor_cancel, UInt32.xor_self,
    UInt32.xor_zero]

theorem mixWord_injective : Function.Injective mixWord := by
  intro a b same
  rw [← mixWord_four a, same, mixWord_four]

theorem mixColumns_injective : Function.Injective mixColumns := by
  intro s t same
  simp only [mixColumns, Block.mk.injEq, mixWord_injective.eq_iff] at same
  obtain ⟨first, second, third, fourth⟩ := same
  cases s
  cases t
  simp_all

/-! ### The cipher -/

/-- Whatever the round keys are, the rounds keep blocks apart. -/
theorem rounds_injective (keys : List Block) : Function.Injective (rounds keys) := by
  induction keys with
  | nil => exact fun _ _ same => same
  | cons key rest ih =>
    cases rest with
    | nil =>
      intro s t same
      exact subShift_injective (Block.xor_left_inj.mp same)
    | cons next rest =>
      intro s t same
      exact subShift_injective (mixColumns_injective (Block.xor_left_inj.mp (ih same)))

/-- The block cipher is a permutation under every key. -/
theorem cipher_injective (key : Bytes) : Function.Injective (cipher key) := by
  have schedule (keys : List Block) : Function.Injective (encryptWith keys) := by
    cases keys with
    | nil => exact fun _ _ same => same
    | cons first rest =>
      intro s t same
      exact Block.xor_left_inj.mp (rounds_injective rest same)
  exact schedule (roundKeys key)

end SealedColumns.Aes
