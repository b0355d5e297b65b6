import SealedColumns.Cipher.Ghash
import SealedColumns.Proofs.Blocks
import SealedColumns.Proofs.HashModulus

/-!
# The hash computes in a field

The bits of a block, the first one lowest, are a number below `2 ^ 128`, and this number is a
polynomial. The operations of the hash are those of the field of polynomials modulo the modulus:
exclusive or is addition, `timesX` multiplies by the variable and `mul` multiplies. Different blocks
are different elements of the field.

Since a field has no divisors of zero, the hash under a key other than zero tells every single block
of its input: the sum up to this block, multiplied by the key again and again, keeps the difference.
-/

namespace SealedColumns.Ghash

open Polynomial

namespace BitPolynomial

/-- The value of a number whose low bits are split off. -/
theorem eval_append {R : Type} [CommRing R] (x : R) {k low : Nat} (small : low < 2 ^ k)
    (high : Nat) :
    eval x (low + 2 ^ k * high) = eval x low + x ^ k * eval x high := by
  have front : (low + 2 ^ k * high) % 2 ^ k = low := by
    rw [Nat.add_mul_mod_self_left, Nat.mod_eq_of_lt small]
  have back : (low + 2 ^ k * high) / 2 ^ k = high := by
    rw [Nat.add_mul_div_left _ _ (Nat.two_pow_pos k), Nat.div_eq_of_lt small, Nat.zero_add]
  rw [eval_split x k, front, back]

theorem map_eval {R S : Type} [CommRing R] [CommRing S] (φ : R →+* S) (x : R) (n : Nat) :
    φ (eval x n) = eval (φ x) n := by
  induction n using Nat.strong_induction_on with
  | _ n ih =>
    by_cases zero : n = 0
    · rw [zero, eval_zero, eval_zero, map_zero]
    · rw [eval_eq, eval_eq (φ x), map_add, map_mul, map_natCast, ih _ (by omega)]

/-- The bits are the coefficients. -/
theorem coeff_eval (n i : Nat) :
    (eval (X : (ZMod 2)[X]) n).coeff i = if n.testBit i then 1 else 0 := by
  induction i generalizing n with
  | zero =>
    rw [eval_eq, coeff_add, coeff_X_mul_zero, coeff_natCast_ite, if_pos rfl, add_zero,
      Nat.testBit_zero]
    obtain even | odd := Nat.mod_two_eq_zero_or_one n
    · simp [even]
    · simp [odd]
  | succ i ih =>
    rw [eval_eq, coeff_add, coeff_X_mul, coeff_natCast_ite, if_neg (Nat.succ_ne_zero i),
      Nat.cast_zero, zero_add, ih, Nat.testBit_succ]

theorem degree_eval_lt {n k : Nat} (small : n < 2 ^ k) :
    (eval (X : (ZMod 2)[X]) n).degree < k := by
  rw [degree_lt_iff_coeff_zero]
  intro i beyond
  have above : n < 2 ^ i := Nat.lt_of_lt_of_le small (Nat.pow_le_pow_right Nat.two_pos beyond)
  rw [coeff_eval, Nat.testBit_lt_two_pow above]
  rfl

/-- Only the number zero is the zero polynomial. -/
theorem eq_zero_of_eval {n : Nat} (zero : eval (X : (ZMod 2)[X]) n = 0) : n = 0 := by
  apply Nat.eq_of_testBit_eq
  intro i
  have bit := coeff_eval n i
  rw [zero, coeff_zero] at bit
  rw [Nat.zero_testBit]
  by_contra set
  rw [if_pos (by simpa using set)] at bit
  exact zero_ne_one bit

end BitPolynomial

/-! ### Blocks as numbers -/

/-- The bits of a word as a number, the top one lowest. -/
def wordNumber (w : UInt32) : Nat :=
  w.toBitVec.reverse.toNat

/-- The bits of a block as a number, the first one lowest. -/
def number (b : Block) : Nat :=
  wordNumber b.w0 +
    2 ^ 32 * (wordNumber b.w1 + 2 ^ 32 * (wordNumber b.w2 + 2 ^ 32 * wordNumber b.w3))

theorem testBit_wordNumber (w : UInt32) (i : Nat) :
    (wordNumber w).testBit i = w.toBitVec.getMsbD i := by
  rw [wordNumber, BitVec.testBit_toNat, BitVec.getLsbD_reverse]

theorem wordNumber_lt (w : UInt32) : wordNumber w < 2 ^ 32 :=
  w.toBitVec.reverse.isLt

theorem wordNumber_xor (a b : UInt32) : wordNumber (a ^^^ b) = wordNumber a ^^^ wordNumber b := by
  apply Nat.eq_of_testBit_eq
  intro i
  rw [Nat.testBit_xor, testBit_wordNumber, testBit_wordNumber, testBit_wordNumber]
  simp

theorem wordNumber_eq_zero_iff {w : UInt32} : wordNumber w = 0 ↔ w = 0 := by
  constructor
  · intro zero
    apply UInt32.toBitVec_inj.mp
    apply BitVec.eq_of_getMsbD_eq
    intro i hi
    rw [← testBit_wordNumber, zero]
    simp
  · rintro rfl
    decide

theorem number_lt (b : Block) : number b < 2 ^ 128 := by
  have word₀ := wordNumber_lt b.w0
  have word₁ := wordNumber_lt b.w1
  have word₂ := wordNumber_lt b.w2
  have word₃ := wordNumber_lt b.w3
  unfold number
  omega

/-- Only the block of zeros is the number zero. -/
theorem number_eq_zero_iff {b : Block} : number b = 0 ↔ b = Block.zero := by
  constructor
  · intro zero
    unfold number at zero
    have word₀ : b.w0 = 0 := wordNumber_eq_zero_iff.mp (by omega)
    have word₁ : b.w1 = 0 := wordNumber_eq_zero_iff.mp (by omega)
    have word₂ : b.w2 = 0 := wordNumber_eq_zero_iff.mp (by omega)
    have word₃ : b.w3 = 0 := wordNumber_eq_zero_iff.mp (by omega)
    cases b
    simp_all [Block.zero]
  · rintro rfl
    have zero : wordNumber 0 = 0 := wordNumber_eq_zero_iff.mpr rfl
    simp [number, Block.zero, zero]

/-- A word that moves one place on, with a bit coming in from the word before it. -/
theorem wordNumber_shift (w before : UInt32) :
    wordNumber (w >>> 1 ||| before <<< 31) =
      2 * wordNumber w % 2 ^ 32 ^^^ wordNumber before / 2 ^ 31 := by
  apply Nat.eq_of_testBit_eq
  intro i
  have double := Nat.testBit_two_pow_mul (i := 1) (a := wordNumber w) (j := i)
  rw [pow_one] at double
  rw [Nat.testBit_xor, Nat.testBit_mod_two_pow, double, Nat.testBit_div_two_pow, testBit_wordNumber,
    testBit_wordNumber, testBit_wordNumber]
  by_cases first : i = 0
  · subst first
    simp
  · have later : 1 ≤ i := Nat.one_le_iff_ne_zero.mpr first
    simp [first, later]

theorem wordNumber_shiftLeft (w : UInt32) : wordNumber (w <<< 1) = wordNumber w / 2 := by
  apply Nat.eq_of_testBit_eq
  intro i
  rw [Nat.testBit_div_two, testBit_wordNumber, testBit_wordNumber]
  simp

theorem wordNumber_and (a b : UInt32) : wordNumber (a &&& b) = wordNumber a &&& wordNumber b := by
  apply Nat.eq_of_testBit_eq
  intro i
  rw [Nat.testBit_and, testBit_wordNumber, testBit_wordNumber, testBit_wordNumber]
  simp

/-- A mask of a single bit asks for this bit. -/
theorem and_eq_zero_iff (w mask : UInt32) {k : Nat} (single : wordNumber mask = 2 ^ k) :
    w &&& mask = 0 ↔ wordNumber w / 2 ^ k % 2 = 0 := by
  rw [← wordNumber_eq_zero_iff, wordNumber_and, single, Nat.and_two_pow,
    Nat.testBit_eq_decide_div_mod_eq]
  obtain even | odd := Nat.mod_two_eq_zero_or_one (wordNumber w / 2 ^ k)
  · simp [even]
  · simp [odd]

/-- The bit that falls off the end of a word. -/
theorem wordNumber_last (w : UInt32) : wordNumber w / 2 ^ 31 = if w &&& 1 = 0 then 0 else 1 := by
  have small := wordNumber_lt w
  have asked := and_eq_zero_iff w 1 (k := 31) (by cbv)
  split
  · next zero =>
    have even := asked.mp zero
    omega
  · next set =>
    have odd := mt asked.mpr set
    omega

/-- The first bit of a word. -/
theorem wordNumber_first (w : UInt32) :
    wordNumber w % 2 = if w &&& 0x80000000 = 0 then 0 else 1 := by
  have asked := and_eq_zero_iff w 0x80000000 (k := 0) (by cbv)
  rw [pow_zero, Nat.div_one] at asked
  split
  · next zero => exact asked.mp zero
  · next set =>
    have odd := mt asked.mpr set
    omega

/-! ### The operations of the hash -/

section

variable {R : Type} [CommRing R]

/-- The value of a block at `x`. -/
def value (x : R) (b : Block) : R :=
  BitPolynomial.eval x (number b)

/-- The value of a word at `x`. -/
def wordValue (x : R) (w : UInt32) : R :=
  BitPolynomial.eval x (wordNumber w)

/-- The bit that falls off the end of a word when it moves one place on. -/
def carry (R : Type) [CommRing R] (w : UInt32) : R :=
  if w &&& 1 = 0 then 0 else 1

variable (x : R)

theorem value_eq (b : Block) : value x b = wordValue x b.w0 +
    x ^ 32 * (wordValue x b.w1 + x ^ 32 * (wordValue x b.w2 + x ^ 32 * wordValue x b.w3)) := by
  rw [value, number, BitPolynomial.eval_append _ (wordNumber_lt _),
    BitPolynomial.eval_append _ (wordNumber_lt _), BitPolynomial.eval_append _ (wordNumber_lt _)]
  rfl

theorem value_zero : value x Block.zero = 0 := by
  rw [value, number_eq_zero_iff.mpr rfl, BitPolynomial.eval_zero]

theorem eval_last (w : UInt32) : BitPolynomial.eval x (wordNumber w / 2 ^ 31) = carry R w := by
  rw [wordNumber_last, carry]
  split
  · exact BitPolynomial.eval_zero x
  · exact BitPolynomial.eval_one x

variable [CharP R 2]

theorem wordValue_xor (a b : UInt32) : wordValue x (a ^^^ b) = wordValue x a + wordValue x b := by
  rw [wordValue, wordNumber_xor, BitPolynomial.eval_xor]
  rfl

/-- Exclusive or is addition. -/
theorem value_xor (a b : Block) : value x (a ^^^ b) = value x a + value x b := by
  rw [Block.xor_eq, value_eq, value_eq, value_eq, wordValue_xor, wordValue_xor, wordValue_xor,
    wordValue_xor]
  ring

/-- A word that moves one place on is multiplied by the variable, but for the bit that falls off its
end; the bit that falls off the word before it comes in. -/
theorem wordValue_shift (w before : UInt32) : wordValue x (w >>> 1 ||| before <<< 31) =
    x * wordValue x w + x ^ 32 * carry R w + carry R before := by
  have last : 2 * wordNumber w / 2 ^ 32 = wordNumber w / 2 ^ 31 := by omega
  have whole := BitPolynomial.eval_split x 32 (2 * wordNumber w)
  rw [BitPolynomial.eval_double, last, eval_last] at whole
  rw [wordValue, wordNumber_shift, BitPolynomial.eval_xor, eval_last, wordValue]
  linear_combination -whole - x ^ 32 * carry R w * (CharTwo.two_eq_zero : (2 : R) = 0)

/-- What is fed back into the first word is the low part of the modulus. -/
theorem wordValue_feedback (w : UInt32) : wordValue x (if w &&& 1 = 0 then 0 else 0xe1000000) =
    carry R w * (x ^ 7 + x ^ 2 + x + 1) := by
  have zero : wordNumber 0 = 0 := wordNumber_eq_zero_iff.mpr rfl
  have low : wordNumber 0xe1000000 = 2 ^ 7 * 1 ^^^ 2 ^ 2 * 1 ^^^ 2 * 1 ^^^ 1 := by cbv
  rw [wordValue, carry]
  split
  · rw [zero, BitPolynomial.eval_zero, zero_mul]
  · rw [low, BitPolynomial.eval_xor, BitPolynomial.eval_xor, BitPolynomial.eval_xor,
      BitPolynomial.eval_shift, BitPolynomial.eval_shift, BitPolynomial.eval_double,
      BitPolynomial.eval_one]
    ring

variable (root : x ^ 128 = x ^ 7 + x ^ 2 + x + 1)
include root

/-- The bits move one place on, modulo the modulus. -/
theorem value_timesX (v : Block) : value x (timesX v) = x * value x v := by
  have first : wordValue x (v.w0 >>> 1) = x * wordValue x v.w0 + x ^ 32 * carry R v.w0 := by
    have shifted := wordValue_shift x v.w0 0
    have nothing : carry R 0 = 0 := if_pos rfl
    rwa [nothing, add_zero, UInt32.zero_shiftLeft, UInt32.or_zero] at shifted
  rw [value_eq, value_eq x v, timesX]
  rw [wordValue_xor, first, wordValue_feedback, wordValue_shift, wordValue_shift, wordValue_shift]
  linear_combination carry R v.w3 * root + (x ^ 32 * carry R v.w0 + x ^ 64 * carry R v.w1 +
    x ^ 96 * carry R v.w2 + carry R v.w3 * (x ^ 7 + x ^ 2 + x + 1)) *
      (CharTwo.two_eq_zero : (2 : R) = 0)

/-- The bits of a word select the shifts that are added, so that together they are
multiples of the other factor. -/
theorem value_addShifts (n : Nat) (bits : UInt32) (v sum : Block) :
    value x (addShifts n bits v sum).1 = x ^ n * value x v ∧
    value x (addShifts n bits v sum).2 =
      value x sum + BitPolynomial.eval x (wordNumber bits % 2 ^ n) * value x v := by
  induction n generalizing bits v sum with
  | zero => simp [addShifts, Nat.mod_one, BitPolynomial.eval_zero]
  | succ n ih =>
    have selected : value x (if bits &&& 0x80000000 = 0 then sum else sum ^^^ v) =
        value x sum + (wordNumber bits % 2 : Nat) * value x v := by
      rw [wordNumber_first]
      split
      · rw [Nat.cast_zero, zero_mul, add_zero]
      · rw [value_xor, Nat.cast_one, one_mul]
    obtain ⟨shifted, summed⟩ := ih (bits <<< 1) (timesX v)
      (if bits &&& 0x80000000 = 0 then sum else sum ^^^ v)
    rw [value_timesX x root] at shifted summed
    constructor
    · rw [addShifts, shifted]
      ring
    · rw [addShifts, summed, selected, wordNumber_shiftLeft, BitPolynomial.eval_mod]
      ring

/-- Multiplication is that of the field. -/
theorem value_mul (a b : Block) : value x (mul a b) = value x a * value x b := by
  have whole (w : UInt32) : wordNumber w % 2 ^ 32 = wordNumber w :=
    Nat.mod_eq_of_lt (wordNumber_lt w)
  have shifts (w : UInt32) (v sum : Block) := (value_addShifts x root 32 w v sum).1
  have sums (w : UInt32) (v sum : Block) := (value_addShifts x root 32 w v sum).2
  simp only [whole] at sums
  simp only [mul, shifts, sums, value_zero]
  rw [value_eq x a, wordValue, wordValue, wordValue, wordValue]
  ring

end

/-! ### The field -/

instance : Fact (Irreducible modulus) :=
  ⟨irreducible_modulus⟩

/-- The element of the field that a block stands for. -/
noncomputable def element (b : Block) : AdjoinRoot modulus :=
  value (AdjoinRoot.root modulus) b

theorem element_xor (a b : Block) : element (a ^^^ b) = element a + element b :=
  value_xor _ a b

theorem element_mul (a b : Block) : element (mul a b) = element a * element b :=
  value_mul _ (root_pow dvd_rfl) a b

/-- Only the block of zeros is zero: a polynomial of a lower degree is no
multiple of the modulus. -/
theorem element_eq_zero_iff {b : Block} : element b = 0 ↔ b = Block.zero := by
  constructor
  · intro zero
    have multiple : modulus ∣ BitPolynomial.eval (X : (ZMod 2)[X]) (number b) := by
      rw [← AdjoinRoot.mk_eq_zero, BitPolynomial.map_eval, AdjoinRoot.mk_X]
      exact zero
    have lower : (BitPolynomial.eval (X : (ZMod 2)[X]) (number b)).degree < modulus.degree := by
      rw [degree_eq_natDegree irreducible_modulus.ne_zero, natDegree_modulus]
      exact BitPolynomial.degree_eval_lt (number_lt b)
    exact number_eq_zero_iff.mp
      (BitPolynomial.eq_zero_of_eval (eq_zero_of_dvd_of_degree_lt multiple lower))
  · rintro rfl
    exact value_zero _

/-- Different blocks are different elements. -/
theorem element_inj {a b : Block} : element a = element b ↔ a = b := by
  constructor
  · intro same
    have apart : element (a ^^^ b) = 0 := by
      rw [element_xor, same, CharTwo.add_self_eq_zero]
    rw [element_eq_zero_iff, ← Block.xor_self b] at apart
    exact Block.xor_left_inj.mp apart
  · rintro rfl
    rfl

/-! ### Changing one block of the input -/

/-- Multiplication by a key other than zero keeps blocks apart. -/
theorem mul_left_inj {key : Block} (nonzero : key ≠ Block.zero) {a b : Block} :
    mul a key = mul b key ↔ a = b := by
  have unit : element key ≠ 0 := mt element_eq_zero_iff.mp nonzero
  rw [← element_inj, element_mul, element_mul, mul_eq_mul_right_iff, or_iff_left unit, element_inj]

/-- The rest of the input keeps sums apart. -/
theorem foldl_inj {key : Block} (nonzero : key ≠ Block.zero) (rest : List Block) {a b : Block} :
    rest.foldl (fun sum next => mul (sum ^^^ next) key) a =
      rest.foldl (fun sum next => mul (sum ^^^ next) key) b ↔ a = b := by
  induction rest generalizing a b with
  | nil => rfl
  | cons next rest ih =>
    rw [List.foldl_cons, List.foldl_cons, ih, mul_left_inj nonzero, Block.xor_left_inj]

/-- Inputs that differ in a single block have different hashes under a key other than zero. -/
theorem hash_inj {key : Block} (nonzero : key ≠ Block.zero) (before after : List Block)
    {a b : Block} :
    hash key (before ++ a :: after) = hash key (before ++ b :: after) ↔ a = b := by
  rw [hash, hash, List.foldl_append, List.foldl_append, List.foldl_cons, List.foldl_cons,
    foldl_inj nonzero, mul_left_inj nonzero, Block.xor_right_inj]

end SealedColumns.Ghash
