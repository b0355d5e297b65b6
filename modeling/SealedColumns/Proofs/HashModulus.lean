import Mathlib.Data.Nat.Bitwise
import Mathlib.FieldTheory.Finite.Extension

/-!
# The modulus of the authentication hash is irreducible

The hash computes with polynomials over the field of two elements, modulo
`X ^ 128 + X ^ 7 + X ^ 2 + X + 1`. That this modulus is irreducible is Rabin's test: it divides
`X ^ (2 ^ 128) - X`, so that the degree of a factor divides 128, and it has no factor in common with
`X ^ (2 ^ 64) - X`, so that no proper divisor of 128 is the degree of a factor.

For the test a polynomial is a number whose bits are the coefficients, the lowest bit being the
constant one. Numbers are multiplied without carries and reduced by folding what stands above the
degree of the modulus down, twice; 128 squarings are all that has to be computed.
-/

namespace SealedColumns.Ghash

open Polynomial

/-- The modulus of the field that the hash computes in. -/
@[irreducible] noncomputable def modulus : (ZMod 2)[X] :=
  X ^ 128 + X ^ 7 + X ^ 2 + X + 1

/-! ### Polynomials as numbers -/

namespace BitPolynomial

/-- The product without carries of the `width` low bits of `a` and of `b`. -/
def product : (width a b : Nat) → Nat
  | 0, _, _ => 0
  | width + 1, a, b => (a % 2 * b) ^^^ (2 * product width (a / 2) b)

/-- What stands above the degree of the modulus, folded down once. -/
def fold (n : Nat) : Nat :=
  let high := n / 2 ^ 128
  n % 2 ^ 128 ^^^ high ^^^ 2 * high ^^^ 2 ^ 2 * high ^^^ 2 ^ 7 * high

/-- The product modulo the modulus. -/
def productMod (a b : Nat) : Nat :=
  fold (fold (product 128 a b))

/-- The result of squaring `count` times, as long as all that is squared is reduced. -/
def squares : (count n : Nat) → Option Nat
  | 0, n => some n
  | count + 1, n => if n < 2 ^ 128 then squares count (productMod n n) else none

section

variable {R : Type} [CommRing R] (x : R)

/-- The value of a polynomial at `x`. -/
def eval (n : Nat) : R :=
  if n = 0 then 0 else (n % 2 : Nat) + x * eval (n / 2)

/-- The lowest bit is the constant coefficient. -/
theorem eval_eq (n : Nat) : eval x n = (n % 2 : Nat) + x * eval x (n / 2) := by
  by_cases zero : n = 0
  · subst zero
    rw [eval]
    simp
  · rw [eval, if_neg zero]

theorem eval_zero : eval x 0 = 0 := by
  rw [eval, if_pos rfl]

theorem eval_one : eval x 1 = 1 := by
  rw [eval_eq, eval_zero]
  simp

theorem eval_double (n : Nat) : eval x (2 * n) = x * eval x n := by
  have low : 2 * n % 2 = 0 := by omega
  have rest : 2 * n / 2 = n := by omega
  rw [eval_eq, low, rest, Nat.cast_zero, zero_add]

theorem eval_shift (k n : Nat) : eval x (2 ^ k * n) = x ^ k * eval x n := by
  induction k with
  | zero => simp
  | succ k ih => rw [Nat.pow_succ', Nat.mul_assoc, eval_double, ih, pow_succ', mul_assoc]

/-- The low part begins with the lowest bit. -/
theorem eval_mod (k n : Nat) :
    eval x (n % 2 ^ (k + 1)) = (n % 2 : Nat) + x * eval x (n / 2 % 2 ^ k) := by
  have low : n % 2 ^ (k + 1) % 2 = n % 2 := Nat.mod_mod_of_dvd n (Dvd.intro_left (2 ^ k) rfl)
  have rest : n % 2 ^ (k + 1) / 2 = n / 2 % 2 ^ k := by
    rw [Nat.pow_succ', Nat.mod_mul_right_div_self]
  rw [eval_eq, low, rest]

/-- A polynomial is its low part and a shift of its high part. -/
theorem eval_split (k n : Nat) : eval x n = eval x (n % 2 ^ k) + x ^ k * eval x (n / 2 ^ k) := by
  induction k generalizing n with
  | zero => simp [Nat.mod_one, eval_zero]
  | succ k ih =>
      have high : n / 2 ^ (k + 1) = n / 2 / 2 ^ k := by
        rw [Nat.div_div_eq_div_mul, Nat.pow_succ']
      rw [eval_eq, ih (n / 2), eval_mod, high]
      ring

variable [CharP R 2]

theorem eval_xor (a b : Nat) : eval x (a ^^^ b) = eval x a + eval x b := by
  induction a using Nat.strong_induction_on generalizing b with
  | _ a ih =>
    by_cases zero : a = 0
    · rw [zero, Nat.zero_xor, eval_zero, zero_add]
    · have low : (((a ^^^ b) % 2 : Nat) : R) = (a % 2 : Nat) + (b % 2 : Nat) := by
        rw [Nat.xor_mod_two_eq, ← CharP.cast_eq_mod R 2, ← CharP.cast_eq_mod R 2,
          ← CharP.cast_eq_mod R 2, Nat.cast_add]
      have rest : (a ^^^ b) / 2 = a / 2 ^^^ b / 2 := Nat.xor_div_two
      rw [eval_eq, low, rest, ih _ (by omega), eval_eq x a, eval_eq x b]
      ring

theorem eval_product {width a : Nat} (b : Nat) (small : a < 2 ^ width) :
    eval x (product width a b) = eval x a * eval x b := by
  induction width generalizing a with
  | zero =>
      have zero : a = 0 := by simpa using small
      rw [product, zero, eval_zero, zero_mul]
  | succ width ih =>
      have half : a / 2 < 2 ^ width := by
        rw [Nat.pow_succ] at small
        omega
      have low : eval x (a % 2 * b) = (a % 2 : Nat) * eval x b := by
        obtain even | odd := Nat.mod_two_eq_zero_or_one a
        · rw [even]
          simp [eval_zero]
        · rw [odd]
          simp
      rw [product, eval_xor, eval_double, ih half, low, eval_eq x a]
      ring

/-- Folding keeps the value at a root of the modulus. -/
theorem eval_fold (root : x ^ 128 = x ^ 7 + x ^ 2 + x + 1) (n : Nat) :
    eval x (fold n) = eval x n := by
  have one : eval x (2 * (n / 2 ^ 128)) = x * eval x (n / 2 ^ 128) := eval_double x _
  rw [fold, eval_xor, eval_xor, eval_xor, eval_xor, eval_shift, eval_shift, one, eval_split x 128 n,
    root]
  ring

theorem eval_productMod (root : x ^ 128 = x ^ 7 + x ^ 2 + x + 1) {a : Nat} (b : Nat)
    (small : a < 2 ^ 128) : eval x (productMod a b) = eval x a * eval x b := by
  rw [productMod, eval_fold x root, eval_fold x root, eval_product x b small]

theorem eval_squares (root : x ^ 128 = x ^ 7 + x ^ 2 + x + 1) {count n result : Nat}
    (computed : squares count n = some result) : eval x result = eval x n ^ 2 ^ count := by
  induction count generalizing n with
  | zero =>
    cases computed
    simp
  | succ count ih =>
    rw [squares] at computed
    split at computed
    · next small =>
      rw [ih computed, eval_productMod x root n small, ← pow_two, ← pow_mul, ← pow_succ']
    · cases computed

end

end BitPolynomial

/-! ### Rabin's test -/

theorem natDegree_modulus : modulus.natDegree = 128 := by
  unfold modulus
  compute_degree!

theorem pow_of_root {R : Type} [CommRing R] [Algebra (ZMod 2) R] [CharP R 2] {x : R}
    (root : aeval x modulus = 0) : x ^ 128 = x ^ 7 + x ^ 2 + x + 1 := by
  unfold modulus at root
  simp only [map_add, map_pow, aeval_X, map_one, add_assoc] at root
  rw [← CharTwo.add_eq_zero]
  simpa only [add_assoc] using root

section

variable {f : (ZMod 2)[X]} [Fact (Irreducible f)]

instance charP_adjoinRoot : CharP (AdjoinRoot f) 2 :=
  charP_of_injective_algebraMap (algebraMap (ZMod 2) (AdjoinRoot f)).injective 2

/-- A root of a factor of the modulus is a root of the modulus. -/
theorem root_pow (factor : f ∣ modulus) : AdjoinRoot.root f ^ 128 =
    AdjoinRoot.root f ^ 7 + AdjoinRoot.root f ^ 2 + AdjoinRoot.root f + 1 := by
  have root : aeval (AdjoinRoot.root f) modulus = 0 := by
    rw [AdjoinRoot.aeval_eq, AdjoinRoot.mk_eq_zero]
    exact factor
  exact pow_of_root root

/-- The square of the variable after 64 squarings, as a number. -/
def halfway : Nat :=
  0x61651fea6b5832b944e598a795a299f6

theorem squares_halfway : BitPolynomial.squares 64 2 = some halfway := by decide +kernel

theorem squares_whole : BitPolynomial.squares 64 halfway = some 2 := by decide +kernel

/-- An inverse of what the variable is added to after 64 squarings. -/
def halfwayInverse : Nat :=
  0x9e4af928ddbc838a41a8cafd2c95b018

theorem productMod_halfwayInverse :
    BitPolynomial.productMod (halfway ^^^ 2) halfwayInverse = 1 := by decide +kernel

theorem eval_variable {R : Type} [CommRing R] (x : R) : BitPolynomial.eval x 2 = x := by
  have double := BitPolynomial.eval_double x 1
  rwa [BitPolynomial.eval_one, mul_one, mul_one] at double

theorem eval_halfway (factor : f ∣ modulus) :
    BitPolynomial.eval (AdjoinRoot.root f) halfway = AdjoinRoot.root f ^ 2 ^ 64 := by
  rw [BitPolynomial.eval_squares _ (root_pow factor) squares_halfway, eval_variable]

/-- The modulus divides `X ^ (2 ^ 128) - X`. -/
theorem root_pow_whole (factor : f ∣ modulus) :
    AdjoinRoot.root f ^ 2 ^ 128 = AdjoinRoot.root f := by
  have whole := BitPolynomial.eval_squares _ (root_pow factor) squares_whole
  rw [eval_variable, eval_halfway factor, ← pow_mul, ← pow_add] at whole
  exact whole.symm

/-- No factor of the modulus divides `X ^ (2 ^ 64) - X`. -/
theorem root_pow_halfway_ne (factor : f ∣ modulus) :
    AdjoinRoot.root f ^ 2 ^ 64 ≠ AdjoinRoot.root f := by
  intro same
  have unit := BitPolynomial.eval_productMod _ (root_pow factor) halfwayInverse
    (by decide : halfway ^^^ 2 < 2 ^ 128)
  rw [productMod_halfwayInverse, BitPolynomial.eval_one, BitPolynomial.eval_xor,
    eval_halfway factor, eval_variable, same, CharTwo.add_self_eq_zero, zero_mul] at unit
  exact one_ne_zero unit

/-- An irreducible factor of the modulus has the degree of the modulus. -/
theorem natDegree_factor (factor : f ∣ modulus) : f.natDegree = 128 := by
  have irreducible : Irreducible f := Fact.out
  have divides (n : Nat) : f.natDegree ∣ n ↔ AdjoinRoot.root f ^ 2 ^ n = AdjoinRoot.root f := by
    rw [irreducible.natDegree_dvd_iff_dvd_X_pow_card_pow_sub_X, Nat.card_zmod,
      ← AdjoinRoot.mk_eq_zero, map_sub, map_pow, AdjoinRoot.mk_X, sub_eq_zero]
  have whole : f.natDegree ∣ 2 ^ 7 := (divides 128).mpr (root_pow_whole factor)
  have halfway : ¬ f.natDegree ∣ 2 ^ 6 := fun h => root_pow_halfway_ne factor ((divides 64).mp h)
  obtain ⟨k, le, power⟩ := (Nat.dvd_prime_pow Nat.prime_two).mp whole
  have last : ¬ k ≤ 6 := by
    intro below
    exact halfway (power ▸ Nat.pow_dvd_pow 2 below)
  have seven : k = 7 := by omega
  rw [power, seven]
  rfl

end

theorem irreducible_modulus : Irreducible modulus := by
  have nonzero : modulus ≠ 0 := by
    intro zero
    have degree := natDegree_modulus
    rw [zero, natDegree_zero] at degree
    cases degree
  obtain ⟨f, irreducible, factor⟩ := exists_irreducible_of_natDegree_pos
    (f := modulus) (by rw [natDegree_modulus]; decide)
  have : Fact (Irreducible f) := ⟨irreducible⟩
  have degree : modulus.natDegree ≤ f.natDegree := by
    rw [natDegree_modulus, natDegree_factor factor]
  exact (associated_of_dvd_of_natDegree_le factor nonzero degree).irreducible irreducible

end SealedColumns.Ghash
