import SealedColumns.Text.Case

/-!
# Lower case and ASCII

Inside ASCII, lower case is the one that changes the letters from `A` to `Z` and nothing
else. Outside, characters stay outside, but for two: the Kelvin sign turns into `k`, and
the dotted capital I into an `i` with a dot above. So a text of ASCII without these two
letters is the lower case of exactly those texts that agree with it up to the case of ASCII
letters (`toLowerCase_eq_iff`).
-/

namespace SealedColumns.Text

/-- A character of ASCII that is not met in the lower case of anything outside of ASCII. -/
structure FromAscii (d : Char) : Prop where
  lt : d.toNat < 128
  ne_nul : d ≠ '\x00'
  ne_i : d ≠ 'i'
  ne_k : d ≠ 'k'

/-- The ranges of the table are that of ASCII, the Kelvin sign, and ranges that do not touch
ASCII. -/
theorem lowerCaseRanges_ascii : ∀ r ∈ lowerCaseRanges,
    r = (0x41, 0x5A, 1, 32) ∨ r = (0x212A, 0x212A, 1, -8383) ∨
      (128 ≤ r.1 ∧ (128 : Int) ≤ r.1 + r.2.2.2) := by
  decide +kernel

theorem mem_lowerCaseRanges : (0x41, 0x5A, 1, 32) ∈ lowerCaseRanges :=
  List.mem_toArray.mpr List.mem_cons_self

variable {c d : Char}

theorem toLower_ofNat : ∀ n < 0x5B, 0x41 ≤ n → (Char.ofNat n).toLower = Char.ofNat (n + 32) := by
  decide

theorem toLower_of_not_capital (h : ¬ (0x41 ≤ c.toNat ∧ c.toNat ≤ 0x5A)) : c.toLower = c :=
  dif_neg h

theorem lowerCase_of_ascii (ascii : c.toNat < 128) : lowerCase c = [c.toLower] := by
  have undotted : c ≠ '\u0130' := by
    rintro rfl
    exact absurd ascii (by decide)
  rw [lowerCase, if_neg undotted]
  split
  · next first last step shift found =>
      have inside := Array.find?_some found
      simp only [Bool.and_eq_true, decide_eq_true_eq] at inside
      obtain ⟨⟨lower, upper⟩, _⟩ := inside
      obtain capital | kelvin | ⟨outside, _⟩ :=
        lowerCaseRanges_ascii _ (Array.mem_of_find?_eq_some found)
      · cases capital
        have lowered := toLower_ofNat c.toNat (Nat.lt_succ_of_le upper) lower
        rw [Char.ofNat_toNat] at lowered
        rw [lowered]
        rfl
      · cases kelvin
        omega
      · omega
  · next missing =>
      have outside := Array.find?_eq_none.mp missing _ mem_lowerCaseRanges
      rw [toLower_of_not_capital]
      simpa [Nat.mod_one] using outside

theorem toNat_ofNat (n : Nat) : (Char.ofNat n).toNat = n ∨ Char.ofNat n = '\x00' := by
  by_cases valid : n.isValidChar
  · exact .inl (congrArg Char.toNat (dif_pos valid))
  · exact .inr (dif_neg valid)

/-- Nothing outside of ASCII has a character in its lower case that is from ASCII only. -/
theorem not_fromAscii_of_mem_lowerCase (other : ¬ c.toNat < 128) (hd : d ∈ lowerCase c) :
    ¬ FromAscii d := by
  intro ascii
  rw [lowerCase] at hd
  split at hd
  · obtain rfl | rfl : d = 'i' ∨ d = '\u0307' := by simpa using hd
    · exact ascii.ne_i rfl
    · exact absurd ascii.lt (by decide)
  · split at hd
    · next first last step shift found =>
        have inside := Array.find?_some found
        simp only [Bool.and_eq_true, decide_eq_true_eq] at inside
        obtain ⟨⟨lower, upper⟩, _⟩ := inside
        obtain rfl := List.mem_singleton.mp hd
        obtain capital | kelvin | ⟨_, outside⟩ :=
          lowerCaseRanges_ascii _ (Array.mem_of_find?_eq_some found)
        · cases capital
          omega
        · cases kelvin
          obtain same : c.toNat = 0x212A := by omega
          exact ascii.ne_k (by rw [same]; rfl)
        · obtain same | nul := toNat_ofNat (c.toNat + shift).toNat
          · have lt := ascii.lt
            rw [same] at lt
            dsimp only at outside
            omega
          · exact ascii.ne_nul nul
    · obtain rfl := List.mem_singleton.mp hd
      exact other ascii.lt

/-- The lower case of a character in its context. -/
theorem lowerCaseAfter_cons (before rest : List Char) (c : Char) :
    ∃ piece, lowerCaseAfter before (c :: rest) = piece ++ lowerCaseAfter (c :: before) rest ∧
      (c.toNat < 128 → piece = [c.toLower]) ∧
      (¬ c.toNat < 128 → ∃ d tail, piece = d :: tail ∧ ¬ FromAscii d) := by
  rw [lowerCaseAfter]
  refine ⟨_, rfl, fun ascii => ?_, fun other => ?_⟩
  · have plain : c ≠ 'Σ' := by
      rintro rfl
      exact absurd ascii (by decide)
    rw [if_neg plain, lowerCase_of_ascii ascii]
  · split
    · refine ⟨_, [], rfl, fun ascii => absurd ascii.lt ?_⟩
      split <;> decide
    · cases lowered : lowerCase c with
      | nil =>
          rw [lowerCase] at lowered
          split at lowered
          · cases lowered
          · split at lowered <;> cases lowered
      | cons d tail =>
          refine ⟨d, tail, rfl, not_fromAscii_of_mem_lowerCase other ?_⟩
          rw [lowered]
          exact List.mem_cons_self

theorem lowerCaseAfter_eq_iff {before cs target : List Char} (ascii : ∀ d ∈ target, FromAscii d) :
    lowerCaseAfter before cs = target ↔ cs.map Char.toLower = target := by
  induction cs generalizing before target with
  | nil => exact Iff.rfl
  | cons c rest ih =>
      obtain ⟨piece, split, inside, outside⟩ := lowerCaseAfter_cons before rest c
      rw [split, List.map_cons]
      by_cases lt : c.toNat < 128
      · rw [inside lt, List.singleton_append]
        cases target with
        | nil => simp
        | cons d target =>
            rw [List.cons.injEq, List.cons.injEq,
              ih fun d hd => ascii d (List.mem_cons_of_mem _ hd)]
      · obtain ⟨d, tail, rfl, foreign⟩ := outside lt
        have kept : c.toLower = c := toLower_of_not_capital (by omega)
        constructor
        · rintro rfl
          exact absurd (ascii d List.mem_cons_self) foreign
        · rintro rfl
          have same := ascii c.toLower List.mem_cons_self
          rw [kept] at same
          exact absurd same.lt lt

theorem toList_toLower (s : String) : s.toLower.toList = s.toList.map Char.toLower :=
  String.toList_map

/-- Some texts are the lower case of nothing but themselves in another case of ASCII. -/
theorem toLowerCase_eq_iff {s target : String} (ascii : ∀ d ∈ target.toList, FromAscii d) :
    toLowerCase s = target ↔ s.toLower = target := by
  rw [toLowerCase, ← String.toList_inj, ← String.toList_inj, toList_toLower, String.toList_ofList]
  exact lowerCaseAfter_eq_iff ascii

end SealedColumns.Text
