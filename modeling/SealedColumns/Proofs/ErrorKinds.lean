import SealedColumns.Aad
import SealedColumns.Proofs.Operation

/-!
# Kinds of errors that do not occur

Some kinds of errors must not come out of a computation. Every place that could give rise to one is
a check, so it has to be shown that the check never fails. `Avoids` carries a fact about the value
along, because the guard of one step is often the reason why the next one cannot go wrong.
-/

namespace SealedColumns

/-- The computation ends in a value that meets `Good`, or in an error of another kind. -/
def Avoids {α : Type} (kind : ErrorKind) (Good : α → Prop) : Except Error α → Prop
  | .ok a => Good a
  | .error e => e.kind ≠ kind

namespace Avoids

variable {α β : Type} {kind : ErrorKind} {Good : α → Prop} {Good' : β → Prop} {x : Except Error α}

theorem ok {a : α} (h : Good a) : Avoids kind Good (.ok a) := h

theorem pure {a : α} (h : Good a) : Avoids kind Good (Pure.pure a) := h

/-- Kinds of errors are told apart by computation. -/
theorem error {e : Error} (h : (e.kind == kind) = false) : Avoids kind Good (.error e) :=
  beq_eq_false_iff_ne.mp h

/-- What follows a value may rely on what is known of it. -/
theorem bind {f : α → Except Error β} (first : Avoids kind Good x)
    (rest : ∀ a, Good a → Avoids kind Good' (f a)) : Avoids kind Good' (x >>= f) := by
  cases x with
  | error e => exact first
  | ok a => exact rest a first

theorem mono {Weaker : α → Prop} (h : Avoids kind Good x) (weaker : ∀ a, Good a → Weaker a) :
    Avoids kind Weaker x := by
  cases x with
  | error e => exact h
  | ok a => exact weaker a h

/-- What is known of a value that was reached. -/
theorem and_of_eq_ok (h : Avoids kind Good x) {More : α → Prop} (more : ∀ a, x = .ok a → More a) :
    Avoids kind (fun a => Good a ∧ More a) x := by
  cases x with
  | error e => exact h
  | ok a => exact ⟨h, more a rfl⟩

/-- A check in front of a computation, which may rely on it. -/
theorem guard {c : Prop} [Decidable c] {e : Error} {f : α → Except Error β}
    {rest : Except Error β} (refusal : (e.kind == kind) = false)
    (h : ¬ c → Avoids kind Good' rest) : Avoids kind Good' (if c then throw e >>= f else rest) := by
  by_cases hc : c
  · rw [if_pos hc]
    exact error refusal
  · rw [if_neg hc]
    exact h hc

theorem ite {c : Prop} [Decidable c] {y : Except Error α} (yes : c → Avoids kind Good x)
    (no : ¬ c → Avoids kind Good y) : Avoids kind Good (if c then x else y) := by
  by_cases hc : c
  · rw [if_pos hc]
    exact yes hc
  · rw [if_neg hc]
    exact no hc

end Avoids

/-! ### Associated data

All that is wrong with the place of a module is reported as a general error. -/

section

variable {kind : ErrorKind} (others : (ErrorKind.general == kind) = false)
include others

theorem checkOrdinal_avoids (ordinalKind : OrdinalKind) (ordinal : Nat) :
    Avoids kind (fun _ => True) (checkOrdinal ordinalKind ordinal) :=
  .ite (fun _ => .ok trivial) fun _ => .error others

theorem moduleAad_avoids (fileAad : Bytes) (moduleKind : ModuleKind) (rowGroup column : Nat)
    (page : Option Nat) :
    Avoids kind (fun _ => True) (moduleAad fileAad moduleKind rowGroup column page) := by
  rw [moduleAad]
  refine .ite (fun _ => .ok trivial) fun _ => ?_
  refine (checkOrdinal_avoids others _ _).bind fun _ _ => ?_
  refine (checkOrdinal_avoids others _ _).bind fun _ _ => ?_
  refine .ite (fun _ => ?_) fun _ => .pure trivial
  cases page with
  | none => exact .error others
  | some page => exact (checkOrdinal_avoids others _ _).bind fun _ _ => .pure trivial

/-- The data kept of the last page always has an ordinal to replace. -/
theorem PageAad.forPage_avoids (p : PageAad) (page : Nat) :
    Avoids kind (fun _ => True) (p.forPage page).1 := by
  rw [forPage_fst]
  exact moduleAad_avoids others _ _ _ _ _

end

end SealedColumns
