import Mathlib.Data.List.Forall2
import SealedColumns.Bytes

/-!
# Members that stand one after the other

Pages in a chunk, chunks in a row group, row groups and offset indexes in a file are all laid out in
one way: the bytes of each member start where those of the member before it end. What is known of a
single member, its number, its position and its bytes, is a parameter. A table of recorded positions
for which members are laid out tiles the bytes, without gap or overlap.
-/

namespace SealedColumns

/-- The members `as`, with what is recorded of them in `bs`, stand one after the other from position
`start` on, and are counted from `index` on. Each is with its bytes as `place` says. -/
inductive Laid {α β : Type} (place : Nat → Nat → α → β → Bytes → Prop) :
    (index start : Nat) → List α → List β → Bytes → Prop where
  | nil {index start : Nat} : Laid place index start [] [] []
  | cons {index start : Nat} {a : α} {b : β} {as : List α} {bs : List β} {bytes more : Bytes}
      (first : place index start a b bytes)
      (rest : Laid place (index + 1) (start + bytes.length) as bs more) :
      Laid place index start (a :: as) (b :: bs) (bytes ++ more)

namespace Laid

variable {α β : Type} {place : Nat → Nat → α → β → Bytes → Prop} {index start : Nat}
variable {as : List α} {bs : List β} {bytes : Bytes}

/-- The number of a member, counted from the first one or from the one after it. -/
theorem add_succ_eq (index k : Nat) : index + (k + 1) = index + 1 + k := by omega

theorem single {a : α} {b : β} (h : place index start a b bytes) :
    Laid place index start [a] [b] bytes := by
  have whole : Laid place index start [a] [b] (bytes ++ []) := .cons h .nil
  rwa [List.append_nil] at whole

theorem length_eq (h : Laid place index start as bs bytes) : as.length = bs.length := by
  induction h with
  | nil => rfl
  | cons _ _ ih => exact congrArg (· + 1) ih

/-- What is laid out behind other members continues their numbers and their positions. -/
theorem append {as' : List α} {bs' : List β} {more : Bytes}
    (h : Laid place index start as bs bytes)
    (h' : Laid place (index + as.length) (start + bytes.length) as' bs' more) :
    Laid place index start (as ++ as') (bs ++ bs') (bytes ++ more) := by
  induction h with
  | nil => exact h'
  | @cons index start a b as bs bytes' more' first rest ih =>
      rw [List.length_cons, add_succ_eq, List.length_append, ← Nat.add_assoc] at h'
      rw [List.append_assoc]
      exact .cons first (ih h')

/-- A member that is known by its place among the others. -/
theorem exists_of_getElem? (h : Laid place index start as bs bytes) {k : Nat} {a : α}
    (ha : as[k]? = some a) :
    ∃ b before own after, bs[k]? = some b ∧ bytes = before ++ (own ++ after) ∧
      place (index + k) (start + before.length) a b own := by
  induction h generalizing k with
  | nil => cases ha
  | @cons index start a' b as bs own more first rest ih =>
      cases k with
      | zero =>
          cases ha
          exact ⟨b, [], own, more, rfl, rfl, first⟩
      | succ k =>
          obtain ⟨b', before, own', after, hb, rfl, placed⟩ := ih ha
          refine ⟨b', own ++ before, own', after, hb, by rw [List.append_assoc], ?_⟩
          rwa [add_succ_eq, List.length_append, ← Nat.add_assoc start]

/-- What is recorded of the members may be replaced, one by one. -/
theorem replace {γ : Type} {place' : Nat → Nat → α → γ → Bytes → Prop} {R : β → γ → Prop}
    {cs : List γ} (h : Laid place index start as bs bytes) (related : List.Forall₂ R bs cs)
    (each : ∀ index start a b c bytes, place index start a b bytes → R b c →
      place' index start a c bytes) :
    Laid place' index start as cs bytes := by
  induction h generalizing cs with
  | nil =>
      cases related
      exact .nil
  | cons first _ ih =>
      cases related with
      | cons here others => exact .cons (each _ _ _ _ _ _ first here) (ih others)

/-- What is known of each member may be put differently, given where it is in the whole. -/
theorem mono {place' : Nat → Nat → α → β → Bytes → Prop} (h : Laid place index start as bs bytes)
    (each : ∀ k a b before own after, as[k]? = some a → bytes = before ++ (own ++ after) →
      place (index + k) (start + before.length) a b own →
      place' (index + k) (start + before.length) a b own) :
    Laid place' index start as bs bytes := by
  induction h with
  | nil => exact .nil
  | @cons index start a b as bs own more first rest ih =>
      refine .cons (each 0 a b [] own more rfl rfl first) (ih ?_)
      intro k a' b' before own' after ha whole placed
      have further := each (k + 1) a' b' (own ++ before) own' after ha (by
        rw [whole, List.append_assoc])
      rw [add_succ_eq, List.length_append, ← Nat.add_assoc start] at further
      exact further placed

/-- Related members that start at one position and are equally long each time end at one position,
and what is recorded of them is related. -/
theorem beside {α' β' : Type} {place' : Nat → Nat → α' → β' → Bytes → Prop} {A : α → α' → Prop}
    {B : β → β' → Prop} {as' : List α'} {bs' : List β'} {bytes' : Bytes}
    (h : Laid place index start as bs bytes) (h' : Laid place' index start as' bs' bytes')
    (related : List.Forall₂ A as as')
    (each : ∀ index start a a' b b' own own', A a a' → place index start a b own →
      place' index start a' b' own' → B b b' ∧ own.length = own'.length) :
    List.Forall₂ B bs bs' ∧ bytes.length = bytes'.length := by
  induction h generalizing as' bs' bytes' with
  | nil =>
      cases related
      cases h'
      exact ⟨.nil, rfl⟩
  | cons first _ ih =>
      cases related with
      | cons here others =>
          cases h' with
          | cons first' rest' =>
              obtain ⟨recorded, size⟩ := each _ _ _ _ _ _ _ _ here first first'
              rw [← size] at rest'
              obtain ⟨more, sizes⟩ := ih rest' others
              refine ⟨.cons recorded more, ?_⟩
              rw [List.length_append, List.length_append, size, sizes]

end Laid

end SealedColumns
