import SealedColumns.Proofs.Operation

/-!
# Two runs side by side

Two operations are run side by side, or one operation is run from two states. They end alike if both
succeed with related values or both fail with one and the same error. The states they start from are
related, and the states they end in are related in the same way again. So what two runs have in
common is found out step by step, as it is for one run.

Two copies of one state are related states, and two states with one property are. The first says
what an operation preserves, the second that its result depends on the property only.
-/

namespace SealedColumns

/-- Two results are alike: both are values, which are related, or both are the same error. -/
inductive EndsAlike {α β : Type} (V : α → β → Prop) : Except Error α → Except Error β → Prop where
  | ok {a : α} {b : β} (h : V a b) : EndsAlike V (.ok a) (.ok b)
  | error (e : Error) : EndsAlike V (.error e) (.error e)

namespace EndsAlike

variable {α β : Type} {V : α → β → Prop}

/-- Results that are alike in their values are the same. -/
theorem eq {x y : Except Error α} (h : EndsAlike Eq x y) : x = y := by
  cases h with
  | ok same => exact congrArg Except.ok same
  | error e => rfl

theorem refl (x : Except Error α) : EndsAlike Eq x x := by
  cases x with
  | error e => exact .error e
  | ok a => exact .ok rfl

theorem mono {W : α → β → Prop} {x : Except Error α} {y : Except Error β} (h : EndsAlike V x y)
    (weaker : ∀ a b, V a b → W a b) : EndsAlike W x y := by
  cases h with
  | ok related => exact .ok (weaker _ _ related)
  | error e => exact .error e

/-- Renaming errors leaves results alike. -/
theorem mapError {x : Except Error α} {y : Except Error β} (h : EndsAlike V x y)
    (f : Error → Error) : EndsAlike V (x.mapError f) (y.mapError f) := by
  cases h with
  | ok related => exact .ok related
  | error e => exact .error (f e)

end EndsAlike

/-- Run from related states, the operations end alike, in states that are related again. -/
def SideBySide {σ τ α β : Type} (P : σ → τ → Prop) (V : α → β → Prop) (x : Operation σ α)
    (y : Operation τ β) : Prop :=
  ∀ s t, P s t → EndsAlike V (x s).1 (y t).1 ∧ P (x s).2 (y t).2

namespace SideBySide

variable {σ τ α β α' β' : Type} {P : σ → τ → Prop} {V : α → β → Prop} {W : α' → β' → Prop}
variable {x : Operation σ α} {y : Operation τ β}

/-- The operations go on side by side from each two related values. -/
theorem seq {f : α → Operation σ α'} {g : β → Operation τ β'} (first : SideBySide P V x y)
    (rest : ∀ a b, V a b → SideBySide P W (f a) (g b)) : SideBySide P W (x >>= f) (y >>= g) := by
  intro s t hst
  obtain ⟨alike, related⟩ := first s t hst
  rw [Operation.run_bind, Operation.run_bind]
  generalize x s = left at alike related ⊢
  generalize y t = right at alike related ⊢
  rcases left with ⟨result, s'⟩
  rcases right with ⟨result', t'⟩
  cases alike with
  | ok values => exact rest _ _ values s' t' related
  | error e => exact ⟨.error e, related⟩

/-- Operations with the same value go on from this value. -/
theorem seq_eq {x : Operation σ α} {y : Operation τ α} {f : α → Operation σ α'}
    {g : α → Operation τ β'} (first : SideBySide P Eq x y)
    (rest : ∀ a, SideBySide P W (f a) (g a)) : SideBySide P W (x >>= f) (y >>= g) := by
  refine first.seq ?_
  rintro a _ rfl
  exact rest a

theorem pure {a : α} {b : β} (h : V a b) : SideBySide P V (Pure.pure a) (Pure.pure b) :=
  fun _ _ related => ⟨.ok h, related⟩

theorem throw (e : Error) : SideBySide P V (MonadExcept.throw e) (MonadExcept.throw e) :=
  fun _ _ related => ⟨.error e, related⟩

theorem lift (x : Except Error α) : SideBySide P Eq (liftM x) (liftM x) :=
  fun _ _ related => ⟨.refl x, related⟩

/-- What is known of a value that is computed without the state holds on both sides. -/
theorem lift_known {V : α → α → Prop} {x : Except Error α} (h : ∀ a, x = .ok a → V a a) :
    SideBySide P V (liftM x) (liftM x) := by
  cases x with
  | error e => exact fun _ _ related => ⟨.error e, related⟩
  | ok a => exact fun _ _ related => ⟨.ok (h a rfl), related⟩

/-- A value that is computed without the state is the same on both sides. -/
theorem lift_bind {x : Except Error α} {f : α → Operation σ α'} {g : α → Operation τ β'}
    (rest : ∀ a, x = .ok a → SideBySide P W (f a) (g a)) :
    SideBySide P W (liftM x >>= f) (liftM x >>= g) := by
  cases x with
  | error e => exact fun _ _ related => ⟨.error e, related⟩
  | ok a => exact rest a rfl

theorem modify {f : σ → σ} {g : τ → τ} (h : ∀ s t, P s t → P (f s) (g t)) :
    SideBySide P Eq (modify f : Operation σ PUnit) (modify g : Operation τ PUnit) :=
  fun s t related => ⟨.ok rfl, h s t related⟩

/-- Programs that look at their states first. -/
theorem get_bind {f : σ → Operation σ α} {g : τ → Operation τ β}
    (h : ∀ s t, P s t → EndsAlike V (f s s).1 (g t t).1 ∧ P (f s s).2 (g t t).2) :
    SideBySide P V (get >>= f) (get >>= g) := h

/-- Both sides pass a check, or both fail it. -/
theorem guard {c : Prop} [Decidable c] {e : Error} {f : α → Operation σ α'}
    {g : β → Operation τ β'} {rest : Operation σ α'} {rest' : Operation τ β'}
    (h : SideBySide P W rest rest') :
    SideBySide P W (if c then MonadExcept.throw e >>= f else rest)
      (if c then MonadExcept.throw e >>= g else rest') := by
  by_cases refused : c
  · rw [if_pos refused, if_pos refused]
    exact fun _ _ related => ⟨.error e, related⟩
  · rw [if_neg refused, if_neg refused]
    exact h

/-- Renaming errors alike leaves the operations side by side. -/
theorem adapt (f : Error → Error) (h : SideBySide P V x y) :
    SideBySide P V (ExceptT.adapt f x : Operation σ α) (ExceptT.adapt f y : Operation τ β) :=
  fun s t related => ⟨(h s t related).1.mapError f, (h s t related).2⟩

theorem mono {V' : α → β → Prop} (h : SideBySide P V x y) (weaker : ∀ a b, V a b → V' a b) :
    SideBySide P V' x y :=
  fun s t related => ⟨(h s t related).1.mono weaker, (h s t related).2⟩

end SideBySide

section

variable {σ α : Type} {I : σ → Prop} {x : Operation σ α}

/-- An operation that preserves a property runs beside itself from two copies of one state. -/
theorem Preserves.sideBySide (h : Preserves I x) :
    SideBySide (fun s t => s = t ∧ I s) Eq x x := by
  rintro s _ ⟨rfl, hs⟩
  exact ⟨.refl _, rfl, (h s hs).2⟩

/-- What two copies of one state have kept is preserved. -/
theorem SideBySide.preserves {V : α → α → Prop} (h : SideBySide (fun s t => s = t ∧ I s) V x x) :
    Preserves I x :=
  fun s hs => ⟨trivial, (h s s ⟨rfl, hs⟩).2.2⟩

/-- An operation with one result wherever a property holds runs beside itself from any two states
with the property. -/
theorem Yields.sideBySide {result : Except Error α} (h : Yields I x (· = result)) :
    SideBySide (fun s t => I s ∧ I t) Eq x x := by
  rintro s t ⟨hs, ht⟩
  obtain ⟨left, hs'⟩ := h s hs
  obtain ⟨right, ht'⟩ := h t ht
  rw [left, right]
  exact ⟨.refl _, hs', ht'⟩

end

end SealedColumns
