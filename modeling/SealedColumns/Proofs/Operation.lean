import SealedColumns.Error

/-!
# Operations that may fail

Writers, sinks, page readers and sessions share one form of operation: a state goes in, a result or
an error and the next state come out. An error does not undo the state.

A successful run is taken apart by the lemmas ending in `eq_ok`, which turn a program into the chain
of its intermediate values and states. What has to hold however an operation ends is stated as a
`Contract`, whose postconditions for success and failure are separate because a failed operation
keeps less.
-/

namespace SealedColumns

/-- The operations on a state. -/
abbrev Operation (σ α : Type) := ExceptT Error (StateM σ) α

namespace Operation

variable {σ α β : Type}

theorem run_bind (x : Operation σ α) (f : α → Operation σ β) (s : σ) :
    (x >>= f) s = match x s with
      | (.ok a, t) => f a t
      | (.error e, t) => (.error e, t) := by
  simp only [bind, ExceptT.bind, ExceptT.mk, ExceptT.bindCont, StateT.bind]
  rcases x s with ⟨_ | a, t⟩ <;> rfl

@[simp] theorem run_pure (a : α) (s : σ) : (pure a : Operation σ α) s = (.ok a, s) := rfl

@[simp] theorem run_lift (x : Except Error α) (s : σ) :
    (liftM x : Operation σ α) s = (x, s) := rfl

theorem run_adapt (f : Error → Error) (x : Operation σ α) (s : σ) :
    (ExceptT.adapt f x : Operation σ α) s = ((x s).1.mapError f, (x s).2) := rfl

/-- What follows a success goes on from its value and its state. -/
theorem run_bind_ok {x : Operation σ α} {f : α → Operation σ β} {s t : σ} {a : α}
    (h : x s = (.ok a, t)) : (x >>= f) s = f a t := by
  rw [run_bind, h]

theorem run_bind_error {x : Operation σ α} {f : α → Operation σ β} {s t : σ} {e : Error}
    (h : x s = (.error e, t)) : (x >>= f) s = (.error e, t) := by
  rw [run_bind, h]

theorem run_lift_bind {x : Except Error α} {f : α → Operation σ β} {s : σ} {a : α} (h : x = .ok a) :
    (liftM x >>= f : Operation σ β) s = f a s :=
  run_bind_ok (congrArg (·, s) h)

theorem run_get_bind (f : σ → Operation σ α) (s : σ) : (get >>= f) s = f s s := rfl

theorem run_modify_bind (f : σ → σ) (g : PUnit → Operation σ α) (s : σ) :
    (modify f >>= g) s = g ⟨⟩ (f s) := rfl

/-- An operation whose value is dropped. -/
theorem run_discard (x : Operation σ α) (s : σ) :
    (discard x : Operation σ PUnit) s = ((x s).1.map fun _ => PUnit.unit, (x s).2) := by
  change (x >>= fun _ => (pure PUnit.unit : Operation σ PUnit)) s = _
  rw [run_bind]
  rcases x s with ⟨_ | a, t⟩ <;> rfl

/-- The part before a success is a success whose value and state the rest starts from. -/
theorem bind_eq_ok {x : Operation σ α} {f : α → Operation σ β} {s u : σ} {b : β} :
    (x >>= f) s = (.ok b, u) ↔ ∃ a t, x s = (.ok a, t) ∧ f a t = (.ok b, u) := by
  rw [run_bind]
  rcases x s with ⟨r | a, t⟩
  · constructor
    · intro h
      cases h
    · rintro ⟨_, _, h, _⟩
      cases h
  · constructor
    · intro h
      exact ⟨a, t, rfl, h⟩
    · rintro ⟨_, _, h, rest⟩
      cases h
      exact rest

theorem pure_eq_ok {a b : α} {s t : σ} :
    (pure a : Operation σ α) s = (.ok b, t) ↔ a = b ∧ s = t := by
  constructor
  · intro h
    cases h
    exact ⟨rfl, rfl⟩
  · rintro ⟨rfl, rfl⟩
    rfl

theorem lift_eq_ok {x : Except Error α} {b : α} {s t : σ} :
    (liftM x : Operation σ α) s = (.ok b, t) ↔ x = .ok b ∧ s = t := by
  constructor
  · intro h
    cases h
    exact ⟨rfl, rfl⟩
  · rintro ⟨rfl, rfl⟩
    rfl

/-- A value computed without state does not change the state. -/
theorem lift_bind_eq_ok {x : Except Error α} {f : α → Operation σ β} {s u : σ} {b : β} :
    (liftM x >>= f : Operation σ β) s = (.ok b, u) ↔ ∃ a, x = .ok a ∧ f a s = (.ok b, u) := by
  rw [bind_eq_ok]
  constructor
  · rintro ⟨a, t, lifted, rest⟩
    obtain ⟨value, rfl⟩ := lift_eq_ok.mp lifted
    exact ⟨a, value, rest⟩
  · rintro ⟨a, rfl, rest⟩
    exact ⟨a, s, rfl, rest⟩

theorem modify_eq_ok {f : σ → σ} {s t : σ} {x : PUnit} :
    (modify f : Operation σ PUnit) s = (.ok x, t) ↔ f s = t := by
  constructor
  · intro h
    cases h
    rfl
  · rintro rfl
    rfl

/-- Renaming errors does not touch a success. -/
theorem adapt_eq_ok {f : Error → Error} {x : Operation σ α} {s t : σ} {a : α} :
    (ExceptT.adapt f x : Operation σ α) s = (.ok a, t) ↔ x s = (.ok a, t) := by
  rw [run_adapt]
  rcases x s with ⟨e | b, u⟩
  · constructor <;> intro h <;> cases h
  · exact Iff.rfl

/-- A success has passed the check in front of it. -/
theorem guard_eq_ok {c : Prop} [Decidable c] {e : Error} {f : α → Operation σ β}
    {rest : Operation σ β} {s t : σ} {b : β} :
    (if c then throw e >>= f else rest) s = (.ok b, t) ↔ ¬ c ∧ rest s = (.ok b, t) := by
  by_cases hc : c
  · rw [if_pos hc]
    constructor
    · intro h
      cases h
    · intro h
      exact absurd hc h.1
  · rw [if_neg hc]
    exact ⟨fun h => ⟨hc, h⟩, fun h => h.2⟩

/-- An outcome that is evaluated to a success has a value. -/
theorem exists_of_isOk {outcome : Except Error α × σ} (h : outcome.1.isOk = true) :
    ∃ a t, outcome = (.ok a, t) := by
  rcases outcome with ⟨e | a, t⟩
  · cases h
  · exact ⟨a, t, rfl⟩

end Operation

namespace Except

variable {α β : Type}

/-- The parts of a computation of a value that succeeds. -/
theorem bind_eq_ok {x : Except Error α} {f : α → Except Error β} {b : β} :
    (x >>= f) = .ok b ↔ ∃ a, x = .ok a ∧ f a = .ok b := by
  cases x <;> simp [bind, Except.bind]

@[simp] theorem ok_bind (a : α) (f : α → Except Error β) : (Except.ok a >>= f) = f a := rfl

theorem pure_eq_ok {a b : α} : (pure a : Except Error α) = .ok b ↔ a = b := by
  simp [pure, Except.pure]

theorem map_eq_ok {x : Except Error α} {f : α → β} {b : β} :
    x.map f = .ok b ↔ ∃ a, x = .ok a ∧ f a = b := by
  cases x <;> simp [Except.map]

theorem guard_eq_ok {c : Prop} [Decidable c] {e : Error} {f : α → Except Error β}
    {rest : Except Error β} {b : β} :
    (if c then throw e >>= f else rest) = .ok b ↔ ¬ c ∧ rest = .ok b := by
  by_cases hc : c
  · simp [hc, throw, throwThe, MonadExceptOf.throw, bind, Except.bind]
  · simp [hc]

/-- What is evaluated to a value that passes a check has such a value. -/
theorem exists_of_any {x : Except Error α} {check : α → Bool} (h : x.toOption.any check = true) :
    ∃ a, x = .ok a ∧ check a = true := by
  cases x with
  | error e => cases h
  | ok a => exact ⟨a, rfl, h⟩

end Except

/-- What an operation guarantees of the states it ends in, given what holds at its start: `Q` of its
value and the final state if it succeeds, `E` of the final state if it fails. -/
def Contract {σ α : Type} (P : σ → Prop) (op : Operation σ α) (Q : α → σ → Prop) (E : σ → Prop) :
    Prop :=
  ∀ s, P s → match op s with
    | (.ok a, t) => Q a t
    | (.error _, t) => E t

namespace Contract

variable {σ α β : Type} {P : σ → Prop} {Q : α → σ → Prop} {E : σ → Prop} {op : Operation σ α}

/-- The rest of a program starts from what its first operation achieves. -/
theorem seq {f : α → Operation σ β} {R : β → σ → Prop} (first : Contract P op Q E)
    (rest : ∀ a, Contract (Q a) (f a) R E) : Contract P (op >>= f) R E := by
  intro s hs
  have middle := first s hs
  rw [Operation.run_bind]
  generalize op s = outcome at middle ⊢
  rcases outcome with ⟨_ | a, t⟩
  · exact middle
  · exact rest a t middle

theorem done {a : α} (h : ∀ s, P s → Q a s) : Contract P (pure a) Q E := h

theorem fails {e : Error} (h : ∀ s, P s → E s) : Contract P (throw e) Q E := h

theorem lift {x : Except Error α} {f : α → Operation σ β} {R : β → σ → Prop}
    (rest : ∀ a, x = .ok a → Contract P (f a) R E) (fail : ∀ s, P s → E s) :
    Contract P (liftM x >>= f) R E := by
  cases x with
  | error e => exact fail
  | ok a => exact rest a rfl

theorem value {x : Except Error α} (h : ∀ a, x = .ok a → ∀ s, P s → Q a s)
    (fail : ∀ s, P s → E s) : Contract P (liftM x) Q E := by
  cases x with
  | error e => exact fail
  | ok a => exact h a rfl

theorem get {f : σ → Operation σ β} {R : β → σ → Prop} (rest : ∀ s, P s → Contract P (f s) R E) :
    Contract P (MonadState.get >>= f) R E :=
  fun s hs => rest s hs s hs

theorem guard {c : Prop} [Decidable c] {e : Error} {f : α → Operation σ β} {rest : Operation σ β}
    {R : β → σ → Prop} (h : Contract P rest R E) (fail : ∀ s, P s → E s) :
    Contract P (if c then throw e >>= f else rest) R E := by
  by_cases refused : c
  · rw [if_pos refused]
    exact fail
  · rw [if_neg refused]
    exact h

theorem consequence {P' : σ → Prop} {Q' : α → σ → Prop} {E' : σ → Prop} (h : Contract P op Q E)
    (pre : ∀ s, P' s → P s) (post : ∀ a t, Q a t → Q' a t) (failed : ∀ t, E t → E' t) :
    Contract P' op Q' E' := by
  intro s hs
  have ended := h s (pre s hs)
  generalize op s = outcome at ended ⊢
  rcases outcome with ⟨_ | a, t⟩
  · exact failed t ended
  · exact post a t ended

end Contract

/-- What an operation results in wherever `P` holds: its result meets `R`, and `P` holds again, also
after a failure. -/
def Yields {σ α : Type} (P : σ → Prop) (op : Operation σ α) (R : Except Error α → Prop) : Prop :=
  ∀ s, P s → R (op s).1 ∧ P (op s).2

namespace Yields

variable {σ α β : Type} {P : σ → Prop} {op : Operation σ α} {R : Except Error α → Prop}

/-- The rest of a program starts from each value of its first part; a failure of the first part is
one of the program. -/
theorem seq {f : α → Operation σ β} {R' : Except Error β → Prop} (first : Yields P op R)
    (rest : ∀ a, R (.ok a) → Yields P (f a) R') (fail : ∀ e, R (.error e) → R' (.error e)) :
    Yields P (op >>= f) R' := by
  intro s hs
  obtain ⟨result, kept⟩ := first s hs
  rw [Operation.run_bind]
  generalize op s = outcome at result kept ⊢
  rcases outcome with ⟨e | a, t⟩
  · exact ⟨fail e result, kept⟩
  · exact rest a result t kept

/-- A first part with one value is followed by what is done with this value. -/
theorem seq_ok {f : α → Operation σ β} {R' : Except Error β → Prop} {a : α}
    (first : Yields P op (· = .ok a)) (rest : Yields P (f a) R') : Yields P (op >>= f) R' := by
  refine first.seq (fun b hb => ?_) (fun e he => by cases he)
  cases hb
  exact rest

/-- Nothing is done after a first part that always fails. -/
theorem seq_error {e : Error} (first : Yields P op (· = .error e)) (f : α → Operation σ β) :
    Yields P (op >>= f) (· = .error e) := by
  refine first.seq (fun b hb => by cases hb) (fun e he => ?_)
  cases he
  rfl

theorem pure {a : α} (h : R (.ok a)) : Yields P (Pure.pure a) R := fun _ hs => ⟨h, hs⟩

theorem throw {e : Error} (h : R (.error e)) : Yields P (MonadExcept.throw e) R :=
  fun _ hs => ⟨h, hs⟩

theorem lift {x : Except Error α} (h : R x) : Yields P (liftM x) R := fun _ hs => ⟨h, hs⟩

theorem modify {f : σ → σ} (h : ∀ s, P s → P (f s)) :
    Yields P (modify f : Operation σ PUnit) (· = .ok ⟨⟩) := fun s hs => ⟨rfl, h s hs⟩

/-- A program that looks at the state first. -/
theorem get_bind {f : σ → Operation σ α} (h : ∀ s, P s → R (f s s).1 ∧ P (f s s).2) :
    Yields P (get >>= f) R := h

/-- Renaming errors does not change the state. -/
theorem adapt {f : Error → Error} {R' : Except Error α → Prop} (h : Yields P op R)
    (renamed : ∀ x, R x → R' (x.mapError f)) :
    Yields P (ExceptT.adapt f op : Operation σ α) R' :=
  fun s hs => ⟨renamed _ (h s hs).1, (h s hs).2⟩

theorem mono {R' : Except Error α → Prop} (h : Yields P op R) (weaker : ∀ x, R x → R' x) :
    Yields P op R' := fun s hs => ⟨weaker _ (h s hs).1, (h s hs).2⟩

end Yields

/-- `P` holds again after the operation, whatever comes of it. -/
abbrev Preserves {σ α : Type} (P : σ → Prop) (op : Operation σ α) : Prop :=
  Yields P op fun _ => True

namespace Preserves

variable {σ α β : Type} {P : σ → Prop} {op : Operation σ α}

theorem of_yields {R : Except Error α → Prop} (h : Yields P op R) : Preserves P op :=
  h.mono fun _ _ => trivial

theorem seq {f : α → Operation σ β} (first : Preserves P op) (rest : ∀ a, Preserves P (f a)) :
    Preserves P (op >>= f) :=
  Yields.seq first (fun a _ => rest a) fun _ _ => trivial

theorem pure {a : α} : Preserves P (Pure.pure a) := Yields.pure trivial

theorem throw {e : Error} : Preserves P
    (MonadExcept.throw e : Operation σ α) := Yields.throw trivial

theorem lift {x : Except Error α} : Preserves P (liftM x : Operation σ α) := Yields.lift trivial

theorem guard {c : Prop} [Decidable c] {e : Error} {f : α → Operation σ β} {rest : Operation σ β}
    (h : Preserves P rest) : Preserves P (if c then MonadExcept.throw e >>= f else rest) := by
  by_cases refused : c
  · rw [if_pos refused]
    exact fun _ hs => ⟨trivial, hs⟩
  · rw [if_neg refused]
    exact h

theorem contract (h : Preserves P op) : Contract P op (fun _ => P) P := by
  intro s hs
  have kept := (h s hs).2
  generalize op s = outcome at kept ⊢
  rcases outcome with ⟨_ | _, t⟩
  · exact kept
  · exact kept

/-- What is preserved holds in the end if it follows from what holds at the start. -/
theorem reaches {P' : σ → Prop} (h : Preserves P op) (pre : ∀ s, P' s → P s) :
    Contract P' op (fun _ => P) fun _ => True :=
  h.contract.consequence pre (fun _ _ hs => hs) fun _ _ => trivial

end Preserves

end SealedColumns
