import SealedColumns.Proofs.ColumnReading

/-!
# Draining a page source

A source that is asked for pages until it ends or fails is described by the pages it delivers and by
what comes instead of a further page (`PageSource.Drains`). This is a relation and not a function,
since a source need not end; nothing in it counts down.

What a column reader makes of a source that ends is a function of these pages and of how they end
(`ColumnReader.collected`). It takes the pages one by one, stops at the first one that it refuses,
and asks for no page after the end. `PageSource.Counted` counts the calls, failing ones included.
-/

namespace SealedColumns

namespace PageSource

variable {σ : Type} [PageSource σ] {source after last : σ} {pages : List Page}
    {fault : Option Error}

/-- The source delivers exactly the given pages, and then announces the end or fails. -/
def Drains : (pages : List Page) → (fault : Option Error) → (source last : σ) → Prop
  | [], fault, source, last =>
    (next : ExceptT Error (StateM σ) (Option Page)) source = (fault.elim (.ok none) .error, last)
  | page :: pages, fault, source, last =>
    ∃ after, (next : ExceptT Error (StateM σ) (Option Page)) source = (.ok (some page), after) ∧
      Drains pages fault after last

/-- The state after a number of calls, whatever comes of them. -/
def stateAfter : (calls : Nat) → σ → σ
  | 0, source => source
  | calls + 1, source =>
    stateAfter calls ((next : ExceptT Error (StateM σ) (Option Page)) source).2

/-- The pages that a number of calls return; a call that fails returns none. -/
def returned : (calls : Nat) → σ → List Page
  | 0, _ => []
  | calls + 1, source =>
    match (next : ExceptT Error (StateM σ) (Option Page)) source with
    | (.ok (some page), after) => page :: returned calls after
    | (_, after) => returned calls after

theorem stateAfter_succ (n : Nat) (source : σ) : stateAfter (n + 1) source =
    ((next : ExceptT Error (StateM σ) (Option Page)) (stateAfter n source)).2 := by
  induction n generalizing source with
  | zero => rfl
  | succ n ih => exact ih _

theorem stateAfter_succ_of_next {result : Except Error (Option Page)} (n : Nat)
    (h : (next : ExceptT Error (StateM σ) (Option Page)) source = (result, after)) :
    stateAfter (n + 1) source = stateAfter n after := by
  rw [stateAfter, h]

/-- A source that ends is drained with one call for each page and one for the end. -/
theorem drainFrom_of_drains {n : Nat} (h : Drains pages fault source last)
    (enough : pages.length < n) (acc : List Page) :
    drainFrom n acc source = (acc.reverse ++ pages, fault, last) := by
  induction pages generalizing n source acc with
  | nil =>
      obtain ⟨n, rfl⟩ := Nat.exists_eq_add_one_of_ne_zero (Nat.ne_zero_of_lt enough)
      have ended : (next : ExceptT Error (StateM σ) (Option Page)) source = _ := h
      rw [drainFrom, ended, List.append_nil]
      cases fault <;> rfl
  | cons page pages ih =>
      obtain ⟨n, rfl⟩ := Nat.exists_eq_add_one_of_ne_zero (Nat.ne_zero_of_lt enough)
      obtain ⟨after, delivered, others⟩ := h
      rw [drainFrom, delivered]
      dsimp only
      rw [ih others (Nat.lt_of_succ_lt_succ enough), List.reverse_cons, List.append_assoc,
        List.singleton_append]

/-- A source together with the number of calls made to it. -/
structure Counted (σ : Type) where
  source : σ
  calls : Nat := 0

instance : PageSource (Counted σ) where
  next := fun counted =>
    let (result, source) := (next : ExceptT Error (StateM σ) (Option Page)) counted.source
    (result, ⟨source, counted.calls + 1⟩)
  bound counted := bound counted.source

theorem next_counted {result : Except Error (Option Page)} {calls : Nat}
    (h : (next : ExceptT Error (StateM σ) (Option Page)) source = (result, after)) :
    (next : ExceptT Error (StateM (Counted σ)) (Option Page)) ⟨source, calls⟩ =
      (result, ⟨after, calls + 1⟩) := by
  change (((next : ExceptT Error (StateM σ) (Option Page)) source).1,
    (⟨((next : ExceptT Error (StateM σ) (Option Page)) source).2, calls + 1⟩ : Counted σ)) = _
  rw [h]

/-- Counting does not change what a source delivers. -/
theorem Drains.counted (h : Drains pages fault source last) (calls : Nat) :
    Drains pages fault (⟨source, calls⟩ : Counted σ) ⟨last, calls + (pages.length + 1)⟩ := by
  induction pages generalizing source calls with
  | nil => exact next_counted h
  | cons page pages ih =>
      obtain ⟨after, delivered, others⟩ := h
      have counted := ih others (calls + 1)
      rw [Nat.add_right_comm, Nat.add_assoc] at counted
      exact ⟨_, next_counted delivered, counted⟩

theorem calls_stateAfter (n : Nat) (counted : Counted σ) :
    (stateAfter n counted).calls = counted.calls + n := by
  induction n generalizing counted with
  | zero => rfl
  | succ n ih =>
      rw [stateAfter, ih]
      exact Nat.succ_add _ _

end PageSource

namespace ColumnReader

variable {σ : Type} [PageSource σ] {t : PhysicalType} {dictionary : Option ColumnValues}
variable {source last : σ} {pages : List Page} {fault : Option Error}

/-- The values of a dictionary page, for a reader that has met the given dictionary, if any. -/
def dictionaryOf (t : PhysicalType) (dictionary : Option ColumnValues) (page : Page) :
    Except Error ColumnValues := do
  if page.encoding ≠ .plain then throw (.dictionaryEncoding page.encoding)
  if dictionary.isSome then throw .dictionaryRepeated
  ColumnValues.decodePlain t page.body page.numValues.toNat

theorem unset_of_dictionaryOf {page : Page} {entries : ColumnValues}
    (h : dictionaryOf t dictionary page = .ok entries) : dictionary = none := by
  obtain ⟨_, h⟩ := Except.guard_eq_ok.mp h
  obtain ⟨unset, _⟩ := Except.guard_eq_ok.mp h
  simpa using unset

/-- What comes of reading all values from pages that end in the given way. -/
def collected (t : PhysicalType) :
    (dictionary : Option ColumnValues) → (values : ColumnValues) → (pages : List Page) →
      (fault : Option Error) → Except Error ColumnValues
  | _, values, [], fault => fault.elim (.ok values) .error
  | dictionary, values, page :: pages, fault =>
    match page.kind with
    | .dictionary => do
      let entries ← dictionaryOf t dictionary page
      collected t (some entries) values pages fault
    | .data => do
      let more ← decodePage t dictionary page
      let values ← values.append more
      collected t dictionary values pages fault

omit [PageSource σ] in
theorem acceptDictionary_run (page : Page) :
    (acceptDictionary page : Step σ Unit) ⟨t, source, dictionary⟩ =
      match dictionaryOf t dictionary page with
      | .ok entries => (.ok (), ⟨t, source, some entries⟩)
      | .error e => (.error e, ⟨t, source, dictionary⟩) := by
  rw [acceptDictionary, dictionaryOf]
  by_cases encoding : page.encoding ≠ .plain
  · rw [if_pos encoding, if_pos encoding]
    rfl
  rw [if_neg encoding, if_neg encoding]
  dsimp only
  rw [Operation.run_get_bind]
  by_cases repeated : dictionary.isSome = true
  · rw [if_pos repeated, if_pos repeated]
    rfl
  rw [if_neg repeated, if_neg repeated, Operation.run_bind, Operation.run_lift]
  cases ColumnValues.decodePlain t page.body page.numValues.toNat <;> rfl

/-- The search for the next data page and what is done with its outcome, after one more call. -/
theorem readPageWithin_bind_run {α : Type} (n : Nat) (f : Option ColumnValues → Step σ α) :
    (readPageWithin (n + 1) >>= f) ⟨t, source, dictionary⟩ =
      match (PageSource.next : ExceptT Error (StateM σ) (Option Page)) source with
      | (.error e, after) => (.error e, ⟨t, after, dictionary⟩)
      | (.ok none, after) => f none ⟨t, after, dictionary⟩
      | (.ok (some page), after) =>
        match page.kind with
        | .dictionary =>
          match dictionaryOf t dictionary page with
          | .error e => (.error e, ⟨t, after, dictionary⟩)
          | .ok entries => (readPageWithin n >>= f) ⟨t, after, some entries⟩
        | .data =>
          match decodePage t dictionary page with
          | .error e => (.error e, ⟨t, after, dictionary⟩)
          | .ok values => f (some values) ⟨t, after, dictionary⟩ := by
  rw [readPageWithin, Operation.run_bind, Operation.run_bind, nextPage]
  rcases (PageSource.next : ExceptT Error (StateM σ) (Option Page)) source with
    ⟨e | _ | page, after⟩
  · rfl
  · rfl
  dsimp only
  cases page.kind with
  | dictionary =>
      dsimp only
      rw [Operation.run_bind, acceptDictionary_run]
      cases dictionaryOf t dictionary page with
      | error e => rfl
      | ok entries => exact (Operation.run_bind _ _ _).symm
  | data =>
      dsimp only
      rw [Operation.run_get_bind, Operation.run_bind, Operation.run_lift]
      cases decodePage t dictionary page <;> rfl

/-- Reading the values of at most `n` data pages, the first one among the next `m + 1` pages. -/
def readPagesFrom (m n : Nat) (values : ColumnValues) : Step σ ColumnValues :=
  readPageWithin (m + 1) >>= fun
    | none => return values
    | some more => do readPages n (← values.append more)

/-- All pages are looked at in order, provided that as many may be read and that the search for the
next data page may go on behind a first dictionary page. -/
theorem readPagesFrom_of_drains {m n : Nat} {values : ColumnValues}
    (drains : PageSource.Drains pages fault source last) (enough : pages.length ≤ n)
    (look : dictionary = none → m ≠ 0) :
    ∃ reader calls, (readPagesFrom m n values : Step σ ColumnValues) ⟨t, source, dictionary⟩ =
        (collected t dictionary values pages fault, reader) ∧
      reader.source = PageSource.stateAfter calls source ∧ calls ≤ pages.length + 1 := by
  induction pages generalizing dictionary source m n values with
  | nil =>
      have ended : (PageSource.next : ExceptT Error (StateM σ) (Option Page)) source =
        (fault.elim (.ok none) .error, last) := drains
      have moved := PageSource.stateAfter_succ_of_next 0 ended
      refine ⟨⟨t, last, dictionary⟩, 1, ?_, moved.symm, Nat.le_refl _⟩
      rw [readPagesFrom, readPageWithin_bind_run, ended, collected]
      cases fault <;> rfl
  | cons page pages ih =>
      obtain ⟨after, delivered, others⟩ := drains
      have moved (n : Nat) := PageSource.stateAfter_succ_of_next n delivered
      have refused (e : Error) : ∃ reader calls,
          ((.error e, ⟨t, after, dictionary⟩) : Except Error ColumnValues × ColumnReader σ) =
            (.error e, reader) ∧
          reader.source = PageSource.stateAfter calls source ∧
          calls ≤ (page :: pages).length + 1 :=
        ⟨_, 1, rfl, (moved 0).symm, Nat.le_add_left _ _⟩
      rw [readPagesFrom, readPageWithin_bind_run, delivered, collected]
      dsimp only
      cases page.kind with
      | dictionary =>
          cases taken : dictionaryOf t dictionary page with
          | error e => exact refused e
          | ok entries =>
              have unset : dictionary = none := unset_of_dictionaryOf taken
              obtain ⟨m, rfl⟩ := Nat.exists_eq_add_one_of_ne_zero (look unset)
              obtain ⟨reader, calls, run, reached, few⟩ :=
                @ih (some entries) after m n values others (Nat.le_of_succ_le enough) (by rintro ⟨⟩)
              exact ⟨reader, calls + 1, run, reached.trans (moved calls).symm,
                Nat.succ_le_succ few⟩
      | data =>
          cases decodePage t dictionary page with
          | error e => exact refused e
          | ok more =>
              dsimp only
              rw [Operation.run_bind, Operation.run_lift, Except.ok_bind]
              cases values.append more with
              | error e => exact refused e
              | ok values =>
                  obtain ⟨n, rfl⟩ := Nat.exists_eq_add_one_of_ne_zero (Nat.ne_zero_of_lt enough)
                  obtain ⟨reader, calls, run, reached, few⟩ :=
                    @ih dictionary after 1 n values others (Nat.le_of_succ_le_succ enough)
                      fun _ => Nat.one_ne_zero
                  exact ⟨reader, calls + 1, run, reached.trans (moved calls).symm,
                    Nat.succ_le_succ few⟩

/-- What comes of reading all values depends on the pages and on how they end, and at most one call
is made for each page and one for the end. -/
theorem readAll_of_drains (drains : PageSource.Drains pages fault source last)
    (bounded : pages.length ≤ PageSource.bound source) :
    ∃ reader calls, (readAll : Step σ ColumnValues) ⟨t, source, dictionary⟩ =
        (collected t dictionary (.empty t) pages fault, reader) ∧
      reader.source = PageSource.stateAfter calls source ∧ calls ≤ pages.length + 1 :=
  readPagesFrom_of_drains drains bounded fun _ => Nat.one_ne_zero

end ColumnReader

end SealedColumns
