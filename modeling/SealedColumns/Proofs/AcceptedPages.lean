import SealedColumns.Proofs.ColumnReading
import SealedColumns.Proofs.PlainDecoding

/-!
# What a successful read has seen

A column reader that ends in values has taken in all pages up to the end of its source: data pages
that decode, and at most one dictionary page, which comes before the pages that use it. The values
are those of the data pages in order, and a page gives as many values as it announces, so their
number is the sum of the announcements.

The reader looks at a bounded number of pages. That the bound is never what ends it is a property of
the source: it takes something off its own bound with every page. `PageSource.Shrinks` says so.
-/

namespace SealedColumns

namespace PageSource

variable {σ : Type} [PageSource σ]

/-- Every page that is delivered lowers the bound on those to come. -/
def Shrinks (σ : Type) [PageSource σ] : Prop :=
  ∀ (source after : σ) (page : Page),
    (next : ExceptT Error (StateM σ) (Option Page)) source = (.ok (some page), after) →
    bound after < bound source

/-- A source that keeps to its bound delivers no more pages than that. -/
theorem Delivers.length_le (shrinks : Shrinks σ) {pages : List Page} {source : σ}
    (delivers : Delivers pages source) : pages.length ≤ bound source := by
  induction pages generalizing source with
  | nil => exact Nat.zero_le _
  | cons page pages ih =>
      obtain ⟨after, delivered, others⟩ := delivers
      exact Nat.lt_of_le_of_lt (ih others) (shrinks _ _ _ delivered)

end PageSource

/-- Pages that a reader with the given dictionary, or without one, takes in, and the values that it
takes from them. -/
inductive AcceptedPages (t : PhysicalType) :
    Option ColumnValues → List Page → List t.Value → Prop where
  | nil {dictionary : Option ColumnValues} : AcceptedPages t dictionary [] []
  | data {dictionary : Option ColumnValues} {page : Page} {pages : List Page}
      {run values : List t.Value} (kind : page.kind = .data)
      (decode : ColumnReader.decodePage t dictionary page = .ok ⟨t, run⟩)
      (rest : AcceptedPages t dictionary pages values) :
      AcceptedPages t dictionary (page :: pages) (run ++ values)
  | dictionary {page : Page} {pages : List Page} {entries : ColumnValues} {values : List t.Value}
      (kind : page.kind = .dictionary) (encoding : page.encoding = .plain)
      (decode : ColumnValues.decodePlain t page.body page.numValues.toNat = .ok entries)
      (rest : AcceptedPages t (some entries) pages values) :
      AcceptedPages t none (page :: pages) values

theorem AcceptedPages.exists_runs {t : PhysicalType} {dictionary : Option ColumnValues}
    {pages : List Page} {values : List t.Value} (h : AcceptedPages t dictionary pages values) :
    ∃ runs, AcceptedRuns t dictionary pages runs ∧ runs.flatten = values := by
  induction h with
  | nil => exact ⟨[], .nil, rfl⟩
  | @data dictionary page pages run values kind decode _ ih =>
      obtain ⟨runs, accepted, rfl⟩ := ih
      exact ⟨run :: runs, .data kind decode accepted, List.flatten_cons⟩
  | dictionary kind encoding decode _ ih =>
      obtain ⟨runs, accepted, whole⟩ := ih
      exact ⟨runs, .dictionary kind encoding decode accepted, whole⟩

/-- The number of values that the data pages among some pages announce. -/
def announced : List Page → Nat
  | [] => 0
  | page :: rest =>
    match page.kind with
    | .data => page.numValues.toNat + announced rest
    | .dictionary => announced rest

/-! ### A page gives as many values as it announces -/

theorem length_of_mapM {α β : Type} {f : α → Except Error β} {as : List α} {bs : List β}
    (h : as.mapM f = .ok bs) : bs.length = as.length := by
  induction as generalizing bs with
  | nil =>
      cases h
      rfl
  | cons a as ih =>
      rw [List.mapM_cons] at h
      obtain ⟨b, _, others⟩ := Except.bind_eq_ok.mp h
      obtain ⟨rest, mapped, joined⟩ := Except.bind_eq_ok.mp others
      cases joined
      rw [List.length_cons, List.length_cons, ih mapped]

theorem Dictionary.length_of_readIndices {n : Nat} {acc indices : List UInt32} {bs : Bytes}
    (h : readIndices n acc bs = .ok indices) : indices.length = acc.length + n := by
  induction n generalizing acc bs with
  | zero =>
      cases h
      exact List.length_reverse
  | succ n ih =>
      obtain ⟨⟨word, rest⟩, _, others⟩ := Except.bind_eq_ok.mp h
      rw [ih others, List.length_cons]
      omega

theorem Dictionary.length_of_decodeIndices {n : Nat} {indices : List UInt32} {bs : Bytes}
    (h : decodeIndices bs n = .ok indices) : indices.length = n := by
  obtain ⟨_, _, guarded⟩ := Except.bind_eq_ok.mp h
  obtain ⟨_, read⟩ := Except.guard_eq_ok.mp guarded
  rw [length_of_readIndices read, List.length_nil, Nat.zero_add]

theorem ColumnValues.length_of_take {c d : ColumnValues} {indices : List UInt32}
    (h : c.take indices = .ok d) : d.length = indices.length := by
  rw [take] at h
  dsimp only at h
  split at h
  · cases h
  · obtain ⟨values, taken, same⟩ := Except.bind_eq_ok.mp h
    cases same
    exact length_of_mapM taken

namespace ColumnReader

theorem length_of_decodePage {t : PhysicalType} {dictionary : Option ColumnValues} {page : Page}
    {c : ColumnValues} (h : decodePage t dictionary page = .ok c) :
    c.length = page.numValues.toNat := by
  rw [decodePage.eq_def] at h
  cases encoding : page.encoding with
  | plain =>
      rw [encoding] at h
      exact (ColumnValues.decodePlain_gives h).2.1
  | dictionary =>
      rw [encoding] at h
      cases dictionary with
      | none => cases h
      | some entries =>
          obtain ⟨indices, decoded, taken⟩ := Except.bind_eq_ok.mp h
          rw [ColumnValues.length_of_take taken, Dictionary.length_of_decodeIndices decoded]

end ColumnReader

theorem AcceptedPages.length_eq {t : PhysicalType} {dictionary : Option ColumnValues}
    {pages : List Page} {values : List t.Value} (h : AcceptedPages t dictionary pages values) :
    values.length = announced pages := by
  induction h with
  | nil => rfl
  | data kind decode _ ih =>
      have run : List.length _ = _ := ColumnReader.length_of_decodePage decode
      rw [List.length_append, ih, announced, kind, run]
  | dictionary kind _ _ _ ih => rw [ih, announced, kind]

/-! ### Reading ends with the source -/

namespace ColumnReader

variable {σ : Type} [PageSource σ] {t : PhysicalType} {dictionary : Option ColumnValues}
variable {source after : σ} {reader : ColumnReader σ}

omit [PageSource σ] in
theorem acceptDictionary_eq_ok {page : Page} {x : Unit}
    (h : (acceptDictionary page : Step σ Unit) ⟨t, source, dictionary⟩ = (.ok x, reader)) :
    page.encoding = .plain ∧ dictionary = none ∧
      ∃ entries, ColumnValues.decodePlain t page.body page.numValues.toNat = .ok entries ∧
        reader = ⟨t, source, some entries⟩ := by
  rw [acceptDictionary] at h
  obtain ⟨encoding, h⟩ := Operation.guard_eq_ok.mp h
  dsimp only at h
  rw [Operation.run_get_bind] at h
  obtain ⟨unset, h⟩ := Operation.guard_eq_ok.mp h
  obtain ⟨entries, decode, h⟩ := Operation.lift_bind_eq_ok.mp h
  cases h
  refine ⟨Decidable.not_not.mp encoding, ?_, entries, decode, rfl⟩
  simpa using unset

/-- One page is looked at, and after a first dictionary page the next one. -/
theorem readPageWithin_succ_eq_ok {n : Nat} {more : Option ColumnValues}
    (h : (readPageWithin (n + 1) : Step σ (Option ColumnValues)) ⟨t, source, dictionary⟩ =
      (.ok more, reader)) :
    Looked t dictionary source more reader ∨
      (dictionary = none ∧ ∃ page middle entries,
        (PageSource.next : ExceptT Error (StateM σ) (Option Page)) source =
          (.ok (some page), middle) ∧
        page.kind = .dictionary ∧ page.encoding = .plain ∧
        ColumnValues.decodePlain t page.body page.numValues.toNat = .ok entries ∧
        (readPageWithin n : Step σ (Option ColumnValues)) ⟨t, middle, some entries⟩ =
          (.ok more, reader)) := by
  rw [readPageWithin] at h
  obtain ⟨page, middle, stepped, h⟩ := Operation.bind_eq_ok.mp h
  generalize hnext : (PageSource.next : ExceptT Error (StateM σ) (Option Page)) source = outcome
    at stepped
  rcases outcome with ⟨result, after⟩
  rw [nextPage_of_next hnext] at stepped
  cases stepped
  cases page with
  | none =>
      cases h
      exact .inl (.ended hnext)
  | some page =>
      dsimp only at h
      cases kind : page.kind with
      | data =>
          rw [kind] at h
          dsimp only at h
          rw [Operation.run_get_bind] at h
          obtain ⟨c, decode, h⟩ := Operation.lift_bind_eq_ok.mp h
          cases h
          exact .inl (.data hnext kind decode)
      | dictionary =>
          rw [kind] at h
          obtain ⟨_, accepted, accepting, h⟩ := Operation.bind_eq_ok.mp h
          obtain ⟨encoding, unset, entries, decode, rfl⟩ := acceptDictionary_eq_ok accepting
          exact .inr ⟨unset, page, after, entries, rfl, kind, encoding, decode, h⟩

/-- Two pages are enough, since a second dictionary page is refused. -/
theorem looked_of_readPage {more : Option ColumnValues}
    (h : (readPage : Step σ (Option ColumnValues)) ⟨t, source, dictionary⟩ = (.ok more, reader)) :
    Looked t dictionary source more reader := by
  obtain looked | ⟨rfl, page, middle, entries, next, kind, encoding, decode, h⟩ :=
    readPageWithin_succ_eq_ok h
  · exact looked
  · obtain looked | ⟨⟨⟩, _⟩ := readPageWithin_succ_eq_ok h
    exact .dictionary next kind encoding decode looked

/-- What was looked at comes in front of what is still to come. -/
theorem Looked.pages_of_some {c : ColumnValues} {run values : List t.Value} {pages : List Page}
    (h : Looked t dictionary source (some c) reader) (hc : c = ⟨t, run⟩)
    (delivers : PageSource.Delivers pages reader.source)
    (accepted : AcceptedPages t reader.dictionary pages values) :
    ∃ seen, PageSource.Delivers seen source ∧
      AcceptedPages t dictionary seen (run ++ values) := by
  generalize hmore : some c = more at h
  induction h with
  | ended next => cases hmore
  | data next kind decode =>
      cases hmore
      subst hc
      exact ⟨_ :: pages, ⟨_, next, delivers⟩, .data kind decode accepted⟩
  | dictionary next kind encoding decode _ ih =>
      obtain ⟨seen, delivered, taken⟩ := ih delivers accepted hmore
      exact ⟨_ :: seen, ⟨_, next, delivered⟩, .dictionary kind encoding decode taken⟩

theorem Looked.pages_of_none (h : Looked t dictionary source none reader) :
    ∃ seen, PageSource.Delivers seen source ∧ AcceptedPages t dictionary seen [] := by
  generalize hmore : (none : Option ColumnValues) = more at h
  induction h with
  | ended next => exact ⟨[], ⟨_, next⟩, .nil⟩
  | data next kind decode => cases hmore
  | dictionary next kind encoding decode _ ih =>
      obtain ⟨seen, delivered, taken⟩ := ih hmore
      exact ⟨_ :: seen, ⟨_, next, delivered⟩, .dictionary kind encoding decode taken⟩

theorem Looked.type_eq {more : Option ColumnValues} (h : Looked t dictionary source more reader) :
    reader.type = t := by
  induction h with
  | ended | data => rfl
  | dictionary _ _ _ _ _ ih => exact ih

/-- A search that finds a data page has taken something off the bound. -/
theorem Looked.bound_lt (shrinks : PageSource.Shrinks σ) {c : ColumnValues}
    (h : Looked t dictionary source (some c) reader) :
    PageSource.bound reader.source < PageSource.bound source := by
  generalize hmore : some c = more at h
  induction h with
  | ended next => cases hmore
  | data next kind decode => exact shrinks _ _ _ next
  | dictionary next kind encoding decode _ ih =>
      exact Nat.lt_trans (ih hmore) (shrinks _ _ _ next)

omit [PageSource σ] in
/-- Only values of the same type are put behind each other. -/
theorem append_eq_ok {done : List t.Value} {more c : ColumnValues}
    (h : ColumnValues.append ⟨t, done⟩ more = .ok c) :
    ∃ run, more = ⟨t, run⟩ ∧ c = ⟨t, done ++ run⟩ := by
  obtain ⟨type, run⟩ := more
  rw [ColumnValues.append] at h
  split at h
  · next same =>
    cases same
    cases h
    exact ⟨run, rfl, rfl⟩
  · cases h

/-- As long as the bound is not reached, reading pages ends with the source. -/
theorem readPages_eq_ok (shrinks : PageSource.Shrinks σ) {n : Nat} {done : List t.Value}
    {c : ColumnValues}
    (h : (readPages n ⟨t, done⟩ : Step σ ColumnValues) ⟨t, source, dictionary⟩ = (.ok c, reader))
    (enough : PageSource.bound source < n) :
    ∃ seen values, PageSource.Delivers seen source ∧ AcceptedPages t dictionary seen values ∧
      c = ⟨t, done ++ values⟩ := by
  induction n generalizing source dictionary done with
  | zero => exact absurd enough (Nat.not_lt_zero _)
  | succ n ih =>
      rw [readPages] at h
      obtain ⟨more, middle, looking, h⟩ := Operation.bind_eq_ok.mp h
      have looked := looked_of_readPage looking
      cases more with
      | none =>
          cases h
          obtain ⟨seen, delivers, accepted⟩ := looked.pages_of_none
          exact ⟨seen, [], delivers, accepted, by rw [List.append_nil]⟩
      | some found =>
          obtain ⟨joined, joining, h⟩ := Operation.lift_bind_eq_ok.mp h
          obtain ⟨run, hfound, rfl⟩ := append_eq_ok joining
          have less := looked.bound_lt shrinks
          obtain ⟨type, rest, held⟩ := middle
          obtain rfl : type = t := looked.type_eq
          obtain ⟨pages, values, delivers, accepted, rfl⟩ :=
            ih h (Nat.lt_of_lt_of_le less (Nat.le_of_lt_succ enough))
          obtain ⟨seen, delivered, taken⟩ := looked.pages_of_some hfound delivers accepted
          exact ⟨seen, run ++ values, delivered, taken, by rw [List.append_assoc]⟩

/-- A column is read only as a whole: its values are those of all pages up to
the end of the source. -/
theorem readAll_eq_ok (shrinks : PageSource.Shrinks σ) {c : ColumnValues}
    (h : (readAll : Step σ ColumnValues) ⟨t, source, none⟩ = (.ok c, reader)) :
    ∃ pages values, PageSource.Delivers pages source ∧ AcceptedPages t none pages values ∧
      c = ⟨t, values⟩ := by
  rw [readAll, Operation.run_get_bind] at h
  obtain ⟨pages, values, delivers, accepted, same⟩ :=
    readPages_eq_ok shrinks h (Nat.lt_succ_self _)
  exact ⟨pages, values, delivers, accepted, same⟩

end ColumnReader

end SealedColumns
