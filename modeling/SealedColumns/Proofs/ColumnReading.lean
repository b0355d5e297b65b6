import SealedColumns.Column.Reader
import SealedColumns.Proofs.DictionaryCoding

/-!
# Reading all values of a column

A column reader sees nothing of where its pages come from, so a page source is described by the
pages it delivers. A column whose pages decode one by one is read as a whole: the values of its data
pages in order, each decoded under the dictionary that was met before it, if there was one. The
dictionary may stand anywhere in front of the pages that use it; columns that are written have it
first, if at all (`ColumnPages`).
-/

namespace SealedColumns

namespace PageSource

variable {σ : Type} [PageSource σ]

/-- The source delivers exactly the given pages, and then announces the end. -/
def Delivers : (pages : List Page) → (source : σ) → Prop
  | [], source =>
    ∃ after, (next : ExceptT Error (StateM σ) (Option Page)) source = (.ok none, after)
  | page :: pages, source =>
    ∃ after, (next : ExceptT Error (StateM σ) (Option Page)) source = (.ok (some page), after) ∧
      Delivers pages after

end PageSource

/-- Data pages that hold the given values under a dictionary, or without one. -/
inductive DataPages (t : PhysicalType) (dictionary : Option ColumnValues) :
    List Page → List t.Value → Prop where
  | nil : DataPages t dictionary [] []
  | cons {page : Page} {pages : List Page} {run values : List t.Value} (kind : page.kind = .data)
      (decode : ColumnReader.decodePage t dictionary page = .ok ⟨t, run⟩)
      (rest : DataPages t dictionary pages values) :
      DataPages t dictionary (page :: pages) (run ++ values)

/-- Pages that hold the given values: data pages, possibly behind the dictionary that they use. -/
inductive ColumnPages (t : PhysicalType) : List Page → List t.Value → Prop where
  | plain {pages : List Page} {values : List t.Value} (data : DataPages t none pages values) :
      ColumnPages t pages values
  | dictionary {page : Page} {pages : List Page} {entries : ColumnValues} {values : List t.Value}
      (kind : page.kind = .dictionary) (encoding : page.encoding = .plain)
      (decode : ColumnValues.decodePlain t page.body page.numValues.toNat = .ok entries)
      (data : DataPages t (some entries) pages values) :
      ColumnPages t (page :: pages) values

/-- Pages that a reader with the given dictionary, or without one, takes in, and the runs of values
that the data pages among them hold. The dictionary may come anywhere. -/
inductive AcceptedRuns (t : PhysicalType) :
    Option ColumnValues → List Page → List (List t.Value) → Prop where
  | nil {dictionary : Option ColumnValues} : AcceptedRuns t dictionary [] []
  | data {dictionary : Option ColumnValues} {page : Page} {pages : List Page}
      {run : List t.Value} {runs : List (List t.Value)} (kind : page.kind = .data)
      (decode : ColumnReader.decodePage t dictionary page = .ok ⟨t, run⟩)
      (rest : AcceptedRuns t dictionary pages runs) :
      AcceptedRuns t dictionary (page :: pages) (run :: runs)
  | dictionary {page : Page} {pages : List Page} {entries : ColumnValues}
      {runs : List (List t.Value)} (kind : page.kind = .dictionary)
      (encoding : page.encoding = .plain)
      (decode : ColumnValues.decodePlain t page.body page.numValues.toNat = .ok entries)
      (rest : AcceptedRuns t (some entries) pages runs) :
      AcceptedRuns t none (page :: pages) runs

theorem AcceptedRuns.length_le {t : PhysicalType} {dictionary : Option ColumnValues}
    {pages : List Page} {runs : List (List t.Value)} (h : AcceptedRuns t dictionary pages runs) :
    runs.length ≤ pages.length := by
  induction h with
  | nil => exact Nat.le_refl _
  | data _ _ _ ih => exact Nat.succ_le_succ ih
  | dictionary _ _ _ _ ih => exact Nat.le_succ_of_le ih

theorem DataPages.exists_runs {t : PhysicalType} {dictionary : Option ColumnValues}
    {pages : List Page} {values : List t.Value} (h : DataPages t dictionary pages values) :
    ∃ runs, AcceptedRuns t dictionary pages runs ∧ runs.flatten = values := by
  induction h with
  | nil => exact ⟨[], .nil, rfl⟩
  | @cons page pages run values kind decode _ ih =>
      obtain ⟨runs, accepted, rfl⟩ := ih
      exact ⟨run :: runs, .data kind decode accepted, List.flatten_cons⟩

theorem ColumnPages.exists_runs {t : PhysicalType} {pages : List Page} {values : List t.Value}
    (h : ColumnPages t pages values) :
    ∃ runs, AcceptedRuns t none pages runs ∧ runs.flatten = values := by
  cases h with
  | plain data => exact data.exists_runs
  | dictionary kind encoding decode data =>
      obtain ⟨runs, accepted, whole⟩ := data.exists_runs
      exact ⟨runs, .dictionary kind encoding decode accepted, whole⟩

namespace ColumnReader

variable {σ : Type} [PageSource σ] {t : PhysicalType} {dictionary : Option ColumnValues}
variable {source after : σ} {page : Page} {pages : List Page} {values : List t.Value}

theorem append_values (done more : List t.Value) :
    ColumnValues.append ⟨t, done⟩ ⟨t, more⟩ = .ok ⟨t, done ++ more⟩ := by
  simp [ColumnValues.append]

theorem nextPage_of_next {result : Except Error (Option Page)}
    (h : (PageSource.next : ExceptT Error (StateM σ) (Option Page)) source = (result, after)) :
    (nextPage : Step σ (Option Page)) ⟨t, source, dictionary⟩ =
      (result, ⟨t, after, dictionary⟩) := by
  rw [nextPage, h]

/-- At the end of the source there is no data page. -/
theorem readPageWithin_end (n : Nat)
    (h : (PageSource.next : ExceptT Error (StateM σ) (Option Page)) source = (.ok none, after)) :
    (readPageWithin (n + 1) : Step σ (Option ColumnValues)) ⟨t, source, dictionary⟩ =
      (.ok none, ⟨t, after, dictionary⟩) := by
  rw [readPageWithin, Operation.run_bind_ok (nextPage_of_next h)]
  rfl

theorem readPageWithin_data {n : Nat} {c : ColumnValues} (kind : page.kind = .data)
    (decode : decodePage t dictionary page = .ok c)
    (h : (PageSource.next : ExceptT Error (StateM σ) (Option Page)) source =
      (.ok (some page), after)) :
    (readPageWithin (n + 1) : Step σ (Option ColumnValues)) ⟨t, source, dictionary⟩ =
      (.ok (some c), ⟨t, after, dictionary⟩) := by
  rw [readPageWithin, Operation.run_bind_ok (nextPage_of_next h)]
  simp only [kind]
  rw [Operation.run_get_bind, Operation.run_lift_bind decode]
  rfl

/-- A first dictionary page becomes the dictionary, and the search for a data page goes on. -/
theorem readPageWithin_dictionary {n : Nat} {entries : ColumnValues}
    (kind : page.kind = .dictionary)
    (encoding : page.encoding = .plain)
    (decode : ColumnValues.decodePlain t page.body page.numValues.toNat = .ok entries)
    (h : (PageSource.next : ExceptT Error (StateM σ) (Option Page)) source =
      (.ok (some page), after)) :
    (readPageWithin (n + 1) : Step σ (Option ColumnValues)) ⟨t, source, none⟩ =
      readPageWithin n ⟨t, after, some entries⟩ := by
  have accepted : (acceptDictionary page : Step σ Unit) ⟨t, after, none⟩ =
      (.ok (), ⟨t, after, some entries⟩) := by
    rw [acceptDictionary]
    simp only [encoding, ne_eq, not_true_eq_false, if_false]
    rw [Operation.run_get_bind]
    simp only [Option.isSome_none, Bool.false_eq_true, if_false]
    rw [Operation.run_lift_bind decode]
    rfl
  rw [readPageWithin, Operation.run_bind_ok (nextPage_of_next h)]
  simp only [kind]
  rw [Operation.run_bind_ok accepted]

/-- What the search for the next data page has seen: the end of the source or a data page, possibly
behind a dictionary page. -/
inductive Looked (t : PhysicalType) :
    Option ColumnValues → σ → Option ColumnValues → ColumnReader σ → Prop where
  | ended {dictionary : Option ColumnValues} {source after : σ}
      (next : (PageSource.next : ExceptT Error (StateM σ) (Option Page)) source =
        (.ok none, after)) :
      Looked t dictionary source none ⟨t, after, dictionary⟩
  | data {dictionary : Option ColumnValues} {source after : σ} {page : Page} {c : ColumnValues}
      (next : (PageSource.next : ExceptT Error (StateM σ) (Option Page)) source =
        (.ok (some page), after))
      (kind : page.kind = .data) (decode : decodePage t dictionary page = .ok c) :
      Looked t dictionary source (some c) ⟨t, after, dictionary⟩
  | dictionary {source after : σ} {page : Page} {entries : ColumnValues}
      {more : Option ColumnValues} {reader : ColumnReader σ}
      (next : (PageSource.next : ExceptT Error (StateM σ) (Option Page)) source =
        (.ok (some page), after))
      (kind : page.kind = .dictionary) (encoding : page.encoding = .plain)
      (decode : ColumnValues.decodePlain t page.body page.numValues.toNat = .ok entries)
      (rest : Looked t (some entries) after more reader) :
      Looked t none source more reader

/-- A search sees two pages at most, since there is one dictionary. -/
theorem readPage_of_looked {more : Option ColumnValues} {reader : ColumnReader σ}
    (h : Looked t dictionary source more reader) :
    (readPage : Step σ (Option ColumnValues)) ⟨t, source, dictionary⟩ = (.ok more, reader) := by
  rw [readPage]
  cases h with
  | ended next => exact readPageWithin_end 1 next
  | data next kind decode => exact readPageWithin_data kind decode next
  | dictionary next kind encoding decode rest =>
      rw [readPageWithin_dictionary kind encoding decode next]
      cases rest with
      | ended next => exact readPageWithin_end 0 next
      | data next kind decode => exact readPageWithin_data kind decode next

theorem looked_of_accepted_nil (h : AcceptedRuns t dictionary pages [])
    (delivers : PageSource.Delivers pages source) :
    ∃ reader, Looked t dictionary source none reader := by
  generalize none_left : ([] : List (List t.Value)) = runs at h
  induction h generalizing source with
  | nil =>
      obtain ⟨after, ended⟩ := delivers
      exact ⟨_, .ended ended⟩
  | data => cases none_left
  | dictionary kind encoding decode _ ih =>
      obtain ⟨after, delivered, others⟩ := delivers
      obtain ⟨reader, looked⟩ := ih others none_left
      exact ⟨reader, .dictionary delivered kind encoding decode looked⟩

/-- The next run is found, and the pages behind it are accepted with the dictionary that was met. -/
theorem looked_of_accepted_cons {run : List t.Value} {runs : List (List t.Value)}
    (h : AcceptedRuns t dictionary pages (run :: runs))
    (delivers : PageSource.Delivers pages source) :
    ∃ after met left, Looked t dictionary source (some ⟨t, run⟩) ⟨t, after, met⟩ ∧
      PageSource.Delivers left after ∧ AcceptedRuns t met left runs := by
  generalize some_left : run :: runs = all at h
  induction h generalizing source with
  | nil => cases some_left
  | data kind decode rest =>
      cases some_left
      obtain ⟨after, delivered, others⟩ := delivers
      exact ⟨after, _, _, .data delivered kind decode, others, rest⟩
  | dictionary kind encoding decode _ ih =>
      obtain ⟨between, delivered, others⟩ := delivers
      obtain ⟨after, met, left, looked, rest⟩ := ih others some_left
      exact ⟨after, met, left, .dictionary delivered kind encoding decode looked, rest⟩

/-- All data pages are read, provided that enough may be read and the last attempt meets the end. -/
theorem readPages_of_accepted {runs : List (List t.Value)}
    (accepted : AcceptedRuns t dictionary pages runs)
    (delivers : PageSource.Delivers pages source) {n : Nat} (enough : runs.length < n)
    (done : List t.Value) :
    ∃ reader, (readPages n ⟨t, done⟩ : Step σ ColumnValues) ⟨t, source, dictionary⟩ =
      (.ok ⟨t, done ++ runs.flatten⟩, reader) := by
  induction runs generalizing dictionary pages source n done with
  | nil =>
      obtain ⟨reader, looked⟩ := looked_of_accepted_nil accepted delivers
      obtain ⟨n, rfl⟩ := Nat.exists_eq_add_one_of_ne_zero (Nat.ne_zero_of_lt enough)
      refine ⟨reader, ?_⟩
      rw [readPages, Operation.run_bind_ok (readPage_of_looked looked), List.flatten_nil,
        List.append_nil]
      rfl
  | cons run runs ih =>
      obtain ⟨after, met, left, looked, others, rest⟩ :=
        looked_of_accepted_cons accepted delivers
      obtain ⟨n, rfl⟩ := Nat.exists_eq_add_one_of_ne_zero (Nat.ne_zero_of_lt enough)
      obtain ⟨reader, final⟩ := ih rest others (Nat.lt_of_succ_lt_succ enough) (done ++ run)
      refine ⟨reader, ?_⟩
      rw [readPages, Operation.run_bind_ok (readPage_of_looked looked)]
      dsimp only
      rw [Operation.run_lift_bind (append_values done run), final, List.append_assoc,
        List.flatten_cons]

/-- A column is read from any source that delivers its pages within its bound. -/
theorem readAll_of_accepted {runs : List (List t.Value)} (accepted : AcceptedRuns t none pages runs)
    (delivers : PageSource.Delivers pages source)
    (bounded : pages.length ≤ PageSource.bound source) :
    ((readAll : Step σ ColumnValues) { type := t, source }).1 = .ok ⟨t, runs.flatten⟩ := by
  have enough : runs.length < PageSource.bound source + 1 :=
    Nat.lt_succ_of_le (Nat.le_trans accepted.length_le bounded)
  obtain ⟨reader, final⟩ := readPages_of_accepted accepted delivers enough []
  rw [readAll, Operation.run_get_bind, ColumnValues.empty, final]
  rfl

/-- A column whose dictionary comes first is read. -/
theorem readAll_of_delivers (column : ColumnPages t pages values)
    (delivers : PageSource.Delivers pages source)
    (bounded : pages.length ≤ PageSource.bound source) :
    ((readAll : Step σ ColumnValues) { type := t, source }).1 = .ok ⟨t, values⟩ := by
  obtain ⟨runs, accepted, rfl⟩ := column.exists_runs
  exact readAll_of_accepted accepted delivers bounded

end ColumnReader

end SealedColumns
