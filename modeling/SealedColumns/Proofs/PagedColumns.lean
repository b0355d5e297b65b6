import SealedColumns.Proofs.AcceptedPages

/-!
# Every division into pages reads the same

A column can be stored in many ways. Its values are cut anywhere, into runs that may be empty, and
each run makes a data page of its own, which holds the values themselves or their positions in a
dictionary. The dictionary is one more page, anywhere in front of the first page that refers to it;
nothing is asked of its entries, which may repeat or be of no use to any page. `PagedAs` describes
these ways, and nothing of the choice is left in what is read: all values at once are the column,
and page by page they are the runs.
-/

namespace SealedColumns

namespace Page

/-- The data page that holds the values of a column themselves. -/
def ofValues (c : ColumnValues) : Page :=
  ⟨.data, c.encodePlain, UInt32.ofNat c.length, .plain⟩

/-- The data page that holds positions in a dictionary. -/
def ofIndices (indices : List UInt32) : Page :=
  ⟨.data, Dictionary.encodeIndices indices, UInt32.ofNat indices.length, .dictionary⟩

/-- The dictionary page with the given entries. -/
def ofEntries (entries : ColumnValues) : Page :=
  ⟨.dictionary, entries.encodePlain, UInt32.ofNat entries.length, .plain⟩

end Page

/-- Pages in which the given runs of values are stored, behind the dictionary with the given entries
if one stands in front of them. -/
inductive PagedAs (t : PhysicalType) :
    (entries : Option (List t.Value)) → List Page → List (List t.Value) → Prop where
  | nil {entries : Option (List t.Value)} : PagedAs t entries [] []
  | plain {entries : Option (List t.Value)} {run : List t.Value} {pages : List Page}
      {runs : List (List t.Value)} (few : run.length < UInt32.size)
      (rest : PagedAs t entries pages runs) :
      PagedAs t entries (.ofValues ⟨t, run⟩ :: pages) (run :: runs)
  | indexed {entries : List t.Value} {indices : List UInt32} {run : List t.Value}
      {pages : List Page} {runs : List (List t.Value)} (few : indices.length < UInt32.size)
      (denotes : indices.map (fun i => entries[i.toNat]?) = run.map some)
      (rest : PagedAs t (some entries) pages runs) :
      PagedAs t (some entries) (.ofIndices indices :: pages) (run :: runs)
  | dictionary {entries : List t.Value} {pages : List Page} {runs : List (List t.Value)}
      (few : entries.length < UInt32.size) (fits : ColumnValues.Fits ⟨t, entries⟩)
      (rest : PagedAs t (some entries) pages runs) :
      PagedAs t none (.ofEntries ⟨t, entries⟩ :: pages) runs

namespace ColumnValues

/-- A page that announces the number of values that it holds gives them. -/
theorem decodePlain_announced {c : ColumnValues} (few : c.length < UInt32.size) (fits : c.Fits) :
    decodePlain c.type c.encodePlain (UInt32.ofNat c.length).toNat = .ok c := by
  have read := decodePlain_append fits []
  rwa [List.append_nil, ← UInt32.toNat_ofNat_of_lt' few] at read

end ColumnValues

namespace ColumnReader

variable {t : PhysicalType}

theorem decodePage_ofValues (dictionary : Option ColumnValues) {run : List t.Value}
    (few : run.length < UInt32.size) (fits : ColumnValues.Fits ⟨t, run⟩) :
    decodePage t dictionary (.ofValues ⟨t, run⟩) = .ok ⟨t, run⟩ :=
  ColumnValues.decodePlain_announced (c := ⟨t, run⟩) few fits

theorem decodePage_ofIndices {entries run : List t.Value} {indices : List UInt32}
    (few : indices.length < UInt32.size)
    (denotes : indices.map (fun i => entries[i.toNat]?) = run.map some) :
    decodePage t (some ⟨t, entries⟩) (.ofIndices indices) = .ok ⟨t, run⟩ := by
  have announced : (UInt32.ofNat indices.length).toNat = indices.length :=
    UInt32.toNat_ofNat_of_lt' few
  have small : indices.length * 4 < UInt64.size := by
    have : UInt32.size * 4 < UInt64.size := by decide
    omega
  rw [decodePage, Page.ofIndices]
  dsimp only
  rw [announced, Dictionary.decodeIndices_encodeIndices small]
  exact ColumnValues.take_eq_ok (c := ⟨t, entries⟩) denotes

end ColumnReader

theorem PagedAs.accepted {t : PhysicalType} {entries : Option (List t.Value)} {pages : List Page}
    {runs : List (List t.Value)} (h : PagedAs t entries pages runs)
    (fits : ∀ run ∈ runs, ColumnValues.Fits ⟨t, run⟩) :
    AcceptedRuns t (entries.map (ColumnValues.mk t)) pages runs := by
  induction h with
  | nil => exact .nil
  | plain few _ ih =>
      obtain ⟨first, others⟩ := List.forall_mem_cons.mp fits
      exact .data rfl (ColumnReader.decodePage_ofValues _ few first) (ih others)
  | indexed few denotes _ ih =>
      exact .data rfl (ColumnReader.decodePage_ofIndices few denotes)
        (ih fun run hrun => fits run (List.mem_cons_of_mem _ hrun))
  | @dictionary listed pages runs few listedFits _ ih =>
      exact .dictionary rfl rfl
        (ColumnValues.decodePlain_announced (c := ⟨t, listed⟩) few listedFits) (ih fits)

namespace PageList

/-- The pages, one after the other, and no failure. -/
def ofPages (pages : List Page) : PageList :=
  ⟨pages.map .ok⟩

theorem delivers_ofPages (pages : List Page) : PageSource.Delivers pages (ofPages pages) := by
  induction pages with
  | nil => exact ⟨⟨[]⟩, rfl⟩
  | cons page pages ih => exact ⟨ofPages pages, rfl, ih⟩

end PageList

namespace ColumnReader

variable {σ : Type} [PageSource σ] {t : PhysicalType}

/-- The results of `n` successive requests for the values of a page. -/
def readResults : (n : Nat) → ColumnReader σ → List (Except Error (Option ColumnValues))
  | 0, _ => []
  | n + 1, reader =>
    let (result, reader) := (readPage : Step σ (Option ColumnValues)) reader
    result :: readResults n reader

theorem readResults_of_readPage {n : Nat} {reader after : ColumnReader σ}
    {result : Except Error (Option ColumnValues)}
    (h : (readPage : Step σ (Option ColumnValues)) reader = (result, after)) :
    readResults (n + 1) reader = result :: readResults n after := by
  rw [readResults, h]

/-- Page by page the runs are given, and then the end. -/
theorem readResults_of_accepted {dictionary : Option ColumnValues} {pages : List Page}
    {runs : List (List t.Value)} (accepted : AcceptedRuns t dictionary pages runs) {source : σ}
    (delivers : PageSource.Delivers pages source) :
    readResults (runs.length + 1) ⟨t, source, dictionary⟩ =
      runs.map (fun run => .ok (some ⟨t, run⟩)) ++ [.ok none] := by
  induction runs generalizing dictionary pages source with
  | nil =>
      obtain ⟨reader, looked⟩ := looked_of_accepted_nil accepted delivers
      exact readResults_of_readPage (readPage_of_looked looked)
  | cons run runs ih =>
      obtain ⟨after, met, left, looked, others, rest⟩ := looked_of_accepted_cons accepted delivers
      rw [List.length_cons, readResults_of_readPage (readPage_of_looked looked), ih rest others]
      rfl

/-- A reader gives a column as a whole, and its runs page by page. -/
structure Gives (reader : ColumnReader σ) (c : ColumnValues) (runs : List (List c.type.Value)) :
    Prop where
  all : ((readAll : Step σ ColumnValues) reader).1 = .ok c
  pages : readResults (runs.length + 1) reader =
    runs.map (fun run => .ok (some ⟨c.type, run⟩)) ++ [.ok none]

/-- A column is read as it is, whatever runs its values are cut into, whatever encoding
each page has and wherever the dictionary stands: from a list of the pages, and from any
source that delivers them. -/
theorem gives_of_pagedAs {c : ColumnValues} (fits : c.Fits) {runs : List (List c.type.Value)}
    (parts : runs.flatten = c.values) {pages : List Page} (paged : PagedAs c.type none pages runs) :
    Gives { type := c.type, source := PageList.ofPages pages } c runs ∧
      ∀ {σ : Type} [PageSource σ] (source : σ), PageSource.Delivers pages source →
        pages.length ≤ PageSource.bound source → Gives { type := c.type, source } c runs := by
  have accepted : AcceptedRuns c.type none pages runs := by
    refine paged.accepted fun run hrun v hv => fits v ?_
    rw [← parts]
    exact List.mem_flatten_of_mem hrun hv
  have from_any {σ : Type} [PageSource σ] (source : σ)
      (delivers : PageSource.Delivers pages source)
      (bounded : pages.length ≤ PageSource.bound source) :
      Gives { type := c.type, source } c runs := by
    refine ⟨?_, readResults_of_accepted accepted delivers⟩
    rw [readAll_of_accepted accepted delivers bounded, parts]
  refine ⟨from_any _ (PageList.delivers_ofPages pages) ?_, from_any⟩
  exact Nat.le_of_eq (List.length_map _).symm

/-- Four values on four data pages, two of them empty. The dictionary stands between these two and
lists a value twice. -/
theorem gives_of_pagedAs_mixed :
    Gives ⟨.int32, PageList.ofPages [.ofValues ⟨.int32, [5]⟩, .ofValues ⟨.int32, []⟩,
        .ofEntries ⟨.int32, [9, 7, 7]⟩, .ofIndices [], .ofIndices [2, 0, 1]], none⟩
      ⟨.int32, [5, 7, 9, 7]⟩ [[5], [], [], [7, 9, 7]] := by
  have paged : PagedAs .int32 none
      [.ofValues ⟨.int32, [5]⟩, .ofValues ⟨.int32, []⟩, .ofEntries ⟨.int32, [9, 7, 7]⟩,
        .ofIndices [], .ofIndices [2, 0, 1]] [[5], [], [], [7, 9, 7]] :=
    .plain (by decide) (.plain (by decide) (.dictionary (by decide) (fun _ _ => trivial)
      (.indexed (by decide) rfl (.indexed (by decide) rfl .nil))))
  exact (gives_of_pagedAs (c := ⟨.int32, [5, 7, 9, 7]⟩) (fun _ _ => trivial) rfl paged).1

end ColumnReader

end SealedColumns
