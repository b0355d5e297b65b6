import Mathlib.Data.List.Forall2
import SealedColumns.Proofs.ColumnReading
import SealedColumns.Writer.PagePlan

/-!
# Planned pages hold the column

The data pages of a column are its successive runs of values, none of them empty, and together they
hold the whole column. Read back as pages they give the column again, or with a dictionary the
entries that the dictionary holds for its values. Both need the pages to be small enough for the
signed words of 32 bits in page headers; a writer refuses larger ones.
-/

namespace SealedColumns

namespace PlannedPage

/-- The page that a planned page becomes for a reader. -/
def page (p : PlannedPage) : Page :=
  ⟨p.kind, p.body, UInt32.ofNat p.count, p.encoding⟩

/-- The sizes of a page fit into its header. -/
structure Small (p : PlannedPage) : Prop where
  body_lt : p.body.length < 0x80000000
  count_lt : p.count < 0x80000000

/-- A data page that holds a run of values in a given encoding. -/
structure HoldsRun {α : Type} (encoding : Encoding) (encode : α → Bytes) (run : List α)
    (p : PlannedPage) : Prop where
  kind : p.kind = .data
  body : p.body = run.flatMap encode
  count : p.count = run.length
  encoding : p.encoding = encoding

theorem Small.numValues {p : PlannedPage} (h : p.Small) : p.page.numValues.toNat = p.count := by
  have small := h.count_lt
  exact Nat.mod_eq_of_lt (by omega)

/-- A page with the plain encoding of values gives the values. -/
theorem Small.decodePlain {p : PlannedPage} (h : p.Small) {c : ColumnValues}
    (body : p.body = c.encodePlain) (count : p.count = c.length) :
    ColumnValues.decodePlain c.type p.page.body p.page.numValues.toNat = .ok c := by
  have short := h.body_lt
  rw [body] at short
  rw [h.numValues, count, page, body]
  exact ColumnValues.decodePlain_encodePlain (Nat.lt_trans short (by decide))

end PlannedPage

namespace PagePlan

variable {α : Type}

/-- The first `n` runs of at most `size` values. -/
def runs (size : Nat) : (n : Nat) → List α → List (List α)
  | 0, _ => []
  | n + 1, as => as.take size :: runs size n (as.drop size)

theorem flatten_runs {size n : Nat} {as : List α} (enough : as.length ≤ n * size) :
    (runs size n as).flatten = as := by
  induction n generalizing as with
  | zero =>
      rw [Nat.zero_mul] at enough
      rw [List.length_eq_zero_iff.mp (Nat.le_zero.mp enough)]
      rfl
  | succ n ih =>
      have rest : (as.drop size).length ≤ n * size := by
        rw [List.length_drop]
        rw [Nat.succ_mul] at enough
        omega
      rw [runs, List.flatten_cons, ih rest, List.take_append_drop]

theorem ne_nil_of_mem_runs {size n : Nat} (pos : 0 < size) {as : List α}
    (needed : n * size < as.length + size) : ∀ run ∈ runs size n as, run ≠ [] := by
  induction n generalizing as with
  | zero =>
      intro run hrun
      cases hrun
  | succ n ih =>
      rw [Nat.succ_mul] at needed
      have some : 0 < as.length := by omega
      have rest : n * size < (as.drop size).length + size := by
        rw [List.length_drop]
        by_cases short : as.length < size
        · have last : n = 0 := by
            by_contra more
            have := Nat.le_mul_of_pos_left size (Nat.pos_of_ne_zero more)
            omega
          rw [last, Nat.zero_mul]
          omega
        · omega
      intro run hrun
      rcases List.mem_cons.mp hrun with rfl | hrun
      · intro empty
        have length := congrArg List.length empty
        rw [List.length_take, List.length_nil] at length
        omega
      · exact ih rest run hrun

theorem dataPages_holdRuns (size : Nat) (encoding : Encoding) (encode : α → Bytes) (n : Nat)
    (acc : List PlannedPage) (row : Nat) (as : List α) :
    ∃ pages, dataPages size encoding encode n acc row as = acc.reverse ++ pages ∧
      List.Forall₂ (PlannedPage.HoldsRun encoding encode) (runs size n as) pages := by
  induction n generalizing acc row as with
  | zero => exact ⟨[], (List.append_nil _).symm, .nil⟩
  | succ n ih =>
      obtain ⟨pages, split, hold⟩ :=
        ih (⟨.data, (as.take size).flatMap encode, (as.take size).length, encoding, row⟩ :: acc)
          (row + size) (as.drop size)
      refine ⟨⟨.data, (as.take size).flatMap encode, (as.take size).length, encoding, row⟩ :: pages,
        ?_, .cons ⟨rfl, rfl, rfl, rfl⟩ hold⟩
      rw [dataPages, split, List.reverse_cons, List.append_assoc]
      rfl

/-- The number of runs is just enough. -/
theorem runCount_mul {size : Nat} (length : Nat) (pos : 0 < size) :
    length ≤ runCount size length * size ∧ runCount size length * size < length + size := by
  have division := Nat.div_add_mod (length + size - 1) size
  have remainder := Nat.mod_lt (length + size - 1) pos
  rw [runCount]
  rw [Nat.mul_comm] at division
  omega

/-- The data pages of a column hold nonempty runs of its values, which together are the column. -/
theorem dataPages_runCount {size : Nat} (pos : 0 < size) (encoding : Encoding) (encode : α → Bytes)
    (as : List α) :
    ∃ parts : List (List α), parts.flatten = as ∧ (∀ run ∈ parts, run ≠ []) ∧
      List.Forall₂ (PlannedPage.HoldsRun encoding encode) parts
        (dataPages size encoding encode (runCount size as.length) [] 0 as) := by
  obtain ⟨enough, needed⟩ := runCount_mul as.length pos
  obtain ⟨pages, split, hold⟩ :=
    dataPages_holdRuns size encoding encode (runCount size as.length) [] 0 as
  rw [split]
  exact ⟨_, flatten_runs enough, ne_nil_of_mem_runs pos needed, hold⟩

/-- The rows of the data page with number `k`. -/
def pageRows (limit k : Nat) (as : List α) : List α :=
  (as.drop (k * limit)).take limit

/-- Each data page holds the rows from a multiple of the limit on. -/
theorem dataPages_eq (limit : Nat) (encoding : Encoding) (encode : α → Bytes) (n : Nat)
    (acc : List PlannedPage) (row : Nat) (as : List α) :
    dataPages limit encoding encode n acc row as = acc.reverse ++ (List.range n).map fun k =>
      ⟨.data, (pageRows limit k as).flatMap encode, (pageRows limit k as).length, encoding,
        row + k * limit⟩ := by
  induction n generalizing acc row as with
  | zero => exact (List.append_nil _).symm
  | succ n ih =>
      have shifted : ∀ k, pageRows limit k (as.drop limit) = pageRows limit (k + 1) as := by
        intro k
        rw [pageRows, pageRows, List.drop_drop, Nat.succ_mul, Nat.add_comm]
      have first : pageRows limit 0 as = as.take limit := by
        rw [pageRows, Nat.zero_mul, List.drop_zero]
      rw [dataPages, ih, List.reverse_cons, List.append_assoc, List.range_succ_eq_map,
        List.map_cons, List.map_map, first, Nat.zero_mul, Nat.add_zero]
      simp only [shifted, Function.comp_def, Nat.succ_mul, Nat.add_assoc, Nat.add_comm limit,
        List.cons_append, List.nil_append, Nat.succ_eq_add_one]

/-- The page with a number below the number of runs holds at least one row. -/
theorem lt_of_lt_runCount {limit length k : Nat} (pos : 0 < limit)
    (h : k < runCount limit length) : k * limit < length := by
  have enough := (runCount_mul length pos).2
  have below := Nat.mul_le_mul_right limit (Nat.succ_le_of_lt h)
  rw [Nat.succ_mul] at below
  omega

/-- The data pages of a column with some rows. Each holds some of the values, and together they hold
as many values as there are rows. -/
inductive Covers : List PlannedPage → Nat → Prop
  | nil : Covers [] 0
  | cons {p : PlannedPage} {pages : List PlannedPage} {rows : Nat} (data : p.kind = .data)
      (count_pos : 0 < p.count) (others : Covers pages rows) : Covers (p :: pages) (p.count + rows)

theorem Covers.data {pages : List PlannedPage} {rows : Nat} (covers : Covers pages rows) :
    ∀ p ∈ pages, p.kind = .data := by
  induction covers with
  | nil =>
      intro p hp
      cases hp
  | cons data _ _ ih => exact List.forall_mem_cons.mpr ⟨data, ih⟩

/-- There are data pages as soon as there are rows. -/
theorem Covers.eq_nil_iff {pages : List PlannedPage} {rows : Nat} (covers : Covers pages rows) :
    pages = [] ↔ rows = 0 := by
  cases covers with
  | nil => exact iff_of_true rfl rfl
  | cons _ count_pos _ => exact iff_of_false (List.cons_ne_nil _ _) (by omega)

theorem Covers.of_runs {encoding : Encoding} {encode : α → Bytes} {parts : List (List α)}
    {pages : List PlannedPage}
    (hold : List.Forall₂ (PlannedPage.HoldsRun encoding encode) parts pages)
    (nonempty : ∀ run ∈ parts, run ≠ []) : Covers pages parts.flatten.length := by
  induction hold with
  | nil => exact .nil
  | @cons run p parts pages first _ ih =>
      have others := ih fun r hr => nonempty r (List.mem_cons_of_mem run hr)
      have some := List.length_pos_iff.mpr (nonempty run List.mem_cons_self)
      rw [List.flatten_cons, List.length_append, ← first.count]
      exact .cons first.kind (first.count ▸ some) others

/-- Pages that hold runs of values give the values, provided each run is decoded. -/
theorem dataPages_of_runs {t : PhysicalType} {dictionary : Option ColumnValues}
    {encoding : Encoding} {encode : α → Bytes} {value : α → t.Value} {parts : List (List α)}
    {pages : List PlannedPage}
    (hold : List.Forall₂ (PlannedPage.HoldsRun encoding encode) parts pages)
    (decode : ∀ run ∈ parts, ∀ p ∈ pages, p.HoldsRun encoding encode run →
      ColumnReader.decodePage t dictionary p.page = .ok ⟨t, run.map value⟩) :
    DataPages t dictionary (pages.map PlannedPage.page) (parts.flatten.map value) := by
  induction hold with
  | nil => exact .nil
  | @cons run p parts pages first rest ih =>
      have others := ih fun r hr q hq => decode r (List.mem_cons_of_mem run hr) q
        (List.mem_cons_of_mem p hq)
      rw [List.flatten_cons, List.map_append]
      exact .cons first.kind (decode run List.mem_cons_self p List.mem_cons_self first) others

/-- Values that are stored by something else in their place. -/
theorem dataPages_map {β : Type} (size : Nat) (encoding : Encoding) (encode : β → Bytes)
    (f : α → β) (n : Nat) (acc : List PlannedPage) (row : Nat) (as : List α) :
    dataPages size encoding encode n acc row (as.map f) =
      dataPages size encoding (fun a => encode (f a)) n acc row as := by
  induction n generalizing acc row as with
  | zero => rfl
  | succ n ih =>
      rw [dataPages, dataPages, ← List.map_take, ← List.map_drop, List.flatMap_map,
        List.length_map, ih]

/-- The values that are read back from the pages of a column. -/
def storedValues (c : ColumnValues) (useDictionary : Bool) : List c.type.Value :=
  if useDictionary then c.values.map (Dictionary.entry c) else c.values

theorem decodePage_plain {t : PhysicalType} {dictionary : Option ColumnValues} {run : List t.Value}
    {p : PlannedPage} (hold : p.HoldsRun .plain (Plain.encodeValue t) run) (small : p.Small) :
    ColumnReader.decodePage t dictionary p.page = .ok ⟨t, run⟩ := by
  have encoding : p.page.encoding = .plain := hold.encoding
  simp only [ColumnReader.decodePage, encoding]
  exact small.decodePlain (c := ⟨t, run⟩) hold.body hold.count

theorem decodePage_dictionary {t : PhysicalType} {entries values : List t.Value} {run : List UInt32}
    {p : PlannedPage} (hold : p.HoldsRun .dictionary (fun i => Bytes.ofNat 4 i.toNat) run)
    (small : p.Small) (found : run.map (fun i => entries[i.toNat]?) = values.map some) :
    ColumnReader.decodePage t (some ⟨t, entries⟩) p.page = .ok ⟨t, values⟩ := by
  have body : p.page.body = Dictionary.encodeIndices run := hold.body
  have short : run.length * 4 < UInt64.size := by
    have := small.body_lt
    rw [← Dictionary.length_encodeIndices, ← body]
    exact Nat.lt_trans this (by decide)
  have encoding : p.page.encoding = .dictionary := hold.encoding
  simp only [ColumnReader.decodePage, encoding, small.numValues, hold.count, body,
    Dictionary.decodeIndices_encodeIndices short, Except.ok_bind]
  exact ColumnValues.take_eq_ok (c := ⟨t, entries⟩) found

/-! ### The pages of a column -/

section

variable {c : ColumnValues} {limit : Nat} {useDictionary : Bool} {planned : List PlannedPage}
variable {encoding : Encoding} {encode : c.type.Value → Bytes}

/-- The data pages of a column. -/
def columnPages (c : ColumnValues) (limit : Nat) (encoding : Encoding)
    (encode : c.type.Value → Bytes) : List PlannedPage :=
  dataPages limit encoding encode (runCount limit c.length) [] 0 c.values

theorem covers_columnPages (pos : 0 < limit) :
    Covers (columnPages c limit encoding encode) c.length := by
  obtain ⟨parts, whole, runs, hold⟩ := dataPages_runCount pos encoding encode c.values
  have covers := Covers.of_runs hold runs
  rwa [whole] at covers

/-- The pages give what stands for the values, provided each run among them is decoded. -/
theorem columnPages_read {dictionary : Option ColumnValues} {value : c.type.Value → c.type.Value}
    (pos : 0 < limit)
    (decode : ∀ run : List c.type.Value, (∀ v ∈ run, v ∈ c.values) →
      ∀ p ∈ columnPages c limit encoding encode, p.HoldsRun encoding encode run →
        ColumnReader.decodePage c.type dictionary p.page = .ok ⟨c.type, run.map value⟩) :
    DataPages c.type dictionary ((columnPages c limit encoding encode).map PlannedPage.page)
      (c.values.map value) := by
  obtain ⟨parts, whole, _, hold⟩ := dataPages_runCount pos encoding encode c.values
  have read := dataPages_of_runs hold fun run hrun =>
    decode run fun v hv => whole ▸ List.mem_flatten_of_mem hrun hv
  rwa [whole] at read

theorem columnPages_plain (pos : 0 < limit)
    (small : ∀ p ∈ columnPages c limit .plain (Plain.encodeValue c.type), p.Small) :
    DataPages c.type none
      ((columnPages c limit .plain (Plain.encodeValue c.type)).map PlannedPage.page) c.values := by
  rw [← List.map_id c.values]
  apply columnPages_read pos
  intro run _ p hp hold
  rw [List.map_id]
  exact decodePage_plain hold (small p hp)

/-- A data page of indices, each of which leads to an entry. -/
theorem decodePage_indices {index : c.type.Value → UInt32} {entries run : List c.type.Value}
    {p : PlannedPage}
    (hold : p.HoldsRun .dictionary (fun v => Bytes.ofNat 4 (index v).toNat) run) (small : p.Small)
    (found : ∀ v ∈ run, entries[(index v).toNat]? = some (Dictionary.entry c v)) :
    ColumnReader.decodePage c.type (some ⟨c.type, entries⟩) p.page =
      .ok ⟨c.type, run.map (Dictionary.entry c)⟩ := by
  have indices : p.HoldsRun .dictionary (fun i => Bytes.ofNat 4 i.toNat) (run.map index) :=
    { hold with
      body := by rw [hold.body, List.flatMap_map]
      count := by rw [hold.count, List.length_map] }
  apply decodePage_dictionary indices small
  rw [List.map_map, List.map_map]
  apply List.map_congr_left
  intro v hv
  exact found v hv

/-- Data pages of indices, each of which leads to an entry. -/
theorem columnPages_dictionary (pos : 0 < limit) {index : c.type.Value → UInt32}
    {entries : List c.type.Value}
    (found : ∀ v ∈ c.values, entries[(index v).toNat]? = some (Dictionary.entry c v))
    (small : ∀ p ∈ columnPages c limit .dictionary fun v => Bytes.ofNat 4 (index v).toNat,
      p.Small) :
    DataPages c.type (some ⟨c.type, entries⟩)
      ((columnPages c limit .dictionary fun v => Bytes.ofNat 4 (index v).toNat).map
        PlannedPage.page) (c.values.map (Dictionary.entry c)) := by
  apply columnPages_read pos
  intro run among p hp hold
  exact decodePage_indices hold (small p hp) fun v hv => found v (among v hv)

/-- The three forms of a plan. -/
inductive Planned (c : ColumnValues) (limit : Nat) : Bool → List PlannedPage → Prop
  | nothing {useDictionary : Bool} (empty : c.values = []) : Planned c limit useDictionary []
  | plain : Planned c limit false (columnPages c limit .plain (Plain.encodeValue c.type))
  | dictionary {index : c.type.Value → UInt32} {entries : List c.type.Value}
      (nonempty : c.values ≠ [])
      (found : ∀ v ∈ c.values, entries[(index v).toNat]? = some (Dictionary.entry c v)) :
      Planned c limit true
        (⟨.dictionary, ColumnValues.encodePlain ⟨c.type, entries⟩, entries.length, .plain, 0⟩ ::
          columnPages c limit .dictionary fun v => Bytes.ofNat 4 (index v).toNat)

theorem planned_of_ofValues (h : ofValues c limit useDictionary = .ok planned) :
    Planned c limit useDictionary planned := by
  rw [ofValues] at h
  split at h
  · next empty =>
    cases h
    exact .nothing (List.isEmpty_iff.mp empty)
  · next filled =>
    have nonempty : c.values ≠ [] := fun empty => filled (List.isEmpty_iff.mpr empty)
    cases useDictionary with
    | false =>
        cases h
        exact .plain
    | true =>
        obtain ⟨⟨distinct, indices⟩, encoded, h⟩ := Except.bind_eq_ok.mp h
        cases Except.pure_eq_ok.mp h
        obtain ⟨entries, index, rfl, rfl, found⟩ := Dictionary.encode_eq_ok encoded
        rw [dataPages_map]
        exact .dictionary nonempty found

/-- A plan for the column is at most one dictionary page, and then data pages. -/
theorem exists_pages (pos : 0 < limit) (h : ofValues c limit useDictionary = .ok planned) :
    ∃ (dictionary : Option PlannedPage) (data : List PlannedPage),
      planned = dictionary.toList ++ data ∧ (∀ p ∈ dictionary, p.kind = .dictionary) ∧
        ∀ p ∈ data, p.kind = .data := by
  cases planned_of_ofValues h with
  | nothing => exact ⟨none, [], rfl, by simp, by simp⟩
  | plain => exact ⟨none, _, rfl, by simp, (covers_columnPages pos).data⟩
  | dictionary => exact ⟨some _, _, rfl, by simp, (covers_columnPages pos).data⟩

/-- A dictionary page, or none, and data pages that hold the given values in the given number of
rows. -/
structure Holds (t : PhysicalType) (values : List t.Value) (rows : Nat)
    (dictionary : Option PlannedPage) (data : List PlannedPage) : Prop where
  kind : ∀ p ∈ dictionary, p.kind = .dictionary
  covers : Covers data rows
  column : ColumnPages t ((dictionary.toList ++ data).map PlannedPage.page) values

/-- What data pages refer to: the entries of the dictionary page, if there is one. -/
inductive HoldsDictionary (t : PhysicalType) :
    Option PlannedPage → Option ColumnValues → Prop where
  | none : HoldsDictionary t none none
  | some {q : PlannedPage} {entries : ColumnValues} (kind : q.kind = .dictionary)
      (encoding : q.encoding = .plain)
      (decode : ColumnValues.decodePlain t q.page.body q.page.numValues.toNat = .ok entries) :
      HoldsDictionary t (some q) (some entries)

/-- The data page with number `k` holds its rows, at least one, and gives what is stored for
them. -/
structure HoldsRows (c : ColumnValues) (limit : Nat) (useDictionary : Bool)
    (entries : Option ColumnValues) (k : Nat) (q : PlannedPage) : Prop where
  kind : q.kind = .data
  firstRow : q.firstRow = k * limit
  count : q.count = (pageRows limit k c.values).length
  inside : k * limit < c.length
  fits : q.count ≤ q.body.length
  decode : ColumnReader.decodePage c.type entries q.page =
    .ok ⟨c.type, pageRows limit k (storedValues c useDictionary)⟩

theorem HoldsRows.count_pos {entries : Option ColumnValues} {k : Nat} {q : PlannedPage}
    (pos : 0 < limit) (h : HoldsRows c limit useDictionary entries k q) : 0 < q.count := by
  have inside := h.inside
  rw [ColumnValues.length] at inside
  rw [h.count, pageRows, List.length_take, List.length_drop]
  omega

/-- A column divided into pages: a dictionary page, or none, and as many data pages as are
needed. -/
structure Division (c : ColumnValues) (limit : Nat) (useDictionary : Bool)
    (dictionary : Option PlannedPage) (entries : Option ColumnValues) (data : List PlannedPage) :
    Prop where
  front : HoldsDictionary c.type dictionary entries
  size : data.length = runCount limit c.length
  page : ∀ k q, data[k]? = some q → HoldsRows c limit useDictionary entries k q
  refers : dictionary.isSome → data ≠ []

theorem length_le_flatMap {encode : α → Bytes} (nonempty : ∀ a, 0 < (encode a).length)
    (as : List α) : as.length ≤ (as.flatMap encode).length := by
  induction as with
  | nil => exact Nat.le_refl _
  | cons a as ih =>
      have first := nonempty a
      rw [List.flatMap_cons, List.length_append, List.length_cons]
      omega

/-- The data pages of a column divide it, provided that the rows of each are decoded. -/
theorem rows_of_columnPages (useDictionary : Bool) (entries : Option ColumnValues) (pos : 0 < limit)
    (nonempty : ∀ v, 0 < (encode v).length)
    (decode : ∀ k, ∀ q ∈ columnPages c limit encoding encode,
      q.HoldsRun encoding encode (pageRows limit k c.values) →
        ColumnReader.decodePage c.type entries q.page =
          .ok ⟨c.type, pageRows limit k (storedValues c useDictionary)⟩) :
    (columnPages c limit encoding encode).length = runCount limit c.length ∧
      ∀ k q, (columnPages c limit encoding encode)[k]? = some q →
        HoldsRows c limit useDictionary entries k q := by
  have form := dataPages_eq limit encoding encode (runCount limit c.length) [] 0 c.values
  rw [← columnPages, List.reverse_nil, List.nil_append] at form
  refine ⟨by rw [form, List.length_map, List.length_range], ?_⟩
  intro k q hq
  have among := List.mem_of_getElem? hq
  rw [form, List.getElem?_map, Option.map_eq_some_iff] at hq
  obtain ⟨k', hk, rfl⟩ := hq
  obtain ⟨below, same⟩ := List.getElem?_eq_some_iff.mp hk
  rw [List.length_range] at below
  rw [List.getElem_range] at same
  subst same
  exact {
    kind := rfl
    firstRow := Nat.zero_add _
    count := rfl
    inside := lt_of_lt_runCount pos below
    fits := length_le_flatMap nonempty _
    decode := decode k _ among ⟨rfl, rfl, rfl, rfl⟩ }

/-- What a plan for the column consists of, and what it gives when its pages are read. -/
theorem ofValues_eq_ok (pos : 0 < limit) (h : ofValues c limit useDictionary = .ok planned)
    (small : ∀ p ∈ planned, p.Small) :
    ∃ (dictionary : Option PlannedPage) (entries : Option ColumnValues) (data : List PlannedPage),
      planned = dictionary.toList ++ data ∧
        Holds c.type (storedValues c useDictionary) c.length dictionary data ∧
        Division c limit useDictionary dictionary entries data := by
  cases planned_of_ofValues h with
  | nothing empty =>
      have stored : storedValues c useDictionary = [] := by
        rw [storedValues, empty, List.map_nil, ite_self]
      have none_needed : runCount limit c.length = 0 := by
        rw [ColumnValues.length, empty, runCount]
        exact Nat.div_eq_of_lt (by rw [List.length_nil]; omega)
      have holds : Holds c.type (storedValues c useDictionary) c.length none [] := by
        rw [ColumnValues.length, stored, empty]
        exact ⟨by simp, .nil, .plain .nil⟩
      exact ⟨none, none, [], rfl, holds, .none, none_needed.symm, by simp, by simp⟩
  | plain =>
      have read := columnPages_plain pos small
      obtain ⟨size, page⟩ := rows_of_columnPages false none pos Plain.length_encodeValue_pos
        fun _ q hq hold => decodePage_plain hold (small q hq)
      exact ⟨none, none, _, rfl, ⟨by simp, covers_columnPages pos, .plain read⟩, .none, size, page,
        by simp⟩
  | @dictionary index entries nonempty found =>
      obtain ⟨front, others⟩ := List.forall_mem_cons.mp small
      have read := columnPages_dictionary pos found others
      have entriesRead := front.decodePlain (c := ⟨c.type, entries⟩) rfl rfl
      have stored : storedValues c true = c.values.map (Dictionary.entry c) := if_pos rfl
      have width : ∀ v, 0 < (Bytes.ofNat 4 (index v).toNat).length := by
        intro v
        rw [Bytes.length_ofNat]
        decide
      have decode : ∀ k, ∀ q ∈ columnPages c limit .dictionary fun v =>
            Bytes.ofNat 4 (index v).toNat,
          q.HoldsRun .dictionary (fun v => Bytes.ofNat 4 (index v).toNat)
            (pageRows limit k c.values) →
          ColumnReader.decodePage c.type (some ⟨c.type, entries⟩) q.page =
            .ok ⟨c.type, pageRows limit k (storedValues c true)⟩ := by
        intro k q hq hold
        rw [stored, pageRows, ← List.map_drop, ← List.map_take]
        exact decodePage_indices hold (others q hq) fun v hv =>
          found v (List.mem_of_mem_drop (List.mem_of_mem_take hv))
      obtain ⟨size, page⟩ := rows_of_columnPages true (some ⟨c.type, entries⟩) pos width decode
      have refers :
          columnPages c limit .dictionary (fun v => Bytes.ofNat 4 (index v).toNat) ≠ [] := by
        intro none_needed
        have enough := (runCount_mul c.length pos).1
        rw [← size, none_needed, List.length_nil, Nat.zero_mul] at enough
        exact nonempty (List.length_eq_zero_iff.mp (Nat.le_zero.mp enough))
      exact ⟨some _, some ⟨c.type, entries⟩, _, rfl,
        ⟨by simp, covers_columnPages pos, .dictionary rfl rfl entriesRead read⟩,
        .some rfl rfl entriesRead, size, page, fun _ => refers⟩

end

/-- A column is read back as it was unless it has a dictionary and a value that first occurs behind
the positions of 32 bits. -/
theorem storedValues_eq_self_iff {c : ColumnValues} {useDictionary : Bool} :
    storedValues c useDictionary = c.values ↔
      (useDictionary = true → ∀ v ∈ c.values, c.values.idxOf v < UInt32.size) := by
  cases useDictionary with
  | false => simp [storedValues]
  | true =>
      have each := List.map_inj_left (f := Dictionary.entry c) (g := id) (l := c.values)
      rw [List.map_id] at each
      rw [storedValues, if_pos rfl, each]
      constructor
      · intro same _ v hv
        exact (Dictionary.entry_eq_self_iff hv).mp (same v hv)
      · intro early v hv
        exact (Dictionary.entry_eq_self_iff hv).mpr (early rfl v hv)

theorem storedValues_eq_self {c : ColumnValues} (h : c.length < UInt32.size)
    (useDictionary : Bool) :
    storedValues c useDictionary = c.values :=
  storedValues_eq_self_iff.mpr fun _ _ hv => Nat.lt_trans (List.idxOf_lt_length_of_mem hv) h

end PagePlan

end SealedColumns
