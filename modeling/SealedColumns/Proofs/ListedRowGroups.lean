import SealedColumns.Proofs.PlacedFile

/-!
# What the entries of row groups say

Each row group that was taken in has one entry, in the order in which they came. It has one
chunk for each column of the schema, says how many rows there are and which position the row
group has in the file, as far as this can be said in 16 bits. The places of offset indexes
make no difference to this.

The number of rows of a finished file is the sum over its row groups, and never wraps:
every row of a column takes up a byte at least, and the bytes before the first offset
index are counted in 64 bits.
-/

namespace SealedColumns

/-- The entry of the row group with the given position and columns. -/
structure ListedAs (schema : Schema) (encryption : Option FileEncryption) (index : Nat)
    (columns : List ColumnValues) (g : RowGroup) : Prop where
  width : columns.length = schema.numColumns
  chunkCount : g.columns.length = schema.numColumns
  chunk : ∀ j column values, schema.columns[j]? = some column → columns[j]? = some values →
    values.type = column.type ∧ ∃ c m, g.columns[j]? = some c ∧
      ChunkEntry encryption index j column.path m c ∧ m.Describes column values.length
  rows : ∃ rows : Nat, g.numRows.toInt = rows ∧ (∀ values ∈ columns, values.length = rows) ∧
    (columns = [] → rows = 0)
  ordinal : g.ordinal.map Int16.toInt = if index ≤ maxOrdinal then some (index : Int) else none

/-- The entries of row groups, one for each row group and in their order. -/
def Listed (schema : Schema) (encryption : Option FileEncryption)
    (groups : List (List ColumnValues)) (entries : List RowGroup) : Prop :=
  entries.length = groups.length ∧ ∀ i columns, groups[i]? = some columns →
    ∃ g, entries[i]? = some g ∧ ListedAs schema encryption i columns g

/-- The sum of the numbers of rows of row groups. -/
def rowTotal : List RowGroup → Int
  | [] => 0
  | g :: groups => g.numRows.toInt + rowTotal groups

variable {schema : Schema} {properties : WriterProperties} {encryption : Option FileEncryption}

/-- A row group that stands in a file is listed. -/
theorem RowGroupAt.listedAs {index start : Nat} {columns : List ColumnValues}
    {group : RowGroup × List Bytes} {bytes : Bytes}
    (h : RowGroupAt schema properties encryption index start columns group bytes) :
    ListedAs schema encryption index columns group.1 := by
  obtain ⟨chunks, entries, _, laid⟩ := h.chunks
  refine ⟨h.width, ?_, ?_, h.rows, ?_⟩
  · rw [entries, List.length_map, ← laid.length_eq, List.length_zip, h.width]
    exact Nat.min_self _
  · intro j column values hcolumn hvalues
    have among : (schema.columns.zip columns)[j]? = some (column, values) :=
      List.getElem?_zip_eq_some.mpr ⟨hcolumn, hvalues⟩
    obtain ⟨chunk, _, _, _, hchunk, _, placed⟩ := laid.exists_of_getElem? among
    rw [Nat.zero_add] at placed
    obtain ⟨m, _, entry, describes, _⟩ := placed.placed
    refine ⟨placed.type, chunk.1, m, ?_, entry, describes⟩
    rw [entries, List.getElem?_map, hchunk]
    rfl
  · rw [h.ordinal, toInt_int16?]

theorem listed_of_laid {start : Nat} {groups : List (List ColumnValues)}
    {stored : List (RowGroup × List Bytes)} {bytes : Bytes}
    (h : Laid (RowGroupAt schema properties encryption) 0 start groups stored bytes) :
    Listed schema encryption groups (stored.map Prod.fst) := by
  refine ⟨by rw [List.length_map, h.length_eq], ?_⟩
  intro i columns hi
  obtain ⟨group, _, _, _, hgroup, _, placed⟩ := h.exists_of_getElem? hi
  rw [Nat.zero_add] at placed
  refine ⟨group.1, ?_, placed.listedAs⟩
  rw [List.getElem?_map, hgroup]
  rfl

/-- The place of an offset index says nothing about what is listed. -/
theorem ListedAs.sameRowGroup {index : Nat} {columns : List ColumnValues} {g h : RowGroup}
    (listed : ListedAs schema encryption index columns g) (same : SameRowGroup g h) :
    ListedAs schema encryption index columns h where
  width := listed.width
  chunkCount := same.2.length_eq.symm.trans listed.chunkCount
  chunk j column values hcolumn hvalues := by
    obtain ⟨type, c, m, hc, entry, describes⟩ := listed.chunk j column values hcolumn hvalues
    obtain ⟨d, hd, sameChunk⟩ := getElem?_of_forall₂ same.2 hc
    exact ⟨type, d, m, hd, sameChunk.chunkEntry entry, describes⟩
  rows := by
    rw [same.1]
    exact listed.rows
  ordinal := by
    rw [same.1]
    exact listed.ordinal

theorem Listed.same {groups : List (List ColumnValues)} {entries entries' : List RowGroup}
    (listed : Listed schema encryption groups entries)
    (same : List.Forall₂ SameRowGroup entries entries') :
    Listed schema encryption groups entries' := by
  refine ⟨same.length_eq.symm.trans listed.1, ?_⟩
  intro i columns hi
  obtain ⟨g, hg, listedAs⟩ := listed.2 i columns hi
  obtain ⟨h, hh, sameGroup⟩ := getElem?_of_forall₂ same hg
  exact ⟨h, hh, listedAs.sameRowGroup sameGroup⟩

/-! ### Rows and bytes -/

theorem rowTotal_same {entries entries' : List RowGroup}
    (same : List.Forall₂ SameRowGroup entries entries') : rowTotal entries' = rowTotal entries := by
  induction same with
  | nil => rfl
  | cons first _ ih => rw [rowTotal, rowTotal, ih, first.1]

/-- Data pages take up a byte at least for each of their values. -/
theorem length_le_of_pages {sealing : Option ChunkSealing} {page start rows : Nat}
    {data : List PlannedPage} {locations : List PageLocation} {bytes : Bytes}
    (h : Laid (PageAt sealing) page start data locations bytes)
    (covers : PagePlan.Covers data rows) (fits : ∀ q ∈ data, q.count ≤ q.body.length) :
    rows ≤ bytes.length := by
  induction h generalizing rows with
  | nil =>
      cases covers
      exact Nat.le_refl 0
  | cons first _ ih =>
      obtain ⟨here, others⟩ := List.forall_mem_cons.mp fits
      obtain ⟨header, body, rfl, stored⟩ := first.stored
      have body_le := stored.body_stored.length_le
      cases covers with
      | cons _ _ rest =>
          have rest_le := ih rest others
          rw [List.length_append, List.length_append]
          omega

theorem PlacedChunk.length_le {sealing : Option ChunkSealing} {limit : Nat} {useDictionary : Bool}
    {c : ColumnValues} {m : ColumnMetaData} {index : OffsetIndex} {start : Nat} {bytes : Bytes}
    (h : PlacedChunk sealing limit useDictionary c m index start bytes) :
    c.length ≤ bytes.length := by
  cases h with
  | @intro _ _ data front pages bytes_eq holds division _ data_at =>
      have fits : ∀ q ∈ data, q.count ≤ q.body.length := by
        intro q hq
        obtain ⟨k, hk⟩ := List.mem_iff_getElem?.mp hq
        exact (division.page k q hk).fits
      have enough := length_le_of_pages data_at holds.covers fits
      rw [bytes_eq, List.length_append]
      exact Nat.le_add_left_of_le enough

theorem RowGroupAt.numRows_le {index start : Nat} {columns : List ColumnValues}
    {group : RowGroup × List Bytes} {bytes : Bytes}
    (h : RowGroupAt schema properties encryption index start columns group bytes) :
    0 ≤ group.1.numRows.toInt ∧ group.1.numRows.toInt ≤ bytes.length := by
  obtain ⟨rows, numRows, lengths, empty⟩ := h.rows
  obtain ⟨chunks, _, _, laid⟩ := h.chunks
  rw [numRows]
  refine ⟨Int.natCast_nonneg _, Int.ofNat_le.mpr ?_⟩
  cases columns with
  | nil =>
      rw [empty rfl]
      exact Nat.zero_le _
  | cons values columns =>
      obtain ⟨column, rest, hcolumns⟩ :
          ∃ column rest, schema.columns = column :: rest := by
        cases hcolumns : schema.columns with
        | nil =>
            have width := h.width
            rw [Schema.numColumns, hcolumns] at width
            cases width
        | cons column rest => exact ⟨column, rest, rfl⟩
      rw [hcolumns, List.zip_cons_cons] at laid
      cases laid with
      | cons first _ =>
          obtain ⟨_, _, _, _, placed, _⟩ := first.placed
          have enough := placed.length_le
          dsimp only at enough
          rw [lengths values List.mem_cons_self] at enough
          rw [List.length_append]
          omega

theorem rowTotal_le {index start : Nat} {groups : List (List ColumnValues)}
    {stored : List (RowGroup × List Bytes)} {bytes : Bytes}
    (h : Laid (RowGroupAt schema properties encryption) index start groups stored bytes) :
    (∀ g ∈ stored.map Prod.fst, 0 ≤ g.numRows.toInt) ∧
      rowTotal (stored.map Prod.fst) ≤ bytes.length := by
  induction h with
  | nil => exact ⟨fun _ hg => (by cases hg), Int.le_refl 0⟩
  | cons first _ ih =>
      obtain ⟨nonneg, here⟩ := first.numRows_le
      obtain ⟨others, rest⟩ := ih
      refine ⟨List.forall_mem_cons.mpr ⟨nonneg, others⟩, ?_⟩
      rw [List.map_cons, rowTotal, List.length_append, Int.natCast_add]
      exact Int.add_le_add here rest

/-- Offset indexes start within 64 bits, if there are any. -/
theorem start_lt_of_indexes {index start : Nat} {indexes : List (List Bytes)}
    {entries : List RowGroup} {bytes : Bytes}
    (h : Laid IndexesAt index start indexes entries bytes) :
    start < 0x8000000000000000 ∨ ∀ row ∈ indexes, row = [] := by
  induction h with
  | nil => exact .inr fun _ hrow => by cases hrow
  | @cons index start row g indexes entries own more first _ ih =>
      rw [IndexesAt] at first
      generalize g.columns = columns at first
      cases first with
      | nil => exact ih.imp id fun others => List.forall_mem_cons.mpr ⟨rfl, others⟩
      | cons here _ =>
          obtain ⟨offset, _, place⟩ := Option.map_eq_some_iff.mp here.offset
          have bound := Int64.toInt_lt offset
          exact .inl (by omega)

theorem eq_nil_of_indexes {index start : Nat} {groups : List (List ColumnValues)}
    {stored : List (RowGroup × List Bytes)} {bytes : Bytes}
    (h : Laid (RowGroupAt schema properties encryption) index start groups stored bytes)
    (none : ∀ row ∈ stored.map Prod.snd, row = []) : bytes = [] := by
  induction h with
  | nil => rfl
  | cons first _ ih =>
      obtain ⟨here, others⟩ := List.forall_mem_cons.mp none
      obtain ⟨chunks, _, indexes, laid⟩ := first.chunks
      rw [here] at indexes
      obtain rfl := List.map_eq_nil_iff.mp indexes.symm
      rw [ih others, List.append_nil]
      generalize schema.columns.zip _ = columns at laid
      cases laid with
      | nil => rfl

/-- A field of 64 bits of the members of a list, added up as numbers. -/
def fieldTotal {α : Type} (field : α → Int64) : List α → Int
  | [] => 0
  | a :: as => (field a).toInt + fieldTotal field as

section

variable {α : Type} {field : α → Int64}

@[simp] theorem fieldTotal_nil : fieldTotal field [] = 0 := rfl

@[simp] theorem fieldTotal_cons (a : α) (as : List α) :
    fieldTotal field (a :: as) = (field a).toInt + fieldTotal field as := rfl

theorem fieldTotal_nonneg {as : List α} (each : ∀ a ∈ as, 0 ≤ (field a).toInt) :
    0 ≤ fieldTotal field as := by
  induction as with
  | nil => exact Int.le_refl 0
  | cons a as ih =>
      obtain ⟨here, others⟩ := List.forall_mem_cons.mp each
      exact Int.add_nonneg here (ih others)

/-- Adding up in 64 bits does not wrap as long as the sum fits. -/
theorem toInt_foldl_add {as : List α} {sum : Int64} (nonneg : 0 ≤ sum.toInt)
    (each : ∀ a ∈ as, 0 ≤ (field a).toInt)
    (bound : sum.toInt + fieldTotal field as < 0x8000000000000000) :
    (as.foldl (fun sum a => sum + field a) sum).toInt = sum.toInt + fieldTotal field as := by
  induction as generalizing sum with
  | nil => rw [List.foldl_nil, fieldTotal_nil, Int.add_zero]
  | cons a as ih =>
      obtain ⟨here, others⟩ := List.forall_mem_cons.mp each
      have rest := fieldTotal_nonneg others
      rw [fieldTotal_cons] at bound ⊢
      have added : (sum + field a).toInt = sum.toInt + (field a).toInt := by
        rw [Int64.toInt_add]
        exact Int.bmod_eq_of_le (by omega) (by omega)
      rw [List.foldl_cons, ih (by omega) others (by omega), added, Int.add_assoc]

end

theorem rowTotal_eq_fieldTotal (groups : List RowGroup) :
    rowTotal groups = fieldTotal RowGroup.numRows groups := by
  induction groups with
  | nil => rfl
  | cons g groups ih => rw [rowTotal, ih, fieldTotal_cons]

/-- The number of rows of a finished file is the sum over its row groups. -/
theorem PlacedGroups.toInt_numRows {groups : List (List ColumnValues)}
    {stored : List (RowGroup × List Bytes)} {entries : List RowGroup} {chunks indexes : Bytes}
    (h : PlacedGroups schema properties encryption groups stored entries chunks indexes) :
    (entries.foldl (fun sum g => sum + g.numRows) (0 : Int64)).toInt = rowTotal entries := by
  obtain ⟨each, total⟩ := rowTotal_le h.rowGroups
  have fits : rowTotal entries < 0x8000000000000000 := by
    rw [rowTotal_same h.described]
    obtain early | none := start_lt_of_indexes h.offsetIndexes
    · omega
    · -- Row groups without offset indexes have no columns, and take up no bytes.
      rw [eq_nil_of_indexes h.rowGroups none] at total
      exact Int.lt_of_le_of_lt total (by decide)
  have nonneg : ∀ g ∈ entries, 0 ≤ g.numRows.toInt := by
    intro g hg
    obtain ⟨i, hi⟩ := List.mem_iff_getElem?.mp hg
    obtain ⟨g', hg', same⟩ := getElem?_of_forall₂ h.described.flip hi
    rw [same.1]
    exact each g' (List.mem_of_getElem? hg')
  have start : (0 : Int64).toInt = 0 := rfl
  rw [rowTotal_eq_fieldTotal] at fits ⊢
  rw [toInt_foldl_add (by rw [start]) nonneg (by rw [start]; omega), start, Int.zero_add]

end SealedColumns
