import Mathlib.Data.List.Basic
import Mathlib.Data.Set.List
import SealedColumns.Column.Dictionary
import SealedColumns.Proofs.Checked
import SealedColumns.Proofs.PlainValues

/-!
# Dictionary coding is undone

The dictionary holds one entry for each distinct value, and the index of a value leads to its entry.
The entry is found again by the position of the first occurrence of the value, which is kept in 32
bits: `Dictionary.entry` is the value that stands at that position. It is the value itself exactly
if its first occurrence is among the first `2 ^ 32` values, in particular in every column of at most
that many values.
-/

namespace SealedColumns

/-- Values that are fetched one by one. -/
theorem mapM_valueAt {α : Type} {values found : List α} {indices : List UInt32}
    (h : indices.map (fun i => values[i.toNat]?) = found.map some) :
    indices.mapM (fun i => valueAt values.toArray i.toNat) = .ok found := by
  induction indices generalizing found with
  | nil =>
      cases found with
      | nil => rfl
      | cons v found => cases h
  | cons i indices ih =>
      cases found with
      | nil => cases h
      | cons v found =>
          obtain ⟨present, others⟩ := List.cons.inj h
          rw [List.mapM_cons, valueAt_of_getElem? present, Except.ok_bind, ih others]
          rfl

namespace ColumnValues

/-- The values at given positions, where every position has one. -/
theorem take_eq_ok {c : ColumnValues} {indices : List UInt32} {vs : List c.type.Value}
    (h : indices.map (fun i => c.values[i.toNat]?) = vs.map some) :
    c.take indices = .ok ⟨c.type, vs⟩ := by
  have found : ∀ i ∈ indices, i.toNat < c.length := by
    intro i hi
    have member : c.values[i.toNat]? ∈ vs.map some := h ▸ List.mem_map_of_mem hi
    obtain ⟨v, _, hv⟩ := List.mem_map.mp member
    exact (List.getElem?_eq_some_iff.mp hv.symm).1
  have inside : (indices.find? fun i => decide (c.length ≤ i.toNat)) = none := by
    rw [List.find?_eq_none]
    intro i hi
    have := found i hi
    simp only [decide_eq_true_eq]
    omega
  rw [take]
  simp only [inside, mapM_valueAt h]
  rfl

end ColumnValues

namespace Dictionary

/-- What has been noted once the values with the plain encodings `seen` are taken in. -/
structure Noted (seen : List Bytes) (p : Progress) : Prop where
  mem_keys : ∀ key, key ∈ p.keys ↔ key ∈ seen
  ordered : p.keys.Pairwise fun k l => seen.idxOf k < seen.idxOf l
  keys_le : p.keys.length ≤ UInt32.size
  firstSeen : p.firstSeen.reverse = p.keys.map fun key => (seen.idxOf key).toUInt32
  indices : p.indices.reverse = seen.map fun key => (p.keys.idxOf key).toUInt32

theorem Noted.start : Noted [] {} where
  mem_keys _ := Iff.rfl
  ordered := .nil
  keys_le := Nat.zero_le _
  firstSeen := rfl
  indices := rfl

theorem idxOf_concat {keys : List Bytes} {key : Bytes} (new : key ∉ keys) :
    (keys ++ [key]).idxOf key = keys.length := by
  rw [List.idxOf_append_of_notMem new, List.idxOf_cons_self, Nat.add_zero]

/-- Keys that come later do not move the first occurrences of the others. -/
theorem map_idxOf_append {keys seen : List Bytes} (h : ∀ key ∈ keys, key ∈ seen)
    (later : List Bytes) :
    keys.map (fun key => ((seen ++ later).idxOf key).toUInt32) =
      keys.map fun key => (seen.idxOf key).toUInt32 := by
  apply List.map_congr_left
  intro key hkey
  rw [List.idxOf_append_of_mem (h key hkey)]

/-- The order of the first occurrences does not change when more keys come. -/
theorem Noted.ordered_append {seen : List Bytes} {p : Progress} (h : Noted seen p)
    (later : List Bytes) :
    p.keys.Pairwise fun k l => (seen ++ later).idxOf k < (seen ++ later).idxOf l := by
  refine h.ordered.imp_of_mem ?_
  intro k l hk hl before
  rwa [List.idxOf_append_of_mem ((h.mem_keys k).mp hk),
    List.idxOf_append_of_mem ((h.mem_keys l).mp hl)]

/-- A value met before: the keys stay, and so do all first occurrences. -/
theorem Noted.known {seen : List Bytes} {p : Progress} {key : Bytes} {i : Nat} (h : Noted seen p)
    (found : p.keys.idxOf? key = some i) :
    Noted (seen ++ [key]) { p with indices := i.toUInt32 :: p.indices } := by
  have known : key ∈ p.keys := by
    by_contra missing
    rw [List.idxOf?_eq_none_iff.mpr missing] at found
    cases found
  have place : p.keys.idxOf key = i := by
    rw [List.idxOf_eq_getD_idxOf?, found]
    rfl
  refine ⟨?_, h.ordered_append _, h.keys_le, ?_, ?_⟩
  · intro k
    rw [h.mem_keys, List.mem_append, List.mem_singleton]
    constructor
    · exact Or.inl
    · rintro (hk | rfl)
      · exact hk
      · exact (h.mem_keys k).mp known
  · rw [h.firstSeen, map_idxOf_append fun k hk => (h.mem_keys k).mp hk]
  · simp only [List.reverse_cons, h.indices, List.map_append, List.map_cons, List.map_nil, place]

/-- A new value: its key goes to the end, where its first occurrence is the present position. -/
theorem Noted.new {seen : List Bytes} {p : Progress} {key : Bytes} (h : Noted seen p)
    (missed : p.keys.idxOf? key = none) (room : p.keys.length < UInt32.size) :
    Noted (seen ++ [key]) ⟨p.keys ++ [key], seen.length.toUInt32 :: p.firstSeen,
      p.keys.length.toUInt32 :: p.indices⟩ := by
  have new : key ∉ p.keys := List.idxOf?_eq_none_iff.mp missed
  have unseen : key ∉ seen := fun hk => new ((h.mem_keys key).mpr hk)
  refine ⟨?_, ?_, ?_, ?_, ?_⟩
  · intro k
    simp only [List.mem_append, List.mem_singleton, h.mem_keys]
  · refine List.pairwise_append.mpr ⟨h.ordered_append _, List.pairwise_singleton _ _, ?_⟩
    intro k hk l hl
    rw [List.mem_singleton.mp hl, idxOf_concat unseen]
    have known := (h.mem_keys k).mp hk
    rw [List.idxOf_append_of_mem known]
    exact List.idxOf_lt_length_of_mem known
  · simp only [List.length_append, List.length_singleton]
    omega
  · rw [List.reverse_cons, h.firstSeen, List.map_append, List.map_singleton, idxOf_concat unseen,
      map_idxOf_append fun k hk => (h.mem_keys k).mp hk]
  · rw [List.reverse_cons, h.indices, List.map_append, List.map_singleton, idxOf_concat new,
      map_idxOf_append fun k hk => (h.mem_keys k).mpr hk]

theorem Noted.step {seen : List Bytes} {p q : Progress} {key : Bytes} (h : Noted seen p)
    (run : Dictionary.step p seen.length key = .ok q) : Noted (seen ++ [key]) q := by
  rw [Dictionary.step] at run
  obtain ⟨next, hnext, run⟩ := Except.bind_eq_ok.mp run
  obtain ⟨room, rfl⟩ := uint32_eq_ok.mp hnext
  cases hfind : p.keys.idxOf? key with
  | some i =>
      rw [hfind] at run
      cases Except.pure_eq_ok.mp run
      exact h.known hfind
  | none =>
      rw [hfind] at run
      cases Except.pure_eq_ok.mp run
      exact h.new hfind room

theorem Noted.run {seen keys : List Bytes} {p q : Progress} (h : Noted seen p)
    (run : Dictionary.run p seen.length keys = .ok q) : Noted (seen ++ keys) q := by
  induction keys generalizing seen p with
  | nil =>
      cases run
      rwa [List.append_nil]
  | cons key keys ih =>
      obtain ⟨middle, first, rest⟩ := Except.bind_eq_ok.mp run
      have noted := h.step first
      have length : seen.length + 1 = (seen ++ [key]).length := by simp
      rw [length] at rest
      simpa using ih noted rest

/-- The entry that the dictionary of a column holds for a value: what stands at the first occurrence
of the value, whose position is kept in 32 bits. -/
def entry (c : ColumnValues) (v : c.type.Value) : c.type.Value :=
  c.values.getD (c.values.idxOf v % UInt32.size) v

theorem getElem?_firstSeen {c : ColumnValues} {v : c.type.Value} (hv : v ∈ c.values) :
    c.values[(c.values.idxOf v).toUInt32.toNat]? = some (entry c v) := by
  have inside : c.values.idxOf v % UInt32.size < c.values.length :=
    Nat.lt_of_le_of_lt (Nat.mod_le _ _) (List.idxOf_lt_length_of_mem hv)
  rw [toNat_toUInt32, entry, List.getD_eq_getElem?_getD, List.getElem?_eq_getElem inside]
  rfl

/-- A value occurs for the first time no later than anywhere it stands. -/
theorem idxOf_le_of_getElem? {α : Type} [DecidableEq α] {values : List α} {i : Nat} {v : α}
    (h : values[i]? = some v) : values.idxOf v ≤ i := by
  by_contra later
  have before : v ∈ values.take (values.idxOf v) := by
    refine List.mem_of_getElem? (i := i) ?_
    rw [List.getElem?_take_of_lt (Nat.lt_of_not_le later), h]
  exact Nat.lt_irrefl _ ((List.mem_take_iff_idxOf_lt (List.mem_of_getElem? h)).mp before)

/-- The entry stands at the shortened position of the first occurrence. -/
theorem getElem?_entry {c : ColumnValues} {v : c.type.Value} (hv : v ∈ c.values) :
    c.values[c.values.idxOf v % UInt32.size]? = some (entry c v) := by
  have stands := getElem?_firstSeen hv
  rwa [toNat_toUInt32] at stands

theorem entry_eq_self_iff {c : ColumnValues} {v : c.type.Value} (hv : v ∈ c.values) :
    entry c v = v ↔ c.values.idxOf v < UInt32.size := by
  constructor
  · intro same
    have stands := getElem?_entry hv
    rw [same] at stands
    exact Nat.lt_of_le_of_lt (idxOf_le_of_getElem? stands) (Nat.mod_lt _ (by decide))
  · intro small
    rw [entry, Nat.mod_eq_of_lt small, List.getD_eq_getElem?_getD, List.getElem?_idxOf hv]
    rfl

/-- What stands at a shortened position occurs early, so that it is its own entry. -/
theorem entry_entry {c : ColumnValues} {v : c.type.Value} (hv : v ∈ c.values) :
    entry c v ∈ c.values ∧ entry c (entry c v) = entry c v := by
  have stands := getElem?_entry hv
  have present := List.mem_of_getElem? stands
  have small : c.values.idxOf v % UInt32.size < UInt32.size := Nat.mod_lt _ (by decide)
  exact ⟨present, (entry_eq_self_iff present).mpr
    (Nat.lt_of_le_of_lt (idxOf_le_of_getElem? stands) small)⟩

theorem idxOf_map_of_injective {α β : Type} [DecidableEq α] [BEq β] [LawfulBEq β] {f : α → β}
    (hf : Function.Injective f) (as : List α) (a : α) : (as.map f).idxOf (f a) = as.idxOf a := by
  induction as with
  | nil => rfl
  | cons b as ih =>
      rw [List.map_cons, List.idxOf_cons, List.idxOf_cons, ih]
      by_cases same : b = a
      · rw [same, beq_self_eq_true, beq_self_eq_true]
      · have differ : f b ≠ f a := fun h => same (hf h)
        rw [beq_false_of_ne same, beq_false_of_ne differ]

/-- The keys are the encodings of the distinct values. -/
theorem Noted.exists_met {c : ColumnValues} {p : Progress}
    (noted : Noted (c.values.map (Plain.encodeValue c.type)) p) :
    ∃ met : List c.type.Value, met.map (Plain.encodeValue c.type) = p.keys ∧
      ∀ v, v ∈ met ↔ v ∈ c.values := by
  have injective : Function.Injective (Plain.encodeValue c.type) :=
    fun _ _ => Plain.eq_of_encodeValue_eq
  obtain ⟨met, hmet⟩ : p.keys ∈ Set.range (List.map (Plain.encodeValue c.type)) := by
    rw [Set.range_list_map]
    intro key hkey
    obtain ⟨v, _, hv⟩ := List.mem_map.mp ((noted.mem_keys key).mp hkey)
    exact ⟨v, hv⟩
  refine ⟨met, hmet, ?_⟩
  intro v
  have keys := noted.mem_keys (Plain.encodeValue c.type v)
  rwa [← hmet, List.mem_map_of_injective injective, List.mem_map_of_injective injective] at keys

/-- What the encoding of a column consists of, where `met` are the distinct values in order of their
first occurrence: an entry for each of them, and the index of each value of the column. -/
structure Coded (c d : ColumnValues) (indices : List UInt32) (met : List c.type.Value) : Prop where
  mem_met : ∀ v, v ∈ met ↔ v ∈ c.values
  ordered : met.Pairwise fun v w => c.values.idxOf v < c.values.idxOf w
  length_le : met.length ≤ UInt32.size
  dictionary : d = ⟨c.type, met.map (entry c)⟩
  indices : indices = c.values.map fun v => (met.idxOf v).toUInt32

/-- What was noted of a whole column leads to its encoding. -/
theorem Noted.coded {c : ColumnValues} {p : Progress}
    (noted : Noted (c.values.map (Plain.encodeValue c.type)) p) :
    ∃ d met, c.take p.firstSeen.reverse = .ok d ∧ Coded c d p.indices.reverse met := by
  have place := idxOf_map_of_injective (f := Plain.encodeValue c.type)
    fun _ _ => Plain.eq_of_encodeValue_eq
  obtain ⟨met, hmet, mem_met⟩ := noted.exists_met
  refine ⟨⟨c.type, met.map (entry c)⟩, met, ?_, mem_met, ?_, ?_, rfl, ?_⟩
  · refine ColumnValues.take_eq_ok ?_
    rw [noted.firstSeen, ← hmet, List.map_map, List.map_map, List.map_map]
    apply List.map_congr_left
    intro v hv
    simp only [Function.comp_apply, place]
    exact getElem?_firstSeen ((mem_met v).mp hv)
  · have ordered := noted.ordered
    rw [← hmet, List.pairwise_map] at ordered
    simpa only [place] using ordered
  · have few := noted.keys_le
    rwa [← hmet, List.length_map] at few
  · rw [noted.indices, ← hmet, List.map_map]
    apply List.map_congr_left
    intro v _
    simp only [Function.comp_apply, place]

theorem exists_coded {c d : ColumnValues} {indices : List UInt32}
    (h : encode c = .ok (d, indices)) : ∃ met, Coded c d indices met := by
  rw [encode] at h
  obtain ⟨p, hrun, h⟩ := Except.bind_eq_ok.mp h
  obtain ⟨distinct, htake, h⟩ := Except.bind_eq_ok.mp h
  cases Except.pure_eq_ok.mp h
  have nothing : Noted [] ⟨[], [], []⟩ := .start
  obtain ⟨d, met, taken, coded⟩ := (nothing.run hrun).coded
  rw [taken] at htake
  cases htake
  exact ⟨met, coded⟩

/-- The position of a distinct value fits an index. -/
theorem Coded.toNat_idxOf {c d : ColumnValues} {indices : List UInt32} {met : List c.type.Value}
    (h : Coded c d indices met) {v : c.type.Value} (hv : v ∈ c.values) :
    (met.idxOf v).toUInt32.toNat = met.idxOf v := by
  have found := List.idxOf_lt_length_of_mem ((h.mem_met v).mpr hv)
  have few := h.length_le
  rw [toNat_toUInt32, Nat.mod_eq_of_lt (by omega)]

/-- The index of a value leads to the entry of the value. -/
theorem Coded.getElem?_entry {c d : ColumnValues} {indices : List UInt32} {met : List c.type.Value}
    (h : Coded c d indices met) {v : c.type.Value} (hv : v ∈ c.values) :
    (met.map (entry c))[(met.idxOf v).toUInt32.toNat]? = some (entry c v) := by
  rw [h.toNat_idxOf hv, List.getElem?_map, List.getElem?_idxOf ((h.mem_met v).mpr hv)]
  rfl

/-- The dictionary has one type with the column, each value has an index, and the index leads to the
entry of the value. -/
theorem encode_eq_ok {c d : ColumnValues} {indices : List UInt32}
    (h : encode c = .ok (d, indices)) :
    ∃ (entries : List c.type.Value) (index : c.type.Value → UInt32),
      d = ⟨c.type, entries⟩ ∧ indices = c.values.map index ∧
        ∀ v ∈ c.values, entries[(index v).toNat]? = some (entry c v) := by
  obtain ⟨met, coded⟩ := exists_coded h
  exact ⟨met.map (entry c), _, coded.dictionary, coded.indices, fun _ => coded.getElem?_entry⟩

theorem readIndices_append (indices acc : List UInt32) (rest : Bytes) :
    readIndices indices.length acc (encodeIndices indices ++ rest) =
      .ok (acc.reverse ++ indices) := by
  induction indices generalizing acc with
  | nil => simp [readIndices]
  | cons i indices ih =>
      have cut := Bytes.cut_append (Bytes.ofNat 4 i.toNat) (encodeIndices indices ++ rest)
      rw [Bytes.length_ofNat] at cut
      have split : encodeIndices (i :: indices) ++ rest =
          Bytes.ofNat 4 i.toNat ++ (encodeIndices indices ++ rest) := by
        simp [encodeIndices]
      rw [split, List.length_cons, readIndices, cut, Except.ok_bind]
      dsimp only
      rw [Bytes.toNat_ofNat 4 _ i.toNat_lt, UInt32.ofNat_toNat, ih, List.reverse_cons,
        List.append_assoc]
      rfl

theorem length_encodeIndices (indices : List UInt32) :
    (encodeIndices indices).length = indices.length * 4 := by
  induction indices with
  | nil => rfl
  | cons i indices ih =>
      simp only [encodeIndices, List.flatMap_cons, List.length_append, Bytes.length_ofNat,
        List.length_cons] at ih ⊢
      omega

theorem decodeIndices_encodeIndices {indices : List UInt32}
    (h : indices.length * 4 < UInt64.size) :
    decodeIndices (encodeIndices indices) indices.length = .ok indices := by
  have read := readIndices_append indices [] []
  have size : mulSizes indices.length 4 = .ok (encodeIndices indices).length := by
    rw [mulSizes, if_pos h, length_encodeIndices]
  rw [List.append_nil] at read
  simp [decodeIndices, size, read]

end Dictionary

end SealedColumns
