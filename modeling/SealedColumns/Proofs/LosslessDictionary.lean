import Mathlib.Data.List.Basic
import Mathlib.Data.List.Nodup
import Mathlib.Data.List.Perm.Subperm
import SealedColumns.Proofs.DictionaryCoding

/-!
# When a dictionary loses nothing

The indices of a column lead back to its values, and the entries of the dictionary are its distinct
values in order of their first occurrence, if every value occurs among the first `UInt32.size`
values for the first time. This condition cannot be dropped. The position of a first occurrence is
kept in 32 bits; the entry of a value that comes later is the value that stands at the position
modulo `UInt32.size`, which is the entry of another value as well. So the values are not restored,
and the dictionary holds one value twice.

Encoding itself succeeds whenever there are fewer than `UInt32.size` distinct values, however many
values there are.
-/

namespace SealedColumns

/-- The plain encodings of the values, one by one. -/
def ColumnValues.keys (c : ColumnValues) : List Bytes :=
  c.values.map (Plain.encodeValue c.type)

namespace Dictionary

variable {c d : ColumnValues} {indices : List UInt32} {met : List c.type.Value}

/-- Every value occurs for the first time where 32 bits can tell its position. -/
def Early (c : ColumnValues) : Prop :=
  ∀ v ∈ c.values, c.values.idxOf v < UInt32.size

theorem early_of_length_le (h : c.length ≤ UInt32.size) : Early c :=
  fun _ hv => Nat.lt_of_lt_of_le (List.idxOf_lt_length_of_mem hv) h

theorem map_entry_eq_self_iff : c.values.map (entry c) = c.values ↔ Early c := by
  constructor
  · intro same v hv
    have each := List.map_inj_left.mp (same.trans (List.map_id c.values).symm)
    exact (entry_eq_self_iff hv).mp (each v hv)
  · intro early
    exact (List.map_congr_left fun v hv => (entry_eq_self_iff hv).mpr (early v hv)).trans
      (List.map_id c.values)

namespace Coded

theorem length_indices (h : Coded c d indices met) : indices.length = c.length := by
  rw [h.indices, List.length_map, ColumnValues.length]

theorem index_lt (h : Coded c d indices met) : ∀ i ∈ indices, i.toNat < d.length := by
  intro i hi
  rw [h.indices] at hi
  obtain ⟨v, hv, rfl⟩ := List.mem_map.mp hi
  rw [h.toNat_idxOf hv, h.dictionary, ColumnValues.length, List.length_map]
  exact List.idxOf_lt_length_of_mem ((h.mem_met v).mpr hv)

/-- The indices lead to the entries of the values. -/
theorem take (h : Coded c d indices met) :
    d.take indices = .ok ⟨c.type, c.values.map (entry c)⟩ := by
  obtain rfl := h.dictionary
  refine ColumnValues.take_eq_ok ?_
  rw [h.indices, List.map_map, List.map_map]
  exact List.map_congr_left fun v hv => h.getElem?_entry hv

theorem take_eq_self_iff (h : Coded c d indices met) : d.take indices = .ok c ↔ Early c := by
  rw [h.take, ← map_entry_eq_self_iff, Except.ok.injEq]
  constructor
  · intro same
    have values := congrArg ColumnValues.keys same
    exact List.map_injective_iff.mpr (fun _ _ => Plain.eq_of_encodeValue_eq) values
  · intro same
    rw [same]

theorem keys_eq (h : Coded c d indices met) :
    d.keys = (met.map (entry c)).map (Plain.encodeValue c.type) := by
  rw [h.dictionary, ColumnValues.keys]

/-- The entries stand in order of first occurrence where nothing is lost. -/
theorem ordered_keys (h : Coded c d indices met) (early : Early c) :
    d.keys.Pairwise fun k l => c.keys.idxOf k < c.keys.idxOf l := by
  have same : met.map (entry c) = met := by
    refine (List.map_congr_left fun v hv => ?_).trans (List.map_id met)
    have present := (h.mem_met v).mp hv
    exact (entry_eq_self_iff present).mpr (early v present)
  have place := idxOf_map_of_injective (f := Plain.encodeValue c.type)
    fun _ _ => Plain.eq_of_encodeValue_eq
  rw [h.keys_eq, same, List.pairwise_map]
  refine h.ordered.imp ?_
  intro v w before
  rwa [ColumnValues.keys, place, place]

/-- A value that first occurs too late shares its entry with the value at the shortened position. -/
theorem early_of_nodup_keys (h : Coded c d indices met) (distinct : d.keys.Nodup) : Early c := by
  intro v hv
  rw [h.keys_eq] at distinct
  have entries_inj := List.inj_on_of_nodup_map (List.Nodup.of_map _ distinct)
  obtain ⟨present, own⟩ := entry_entry hv
  have same := entries_inj ((h.mem_met _).mpr present) ((h.mem_met v).mpr hv) own
  exact (entry_eq_self_iff hv).mp same

end Coded

/-- Entries in order of first occurrence are different from each other. -/
theorem nodup_of_ordered {keys all : List Bytes}
    (h : keys.Pairwise fun k l => all.idxOf k < all.idxOf l) : keys.Nodup := by
  refine h.imp ?_
  intro k l before same
  rw [same] at before
  exact Nat.lt_irrefl _ before

/-! ## Encoding succeeds -/

/-- The keys are among any list that all values seen are from. -/
theorem Noted.length_keys_le {seen kinds : List Bytes} {p : Progress} (h : Noted seen p)
    (among : ∀ key ∈ seen, key ∈ kinds) : p.keys.length ≤ kinds.length :=
  ((nodup_of_ordered h.ordered).subperm fun key hkey =>
    among key ((h.mem_keys key).mp hkey)).length_le

theorem exists_step {p : Progress} (room : p.keys.length < UInt32.size) (position : Nat)
    (key : Bytes) : ∃ q, step p position key = .ok q := by
  rw [step, uint32, if_pos room, Except.ok_bind]
  cases p.keys.idxOf? key with
  | some i => exact ⟨_, rfl⟩
  | none => exact ⟨_, rfl⟩

theorem Noted.exists_run {seen keys kinds : List Bytes} {p : Progress} (h : Noted seen p)
    (few : kinds.length < UInt32.size) (among : ∀ key ∈ seen ++ keys, key ∈ kinds) :
    ∃ q, Dictionary.run p seen.length keys = .ok q := by
  induction keys generalizing seen p with
  | nil => exact ⟨p, rfl⟩
  | cons key keys ih =>
      have old : p.keys.length ≤ kinds.length :=
        h.length_keys_le fun k hk => among k (List.mem_append_left _ hk)
      obtain ⟨middle, first⟩ := exists_step (Nat.lt_of_le_of_lt old few) seen.length key
      have length : seen.length + 1 = (seen ++ [key]).length := by simp
      rw [Dictionary.run, first, Except.ok_bind, length]
      refine ih (h.step first) ?_
      rwa [List.append_assoc, List.singleton_append]

/-- A column whose values are from fewer than `UInt32.size` is encoded, however long it is. -/
theorem exists_encode {c : ColumnValues} {kinds : List c.type.Value}
    (few : kinds.length < UInt32.size) (among : ∀ v ∈ c.values, v ∈ kinds) :
    ∃ d indices, encode c = .ok (d, indices) := by
  have nothing : Noted [] ⟨[], [], []⟩ := .start
  have run : ∃ q, run {} 0 (c.values.map (Plain.encodeValue c.type)) = .ok q := by
    have few : (kinds.map (Plain.encodeValue c.type)).length < UInt32.size := by
      rwa [List.length_map]
    refine nothing.exists_run few ?_
    intro key hkey
    obtain ⟨v, hv, rfl⟩ := List.mem_map.mp hkey
    exact List.mem_map_of_mem (among v hv)
  obtain ⟨p, hp⟩ := run
  obtain ⟨d, met, taken, _⟩ := (nothing.run hp).coded
  refine ⟨d, p.indices.reverse, ?_⟩
  rw [encode, hp, Except.ok_bind, taken]
  rfl

/-- Truth values of which only the last, behind `n` others, is true. -/
def lastTrue (n : Nat) : ColumnValues :=
  ⟨.boolean, List.replicate n false ++ [true]⟩

theorem idxOf_last {α : Type} [DecidableEq α] {v w : α} (h : w ≠ v) (n : Nat) :
    (List.replicate n v ++ [w]).idxOf w = n := by
  have absent : w ∉ List.replicate n v := fun hw => h (List.eq_of_mem_replicate hw)
  rw [List.idxOf_append_of_notMem absent, List.length_replicate, List.idxOf_cons_self,
    Nat.add_zero]

theorem early_lastTrue_iff (n : Nat) : Early (lastTrue n) ↔ n < UInt32.size := by
  have place := idxOf_last (α := PhysicalType.boolean.Value) (by decide : true ≠ false) n
  have length : (lastTrue n).length = n + 1 := by
    change (List.replicate n false ++ [true]).length = n + 1
    rw [List.length_append, List.length_replicate, List.length_singleton]
  constructor
  · intro early
    have late := early true (List.mem_append_right _ (List.mem_singleton_self true))
    exact Nat.lt_of_le_of_lt (Nat.le_of_eq place.symm) late
  · intro small
    refine early_of_length_le ?_
    rw [length]
    exact small

theorem exists_encode_lastTrue (n : Nat) : ∃ d indices, encode (lastTrue n) = .ok (d, indices) := by
  have few : [false, true].length < UInt32.size := by decide
  refine exists_encode few ?_
  intro v _
  cases v with
  | false => exact List.mem_cons_self
  | true => exact List.mem_cons_of_mem _ List.mem_cons_self

/-! ## The whole encoding -/

/-- Each value has an index and each index an entry. The indices lead back to the values exactly if
every value occurs early enough for the first time, and so do the entries differ from each other and
stand in order of first occurrence. -/
theorem encode_lossless_iff {c d : ColumnValues} {indices : List UInt32}
    (h : encode c = .ok (d, indices)) :
    indices.length = c.length ∧ (∀ i ∈ indices, i.toNat < d.length) ∧
      (d.take indices = .ok c ↔ Early c) ∧
      (d.keys.Nodup ↔ Early c) ∧
      (d.keys.Pairwise (fun k l => c.keys.idxOf k < c.keys.idxOf l) ↔ Early c) := by
  obtain ⟨met, coded⟩ := exists_coded h
  refine ⟨coded.length_indices, coded.index_lt, coded.take_eq_self_iff, ⟨?_, ?_⟩, ⟨?_, ?_⟩⟩
  · exact coded.early_of_nodup_keys
  · exact fun early => nodup_of_ordered (coded.ordered_keys early)
  · exact fun ordered => coded.early_of_nodup_keys (nodup_of_ordered ordered)
  · exact coded.ordered_keys

/-- One true value behind few others is kept, and one behind `UInt32.size` others is lost. -/
theorem encode_lossless_iff_lastTrue :
    (∃ d indices, encode (lastTrue 1) = .ok (d, indices) ∧ d.take indices = .ok (lastTrue 1)) ∧
    ∃ d indices, encode (lastTrue UInt32.size) = .ok (d, indices) ∧
      d.take indices ≠ .ok (lastTrue UInt32.size) ∧ ¬ d.keys.Nodup := by
  have late : ¬ Early (lastTrue UInt32.size) := by
    rw [early_lastTrue_iff]
    exact Nat.lt_irrefl _
  constructor
  · obtain ⟨d, indices, encoded⟩ := exists_encode_lastTrue 1
    obtain ⟨_, _, take, _⟩ := encode_lossless_iff encoded
    exact ⟨d, indices, encoded, take.mpr ((early_lastTrue_iff 1).mpr (by decide))⟩
  · obtain ⟨d, indices, encoded⟩ := exists_encode_lastTrue UInt32.size
    obtain ⟨_, _, take, distinct, _⟩ := encode_lossless_iff encoded
    exact ⟨d, indices, encoded, fun same => late (take.mp same),
      fun nodup => late (distinct.mp nodup)⟩

end Dictionary

end SealedColumns
