import SealedColumns.Proofs.WriterStates

/-!
# The byte size that a row group states

The entry of a row group states a size in bytes, which is the sum over the metadata that stand in
the entry in plain form. Behind a sealed footer the metadata of a column with its own key do not
stand there, so its size is missing from the sum. The stated size is the size of all column data,
as the metadata tell it once they are opened, exactly where no column with values has its
metadata in sealed form only.

The sum never wraps: the size of pages before sealing is at most their size in the file, and the
size of the row group in the file is counted in 64 bits.
-/

namespace SealedColumns

/-- The sizes before sealing that metadata state, added up. -/
def uncompressedTotal (metas : List ColumnMetaData) : Int :=
  fieldTotal ColumnMetaData.totalUncompressedSize metas

@[simp] theorem uncompressedTotal_cons (m : ColumnMetaData) (metas : List ColumnMetaData) :
    uncompressedTotal (m :: metas) = m.totalUncompressedSize.toInt + uncompressedTotal metas :=
  rfl

/-- The metadata of the chunks of a row group, each as its entry shows it: in plain form, in the
module that a reader with the key opens, or both. -/
inductive ChunkMetaData (encryption : Option FileEncryption) (rowGroup : Nat) :
    (ordinal : Nat) → List (Column × ColumnValues) → List ColumnChunk → List ColumnMetaData →
      Prop where
  | nil {ordinal : Nat} : ChunkMetaData encryption rowGroup ordinal [] [] []
  | cons {ordinal : Nat} {column : Column} {values : ColumnValues} {c : ColumnChunk}
      {m : ColumnMetaData} {columns : List (Column × ColumnValues)} {chunks : List ColumnChunk}
      {metas : List ColumnMetaData}
      (entry : ChunkEntry encryption rowGroup ordinal column.path m c)
      (forms : EntryForms encryption column.path c)
      (describes : m.Describes column values.length) (sized : m.Sized values.length)
      (others : ChunkMetaData encryption rowGroup (ordinal + 1) columns chunks metas) :
      ChunkMetaData encryption rowGroup ordinal ((column, values) :: columns) (c :: chunks)
        (m :: metas)

section

variable {properties : WriterProperties} {encryption : Option FileEncryption}
variable {rowGroup ordinal start : Nat} {columns : List (Column × ColumnValues)}
variable {chunks : List ColumnChunk} {metas : List ColumnMetaData} {bytes : Bytes}

/-- Chunks that stand in a file have their metadata, whose sizes are not larger than the chunks. -/
theorem exists_chunkMetaData {stored : List (ColumnChunk × Bytes)}
    (laid : Laid (ChunkAt properties encryption rowGroup) ordinal start columns stored bytes) :
    ∃ metas, ChunkMetaData encryption rowGroup ordinal columns (stored.map Prod.fst) metas ∧
      uncompressedTotal metas ≤ bytes.length := by
  induction laid with
  | nil => exact ⟨[], .nil, Int.le_refl 0⟩
  | cons first _ ih =>
      obtain ⟨metas, known, total⟩ := ih
      obtain ⟨m, index, entry, describes, placed, _, sized, _⟩ := first.placed
      refine ⟨m :: metas, .cons entry first.forms describes sized known, ?_⟩
      have here := sized.le_compressed
      rw [placed.size] at here
      rw [uncompressedTotal_cons, List.length_append, Int.natCast_add]
      exact Int.add_le_add here total

namespace ChunkMetaData

/-- What is stated is part of what there is. -/
theorem shown_le (h : ChunkMetaData encryption rowGroup ordinal columns chunks metas) :
    (∀ m ∈ chunks.filterMap ColumnChunk.metaData, 0 ≤ m.totalUncompressedSize.toInt) ∧
      uncompressedTotal (chunks.filterMap ColumnChunk.metaData) ≤ uncompressedTotal metas := by
  induction h with
  | nil => exact ⟨List.forall_mem_nil _, Int.le_refl 0⟩
  | @cons _ column values c m columns chunks metas entry forms describes sized others ih =>
      obtain ⟨nonneg, le⟩ := ih
      have here := sized.nonneg
      rw [uncompressedTotal_cons]
      cases shown : c.metaData with
      | none =>
          rw [List.filterMap_cons_none shown]
          exact ⟨nonneg, by omega⟩
      | some other =>
          obtain rfl := entry.shown other shown
          rw [List.filterMap_cons_some shown, uncompressedTotal_cons]
          exact ⟨List.forall_mem_cons.mpr ⟨here, nonneg⟩, Int.add_le_add_left le _⟩

/-- What is stated is all that there is, as far as no column with values is left out. -/
theorem shown_eq_iff (h : ChunkMetaData encryption rowGroup ordinal columns chunks metas) :
    uncompressedTotal (chunks.filterMap ColumnChunk.metaData) = uncompressedTotal metas ↔
      ∀ c ∈ columns, SealedOnly encryption c.1.path → c.2.length = 0 := by
  induction h with
  | nil => exact iff_of_true rfl (List.forall_mem_nil _)
  | @cons _ column values c m columns chunks metas entry forms describes sized others ih =>
      obtain ⟨_, le⟩ := others.shown_le
      rw [List.forall_mem_cons, ← ih, uncompressedTotal_cons]
      cases shown : c.metaData with
      | none =>
          -- The metadata is left out, which makes no difference if there are no values.
          have here := sized.nonneg
          have sealedOnly := forms.plain.mp shown
          rw [List.filterMap_cons_none shown, imp_iff_right sealedOnly, ← sized.eq_zero_iff]
          omega
      | some other =>
          obtain rfl := entry.shown other shown
          have plain : ¬ SealedOnly encryption column.path := by
            rw [← forms.plain, shown]
            exact Option.some_ne_none _
          rw [List.filterMap_cons_some shown, uncompressedTotal_cons]
          refine Int.add_right_inj _ |>.trans ⟨fun same => ⟨fun sealedOnly => ?_, same⟩, And.right⟩
          exact absurd sealedOnly plain

end ChunkMetaData

end

/-- The entry of a row group that was written, with the metadata of its chunks. -/
theorem RowGroupAt.byteSize_eq {schema : Schema} {properties : WriterProperties}
    {encryption : Option FileEncryption} {index start : Nat} {columns : List ColumnValues}
    {group : RowGroup × List Bytes} {bytes : Bytes}
    (h : RowGroupAt schema properties encryption index start columns group bytes) :
    ∃ metas, ChunkMetaData encryption index 0 (schema.columns.zip columns) group.1.columns metas ∧
      group.1.totalByteSize.toInt =
        uncompressedTotal (group.1.columns.filterMap ColumnChunk.metaData) := by
  obtain ⟨chunks, entries, _, laid⟩ := h.chunks
  obtain ⟨metas, known, total⟩ := exists_chunkMetaData laid
  rw [← entries] at known
  refine ⟨metas, known, ?_⟩
  obtain ⟨nonneg, le⟩ := known.shown_le
  obtain ⟨size, _, counted⟩ := Option.map_eq_some_iff.mp h.size
  have size_lt := size.toInt_lt
  have start : (0 : Int64).toInt = 0 := rfl
  rw [h.byteSize, shownByteSize, toInt_foldl_add (by rw [start]) nonneg, start, Int.zero_add]
  · rfl
  · rw [start, Int.zero_add]
    change uncompressedTotal (group.1.columns.filterMap ColumnChunk.metaData) < _
    omega

namespace FileWriter

variable {schema : Schema} {properties : WriterProperties} {random : RandomSource}
variable {limit : Option Nat} {w w₁ : FileWriter}

/-- The size that the entry of a row group states, for each row group that a writer takes
in: it is the size of all column data if and only if no column with values has its
metadata in sealed form only. -/
theorem writeRowGroup_byteSize (created : create schema properties random { limit } = .ok w)
    (calls : List Call) {columns : List ColumnValues} {u : Unit}
    (written : writeRowGroup columns (w.afterCalls calls) = (.ok u, w₁)) :
    w.encryption.map FileEncryption.properties = properties.encryption ∧
      ∃ g metas, w₁.rowGroups = (w.afterCalls calls).rowGroups.push g ∧
        ChunkMetaData w.encryption (w.accepted calls).length 0 (schema.columns.zip columns)
          g.columns metas ∧
        g.totalByteSize.toInt = uncompressedTotal (g.columns.filterMap ColumnChunk.metaData) ∧
        (g.totalByteSize.toInt = uncompressedTotal metas ↔
          ∀ c ∈ schema.columns.zip columns, SealedOnly w.encryption c.1.path → c.2.length = 0) := by
  have tracks := tracks_of_create created calls
  have holds := tracks.usable (usable_of_writeRowGroup written)
  obtain ⟨_, _, g, indexes, _, rfl, placed, _⟩ := writeRowGroup_placed written
  rw [holds.size, tracks.settings.schema, tracks.settings.encryption] at placed
  obtain ⟨_, _, _, form, _, _, drawn⟩ := create_eq_ok created
  have settings : w.schema = schema ∧
      w.encryption.map FileEncryption.properties = properties.encryption := by
    rw [form]
    exact ⟨rfl, drawn.map_properties⟩
  rw [settings.1] at placed
  obtain ⟨metas, known, stated⟩ := placed.byteSize_eq
  refine ⟨settings.2, g, metas, rfl, known, stated, ?_⟩
  rw [stated]
  exact known.shown_eq_iff

end FileWriter

/-- One column has its own key, and the footer is sealed. -/
def Sample.sealedFooter : EncryptionProperties :=
  { Sample.encryption with encryptedFooter := true }

theorem FileWriter.writeRowGroup_byteSize_sample : ∃ w w₁ g metas,
    create Sample.schema (Sample.properties (some Sample.sealedFooter)) Sample.random = .ok w ∧
      writeRowGroup Sample.columns w = (.ok (), w₁) ∧ w₁.rowGroups = w.rowGroups.push g ∧
      ChunkMetaData w.encryption 0 0 (Sample.schema.columns.zip Sample.columns) g.columns metas ∧
      g.totalByteSize.toInt ≠ uncompressedTotal metas := by
  have runs : ((create Sample.schema (Sample.properties (some Sample.sealedFooter))
      Sample.random).toOption.any fun w => (writeRowGroup Sample.columns w).1.isOk) = true := by
    decide +kernel
  obtain ⟨w, created, ends⟩ := Except.exists_of_any runs
  obtain ⟨_, w₁, written⟩ := Operation.exists_of_isOk ends
  obtain ⟨encryption, g, metas, pushed, known, _, exact_iff⟩ :=
    writeRowGroup_byteSize created [] written
  obtain ⟨e, encrypted, properties⟩ := Option.map_eq_some_iff.mp encryption
  refine ⟨w, w₁, g, metas, created, written, pushed, known, fun same => ?_⟩
  have hidden : SealedOnly w.encryption Sample.own.path := by
    rw [encrypted, SealedOnly, chunkCrypto, Option.any_some, Option.bind_some, properties]
    exact ⟨rfl, _, rfl⟩
  have empty := exact_iff.mp same _ List.mem_cons_self hidden
  cases empty

end SealedColumns
