import SealedColumns.Proofs.BuiltProperties
import SealedColumns.Proofs.PlacedFile
import SealedColumns.Proofs.WrittenChunks

/-!
# What a finished file consists of

A writer that has taken in row groups holds each of them: the entries of their chunks tell where the
bytes are. Finishing adds the offset indexes, the metadata section and the trailer, and enters the
places of the offset indexes into the entries. None of this moves what was written before.
-/

namespace SealedColumns

namespace FileWriter

variable {w w₁ : FileWriter}

/-! ### Row groups -/

/-- Column chunks are written one after the other. -/
theorem writeChunks_eq_ok {rowGroup ordinal : Nat} {acc : List (ColumnChunk × Bytes)}
    {columns : List (Column × ColumnValues)} {chunks : List (ColumnChunk × Bytes)}
    (h : writeChunks rowGroup ordinal acc columns w = (.ok chunks, w₁)) :
    ∃ new bytes, chunks = acc.reverse ++ new ∧ Wrote bytes w w₁ ∧
      Laid (ChunkAt w.properties w.encryption rowGroup) ordinal w.bytesWritten columns
        new bytes := by
  induction columns generalizing ordinal acc w with
  | nil =>
      cases h
      exact ⟨[], [], (List.append_nil _).symm, .refl _, .nil⟩
  | cons first columns ih =>
      obtain ⟨column, values⟩ := first
      obtain ⟨chunk, w₂, chunkRun, rest⟩ := Operation.bind_eq_ok.mp h
      obtain ⟨bytes, wrote, placed⟩ := writeChunk_eq_ok chunkRun
      obtain ⟨new, more, rfl, wroteRest, laid⟩ := ih rest
      rw [wrote.properties, wrote.encryption, wrote.bytesWritten] at laid
      exact ⟨chunk :: new, bytes ++ more, by simp, wrote.trans wroteRest, .cons placed laid⟩

theorem checkRows_eq_ok_iff {rows : Nat} {columns : List (Column × ColumnValues)} :
    checkRows rows columns = .ok () ↔ ∀ c ∈ columns, c.2.length = rows := by
  induction columns with
  | nil => simp [checkRows]
  | cons c columns ih =>
      obtain ⟨column, values⟩ := c
      rw [checkRows, List.forall_mem_cons, ← ih]
      split
      · next differs => exact iff_of_false (by simp) fun both => differs both.1
      · next same => exact ⟨fun rest => ⟨not_not.mp same, rest⟩, And.right⟩

/-- Columns of the number of a schema are checked all together. -/
theorem checkRows_zip_eq_ok_iff {rows : Nat} {schema : Schema} {columns : List ColumnValues}
    (width : columns.length = schema.numColumns) :
    checkRows rows (schema.columns.zip columns) = .ok () ↔
      ∀ values ∈ columns, values.length = rows := by
  have each : (schema.columns.zip columns).map Prod.snd = columns :=
    List.map_snd_zip (le_of_eq width)
  rw [checkRows_eq_ok_iff]
  conv_rhs => rw [← each]
  rw [List.forall_mem_map]

/-- The columns of a row group become a row group of the file. -/
theorem writeColumns_eq_ok {index rows : Nat} {ordinal : Option Int16}
    {columns : List ColumnValues} {u : Unit} (named : ordinal = int16? index)
    (width : columns.length = w.schema.numColumns)
    (lengths : ∀ values ∈ columns, values.length = rows) (empty : columns = [] → rows = 0)
    (h : writeColumns index ordinal rows (w.schema.columns.zip columns) w = (.ok u, w₁)) :
    ∃ bytes w₂ g indexes, Wrote bytes w w₂ ∧
      w₁ = { w₂ with
        rowGroups := w.rowGroups.push g
        offsetIndexes := w.offsetIndexes.push indexes } ∧
      RowGroupAt w.schema w.properties w.encryption index w.bytesWritten columns (g, indexes)
        bytes := by
  rw [writeColumns] at h
  obtain ⟨start, _, startRun, afterStart⟩ := Operation.bind_eq_ok.mp h
  obtain ⟨rfl, rfl⟩ := position_eq_ok startRun
  obtain ⟨chunks, w₂, chunksRun, afterChunks⟩ := Operation.bind_eq_ok.mp afterStart
  obtain ⟨stop, _, stopRun, afterStop⟩ := Operation.bind_eq_ok.mp afterChunks
  obtain ⟨rfl, rfl⟩ := position_eq_ok stopRun
  obtain ⟨compressed, hcompressed, afterSize⟩ := Operation.lift_bind_eq_ok.mp afterStop
  obtain ⟨numRows, hrows, afterRows⟩ := Operation.lift_bind_eq_ok.mp afterSize
  obtain ⟨offset, hoffset, entering⟩ := Operation.lift_bind_eq_ok.mp afterRows
  obtain ⟨_, bytes, rfl, wrote, laid⟩ := writeChunks_eq_ok chunksRun
  rw [wrote.bytesWritten, Nat.add_sub_cancel_left] at hcompressed
  obtain ⟨compressed_lt, rfl⟩ := int64_eq_ok.mp hcompressed
  obtain ⟨rows_lt, rfl⟩ := int64_eq_ok.mp hrows
  obtain ⟨offset_lt, rfl⟩ := int64_eq_ok.mp hoffset
  have entered := Operation.modify_eq_ok.mp entering
  dsimp only at entered
  rw [wrote.rowGroups, wrote.offsetIndexes] at entered
  refine ⟨bytes, w₂, _, _, wrote, entered.symm, width, ⟨rows, toInt_int64 rows_lt, lengths, empty⟩,
    named, congrArg some (toInt_int64 offset_lt), congrArg some (toInt_int64 compressed_lt), ?_, _,
    rfl, rfl, laid⟩
  rw [shownByteSize, List.filterMap_map]
  rfl

theorem checkUsable_eq_ok {u : Unit} (h : checkUsable w = (.ok u, w₁)) :
    w.phase = .usable ∧ w = w₁ := by
  rw [checkUsable, Operation.run_get_bind] at h
  generalize w.phase = phase at h ⊢
  cases phase with
  | usable =>
      cases h
      exact ⟨rfl, rfl⟩
  | failed => cases h
  | finished => cases h

theorem checkUsable_of_usable (usable : w.phase = .usable) : checkUsable w = (.ok (), w) := by
  rw [checkUsable, Operation.run_get_bind, usable]
  rfl

theorem failingFor_eq_ok {α : Type} {op : Step α} {a : α} (h : failingFor op w = (.ok a, w₁)) :
    op w = (.ok a, w₁) := by
  rw [failingFor] at h
  generalize op w = outcome at h ⊢
  obtain ⟨result, after⟩ := outcome
  cases result with
  | error e => cases h
  | ok b =>
      cases h
      rfl

/-- The writer has taken in the given row groups. Its contents are the magic word and these row
groups, and it keeps the description of each of them and its offset indexes side by side. -/
structure Holds (groups : List (List ColumnValues)) (w : FileWriter) : Prop where
  positioned : w.Positioned
  rowGroups : ∃ stored bytes, w.contents = (footerMode w.encryption).magic ++ bytes ∧
    w.rowGroups.toList = stored.map Prod.fst ∧ w.offsetIndexes.toList = stored.map Prod.snd ∧
    Laid (RowGroupAt w.schema w.properties w.encryption) 0 4 groups stored bytes
  ordinals : w.encryption.isSome → groups.length ≤ maxOrdinal + 1

theorem Holds.start (none_yet : w.rowGroups = #[]) (no_indexes : w.offsetIndexes = #[])
    (contents : w.contents = (footerMode w.encryption).magic) (positioned : w.Positioned) :
    Holds [] w where
  positioned := positioned
  rowGroups := ⟨[], [], by rw [contents, List.append_nil], by rw [none_yet]; rfl,
    by rw [no_indexes]; rfl, .nil⟩
  ordinals _ := Nat.zero_le _

/-- There is a row group in the footer for each one that was taken in. -/
theorem Holds.size {groups : List (List ColumnValues)} (holds : Holds groups w) :
    w.rowGroups.size = groups.length := by
  obtain ⟨stored, _, _, rowGroups, _, laid⟩ := holds.rowGroups
  rw [← Array.length_toList, rowGroups, List.length_map, laid.length_eq]

/-- What a writer was created with does not change. -/
structure SameSettings (w w₁ : FileWriter) : Prop where
  schema : w₁.schema = w.schema
  properties : w₁.properties = w.properties
  encryption : w₁.encryption = w.encryption

theorem SameSettings.trans {w₂ : FileWriter} (first : SameSettings w w₁)
    (second : SameSettings w₁ w₂) : SameSettings w w₂ :=
  ⟨second.schema.trans first.schema, second.properties.trans first.properties,
    second.encryption.trans first.encryption⟩

/-- The row groups that the writer holds are joined by one that was written. -/
theorem Holds.push {groups : List (List ColumnValues)} {columns : List ColumnValues} {bytes : Bytes}
    {g : RowGroup} {indexes : List Bytes} (holds : Holds groups w) (wrote : Wrote bytes w w₁)
    (placed : RowGroupAt w.schema w.properties w.encryption groups.length w.bytesWritten columns
      (g, indexes) bytes)
    (possible : w.encryption.isSome → groups.length ≤ maxOrdinal) :
    Holds (groups ++ [columns])
      { w₁ with
        rowGroups := w.rowGroups.push g
        offsetIndexes := w.offsetIndexes.push indexes } where
  positioned := wrote.positioned holds.positioned
  rowGroups := by
    obtain ⟨stored, front, contents, rowGroups, offsetIndexes, laid⟩ := holds.rowGroups
    have reached : w.bytesWritten = 4 + front.length := by
      rw [holds.positioned, contents, List.length_append, FooterMode.length_magic]
    rw [reached, ← Nat.zero_add groups.length] at placed
    refine ⟨stored ++ [(g, indexes)], front ++ bytes, ?_, ?_, ?_, ?_⟩
    · change w₁.contents = (footerMode w₁.encryption).magic ++ (front ++ bytes)
      rw [wrote.contents, contents, wrote.encryption, List.append_assoc]
    · rw [Array.toList_push, rowGroups, List.map_append]
      rfl
    · rw [Array.toList_push, offsetIndexes, List.map_append]
      rfl
    · change Laid (RowGroupAt w₁.schema w₁.properties w₁.encryption) 0 4 _ _ _
      rw [wrote.schema, wrote.properties, wrote.encryption]
      exact laid.append (.single placed)
  ordinals encrypted := by
    rw [List.length_append, List.length_singleton]
    exact Nat.succ_le_succ (possible (by rwa [← wrote.encryption]))

/-- A row group that is accepted is written behind what was written before. -/
theorem writeRowGroup_placed {columns : List ColumnValues} {u : Unit}
    (h : writeRowGroup columns w = (.ok u, w₁)) :
    ∃ bytes w₂ g indexes, Wrote bytes w w₂ ∧
      w₁ = { w₂ with
        rowGroups := w.rowGroups.push g
        offsetIndexes := w.offsetIndexes.push indexes } ∧
      RowGroupAt w.schema w.properties w.encryption w.rowGroups.size w.bytesWritten columns
        (g, indexes) bytes ∧
      (w.encryption.isSome → w.rowGroups.size ≤ maxOrdinal) := by
  rw [writeRowGroup] at h
  obtain ⟨_, _, usable, h⟩ := Operation.bind_eq_ok.mp h
  obtain ⟨_, rfl⟩ := checkUsable_eq_ok usable
  rw [Operation.run_get_bind] at h
  obtain ⟨count, h⟩ := Operation.guard_eq_ok.mp h
  obtain ⟨_, checked, h⟩ := Operation.lift_bind_eq_ok.mp h
  obtain ⟨ordinal, h⟩ := Operation.guard_eq_ok.mp h
  have width : columns.length = w.schema.numColumns := Decidable.not_not.mp count
  have lengths := (checkRows_zip_eq_ok_iff width).mp checked
  obtain ⟨bytes, w₂, g, indexes, wrote, rfl, placed⟩ := writeColumns_eq_ok rfl width lengths
    (fun none => by rw [none]; rfl) (failingFor_eq_ok h)
  refine ⟨bytes, w₂, g, indexes, wrote, rfl, placed, fun encrypted => ?_⟩
  rw [encrypted, Bool.and_true, int16?] at ordinal
  split at ordinal
  · rw [maxOrdinal]
    omega
  · exact absurd rfl ordinal

/-- A row group that is accepted joins those that the writer holds. -/
theorem writeRowGroup_eq_ok {groups : List (List ColumnValues)} {columns : List ColumnValues}
    {u : Unit}
    (holds : Holds groups w) (h : writeRowGroup columns w = (.ok u, w₁)) :
    Holds (groups ++ [columns]) w₁ ∧ SameSettings w w₁ := by
  obtain ⟨bytes, w₂, g, indexes, wrote, rfl, placed, possible⟩ := writeRowGroup_placed h
  rw [holds.size] at placed possible
  exact ⟨holds.push wrote placed possible, ⟨wrote.schema, wrote.properties, wrote.encryption⟩⟩

/-! ### Finishing -/

/-- One offset index is written and its place entered, or else what was to come stays as it is, up
to the entry of this one. -/
theorem placeChunkIndexes_cons (done : List ColumnChunk) (c : ColumnChunk)
    (chunks : List ColumnChunk) (index : Bytes) (indexes : List Bytes) (sink : Sink) :
    ∃ c', SameChunk c c' ∧
      ((∃ e, placeChunkIndexes done (c :: chunks) (index :: indexes) sink =
        (done.reverse ++ c' :: chunks, .error e,
          ((Sink.writeAll index : Sink.Step Unit) sink).2)) ∨
      ∃ middle, (Sink.writeAll index : Sink.Step Unit) sink = (.ok (), middle) ∧
        (∀ ordinal, IndexAt ordinal sink.bytesWritten index c' index) ∧
        placeChunkIndexes done (c :: chunks) (index :: indexes) sink =
          placeChunkIndexes (c' :: done) chunks indexes middle) := by
  rw [placeChunkIndexes]
  dsimp only
  obtain ⟨_ | _, middle⟩ := (Sink.writeAll index : Sink.Step Unit) sink
  · exact ⟨c, rfl, .inl ⟨_, rfl⟩⟩
  cases hoffset : int64 sink.bytesWritten with
  | error e => exact ⟨c, rfl, .inl ⟨e, rfl⟩⟩
  | ok offset =>
  cases hlength : int32 index.length with
  | error e => exact ⟨_, .enter c (some offset) c.offsetIndexLength, .inl ⟨e, rfl⟩⟩
  | ok length =>
  obtain ⟨offset_lt, rfl⟩ := int64_eq_ok.mp hoffset
  obtain ⟨length_lt, rfl⟩ := int32_eq_ok.mp hlength
  refine ⟨_, .enter c (some _) (some _), .inr ⟨middle, rfl, fun _ => ?_, rfl⟩⟩
  exact ⟨rfl, congrArg some (toInt_int64 offset_lt), congrArg some (toInt_int32 length_lt)⟩

/-- Whether or not all offset indexes are written, at most their places are entered. -/
theorem placeChunkIndexes_same (done chunks : List ColumnChunk) (indexes : List Bytes)
    (sink : Sink) :
    ∃ new, (placeChunkIndexes done chunks indexes sink).1 = done.reverse ++ new ∧
      List.Forall₂ SameChunk chunks new := by
  induction chunks generalizing done indexes sink with
  | nil => exact ⟨[], rfl, .nil⟩
  | cons c chunks ih =>
      cases indexes with
      | nil => exact ⟨c :: chunks, rfl, SameChunk.refl_all _⟩
      | cons index indexes =>
          obtain ⟨c', here, ⟨e, failed⟩ | ⟨middle, _, _, run⟩⟩ :=
            placeChunkIndexes_cons done c chunks index indexes sink
          · rw [failed]
            exact ⟨c' :: chunks, rfl, .cons here (SameChunk.refl_all _)⟩
          · obtain ⟨new, whole, same⟩ := ih (c' :: done) indexes middle
            refine ⟨c' :: new, ?_, .cons here same⟩
            rw [run, whole, List.reverse_cons, List.append_assoc]
            rfl

theorem placeIndexes_same (done : Array RowGroup) (groups : List RowGroup)
    (indexes : List (List Bytes)) (sink : Sink) :
    ∃ new, (placeIndexes done groups indexes sink).1.toList = done.toList ++ new ∧
      List.Forall₂ SameRowGroup groups new := by
  induction groups generalizing done indexes sink with
  | nil => exact ⟨[], Array.toList_appendList, .nil⟩
  | cons g groups ih =>
      cases indexes with
      | nil => exact ⟨g :: groups, Array.toList_appendList, SameRowGroup.refl_all _⟩
      | cons first indexes =>
          obtain ⟨columns, whole, same⟩ := placeChunkIndexes_same [] g.columns first sink
          rw [placeIndexes]
          generalize placeChunkIndexes [] g.columns first sink = placed at whole ⊢
          obtain ⟨_, _ | _, middle⟩ := placed
          · cases whole
            refine ⟨{ g with columns } :: groups, ?_, .cons ⟨rfl, same⟩ (SameRowGroup.refl_all _)⟩
            rw [Array.toList_appendList, Array.toList_push, List.append_assoc]
            rfl
          · cases whole
            obtain ⟨new, others, sameRest⟩ := ih (done.push { g with columns }) indexes middle
            refine ⟨{ g with columns } :: new, ?_, .cons ⟨rfl, same⟩ sameRest⟩
            rw [others, Array.toList_push, List.append_assoc]
            rfl

/-- At most places of offset indexes were entered, and bytes written. -/
structure Entered (w w₁ : FileWriter) : Prop where
  settings : SameSettings w w₁
  phase : w₁.phase = w.phase
  rowGroups : List.Forall₂ SameRowGroup w.rowGroups.toList w₁.rowGroups.toList

theorem writeIndexes_entered (w : FileWriter) : Entered w (writeIndexes w).2 := by
  obtain ⟨new, whole, same⟩ :=
    placeIndexes_same #[] w.rowGroups.toList w.offsetIndexes.toList w.sink
  rw [List.nil_append] at whole
  rw [← whole] at same
  exact ⟨⟨rfl, rfl, rfl⟩, rfl, same⟩

/-- Offset indexes are written one after the other, each at the place that is entered for it. -/
theorem placeChunkIndexes_eq_ok {done chunks columns : List ColumnChunk} {indexes : List Bytes}
    {sink after : Sink} (ordinal : Nat) (paired : indexes.length = chunks.length)
    (h : placeChunkIndexes done chunks indexes sink = (columns, .ok (), after)) :
    ∃ new bytes, columns = done.reverse ++ new ∧ Sink.Grew bytes sink after ∧
      Laid IndexAt ordinal sink.bytesWritten indexes new bytes := by
  induction chunks generalizing done indexes sink ordinal with
  | nil =>
      obtain rfl := List.length_eq_zero_iff.mp paired
      cases h
      exact ⟨[], [], rfl, .refl _, .nil⟩
  | cons c chunks ih =>
      cases indexes with
      | nil => cases paired
      | cons index indexes =>
          obtain ⟨c', _, ⟨e, failed⟩ | ⟨middle, written, here, run⟩⟩ :=
            placeChunkIndexes_cons done c chunks index indexes sink
          · rw [failed] at h
            cases h
          · rw [run] at h
            have grew := Sink.writeAll_eq_ok written
            obtain ⟨new, bytes, columns, grewRest, laid⟩ :=
              ih (ordinal + 1) (Nat.succ.inj paired) h
            rw [grew.bytesWritten] at laid
            refine ⟨c' :: new, index ++ bytes, ?_, grew.trans grewRest, .cons (here ordinal) laid⟩
            rw [columns, List.reverse_cons, List.append_assoc]
            rfl

theorem placeIndexes_eq_ok {done rowGroups : Array RowGroup} {groups : List RowGroup}
    {indexes : List (List Bytes)} {sink after : Sink} (index : Nat)
    (paired : List.Forall₂ (fun g is => is.length = g.columns.length) groups indexes)
    (h : placeIndexes done groups indexes sink = (rowGroups, .ok (), after)) :
    ∃ new bytes, rowGroups.toList = done.toList ++ new ∧ Sink.Grew bytes sink after ∧
      Laid IndexesAt index sink.bytesWritten indexes new bytes := by
  induction paired generalizing done sink index with
  | nil =>
      cases h
      exact ⟨[], [], by simp, .refl _, .nil⟩
  | @cons g first groups indexes inStep _ ih =>
      rw [placeIndexes] at h
      generalize hplace : placeChunkIndexes [] g.columns first sink = placed at h
      obtain ⟨columns, _ | u, middle⟩ := placed
      · cases h
      · obtain ⟨_, bytes, rfl, grew, here⟩ := placeChunkIndexes_eq_ok 0 inStep hplace
        obtain ⟨rest, more, whole, grewRest, laid⟩ := ih (index + 1) h
        rw [grew.bytesWritten] at laid
        refine ⟨{ g with columns } :: rest, bytes ++ more, ?_, grew.trans grewRest,
          .cons here laid⟩
        rw [whole, Array.toList_push, List.append_assoc]
        rfl

/-- All offset indexes were written, and their places were entered. -/
structure Indexed (indexes : List (List Bytes)) (bytes : Bytes) (w w₁ : FileWriter) : Prop
    extends Entered w w₁ where
  contents : w₁.contents = w.contents ++ bytes
  bytesWritten : w₁.bytesWritten = w.bytesWritten + bytes.length
  laid : Laid IndexesAt 0 w.bytesWritten indexes w₁.rowGroups.toList bytes

theorem writeIndexes_eq_ok {u : Unit}
    (paired : List.Forall₂ (fun g is => is.length = g.columns.length) w.rowGroups.toList
      w.offsetIndexes.toList)
    (h : writeIndexes w = (.ok u, w₁)) :
    ∃ bytes, Indexed w.offsetIndexes.toList bytes w w₁ := by
  have entered := writeIndexes_entered w
  rw [h] at entered
  rw [writeIndexes] at h
  generalize hplace : placeIndexes #[] w.rowGroups.toList w.offsetIndexes.toList w.sink = placed
    at h
  obtain ⟨groups, result, sink⟩ := placed
  cases h
  obtain ⟨new, bytes, whole, grew, laid⟩ := placeIndexes_eq_ok 0 paired hplace
  rw [List.nil_append] at whole
  rw [← whole] at laid
  exact ⟨bytes, entered, grew.contents, grew.bytesWritten, laid⟩

/-- The nonce and the tag of a sealed footer are a signature. -/
theorem footerSignature_of_seals {e : FileEncryption} {footer sealedFooter : Bytes}
    (h : (e.footerRequest footer).Seals sealedFooter) :
    FooterSignature e footer ((sealedFooter.drop lengthWidth).take nonceLength ++
      sealedFooter.drop (sealedFooter.length - tagLength)) := by
  obtain ⟨nonce, length, sealing⟩ := h
  obtain ⟨_, _, form⟩ := Engine.encryptWithNonce_eq_ok.mp sealing
  refine ⟨nonce, sealedFooter, length, sealing, ?_⟩
  have front : (sealedFooter.drop lengthWidth).take nonceLength = nonce := by
    rw [form, List.drop_left' (Bytes.length_ofNat _ _), List.take_left' length]
  rw [front]

theorem writeMetadataSection_eq_ok {m : FileMetaData} {u : Unit}
    (h : writeMetadataSection m w = (.ok u, w₁)) :
    ∃ bytes, Wrote bytes w w₁ ∧ MetadataSection m w.encryption bytes := by
  rw [writeMetadataSection, Operation.run_get_bind] at h
  generalize w.encryption = encryption at h ⊢
  cases encryption with
  | none => exact ⟨_, put_eq_ok h, .plain⟩
  | some e =>
      dsimp only at h
      split at h
      · next encrypted =>
        obtain ⟨_, _, described, h⟩ := Operation.bind_eq_ok.mp h
        obtain ⟨_, _, found, h⟩ := Operation.bind_eq_ok.mp h
        obtain ⟨rfl, engined⟩ := onEngines_eq_ok e.footerSealer_yields found
        obtain ⟨request, asked, h⟩ := Operation.lift_bind_eq_ok.mp h
        cases asked
        obtain ⟨module, _, sealed, modulePut⟩ := Operation.bind_eq_ok.mp h
        obtain ⟨seals, recorded⟩ := sealModule_eq_ok sealed
        have ready := ((put_eq_ok described).append_nil engined).append_nil recorded
        exact ⟨_, ready.trans (put_eq_ok modulePut), .inSealedForm encrypted seals⟩
      · next inPlainForm =>
        obtain ⟨_, _, found, h⟩ := Operation.bind_eq_ok.mp h
        obtain ⟨rfl, engined⟩ := onEngines_eq_ok e.footerSealer_yields found
        obtain ⟨_, _, plain, h⟩ := Operation.bind_eq_ok.mp h
        obtain ⟨request, asked, h⟩ := Operation.lift_bind_eq_ok.mp h
        cases asked
        obtain ⟨module, _, sealed, signatureRun⟩ := Operation.bind_eq_ok.mp h
        obtain ⟨_, _, nonce, tag⟩ := Operation.bind_eq_ok.mp signatureRun
        obtain ⟨seals, recorded⟩ := sealModule_eq_ok sealed
        have wrote := ((engined.nil_append (put_eq_ok plain)).append_nil recorded).trans
          ((put_eq_ok nonce).trans (put_eq_ok tag))
        rw [Bool.not_eq_true] at inPlainForm
        exact ⟨_, wrote, .signed inPlainForm (footerSignature_of_seals seals)⟩

/-- A footer is a metadata section and the trailer that belongs to it. -/
theorem writeFooter_eq_ok {m : FileMetaData} {u : Unit} (h : writeFooter m w = (.ok u, w₁)) :
    ∃ bytes, Wrote (bytes ++ Trailer.encode ⟨bytes.length, footerMode w.encryption⟩) w w₁ ∧
      bytes.length < UInt32.size ∧ MetadataSection m w.encryption bytes := by
  rw [writeFooter] at h
  obtain ⟨start, _, positionRun, h⟩ := Operation.bind_eq_ok.mp h
  obtain ⟨rfl, rfl⟩ := position_eq_ok positionRun
  obtain ⟨_, w₂, sectionRun, h⟩ := Operation.bind_eq_ok.mp h
  obtain ⟨stop, _, positionRun, h⟩ := Operation.bind_eq_ok.mp h
  obtain ⟨rfl, rfl⟩ := position_eq_ok positionRun
  obtain ⟨length, hlength, trailerRun⟩ := Operation.lift_bind_eq_ok.mp h
  obtain ⟨bytes, wrote, form⟩ := writeMetadataSection_eq_ok sectionRun
  have size : w₂.bytesWritten - w.bytesWritten = bytes.length := by
    rw [wrote.bytesWritten, Nat.add_sub_cancel_left]
  obtain ⟨length_lt, rfl⟩ := uint32_eq_ok.mp hlength
  rw [size] at length_lt trailerRun
  have word : (UInt32.ofNat bytes.length).toNat = bytes.length := Nat.mod_eq_of_lt length_lt
  rw [word] at trailerRun
  obtain ⟨_, w₃, lengthPut, magicRun⟩ := Operation.bind_eq_ok.mp trailerRun
  rw [Operation.run_get_bind, (wrote.trans (put_eq_ok lengthPut)).encryption] at magicRun
  have whole := (wrote.trans (put_eq_ok lengthPut)).trans (put_eq_ok magicRun)
  rw [List.append_assoc] at whole
  exact ⟨bytes, whole, length_lt, form⟩

theorem flush_eq_ok {u : Unit} (h : onSink Sink.flush w = (.ok u, w₁)) :
    Wrote [] w w₁ ∧ w₁.sink.pending.size = 0 := by
  obtain ⟨flushed, frame⟩ := onSink_eq_ok h
  obtain ⟨contents, drained, written⟩ := Sink.empty_eq_ok flushed
  refine ⟨⟨⟨?_, written⟩, by rw [frame]⟩, drained⟩
  rw [List.append_nil]
  exact contents

theorem giveUpEngines_eq_ok {u : PUnit}
    (h : (modify fun w => { w with engines := {} } : Step PUnit) w = (.ok u, w₁)) :
    Wrote [] w w₁ ∧ w₁.sink = w.sink := by
  rw [← Operation.modify_eq_ok.mp h]
  exact ⟨⟨.refl w.sink, rfl⟩, rfl⟩

/-- A finished writer gives up its contents, any number of times. -/
theorem release_of_finished (finished : w.phase = .finished) (drained : w.sink.pending.size = 0) :
    release w = (.ok w.contents, w) := by
  rw [release, Operation.run_get_bind, if_neg (not_not_intro finished)]
  change onSink Sink.release w = _
  rw [onSink, Sink.release_of_drained drained]
  rfl

/-- There are as many offset indexes as there are chunks, in every row group. -/
theorem inStep_of_laid {encryption : Option FileEncryption} {schema : Schema}
    {properties : WriterProperties} {index start : Nat} {groups : List (List ColumnValues)}
    {stored : List (RowGroup × List Bytes)} {bytes : Bytes}
    (h : Laid (RowGroupAt schema properties encryption) index start groups stored bytes) :
    List.Forall₂ (fun g is => is.length = g.columns.length) (stored.map Prod.fst)
      (stored.map Prod.snd) := by
  induction h with
  | nil => exact .nil
  | cons first _ ih =>
      obtain ⟨chunks, entries, indexes, _⟩ := first.chunks
      refine .cons ?_ ih
      rw [entries, indexes, List.length_map, List.length_map]

theorem Holds.inStep {groups : List (List ColumnValues)} (holds : Holds groups w) :
    List.Forall₂ (fun g is => is.length = g.columns.length) w.rowGroups.toList
      w.offsetIndexes.toList := by
  obtain ⟨stored, _, _, rowGroups, offsetIndexes, laid⟩ := holds.rowGroups
  rw [rowGroups, offsetIndexes]
  exact inStep_of_laid laid

/-- The row groups that a writer holds, with the offset indexes behind them. -/
theorem Indexed.placedGroups {groups : List (List ColumnValues)} {indexes : Bytes}
    (indexed : Indexed w.offsetIndexes.toList indexes w w₁) (holds : Holds groups w) :
    ∃ stored chunks, w₁.contents = (footerMode w.encryption).magic ++ (chunks ++ indexes) ∧
      PlacedGroups w.schema w.properties w.encryption groups stored w₁.rowGroups.toList chunks
        indexes := by
  obtain ⟨stored, chunks, front, described, offsetIndexes, laid⟩ := holds.rowGroups
  have reached : w.bytesWritten = 4 + chunks.length := by
    rw [holds.positioned, front, List.length_append, FooterMode.length_magic]
  have same := indexed.rowGroups
  have tiled := indexed.laid
  rw [described] at same
  rw [offsetIndexes, reached] at tiled
  refine ⟨stored, chunks, ?_, laid, same, tiled⟩
  rw [indexed.contents, front, List.append_assoc]

/-- Finishing leaves a file with the row groups that the writer has taken in,
and tells its metadata. -/
theorem finish_eq_ok {groups : List (List ColumnValues)} {m : FileMetaData} (holds : Holds groups w)
    (h : finish w = (.ok m, w₁)) :
    PlacedFile w.schema w.properties w.encryption groups m w₁.contents ∧ w₁.fileMetaData = m ∧
      release w₁ = (.ok w₁.contents, w₁) := by
  rw [finish] at h
  obtain ⟨_, _, usable, h⟩ := Operation.bind_eq_ok.mp h
  obtain ⟨_, rfl⟩ := checkUsable_eq_ok usable
  obtain ⟨_, _, marked, h⟩ := Operation.bind_eq_ok.mp h
  cases Operation.modify_eq_ok.mp marked
  have stillHolds : Holds groups { w with phase := .finished } :=
    ⟨holds.positioned, holds.rowGroups, holds.ordinals⟩
  obtain ⟨_, w₂, indexRun, h⟩ := Operation.bind_eq_ok.mp h
  rw [Operation.run_get_bind] at h
  obtain ⟨_, w₃, footerRun, h⟩ := Operation.bind_eq_ok.mp h
  obtain ⟨_, w₄, flushRun, h⟩ := Operation.bind_eq_ok.mp h
  obtain ⟨_, w₅, givenUp, h⟩ := Operation.bind_eq_ok.mp h
  obtain ⟨metaData, rfl⟩ := Operation.pure_eq_ok.mp h
  obtain ⟨indexes, indexed⟩ := writeIndexes_eq_ok stillHolds.inStep indexRun
  obtain ⟨stored, chunks, front, placed⟩ := indexed.placedGroups stillHolds
  obtain ⟨footerSection, footer, short, form⟩ := writeFooter_eq_ok footerRun
  obtain ⟨flushed, drained⟩ := flush_eq_ok flushRun
  obtain ⟨emptied, sameSink⟩ := giveUpEngines_eq_ok givenUp
  rw [← sameSink] at drained
  have ended := (footer.append_nil flushed).append_nil emptied
  have contents : w₅.contents = (footerMode w.encryption).magic ++ (chunks ++ (indexes ++
      (footerSection ++ Trailer.encode ⟨footerSection.length, footerMode w.encryption⟩))) := by
    rw [ended.contents, front, indexed.settings.encryption]
    simp only [List.append_assoc]
  have rowGroups : m.rowGroups = w₂.rowGroups.toList := by rw [← metaData, fileMetaData]
  rw [← rowGroups] at placed
  rw [metaData, indexed.settings.encryption] at form
  refine ⟨?_, by rw [ended.frame]; exact metaData,
    release_of_finished (ended.phase.trans indexed.phase) drained⟩
  exact {
    layout := ⟨stored, chunks, indexes, footerSection, contents, placed, short, form⟩
    version := by rw [← metaData, fileMetaData]
    schemaName := by rw [← metaData, fileMetaData, indexed.settings.schema]
    elements := by rw [← metaData, fileMetaData, indexed.settings.schema]
    numRows := by
      rw [← metaData, fileMetaData]
      exact (Array.foldl_toList _).symm
    createdBy := by rw [← metaData, fileMetaData, indexed.settings.properties]
    encryptionAlgorithm := by rw [← metaData, fileMetaData, indexed.settings.encryption, signing]
    signingKey := by rw [← metaData, fileMetaData, indexed.settings.encryption, signing]
    ordinals := holds.ordinals }

/-! ### Whole runs -/

/-- What a new writer encrypts with: the given properties and an identifier drawn from its source,
which is left as `source`. -/
inductive Drawn (random : RandomSource) :
    Option EncryptionProperties → Option FileEncryption → RandomSource → Prop where
  | none : Drawn random none none random
  | some {p : EncryptionProperties} {fileUnique : Bytes} {source : RandomSource}
      (draw : RandomSource.draw FileEncryption.fileUniqueLength random = (.ok fileUnique, source)) :
      Drawn random (some p) (some ⟨p, fileUnique⟩) source

theorem Drawn.map_properties {random source : RandomSource} {p : Option EncryptionProperties}
    {encryption : Option FileEncryption} (h : Drawn random p encryption source) :
    encryption.map FileEncryption.properties = p := by
  cases h <;> rfl

/-- All identifiers are equally long. -/
theorem Drawn.length_fileUnique {random source : RandomSource} {p : Option EncryptionProperties}
    {encryption : Option FileEncryption} (h : Drawn random p encryption source) :
    ∀ e ∈ encryption, e.fileUnique.length = FileEncryption.fileUniqueLength := by
  cases h with
  | none =>
      rintro _ ⟨⟩
  | some draw =>
      rintro _ ⟨⟩
      obtain ⟨drawn, _⟩ := draw_eq_ok draw
      simp [drawn, RandomSource.upcoming]

/-- A new writer has written the magic word and nothing else. -/
theorem create_eq_ok {schema : Schema} {properties : WriterProperties} {random : RandomSource}
    {limit : Option Nat} (h : create schema properties random { limit } = .ok w) :
    ∃ encryption source sink, w = { schema, properties, encryption, random := source, sink } ∧
      Holds [] w ∧ sink.limit = limit ∧ Drawn random properties.encryption encryption source := by
  have start : ∀ encryption source, (do
      let outcome := (put (footerMode encryption).magic : Step Unit)
        { schema, properties, encryption, random := source, sink := { limit } }
      outcome.1
      return outcome.2 : Except Error FileWriter) = .ok w →
      ∃ sink, w = { schema, properties, encryption, random := source, sink } ∧ Holds [] w ∧
        sink.limit = limit := by
    intro encryption source h
    dsimp only at h
    generalize hput : (put (footerMode encryption).magic : Step Unit) _ = outcome at h
    obtain ⟨result, after⟩ := outcome
    obtain ⟨_, accepted, h⟩ := Except.bind_eq_ok.mp h
    cases Except.pure_eq_ok.mp h
    dsimp only at accepted hput
    subst accepted
    have wrote := put_eq_ok hput
    obtain ⟨written, frame⟩ := onSink_eq_ok hput
    have same := (Sink.writeAll_accepts (footerMode encryption).magic { limit } rfl).2
    rw [written] at same
    refine ⟨_, frame, .start wrote.rowGroups wrote.offsetIndexes ?_ (wrote.positioned rfl), same⟩
    rw [wrote.contents, wrote.encryption]
    rfl
  rw [create] at h
  generalize properties.encryption = wanted at h ⊢
  cases wanted with
  | none =>
      obtain ⟨sink, form, holds, same⟩ := start none random h
      exact ⟨none, random, sink, form, holds, same, .none⟩
  | some p =>
      obtain ⟨_, _, h⟩ := Except.bind_eq_ok.mp h
      generalize hdraw : RandomSource.draw FileEncryption.fileUniqueLength random = draw at h
      obtain ⟨result, source⟩ := draw
      obtain ⟨fileUnique, rfl, h⟩ := Except.bind_eq_ok.mp h
      obtain ⟨sink, form, holds, same⟩ := start (some ⟨p, fileUnique⟩) source h
      exact ⟨some ⟨p, fileUnique⟩, source, sink, form, holds, same, .some hdraw⟩

/-- Writes row groups and finishes the file. -/
def writeFile (groups : List (List ColumnValues)) : Step FileMetaData := do
  groups.forM writeRowGroup
  finish

theorem forM_writeRowGroup_eq_ok {done groups : List (List ColumnValues)} {u : PUnit}
    (holds : Holds done w) (h : (groups.forM writeRowGroup : Step PUnit) w = (.ok u, w₁)) :
    Holds (done ++ groups) w₁ ∧ SameSettings w w₁ := by
  induction groups generalizing done w with
  | nil =>
      cases h
      rw [List.append_nil]
      exact ⟨holds, rfl, rfl, rfl⟩
  | cons columns groups ih =>
      obtain ⟨_, w₂, first, rest⟩ := Operation.bind_eq_ok.mp h
      obtain ⟨holds, same⟩ := writeRowGroup_eq_ok holds first
      obtain ⟨holds, sameRest⟩ := ih holds rest
      rw [List.append_assoc] at holds
      exact ⟨holds, same.trans sameRest⟩

/-- A run of a new writer in which everything succeeds leaves a file with the given row groups, and
the writer is given up for the bytes of this file. -/
theorem writeFile_eq_ok {schema : Schema} {properties : WriterProperties} {random : RandomSource}
    {limit : Option Nat} {groups : List (List ColumnValues)} {m : FileMetaData}
    (created : create schema properties random { limit } = .ok w)
    (h : writeFile groups w = (.ok m, w₁)) :
    ∃ encryption file, encryption.map FileEncryption.properties = properties.encryption ∧
      (∀ e ∈ encryption, e.fileUnique.length = FileEncryption.fileUniqueLength) ∧
      PlacedFile schema properties encryption groups m file ∧ release w₁ = (.ok file, w₁) := by
  obtain ⟨encryption, source, sink, rfl, none_yet, _, drawn⟩ := create_eq_ok created
  obtain ⟨_, w₂, writing, finishing⟩ := Operation.bind_eq_ok.mp h
  obtain ⟨holds, same⟩ := forM_writeRowGroup_eq_ok none_yet writing
  obtain ⟨placed, _, released⟩ := finish_eq_ok holds finishing
  rw [same.schema, same.properties, same.encryption] at placed
  exact ⟨encryption, w₁.contents, drawn.map_properties, drawn.length_fileUnique, placed, released⟩

/-- A new writer has taken in all the row groups and finished the file, and all of it succeeded. -/
structure Finished (schema : Schema) (properties : WriterProperties)
    (groups : List (List ColumnValues)) (m : FileMetaData) (w : FileWriter) : Prop where
  wellFormed : Schema.ofColumns schema.name schema.columns = .ok schema
  run : ∃ (random : RandomSource) (limit : Option Nat) (start : FileWriter),
    create schema properties random { limit } = .ok start ∧ writeFile groups start = (.ok m, w)

theorem Finished.placedFile {schema : Schema} {properties : WriterProperties}
    {groups : List (List ColumnValues)} {m : FileMetaData}
    (h : Finished schema properties groups m w) :
    ∃ encryption file, encryption.map FileEncryption.properties = properties.encryption ∧
      (∀ e ∈ encryption, e.fileUnique.length = FileEncryption.fileUniqueLength) ∧
      PlacedFile schema properties encryption groups m file ∧ release w = (.ok file, w) := by
  obtain ⟨random, limit, start, created, written⟩ := h.run
  exact writeFile_eq_ok created written

theorem Finished.storedFile {schema : Schema} {properties : WriterProperties}
    {groups : List (List ColumnValues)} {m : FileMetaData}
    (h : Finished schema properties groups m w) :
    ∃ encryption file, encryption.map FileEncryption.properties = properties.encryption ∧
      StoredFile schema properties encryption groups m file ∧ release w = (.ok file, w) := by
  obtain ⟨encryption, file, settings, _, placed, released⟩ := h.placedFile
  exact ⟨encryption, file, settings, placed.storedFile, released⟩

/-- A run that succeeds step by step finishes a file. -/
theorem exists_finished {schema : Schema} {properties : WriterProperties} (random : RandomSource)
    {groups : List (List ColumnValues)}
    (wellFormed : Schema.ofColumns schema.name schema.columns = .ok schema)
    (runs : ((create schema properties random).toOption.any fun start =>
      (writeFile groups start).1.isOk) = true) :
    ∃ m w, Finished schema properties groups m w := by
  obtain ⟨start, created, ends⟩ := Except.exists_of_any runs
  obtain ⟨m, w, written⟩ := Operation.exists_of_isOk ends
  exact ⟨m, w, wellFormed, random, none, start, created, written⟩

end FileWriter

/-! ### A file to try theorems on -/

namespace Sample

/-- One column with a key of its own, one under the footer key, and one without encryption. -/
def schema : Schema :=
  ⟨"sample", [⟨⟨["own"]⟩, .int32⟩, ⟨⟨["shared"]⟩, .byteArray⟩, ⟨⟨["plain"]⟩, .boolean⟩]⟩

theorem wellFormed : Schema.ofColumns schema.name schema.columns = .ok schema :=
  Schema.ofColumns_eq_ok_iff.mpr ⟨rfl, by decide, by decide⟩

def properties (encryption : Option EncryptionProperties) : WriterProperties :=
  { pageRowLimit := 2, encryption }

def columns : List ColumnValues :=
  [⟨.int32, [7, 8, 7]⟩, ⟨.byteArray, [[1], [], [2, 3]]⟩, ⟨.boolean, [true, false, true]⟩]

def random : RandomSource :=
  { byteAt := Nat.toUInt8 }

theorem finished :
    ∃ m w, FileWriter.Finished schema (properties (some encryption)) [columns] m w :=
  FileWriter.exists_finished random wellFormed (by decide +kernel)

theorem finishedPlain : ∃ m w, FileWriter.Finished schema (properties none) [columns] m w :=
  FileWriter.exists_finished random wellFormed (by decide +kernel)

end Sample

end SealedColumns
