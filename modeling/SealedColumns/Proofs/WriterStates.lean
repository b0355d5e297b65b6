import SealedColumns.Proofs.ListedRowGroups
import SealedColumns.Proofs.WriterFrames

/-!
# How a writer conducts itself over a sequence of calls

A usable writer either rejects a row group, and then is as it was, or takes it in, or fails and
can never be used again. An attempt to finish ends its use too. A writer that cannot be used
refuses every further call without any effect. Whatever happened, the entries of its row groups
list those that were taken in.

`Tracks` carries this from call to call: it says what the entries list, and that a usable writer
holds the row groups that were taken in.
-/

namespace SealedColumns

/-- A row group that a usable writer does not reject: it has one column for each of the schema, all
of the same length, and its position can be given in 16 bits if the file is encrypted. -/
structure Acceptable (schema : Schema) (encryption : Option FileEncryption) (index : Nat)
    (columns : List ColumnValues) : Prop where
  width : columns.length = schema.numColumns
  sameLength : ∀ a ∈ columns, ∀ b ∈ columns, a.length = b.length
  position : encryption.isSome → index ≤ maxOrdinal

/-- The first column tells the number of rows. -/
theorem length_eq_head_iff {columns : List ColumnValues} :
    (∀ values ∈ columns, values.length = (columns.head?.map ColumnValues.length).getD 0) ↔
      ∀ a ∈ columns, ∀ b ∈ columns, a.length = b.length := by
  constructor
  · intro same a ha b hb
    rw [same a ha, same b hb]
  · intro same values hvalues
    cases columns with
    | nil => cases hvalues
    | cons first columns => exact same values hvalues first List.mem_cons_self

theorem ordinalMissing_iff {index : Nat} {encryption : Option FileEncryption} :
    ((int16? index).isNone && encryption.isSome) = true ↔
      ¬ (encryption.isSome → index ≤ maxOrdinal) := by
  rw [Bool.and_eq_true, ← Option.not_isSome, Bool.not_eq_true', ← Bool.not_eq_true,
    isSome_int16?_iff, Classical.not_imp, and_comm]

namespace FileWriter

variable {w w₁ : FileWriter} {columns : List ColumnValues}

/-! ### Single calls -/

/-- The writer refuses to write and to finish, and is not changed by being asked. -/
def Refuses (w : FileWriter) : Prop :=
  (∀ columns, ∃ e : Error, e.kind = .general ∧ writeRowGroup columns w = (.error e, w)) ∧
    ∃ e : Error, e.kind = .general ∧ finish w = (.error e, w)

theorem refuses_of_unusable (unusable : w.phase ≠ .usable) : w.Refuses := by
  obtain ⟨e, general, refused⟩ :
      ∃ e : Error, e.kind = .general ∧ checkUsable w = (.error e, w) := by
    rw [checkUsable, Operation.run_get_bind]
    generalize w.phase = phase at unusable ⊢
    cases phase with
    | usable => exact absurd rfl unusable
    | failed => exact ⟨_, rfl, rfl⟩
    | finished => exact ⟨_, rfl, rfl⟩
  refine ⟨fun columns => ⟨e, general, ?_⟩, e, general, ?_⟩
  · rw [writeRowGroup, Operation.run_bind_error refused]
  · rw [finish, Operation.run_bind_error refused]

/-- Only a usable writer can be finished. -/
theorem usable_of_finish {m : FileMetaData} (run : finish w = (.ok m, w₁)) : w.phase = .usable := by
  by_contra unusable
  obtain ⟨_, e, _, refused⟩ := refuses_of_unusable unusable
  rw [refused] at run
  cases run

theorem usable_of_writeRowGroup {u : Unit} (run : writeRowGroup columns w = (.ok u, w₁)) :
    w.phase = .usable := by
  by_contra unusable
  obtain ⟨e, _, refused⟩ := (refuses_of_unusable unusable).1 columns
  rw [refused] at run
  cases run

/-- A usable writer rejects a row group and is as before, or writes its columns. -/
theorem writeRowGroup_of_usable (usable : w.phase = .usable) (columns : List ColumnValues) :
    (¬ Acceptable w.schema w.encryption w.rowGroups.size columns ∧
      ∃ e, writeRowGroup columns w = (.error e, w)) ∨
    (Acceptable w.schema w.encryption w.rowGroups.size columns ∧
      ∃ ordinal rows columns', writeRowGroup columns w =
        failingFor (writeColumns w.rowGroups.size ordinal rows columns') w) := by
  rw [writeRowGroup, Operation.run_bind_ok (checkUsable_of_usable usable), Operation.run_get_bind]
  dsimp only
  by_cases width : columns.length = w.schema.numColumns
  · rw [if_neg (not_not_intro width)]
    have checked : checkRows ((columns.head?.map ColumnValues.length).getD 0)
        (w.schema.columns.zip columns) = .ok () ↔
          ∀ a ∈ columns, ∀ b ∈ columns, a.length = b.length :=
      (checkRows_zip_eq_ok_iff width).trans length_eq_head_iff
    cases result : checkRows ((columns.head?.map ColumnValues.length).getD 0)
        (w.schema.columns.zip columns) with
    | error e =>
        rw [result] at checked
        exact .inl ⟨fun acceptable => (by cases checked.mpr acceptable.sameLength), e, rfl⟩
    | ok _ =>
        rw [Operation.run_lift_bind rfl]
        have sameLength := checked.mp result
        by_cases position : w.encryption.isSome → w.rowGroups.size ≤ maxOrdinal
        · rw [if_neg (by rwa [ordinalMissing_iff, not_not])]
          exact .inr ⟨⟨width, sameLength, position⟩, _, _, _, rfl⟩
        · rw [if_pos (ordinalMissing_iff.mpr position)]
          exact .inl ⟨fun acceptable => position acceptable.position, _, rfl⟩
  · rw [if_pos width]
    exact .inl ⟨fun acceptable => width acceptable.width, _, rfl⟩

/-- A row group that is not rejected is taken in and the writer is still usable, or the writer has
failed and the list of row groups is as before. -/
theorem failingFor_writeColumns {index rows : Nat} {ordinal : Option Int16}
    {columns : List (Column × ColumnValues)} {result : Except Error Unit}
    (h : failingFor (writeColumns index ordinal rows columns) w = (result, w₁)) :
    match result with
    | .ok _ => w₁.phase = w.phase
    | .error _ => SameSettings w w₁ ∧ w₁.rowGroups = w.rowGroups ∧ w₁.phase = .failed := by
  have steady : Steady fun w' => SameSettings w w' ∧ w'.rowGroups = w.rowGroups ∧
      w'.phase = w.phase :=
    fun _ _ _ _ _ ⟨settings, kept⟩ => ⟨settings.trans ⟨rfl, rfl, rfl⟩, kept⟩
  have kept := writeColumns_frame steady.robust index rows ordinal columns w
    ⟨⟨rfl, rfl, rfl⟩, rfl, rfl⟩
  rw [failingFor] at h
  generalize writeColumns index ordinal rows columns w = outcome at h kept
  obtain ⟨_ | _, w₂⟩ := outcome
  · cases h
    obtain ⟨settings, rowGroups, _⟩ := kept
    exact ⟨settings.trans ⟨rfl, rfl, rfl⟩, rowGroups, rfl⟩
  · cases h
    obtain ⟨w₃, g, indexes, ⟨_, _, phase⟩, rfl⟩ := kept
    exact phase

/-- Any attempt of a usable writer to finish ends its use. -/
theorem finish_of_usable (usable : w.phase = .usable) :
    SameSettings w (finish w).2 ∧ (finish w).2.phase = .finished ∧
      List.Forall₂ SameRowGroup w.rowGroups.toList (finish w).2.rowGroups.toList := by
  have run : finish w = complete { w with phase := .finished } := by
    rw [finish, Operation.run_bind_ok (checkUsable_of_usable usable), Operation.run_modify_bind]
    rfl
  have entered := complete_entered { w with phase := .finished }
  have marked : SameSettings w { w with phase := .finished } := ⟨rfl, rfl, rfl⟩
  rw [run]
  exact ⟨marked.trans entered.settings, entered.phase, entered.rowGroups⟩

theorem onSink_frame {α : Type} (op : Sink.Step α) (w : FileWriter) :
    ∃ sink, (onSink op w).2 = { w with sink } :=
  ⟨_, rfl⟩

/-- Giving up a writer finishes it first, unless that was tried before; otherwise only the sink
changes. -/
theorem release_frame (w : FileWriter) :
    ∃ sink, (release w).2 = { (if w.phase = .finished then w else (finish w).2) with sink } := by
  rw [release, Operation.run_get_bind]
  by_cases finished : w.phase = .finished
  · rw [if_neg (not_not_intro finished), if_pos finished]
    exact onSink_frame _ w
  · rw [if_pos finished, if_neg finished, Operation.run_bind]
    obtain ⟨_ | m, w₁⟩ := finish w
    · exact ⟨w₁.sink, rfl⟩
    · exact onSink_frame _ w₁

theorem call_finish_snd (w : FileWriter) : (call .finish w).2 = (finish w).2 := by
  rw [call, Operation.run_discard]

theorem call_release_snd (w : FileWriter) : (call .release w).2 = (release w).2 := by
  rw [call, Operation.run_discard]

/-- No call changes a writer that cannot be used, except that it may be given up. -/
theorem call_snd_of_unusable (unusable : w.phase ≠ .usable) (c : Call) :
    (call c w).2 = w ∨ (call c w).2 = (release w).2 := by
  obtain ⟨refused, e, _, unfinished⟩ := refuses_of_unusable unusable
  cases c with
  | writeRowGroup columns =>
      obtain ⟨e, _, run⟩ := refused columns
      exact .inl (by rw [call, run])
  | finish => exact .inl (by rw [call_finish_snd, unfinished])
  | release => exact .inr (call_release_snd w)

/-- A writer that cannot be used remains so. -/
theorem call_unusable (unusable : w.phase ≠ .usable) (c : Call) : (call c w).2.phase ≠ .usable := by
  obtain same | released := call_snd_of_unusable unusable c
  · rwa [same]
  · obtain ⟨sink, frame⟩ := release_frame w
    obtain ⟨_, e, _, unfinished⟩ := refuses_of_unusable unusable
    rw [released, frame, unfinished, ite_self]
    exact unusable

theorem afterCalls_refuses (unusable : w.phase ≠ .usable) (later : List Call) :
    (w.afterCalls later).Refuses := by
  have still : (w.afterCalls later).phase ≠ .usable :=
    afterCalls_keeps (K := fun w => w.phase ≠ .usable)
      (fun c _ unusable => call_unusable unusable c) later unusable
  exact refuses_of_unusable still

/-! ### Sequences of calls -/

/-- The row group that a call has the writer take in, given its result. -/
def Call.taken : Call → Except Error Unit → List (List ColumnValues)
  | .writeRowGroup columns, .ok _ => [columns]
  | _, _ => []

theorem Call.taken_error (c : Call) (e : Error) : c.taken (.error e) = [] := by
  cases c <;> rfl

theorem Call.taken_finish (result : Except Error Unit) : Call.finish.taken result = [] := rfl

theorem Call.taken_release (result : Except Error Unit) : Call.release.taken result = [] := rfl

/-- The row groups that are taken in over a sequence of calls: those of the calls that succeed. -/
def accepted : FileWriter → List Call → List (List ColumnValues)
  | _, [] => []
  | w, c :: calls => c.taken (call c w).1 ++ accepted (call c w).2 calls

/-- The entries of the writer list the given row groups, and the writer holds
them while it is usable.
-/
structure Tracks (start : FileWriter) (groups : List (List ColumnValues)) (w : FileWriter) :
    Prop where
  settings : SameSettings start w
  listed : Listed w.schema w.encryption groups w.rowGroups.toList
  usable : w.phase = .usable → Holds groups w

variable {start : FileWriter} {groups : List (List ColumnValues)}

theorem Holds.listed (holds : Holds groups w) :
    Listed w.schema w.encryption groups w.rowGroups.toList := by
  obtain ⟨stored, _, _, rowGroups, _, laid⟩ := holds.rowGroups
  rw [rowGroups]
  exact listed_of_laid laid

/-- A writer that cannot be used any more has nothing to hold. -/
theorem Tracks.stop (tracks : Tracks start groups w) (settings : SameSettings w w₁)
    (rowGroups : List.Forall₂ SameRowGroup w.rowGroups.toList w₁.rowGroups.toList)
    (unusable : w₁.phase ≠ .usable) : Tracks start groups w₁ where
  settings := tracks.settings.trans settings
  listed := by
    rw [settings.schema, settings.encryption]
    exact tracks.listed.same rowGroups
  usable usable := absurd usable unusable

/-- An attempt to finish leaves a writer that cannot be used. -/
theorem tracks_finish (tracks : Tracks start groups w) :
    Tracks start groups (finish w).2 ∧ (finish w).2.phase ≠ .usable := by
  by_cases usable : w.phase = .usable
  · obtain ⟨settings, phase, rowGroups⟩ := finish_of_usable usable
    have unusable : (finish w).2.phase ≠ .usable := by
      rw [phase]
      decide
    exact ⟨tracks.stop settings rowGroups unusable, unusable⟩
  · obtain ⟨_, e, _, refused⟩ := refuses_of_unusable usable
    rw [refused]
    exact ⟨tracks, usable⟩

theorem tracks_writeRowGroup (tracks : Tracks start groups w) (columns : List ColumnValues) :
    Tracks start (groups ++ (Call.writeRowGroup columns).taken (writeRowGroup columns w).1)
      (writeRowGroup columns w).2 := by
  cases run : writeRowGroup columns w with
  | mk result w₁ =>
  by_cases usable : w.phase = .usable
  · cases result with
    | ok u =>
        obtain ⟨holds, settings⟩ := writeRowGroup_eq_ok (tracks.usable usable) run
        exact ⟨tracks.settings.trans settings, holds.listed, fun _ => holds⟩
    | error e =>
        rw [Call.taken_error, List.append_nil]
        obtain ⟨_, e, rejected⟩ | ⟨_, ordinal, rows, columns', written⟩ :=
          writeRowGroup_of_usable usable columns
        · rw [rejected] at run
          cases run
          exact tracks
        · rw [written] at run
          obtain ⟨settings, rowGroups, failed⟩ := failingFor_writeColumns run
          refine tracks.stop settings ?_ (by rw [failed]; decide)
          rw [rowGroups]
          exact SameRowGroup.refl_all _
  · obtain ⟨refused, _⟩ := refuses_of_unusable usable
    obtain ⟨e, _, refused⟩ := refused columns
    rw [refused] at run
    cases run
    rw [Call.taken_error, List.append_nil]
    exact tracks

/-- One call takes in at most one row group, and then the entries list it behind the others. -/
theorem tracks_call (tracks : Tracks start groups w) (c : Call) :
    Tracks start (groups ++ c.taken (call c w).1) (call c w).2 := by
  cases c with
  | writeRowGroup columns => exact tracks_writeRowGroup tracks columns
  | finish =>
      rw [Call.taken_finish, List.append_nil, call_finish_snd]
      exact (tracks_finish tracks).1
  | release =>
      obtain ⟨sink, frame⟩ := release_frame w
      rw [Call.taken_release, List.append_nil, call_release_snd, frame]
      have onlySink : ∀ w' : FileWriter, Tracks start groups w' → w'.phase ≠ .usable →
          Tracks start groups { w' with sink } := fun w' tracks' unusable =>
        tracks'.stop ⟨rfl, rfl, rfl⟩ (SameRowGroup.refl_all _) unusable
      split
      · next finished => exact onlySink w tracks (by rw [finished]; decide)
      · exact onlySink _ (tracks_finish tracks).1 (tracks_finish tracks).2

theorem tracks_afterCalls (tracks : Tracks start groups w) (calls : List Call) :
    Tracks start (groups ++ w.accepted calls) (w.afterCalls calls) := by
  induction calls generalizing groups w with
  | nil =>
      rw [accepted, List.append_nil]
      exact tracks
  | cons c calls ih =>
      rw [accepted, ← List.append_assoc]
      exact ih (tracks_call tracks c)

theorem tracks_of_create {schema : Schema} {properties : WriterProperties} {random : RandomSource}
    {limit : Option Nat} (created : create schema properties random { limit } = .ok w)
    (calls : List Call) : Tracks w (w.accepted calls) (w.afterCalls calls) := by
  obtain ⟨_, _, _, _, holds, _⟩ := create_eq_ok created
  have start : Tracks w [] w := ⟨⟨rfl, rfl, rfl⟩, holds.listed, fun _ => holds⟩
  exact tracks_afterCalls start calls

/-- If a writer can be finished, the file has the row groups that were taken in. -/
theorem Tracks.placedFile {m : FileMetaData} (tracks : Tracks start groups w)
    (run : finish w = (.ok m, w₁)) :
    PlacedFile start.schema start.properties start.encryption groups m w₁.contents ∧
      w₁.fileMetaData = m ∧ release w₁ = (.ok w₁.contents, w₁) := by
  rw [← tracks.settings.schema, ← tracks.settings.properties, ← tracks.settings.encryption]
  exact finish_eq_ok (tracks.usable (usable_of_finish run)) run

/-! ### How a writer conducts itself -/

/-- What can be said of a writer that has taken in the given row groups,
whatever it is asked next. -/
structure Conduct (schema : Schema) (encryption : Option FileEncryption)
    (groups : List (List ColumnValues)) (w : FileWriter) : Prop where
  /-- Its entries list the row groups that were taken in. -/
  listed : Listed schema encryption groups w.rowGroups.toList
  /-- A row group that is not acceptable is rejected, and the writer is as before. -/
  rejected : ∀ columns, w.phase = .usable → ¬ Acceptable schema encryption groups.length columns →
    ∃ e, writeRowGroup columns w = (.error e, w)
  /-- A row group is taken in only if it is acceptable, and then the writer is still usable. -/
  taken : ∀ columns u w₁, writeRowGroup columns w = (.ok u, w₁) →
    w.phase = .usable ∧ Acceptable schema encryption groups.length columns ∧ w₁.phase = .usable
  /-- If an acceptable row group is not taken in, nothing is entered and the writer has failed. -/
  failed : ∀ columns e w₁, w.phase = .usable →
    Acceptable schema encryption groups.length columns →
    writeRowGroup columns w = (.error e, w₁) →
    w₁.rowGroups = w.rowGroups ∧ ∀ later, (w₁.afterCalls later).Refuses
  /-- After an attempt to finish nothing else is done. -/
  attempted : w.phase = .usable → ∀ later, ((finish w).2.afterCalls later).Refuses
  /-- A writer that is not usable does nothing any more. -/
  unusable : w.phase ≠ .usable → ∀ later, (w.afterCalls later).Refuses
  /-- If finishing succeeds, the metadata lists the row groups and adds up their rows. -/
  finished : ∀ m w₁, finish w = (.ok m, w₁) → m.rowGroups = w₁.rowGroups.toList ∧
    Listed schema encryption groups m.rowGroups ∧ m.numRows.toInt = rowTotal m.rowGroups

theorem conduct_of_tracks (tracks : Tracks start groups w) :
    Conduct start.schema start.encryption groups w := by
  have count : w.rowGroups.size = groups.length := by
    rw [← tracks.listed.1, Array.length_toList]
  have settings := tracks.settings
  have listed := tracks.listed
  rw [settings.schema, settings.encryption] at listed
  refine ⟨listed, ?_, ?_, ?_, ?_, fun unusable => afterCalls_refuses unusable, ?_⟩
  · intro columns usable unacceptable
    rw [← count, ← settings.schema, ← settings.encryption] at unacceptable
    obtain ⟨_, rejected⟩ | ⟨acceptable, _⟩ := writeRowGroup_of_usable usable columns
    · exact rejected
    · exact absurd acceptable unacceptable
  · intro columns u w₁ run
    have usable := usable_of_writeRowGroup run
    rw [← count, ← settings.schema, ← settings.encryption]
    obtain ⟨_, e, rejected⟩ | ⟨acceptable, ordinal, rows, columns', written⟩ :=
      writeRowGroup_of_usable usable columns
    · rw [rejected] at run
      cases run
    · rw [written] at run
      exact ⟨usable, acceptable, (failingFor_writeColumns run).trans usable⟩
  · intro columns e w₁ usable acceptable run
    rw [← count, ← settings.schema, ← settings.encryption] at acceptable
    obtain ⟨unacceptable, _⟩ | ⟨_, ordinal, rows, columns', written⟩ :=
      writeRowGroup_of_usable usable columns
    · exact absurd acceptable unacceptable
    · rw [written] at run
      obtain ⟨_, rowGroups, failed⟩ := failingFor_writeColumns run
      exact ⟨rowGroups, afterCalls_refuses (by rw [failed]; decide)⟩
  · intro usable
    obtain ⟨_, finished, _⟩ := finish_of_usable usable
    exact afterCalls_refuses (by rw [finished]; decide)
  · intro m w₁ run
    obtain ⟨placed, rfl, _⟩ := tracks.placedFile run
    obtain ⟨stored, chunks, indexes, _, _, placedGroups, _⟩ := placed.layout
    obtain ⟨_, _, rowGroups⟩ := finish_of_usable (usable_of_finish run)
    rw [run] at rowGroups
    refine ⟨rfl, listed.same rowGroups, ?_⟩
    have total := placedGroups.toInt_numRows
    rw [fileMetaData, Array.foldl_toList] at total
    exact total

/-- However a writer is used, its entries list the row groups of the calls that succeeded; a
row group is rejected without effect, taken in, or the end of the writer's use; and
finishing adds up the rows. -/
theorem afterCalls_conduct {schema : Schema} {properties : WriterProperties} {random : RandomSource}
    {limit : Option Nat} (created : create schema properties random { limit } = .ok w)
    (calls : List Call) :
    Conduct schema w.encryption (w.accepted calls) (w.afterCalls calls) := by
  obtain ⟨_, _, _, form, _⟩ := create_eq_ok created
  have same : w.schema = schema := by rw [form]
  rw [← same]
  exact conduct_of_tracks (tracks_of_create created calls)

theorem afterCalls_conduct_sample : ∃ w,
    create Sample.schema (Sample.properties (some Sample.encryption)) Sample.random = .ok w ∧
      w.accepted Sample.calls = [Sample.columns] ∧
      Conduct Sample.schema w.encryption [Sample.columns] (w.afterCalls Sample.calls) := by
  have runs : ((create Sample.schema (Sample.properties (some Sample.encryption))
      Sample.random).toOption.any fun w => w.accepted Sample.calls = [Sample.columns]) = true := by
    decide +kernel
  obtain ⟨w, created, run⟩ := Except.exists_of_any runs
  have taken : w.accepted Sample.calls = [Sample.columns] := of_decide_eq_true run
  have conduct := afterCalls_conduct created Sample.calls
  rw [taken] at conduct
  exact ⟨w, created, taken, conduct⟩

end FileWriter

end SealedColumns
