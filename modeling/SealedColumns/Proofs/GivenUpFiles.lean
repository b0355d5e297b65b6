import SealedColumns.Proofs.WriterStates

/-!
# What a writer is given up for

A writer in memory is given up for a complete file if it was finished, or can be finished then. An
attempt to finish marks the writer as finished before anything can fail, though, and giving up a
writer that is marked only asks the sink. After an attempt that failed a writer is therefore given
up without an error, for the bytes that were written until then.

`attempt` is the result of the one attempt to finish that a sequence of calls comes to, if it comes
to any, and `GivenUp` says what giving up the writer leads to for each of its values.
-/

namespace SealedColumns.FileWriter

variable {w w₁ : FileWriter}

/-! ### The sink stays unlimited -/

theorem unlimited_robust : Robust fun w => w.sink.limit = none where
  sealed _ _ _ _ unlimited := unlimited
  put bs w unlimited := ⟨trivial, (Sink.writeAll_accepts bs w.sink unlimited).2⟩

theorem placeChunkIndexes_limit (done chunks : List ColumnChunk) (indexes : List Bytes)
    (sink : Sink) : (placeChunkIndexes done chunks indexes sink).2.2.limit = sink.limit := by
  induction chunks generalizing done indexes sink with
  | nil => rfl
  | cons c chunks ih =>
      cases indexes with
      | nil => rfl
      | cons index indexes =>
          have written := (Sink.writeAll_accepts index sink rfl).2
          obtain ⟨_, _, ⟨e, failed⟩ | ⟨middle, run, _, rest⟩⟩ :=
            placeChunkIndexes_cons done c chunks index indexes sink
          · rw [failed]
            exact written
          · rw [run] at written
            rw [rest]
            exact (ih _ indexes middle).trans written

theorem placeIndexes_limit (done : Array RowGroup) (groups : List RowGroup)
    (indexes : List (List Bytes)) (sink : Sink) :
    (placeIndexes done groups indexes sink).2.2.limit = sink.limit := by
  induction groups generalizing done indexes sink with
  | nil => rfl
  | cons g groups ih =>
      cases indexes with
      | nil => rfl
      | cons first indexes =>
          have placed := placeChunkIndexes_limit [] g.columns first sink
          rw [placeIndexes]
          generalize placeChunkIndexes [] g.columns first sink = outcome at placed ⊢
          obtain ⟨columns, _ | _, middle⟩ := outcome
          · exact placed
          · exact (ih _ indexes middle).trans placed

theorem writeRowGroup_unlimited (columns : List ColumnValues) (unlimited : w.sink.limit = none) :
    (writeRowGroup columns w).2.sink.limit = none := by
  obtain ⟨e, refused⟩ | ⟨_, ordinal, rows, columns', run⟩ := writeRowGroup_cases columns w
  · rwa [refused]
  · have kept := writeColumns_frame unlimited_robust w.rowGroups.size rows ordinal columns' w
      unlimited
    rw [run, failingFor]
    generalize writeColumns w.rowGroups.size ordinal rows columns' w = outcome at kept ⊢
    obtain ⟨_ | _, w₁⟩ := outcome
    · exact kept
    · obtain ⟨_, _, _, kept, rfl⟩ := kept
      exact kept

theorem finish_unlimited (unlimited : w.sink.limit = none) :
    (finish w).2.sink.limit = none := by
  obtain ⟨e, refused⟩ | ⟨_, run⟩ := finish_cases w
  · rwa [refused]
  · rw [run]
    refine complete_preserves unlimited_robust
      (fun w₁ unlimited => ⟨trivial, (Sink.empty_accepts w₁.sink unlimited).2⟩) _ ?_
    exact (placeIndexes_limit #[] w.rowGroups.toList w.offsetIndexes.toList w.sink).trans unlimited

/-! ### The attempt to finish -/

/-- Whether a call tries to finish the file. -/
def Call.attempts : Call → Bool
  | .writeRowGroup _ => false
  | .finish | .release => true

/-- The result of the attempt to finish that a usable writer makes in a sequence of calls, if it
makes one. There is no second attempt. -/
def attempt : FileWriter → List Call → Option (Except Error FileMetaData)
  | _, [] => none
  | w, c :: calls =>
    if w.phase = .usable ∧ c.attempts then some (finish w).1 else attempt (call c w).2 calls

/-- What giving up a writer leads to, given the result of the attempt to finish. -/
inductive GivenUp (schema : Schema) (properties : WriterProperties)
    (encryption : Option FileEncryption) (groups : List (List ColumnValues)) (w : FileWriter) :
    Option (Except Error FileMetaData) → Prop where
  /-- The file was finished before. -/
  | complete {m : FileMetaData} {file : Bytes}
      (placed : PlacedFile schema properties encryption groups m file)
      (released : release w = (.ok file, w)) :
      GivenUp schema properties encryption groups w (some (.ok m))
  /-- The attempt failed, and what was written until then is given out. -/
  | incomplete {e : Error} {w₁ : FileWriter} (released : release w = (.ok w.contents, w₁)) :
      GivenUp schema properties encryption groups w (some (.error e))
  /-- The file is finished now. -/
  | completed {m : FileMetaData} {w₁ : FileWriter} (finished : finish w = (.ok m, w₁))
      (placed : PlacedFile schema properties encryption groups m w₁.contents)
      (released : release w = (.ok w₁.contents, w₁)) :
      GivenUp schema properties encryption groups w none
  /-- The file cannot be finished, and nothing is given out. -/
  | refused {e : Error} {w₁ : FileWriter} (failed : finish w = (.error e, w₁))
      (released : release w = (.error e, w₁)) :
      GivenUp schema properties encryption groups w none

variable {start : FileWriter} {groups : List (List ColumnValues)}

theorem release_of_unfinished (unfinished : w.phase ≠ .finished) :
    release w = (finish >>= fun _ => onSink Sink.release) w := by
  rw [release, Operation.run_get_bind, if_pos unfinished]

/-- A writer that was not asked to finish is given up with the outcome of finishing it. -/
theorem givenUp_of_unfinished (tracks : Tracks start groups w) (unfinished : w.phase ≠ .finished) :
    GivenUp start.schema start.properties start.encryption groups w none := by
  have run := release_of_unfinished unfinished
  rw [Operation.run_bind] at run
  cases finishing : finish w with
  | mk result w₁ =>
  rw [finishing] at run
  cases result with
  | error e => exact .refused finishing run
  | ok m =>
      obtain ⟨placed, _, released⟩ := tracks.placedFile finishing
      obtain ⟨_, finished, _⟩ := finish_of_usable (usable_of_finish finishing)
      rw [finishing] at finished
      rw [release, Operation.run_get_bind, if_neg (not_not_intro finished)] at released
      exact .completed finishing placed (run.trans released)

/-- A writer that can only be given up takes nothing in. -/
theorem accepted_of_unusable (unusable : w.phase ≠ .usable) (calls : List Call) :
    w.accepted calls = [] := by
  induction calls generalizing w with
  | nil => rfl
  | cons c calls ih =>
      rw [accepted, ih (call_unusable unusable c), List.append_nil]
      cases c with
      | writeRowGroup columns =>
          obtain ⟨e, _, refused⟩ := (refuses_of_unusable unusable).1 columns
          rw [call, refused, Call.taken_error]
      | finish => rw [Call.taken_finish]
      | release => rw [Call.taken_release]

/-- If giving up a writer that cannot be used does not change it, then no call does. -/
theorem call_of_idle (unusable : w.phase ≠ .usable) (idle : (release w).2 = w) (c : Call) :
    (call c w).2 = w := by
  obtain same | released := call_snd_of_unusable unusable c
  · exact same
  · exact released.trans idle

theorem afterCalls_of_idle (unusable : w.phase ≠ .usable) (idle : (release w).2 = w)
    (calls : List Call) : w.afterCalls calls = w := by
  refine afterCalls_keeps (K := fun w' => w' = w) ?_ calls rfl
  rintro c _ rfl
  exact call_of_idle unusable idle c

/-- After an attempt to finish a writer in memory can be given up, also if the attempt failed. -/
theorem release_of_attempted (finished : w.phase = .finished) (unlimited : w.sink.limit = none) :
    ∃ sink, release w = (.ok w.contents, { w with sink }) ∧ sink.limit = none := by
  obtain ⟨sink, released, same⟩ := Sink.release_of_unlimited unlimited
  refine ⟨sink, ?_, same⟩
  rw [release, Operation.run_get_bind, if_neg (not_not_intro finished)]
  change onSink Sink.release w = _
  rw [onSink, released]
  rfl

theorem call_attempted (finished : w.phase = .finished) (unlimited : w.sink.limit = none)
    (c : Call) : (call c w).2.phase = .finished ∧ (call c w).2.sink.limit = none := by
  have unusable : w.phase ≠ .usable := by
    rw [finished]
    decide
  obtain same | given := call_snd_of_unusable unusable c
  · rw [same]
    exact ⟨finished, unlimited⟩
  · obtain ⟨sink, released, same⟩ := release_of_attempted finished unlimited
    rw [given, released]
    exact ⟨finished, same⟩

theorem afterCalls_attempted (finished : w.phase = .finished) (unlimited : w.sink.limit = none)
    (calls : List Call) :
    (w.afterCalls calls).phase = .finished ∧ (w.afterCalls calls).sink.limit = none :=
  afterCalls_keeps (K := fun w => w.phase = .finished ∧ w.sink.limit = none)
    (fun c _ kept => call_attempted kept.1 kept.2 c) calls ⟨finished, unlimited⟩

/-- Giving up a usable writer leaves it as finishing does. -/
theorem release_snd_of_usable (tracks : Tracks start groups w) (usable : w.phase = .usable) :
    (release w).2 = (finish w).2 := by
  have unfinished : w.phase ≠ .finished := by
    rw [usable]
    decide
  cases givenUp_of_unfinished tracks unfinished with
  | completed finishing _ released => rw [finishing, released]
  | refused finishing released => rw [finishing, released]

/-- Once a usable writer has attempted to finish, the attempt decides what it is given up for. -/
theorem givenUp_of_attempted (tracks : Tracks start groups w) (usable : w.phase = .usable)
    (unlimited : w.sink.limit = none) (calls : List Call) :
    GivenUp start.schema start.properties start.encryption groups ((finish w).2.afterCalls calls)
      (some (finish w).1) := by
  obtain ⟨_, finished, _⟩ := finish_of_usable usable
  have kept := finish_unlimited unlimited
  cases finishing : finish w with
  | mk result w₁ =>
  rw [finishing] at finished kept
  cases result with
  | error e =>
      obtain ⟨still, same⟩ := afterCalls_attempted finished kept calls
      obtain ⟨sink, released, _⟩ := release_of_attempted still same
      exact .incomplete released
  | ok m =>
      obtain ⟨placed, _, released⟩ := tracks.placedFile finishing
      have idle : (release w₁).2 = w₁ := by rw [released]
      dsimp only at finished
      rw [afterCalls_of_idle (by rw [finished]; decide) idle calls]
      exact .complete placed released

theorem writeRowGroup_unfinished (usable : w.phase = .usable) (columns : List ColumnValues) :
    (writeRowGroup columns w).2.phase ≠ .finished := by
  obtain ⟨_, e, rejected⟩ | ⟨_, ordinal, rows, columns', written⟩ :=
    writeRowGroup_of_usable usable columns
  · rw [rejected, usable]
    decide
  · rw [written]
    cases run : failingFor (writeColumns w.rowGroups.size ordinal rows columns') w with
    | mk result w₁ =>
    have outcome := failingFor_writeColumns run
    cases result with
    | ok u =>
        rw [outcome.trans usable]
        decide
    | error e =>
        rw [outcome.2.2]
        decide

theorem givenUp_of_tracks (tracks : Tracks start groups w) (unfinished : w.phase ≠ .finished)
    (unlimited : w.sink.limit = none) (calls : List Call) :
    GivenUp start.schema start.properties start.encryption (groups ++ w.accepted calls)
      (w.afterCalls calls) (w.attempt calls) := by
  induction calls generalizing groups w with
  | nil =>
      rw [accepted, List.append_nil]
      exact givenUp_of_unfinished tracks unfinished
  | cons c calls ih =>
      rw [accepted, attempt, afterCalls_cons]
      by_cases usable : w.phase = .usable
      · have stopped : (finish w).2.phase ≠ .usable := (tracks_finish tracks).2
        cases c with
        | writeRowGroup columns =>
            rw [if_neg (fun both => Bool.false_ne_true both.2), ← List.append_assoc]
            exact ih (tracks_call tracks _) (writeRowGroup_unfinished usable columns)
              (writeRowGroup_unlimited columns unlimited)
        | finish =>
            rw [if_pos ⟨usable, rfl⟩, Call.taken_finish, call_finish_snd, List.nil_append,
              accepted_of_unusable stopped, List.append_nil]
            exact givenUp_of_attempted tracks usable unlimited calls
        | release =>
            rw [if_pos ⟨usable, rfl⟩, Call.taken_release, call_release_snd,
              release_snd_of_usable tracks usable, List.nil_append, accepted_of_unusable stopped,
              List.append_nil]
            exact givenUp_of_attempted tracks usable unlimited calls
      · -- The writer has failed: it refuses to finish, so that even giving it up changes nothing.
        have idle : (release w).2 = w := by
          obtain ⟨_, e, _, refused⟩ := refuses_of_unusable usable
          rw [release_of_unfinished unfinished, Operation.run_bind_error refused]
        have same := tracks_call tracks c
        rw [call_of_idle usable idle c] at same ⊢
        rw [if_neg fun both => usable both.1, ← List.append_assoc]
        exact ih same unfinished unlimited

/-- However a writer in memory was used, it is given up for a complete file with the row groups of
the calls that succeeded, or refuses to be given up, unless an attempt to finish has failed; then it
is given up for what was written until then. -/
theorem afterCalls_givenUp {schema : Schema} {properties : WriterProperties} {random : RandomSource}
    (created : create schema properties random = .ok w) (calls : List Call) :
    GivenUp schema properties w.encryption (w.accepted calls) (w.afterCalls calls)
      (w.attempt calls) := by
  obtain ⟨_, _, sink, form, _, unlimited, _⟩ := create_eq_ok created
  have fresh : w.phase = .usable ∧ w.schema = schema ∧ w.properties = properties ∧
      w.sink = sink := by
    rw [form]
    exact ⟨rfl, rfl, rfl, rfl⟩
  obtain ⟨usable, rfl, rfl, rfl⟩ := fresh
  have tracks : Tracks w [] w := tracks_of_create created []
  exact givenUp_of_tracks tracks (by rw [usable]; decide) unlimited calls

/-- A writer whose source of random bytes is exhausted cannot sign the footer, and is given up for a
file that does not end with the magic word. -/
theorem afterCalls_givenUp_exhausted : ∃ w w₁ e,
    create Sample.schema (Sample.properties (some Sample.encryption))
        { Sample.random with limit := some 8 } = .ok w ∧
      w.attempt [.finish] = some (.error e) ∧
      release (w.afterCalls [.finish]) = (.ok (w.afterCalls [.finish]).contents, w₁) ∧
      ¬ FooterMode.plaintext.magic <:+ (w.afterCalls [.finish]).contents := by
  have runs : ((create Sample.schema (Sample.properties (some Sample.encryption))
      { Sample.random with limit := some 8 }).toOption.any fun w =>
        (w.attempt [.finish]).any (fun result => !result.isOk) &&
        !decide (FooterMode.plaintext.magic <:+ (w.afterCalls [.finish]).contents)) = true := by
    decide +kernel
  obtain ⟨w, created, run⟩ := Except.exists_of_any runs
  obtain ⟨failed, noEnd⟩ := Bool.and_eq_true_iff.mp run
  have givenUp := afterCalls_givenUp created [.finish]
  cases attempted : w.attempt [.finish] with
  | none =>
      rw [attempted] at failed
      cases failed
  | some result =>
      rw [attempted] at failed givenUp
      cases givenUp with
      | complete => cases failed
      | incomplete released => exact ⟨w, _, _, created, attempted, released, by simpa using noEnd⟩

end SealedColumns.FileWriter
