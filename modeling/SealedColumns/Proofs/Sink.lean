import SealedColumns.Proofs.Operation
import SealedColumns.Writer.Sink

/-!
# A buffered sink keeps its bytes in order

Whether bytes wait in the buffer or have been delivered makes no difference to what the sink holds:
its contents are what was delivered followed by what is pending. A write adds its bytes at the end,
and flushing changes nothing but the place where the contents are.

`Outcome` says everything that can come of passing bytes to a sink: all of them are taken in, or the
destination is limited and full, and then none of them.
-/

namespace SealedColumns.Sink

variable {sink middle after : Sink} {bs cs : Bytes} {m n : Nat} {u : Unit}

/-- All bytes accepted, wherever they are. -/
def contents (sink : Sink) : Bytes :=
  sink.delivered.toBytes ++ sink.pending.toBytes

/-- Bytes were added at the end and counted. -/
structure Grew (bs : Bytes) (sink after : Sink) : Prop where
  contents : after.contents = sink.contents ++ bs
  bytesWritten : after.bytesWritten = sink.bytesWritten + bs.length

theorem Grew.refl (sink : Sink) : Grew [] sink sink :=
  ⟨(List.append_nil _).symm, rfl⟩

theorem Grew.trans {last : Sink} (first : Grew bs sink after)
    (second : Grew cs after last) : Grew (bs ++ cs) sink last where
  contents := by rw [second.contents, first.contents, List.append_assoc]
  bytesWritten := by
    rw [second.bytesWritten, first.bytesWritten, List.length_append, Nat.add_assoc]

/-- A sink has taken in `bs` at the end and counted `n` bytes. Nothing that was delivered is taken
back, and a buffer that was within its capacity still is. -/
structure Took (bs : Bytes) (n : Nat) (sink after : Sink) : Prop where
  contents : after.contents = sink.contents ++ bs
  bytesWritten : after.bytesWritten = sink.bytesWritten + n
  delivered : sink.delivered.toBytes <+: after.delivered.toBytes
  buffered : sink.pending.size ≤ capacity → after.pending.size ≤ capacity
  limit : after.limit = sink.limit

namespace Took

theorem refl (sink : Sink) : Took [] 0 sink sink :=
  ⟨(List.append_nil _).symm, rfl, List.prefix_refl _, id, rfl⟩

theorem trans (first : Took bs m sink middle) (second : Took cs n middle after) :
    Took (bs ++ cs) (m + n) sink after where
  contents := by simp [second.contents, first.contents]
  bytesWritten := by simp [second.bytesWritten, first.bytesWritten, Nat.add_assoc]
  delivered := first.delivered.trans second.delivered
  buffered := second.buffered ∘ first.buffered
  limit := second.limit.trans first.limit

/-- A sink that has only moved bytes before has taken in what it takes in now. -/
theorem prepend (first : Took [] 0 sink middle) (second : Took bs n middle after) :
    Took bs n sink after := by
  simpa using first.trans second

theorem grew (h : Took bs bs.length sink after) : Grew bs sink after :=
  ⟨h.contents, h.bytesWritten⟩

end Took

/-- How an operation ends that is to take in `bs`, to count `n` bytes and to return `a`. -/
inductive Outcome {α : Type} (bs : Bytes) (n : Nat) (a : α) (sink : Sink) :
    Except Error α × Sink → Prop where
  | accepted {after : Sink} (took : Took bs n sink after) : Outcome bs n a sink (.ok a, after)
  | refused {after : Sink} (limited : sink.limit.isSome) (kept : Took [] 0 sink after) :
      Outcome bs n a sink (.error .sinkFull, after)

theorem Outcome.prepend {α : Type} {a : α} {outcome : Except Error α × Sink}
    (first : Took [] 0 sink middle) (h : Outcome bs n a middle outcome) :
    Outcome bs n a sink outcome := by
  cases h with
  | accepted took => exact .accepted (first.prepend took)
  | refused limited kept => exact .refused (first.limit ▸ limited) (first.prepend kept)

/-- Nothing is refused in front of a destination without limit. -/
theorem Outcome.of_unlimited {α : Type} {a : α} {outcome : Except Error α × Sink}
    (h : Outcome bs n a sink outcome) (unlimited : sink.limit = none) :
    ∃ after, outcome = (.ok a, after) ∧ Took bs n sink after := by
  cases h with
  | accepted took => exact ⟨_, rfl, took⟩
  | refused limited _ => simp [unlimited] at limited

theorem toBytes_eq_nil {log : ByteLog} (h : log.size = 0) : log.toBytes = [] := by
  rw [← List.length_eq_zero_iff, ByteLog.length_toBytes, h]

/-- A destination takes a delivery as a whole. -/
theorem deliver_cases (log : ByteLog) (sink : Sink) :
    (deliver log : Step Unit) sink =
      (.ok (), { sink with delivered := sink.delivered.append log }) ∨
      (sink.limit.isSome ∧ (deliver log : Step Unit) sink = (.error .sinkFull, sink)) := by
  rw [deliver]
  cases sink.limit with
  | none => exact .inl rfl
  | some most =>
      dsimp only
      split
      · exact .inl rfl
      · exact .inr ⟨rfl, rfl⟩

theorem empty_cases (sink : Sink) :
    (∃ after, (empty : Step Unit) sink = (.ok (), after) ∧ Took [] 0 sink after ∧
      after.pending.size = 0) ∨
    (sink.limit.isSome ∧ (empty : Step Unit) sink = (.error .sinkFull, sink)) := by
  rw [empty, Operation.run_get_bind]
  split
  · obtain delivered | ⟨limited, refused⟩ := deliver_cases sink.pending sink
    · rw [Operation.run_bind_ok delivered]
      refine .inl ⟨_, rfl, ⟨?_, rfl, ?_, fun _ => Nat.zero_le _, rfl⟩, rfl⟩
      · simp [contents]
      · simp
    · exact .inr ⟨limited, Operation.run_bind_error refused⟩
  · next drained => exact .inl ⟨sink, rfl, .refl sink, Decidable.not_not.mp drained⟩

/-- There is nothing to do for a buffer in which nothing waits. -/
theorem empty_of_drained (drained : sink.pending.size = 0) :
    (empty : Step Unit) sink = (.ok (), sink) := by
  rw [empty, Operation.run_get_bind]
  simp only [drained, ne_eq, not_true_eq_false, if_false]
  rfl

theorem empty_of_unlimited (unlimited : sink.limit = none) :
    ∃ after, (empty : Step Unit) sink = (.ok (), after) ∧ Took [] 0 sink after ∧
      after.pending.size = 0 := by
  obtain emptied | ⟨limited, _⟩ := empty_cases sink
  · exact emptied
  · simp [unlimited] at limited

/-! ### Room in the buffer -/

/-- Empties the buffer if it cannot take `n` bytes in addition. -/
def reserve (n : Nat) : Step Unit := do
  let sink ← get
  if sink.spare < n then empty

theorem reserve_of_spare (room : n ≤ sink.spare) :
    (reserve n : Step Unit) sink = (.ok (), sink) := by
  rw [reserve, Operation.run_get_bind, if_neg (Nat.not_lt.mpr room)]
  rfl

theorem reserve_of_full (full : sink.spare < n) :
    (reserve n : Step Unit) sink = (empty : Step Unit) sink := by
  rw [reserve, Operation.run_get_bind, if_pos full]

theorem reserve_of_drained (drained : sink.pending.size = 0) :
    (reserve n : Step Unit) sink = (.ok (), sink) := by
  by_cases full : sink.spare < n
  · rw [reserve_of_full full, empty_of_drained drained]
  · exact reserve_of_spare (Nat.le_of_not_lt full)

/-- Afterwards there is room for the bytes, or as much as there can be. -/
theorem reserve_cases (n : Nat) (sink : Sink) :
    (∃ after, (reserve n : Step Unit) sink = (.ok (), after) ∧ Took [] 0 sink after ∧
      (after.pending.size = 0 ∨ n ≤ after.spare)) ∨
    (sink.limit.isSome ∧ (reserve n : Step Unit) sink = (.error .sinkFull, sink)) := by
  by_cases full : sink.spare < n
  · rw [reserve_of_full full]
    obtain ⟨after, emptied, moved, drained⟩ | refused := empty_cases sink
    · exact .inl ⟨after, emptied, moved, .inl drained⟩
    · exact .inr refused
  · have room := Nat.le_of_not_lt full
    exact .inl ⟨sink, reserve_of_spare room, .refl sink, .inr room⟩

/-- Room is made for bytes first; those that would fill the buffer by themselves pass it by. -/
theorem accept_eq (bs : Bytes) :
    accept bs = (do
      reserve bs.length
      if capacity ≤ bs.length then deliver (ByteLog.push {} bs) else buffer bs) := by
  funext sink
  rw [accept, Operation.run_get_bind]
  dsimp only
  have most : sink.spare ≤ capacity := Nat.sub_le _ _
  by_cases fits : bs.length < sink.spare
  · rw [if_pos fits, Operation.run_bind_ok (reserve_of_spare (Nat.le_of_lt fits)),
      if_neg (by omega)]
  · rw [if_neg fits]
    by_cases full : sink.spare < bs.length
    · rw [if_pos full, Operation.run_bind, Operation.run_bind, reserve_of_full full]
    · rw [if_neg full, Operation.run_bind_ok (reserve_of_spare (Nat.le_of_not_lt full))]

/-! ### Writing -/

/-- Bytes may be delivered past a buffer in which nothing waits. -/
theorem deliver_outcome (bs : Bytes) (drained : sink.pending.size = 0) :
    Outcome bs 0 () sink ((deliver (ByteLog.push {} bs) : Step Unit) sink) := by
  obtain delivered | ⟨limited, refused⟩ := deliver_cases (ByteLog.push {} bs) sink
  · rw [delivered]
    refine .accepted ⟨?_, rfl, ?_, id, rfl⟩
    · simp [contents, toBytes_eq_nil drained]
    · simp
  · rw [refused]
    exact .refused limited (.refl sink)

/-- Bytes may be buffered as far as there is room. -/
theorem buffer_outcome
    (room : sink.pending.size ≤ capacity → bs.length + sink.pending.size ≤ capacity) :
    Outcome bs 0 () sink ((buffer bs : Step Unit) sink) := by
  refine .accepted ⟨?_, rfl, List.prefix_refl _, room, rfl⟩
  simp [contents]

theorem accept_outcome (bs : Bytes) (sink : Sink) :
    Outcome bs 0 () sink ((accept bs : Step Unit) sink) := by
  rw [accept_eq]
  obtain ⟨middle, reserved, moved, ready⟩ | ⟨limited, refused⟩ := reserve_cases bs.length sink
  · rw [Operation.run_bind_ok reserved]
    apply Outcome.prepend moved
    have positive : 0 < capacity := by decide
    rw [spare] at ready
    -- Room was made: bytes that pass the buffer by find it empty, all others fit.
    split
    · apply deliver_outcome
      omega
    · apply buffer_outcome
      omega
  · rw [Operation.run_bind_error refused]
    exact .refused limited (.refl sink)

/-- A write adds all its bytes to the contents and counts them, or none. -/
theorem writeAll_outcome (bs : Bytes) (sink : Sink) :
    Outcome bs bs.length () sink ((writeAll bs : Step Unit) sink) := by
  have accepting := accept_outcome bs sink
  rw [writeAll, Operation.run_bind]
  generalize (accept bs : Step Unit) sink = outcome at accepting ⊢
  cases accepting with
  | accepted took =>
      refine .accepted ⟨took.contents, ?_, took.delivered, took.buffered, took.limit⟩
      exact congrArg (· + bs.length) took.bytesWritten
  | refused limited kept => exact .refused limited kept

theorem empty_eq_ok (h : (empty : Step Unit) sink = (.ok u, after)) :
    after.contents = sink.contents ∧ after.pending.size = 0 ∧
      after.bytesWritten = sink.bytesWritten := by
  obtain ⟨_, emptied, moved, drained⟩ | ⟨_, refused⟩ := empty_cases sink
  · rw [emptied] at h
    cases h
    exact ⟨by simpa using moved.contents, drained, moved.bytesWritten⟩
  · rw [refused] at h
    cases h

/-- A write that succeeds adds its bytes to the contents and counts them. -/
theorem writeAll_eq_ok (h : (writeAll bs : Step Unit) sink = (.ok u, after)) :
    Grew bs sink after := by
  have writing := writeAll_outcome bs sink
  rw [h] at writing
  cases writing with
  | accepted took => exact took.grew

/-- After a flush the sink is released without further effect. -/
theorem release_of_drained (h : sink.pending.size = 0) :
    (release : Step Bytes) sink = (.ok sink.contents, sink) := by
  rw [release]
  simp only [empty_of_drained h, contents, toBytes_eq_nil h, List.append_nil]

/-! ### The limit of a sink -/

/-- The operation succeeds, unless the destination is full, and the limit stays as it is. -/
abbrev Accepts (limit : Option Nat) (op : Step Unit) : Prop :=
  Yields (fun sink : Sink => sink.limit = limit) op fun x => x = .ok () ∨ x = .error .sinkFull

section

variable {limit : Option Nat}

theorem empty_accepts : Accepts limit empty := by
  intro sink same
  obtain ⟨after, emptied, moved, _⟩ | ⟨_, refused⟩ := empty_cases sink
  · rw [emptied]
    exact ⟨.inl rfl, moved.limit.trans same⟩
  · rw [refused]
    exact ⟨.inr rfl, same⟩

/-- However a write ends, the sink has the same limit as before. -/
theorem writeAll_accepts (bs : Bytes) : Accepts limit (writeAll bs) := by
  intro sink same
  have writing := writeAll_outcome bs sink
  generalize (writeAll bs : Step Unit) sink = outcome at writing ⊢
  cases writing with
  | accepted took => exact ⟨.inl rfl, took.limit.trans same⟩
  | refused _ kept => exact ⟨.inr rfl, kept.limit.trans same⟩

end

/-- A sink without limit takes in everything. -/
theorem writeAll_of_unlimited (unlimited : sink.limit = none) (bs : Bytes) :
    ∃ after, (writeAll bs : Step Unit) sink = (.ok (), after) ∧ Took bs bs.length sink after :=
  (writeAll_outcome bs sink).of_unlimited unlimited

/-- A sink without limit can always be released, for its whole contents. -/
theorem release_of_unlimited (unlimited : sink.limit = none) :
    ∃ after, (release : Step Bytes) sink = (.ok sink.contents, after) ∧ after.limit = none := by
  obtain ⟨after, emptied, moved, drained⟩ := empty_of_unlimited unlimited
  refine ⟨after, ?_, moved.limit.trans unlimited⟩
  have same : after.contents = sink.contents := by simpa using moved.contents
  rw [release, emptied, ← same, contents, toBytes_eq_nil drained, List.append_nil]

end SealedColumns.Sink
