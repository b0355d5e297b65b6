import SealedColumns.Proofs.Sink

/-!
# A sink counts the bytes it accepts

Byte strings that are written at once are accepted like their concatenation: room is made for all
of them, and together they are buffered or pass the buffer by. So the calls that write differ
only in what they return.

In front of a destination without limit every call succeeds. Over any sequence of calls the sink
counts the bytes that were passed to it, the destination has a front of them, in order, and the
others wait in the buffer until they are flushed.
-/

namespace SealedColumns.Sink

variable {sink : Sink} {m n : Nat}

/-! ### Byte strings that are written at once -/

/-- Making room for fewer bytes first makes no difference. -/
theorem reserve_reserve (fewer : m ≤ n) : (do reserve m; reserve n) = reserve n := by
  funext sink
  by_cases full : sink.spare < m
  · rw [reserve_of_full (Nat.lt_of_lt_of_le full fewer), Operation.run_bind, reserve_of_full full]
    obtain ⟨after, emptied, _, drained⟩ | ⟨_, refused⟩ := empty_cases sink
    · rw [emptied]
      exact reserve_of_drained drained
    · rw [refused]
  · rw [Operation.run_bind_ok (reserve_of_spare (Nat.le_of_not_lt full))]

/-- Bytes that would fill the buffer by themselves need it empty, however many they are. -/
theorem reserve_of_large (large : capacity ≤ m) (fewer : m ≤ n) : reserve n = reserve m := by
  funext sink
  by_cases full : sink.spare < m
  · rw [reserve_of_full full, reserve_of_full (Nat.lt_of_lt_of_le full fewer)]
  · have drained : sink.pending.size = 0 := by
      have positive : 0 < capacity := by decide
      rw [spare] at full
      omega
    rw [reserve_of_drained drained, reserve_of_drained drained]

theorem makeRoom_cons (total : Nat) (bs : Bytes) (parts : List Bytes) :
    makeRoom total (bs :: parts) = (do
      reserve (total + bs.length)
      if capacity ≤ total + bs.length then return true
      else makeRoom (total + bs.length) parts) := by
  funext sink
  simp only [makeRoom, Operation.run_get_bind]
  by_cases full : sink.spare < total + bs.length
  · by_cases drained : sink.pending.size = 0
    · simp [drained, Operation.run_bind_ok (reserve_of_drained drained)]
    · simp [full, drained, Operation.run_bind, reserve_of_full full]
  · simp [full, Operation.run_bind_ok (reserve_of_spare (Nat.le_of_not_lt full))]

/-- Room that is made byte string by byte string is room for all of them. In front stands the room
for those that have been looked through, which the next step absorbs. -/
theorem makeRoom_eq (total : Nat) (parts : List Bytes) (small : total < capacity) :
    (do reserve total; makeRoom total parts) = (do
      reserve (total + parts.flatten.length)
      return decide (capacity ≤ total + parts.flatten.length)) := by
  induction parts generalizing total with
  | nil =>
      show (do reserve total; return false) = (do reserve total; return decide (capacity ≤ total))
      rw [decide_eq_false (Nat.not_le.mpr small)]
  | cons bs parts ih =>
      have all : total + (bs :: parts).flatten.length =
          total + bs.length + parts.flatten.length := by
        rw [List.flatten_cons, List.length_append, Nat.add_assoc]
      rw [makeRoom_cons, ← bind_assoc, reserve_reserve (Nat.le_add_right _ _), all]
      by_cases large : capacity ≤ total + bs.length
      · have more := Nat.le_add_right (total + bs.length) parts.flatten.length
        rw [if_pos large, decide_eq_true (Nat.le_trans large more), reserve_of_large large more]
      · rw [if_neg large]
        exact ih _ (Nat.lt_of_not_le large)

/-- Byte strings that are written at once are written like their concatenation,
whatever their sizes. -/
theorem writeVectored_eq_write (parts : List Bytes) :
    writeVectored parts = write parts.flatten := by
  have start : reserve 0 = pure () := by
    funext sink
    exact reserve_of_spare (Nat.zero_le _)
  have room := makeRoom_eq 0 parts (by decide)
  rw [start, pure_bind, Nat.zero_add] at room
  rw [writeVectored, write, writeAll, accept_eq, room]
  simp only [bind_assoc, pure_bind, decide_eq_true_eq]
  by_cases large : capacity ≤ parts.flatten.length
  · simp only [if_pos large]
  · simp only [if_neg large]

/-! ### Calls -/

/-- A call to a sink. -/
inductive Call where
  | write (bs : Bytes)
  | writeAll (bs : Bytes)
  | writeVectored (parts : List Bytes)
  | flush

/-- The bytes that a call passes to the sink. -/
def Call.passed : Call → Bytes
  | .write bs | .writeAll bs => bs
  | .writeVectored parts => parts.flatten
  | .flush => []

/-- Makes a call and returns how many bytes it has accepted. Where a call does not tell this,
success means that it has accepted all of them. -/
def perform : Call → Step Nat
  | .write bs => write bs
  | .writeAll bs => do writeAll bs; return bs.length
  | .writeVectored parts => writeVectored parts
  | .flush => do flush; return 0

/-- Makes calls one after the other and returns how many bytes they have accepted together. The
first call that fails ends this. -/
def performAll : List Call → Step Nat
  | [] => return 0
  | call :: calls => do
    let accepted ← perform call
    return accepted + (← performAll calls)

/-- The bytes that are passed to the sink, in the order of the calls. -/
def passed (calls : List Call) : Bytes :=
  calls.flatMap Call.passed

theorem write_outcome (bs : Bytes) (sink : Sink) :
    Outcome bs bs.length bs.length sink ((write bs : Step Nat) sink) := by
  have writing := writeAll_outcome bs sink
  rw [write, Operation.run_bind]
  generalize (writeAll bs : Step Unit) sink = outcome at writing ⊢
  cases writing with
  | accepted took => exact .accepted took
  | refused limited kept => exact .refused limited kept

/-- A call takes in all that is passed to it and says so, or it is refused and takes in nothing. -/
theorem perform_outcome (call : Call) (sink : Sink) :
    Outcome call.passed call.passed.length call.passed.length sink (perform call sink) := by
  cases call with
  | write bs => exact write_outcome bs sink
  | writeAll bs => exact write_outcome bs sink
  | writeVectored parts =>
      rw [perform, writeVectored_eq_write]
      exact write_outcome parts.flatten sink
  | flush =>
      rw [perform, flush]
      obtain ⟨after, emptied, moved, _⟩ | ⟨limited, refused⟩ := empty_cases sink
      · rw [Operation.run_bind_ok emptied]
        exact .accepted moved
      · rw [Operation.run_bind_error refused]
        exact .refused limited (.refl sink)

theorem perform_of_unlimited (unlimited : sink.limit = none) (call : Call) :
    ∃ after, perform call sink = (.ok call.passed.length, after) ∧
      Took call.passed call.passed.length sink after :=
  (perform_outcome call sink).of_unlimited unlimited

theorem performAll_of_unlimited (unlimited : sink.limit = none) (calls : List Call) :
    ∃ after, performAll calls sink = (.ok (passed calls).length, after) ∧
      Took (passed calls) (passed calls).length sink after := by
  induction calls generalizing sink with
  | nil => exact ⟨sink, rfl, .refl sink⟩
  | cons call calls ih =>
      obtain ⟨middle, performed, first⟩ := perform_of_unlimited unlimited call
      obtain ⟨after, following, rest⟩ := ih (first.limit.trans unlimited)
      have all : (passed (call :: calls)).length = call.passed.length + (passed calls).length :=
        List.length_append
      refine ⟨after, ?_, ?_⟩
      · rw [performAll, Operation.run_bind_ok performed, Operation.run_bind_ok following, all]
        rfl
      · rw [all]
        exact first.trans rest

/-- After a flush nothing waits in the buffer. -/
theorem perform_flush_of_unlimited (unlimited : sink.limit = none) :
    ∃ after, perform .flush sink = (.ok 0, after) ∧ after.delivered.toBytes = sink.contents := by
  obtain ⟨after, emptied, moved, drained⟩ := empty_of_unlimited unlimited
  refine ⟨after, ?_, ?_⟩
  · simp [perform, flush, Operation.run_bind_ok emptied]
  · simpa [contents, toBytes_eq_nil drained] using moved.contents

/-- After any calls, a sink in front of a destination without limit has accepted all bytes that were
passed to it and counted them. The destination has, behind what it held at first, a front of these
bytes and lacks no more than the buffer can hold. Once the sink is flushed, and also when it is
released, the destination has all of them. -/
theorem performAll_exact (held : ByteLog) (calls : List Call) :
    ∃ sink, performAll calls { delivered := held } = (.ok (passed calls).length, sink) ∧
      sink.bytesWritten = (passed calls).length ∧
      (∃ front, sink.delivered.toBytes = held.toBytes ++ front ∧ front <+: passed calls ∧
        (passed calls).length ≤ front.length + capacity) ∧
      (∃ flushed, perform .flush sink = (.ok 0, flushed) ∧
        flushed.delivered.toBytes = held.toBytes ++ passed calls) ∧
      ∃ released, release sink = (.ok (held.toBytes ++ passed calls), released) := by
  obtain ⟨sink, performed, took⟩ :=
    @performAll_of_unlimited { delivered := held } rfl calls
  have contents : sink.contents = held.toBytes ++ passed calls := by
    simpa [Sink.contents] using took.contents
  have written : sink.bytesWritten = (passed calls).length := by
    simpa using took.bytesWritten
  obtain ⟨front, grown⟩ := took.delivered
  have split : front ++ sink.pending.toBytes = passed calls := by
    apply (List.append_right_inj held.toBytes).mp
    calc held.toBytes ++ (front ++ sink.pending.toBytes)
        = sink.contents := by simp [Sink.contents, ← grown]
      _ = held.toBytes ++ passed calls := contents
  have lag : (passed calls).length ≤ front.length + capacity := by
    have few : sink.pending.size ≤ capacity := took.buffered (Nat.zero_le _)
    simpa [← split, ByteLog.length_toBytes] using few
  obtain ⟨flushed, flushing, delivered⟩ := perform_flush_of_unlimited took.limit
  obtain ⟨released, releasing, _⟩ := release_of_unlimited took.limit
  rw [contents] at delivered releasing
  exact ⟨sink, performed, written, ⟨front, grown.symm, ⟨_, split⟩, lag⟩,
    ⟨flushed, flushing, delivered⟩, released, releasing⟩

end SealedColumns.Sink
