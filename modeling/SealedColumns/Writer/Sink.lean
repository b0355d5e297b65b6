import SealedColumns.Error

/-!
# Buffered sinks

Bytes on their way to a destination pass through a buffer of fixed capacity. Small writes are
collected; a write that does not fit empties the buffer first, and one that would fill the buffer by
itself passes it by. The sink counts the bytes it has accepted, wherever they are.

The destination may be limited: a delivery that would make it longer is refused as a whole.
-/

namespace SealedColumns

/-- A byte string that grows at its end. -/
structure ByteLog where
  /-- The pieces, latest first. -/
  pieces : List Bytes := []
  size : Nat := 0
  size_eq : size = pieces.flatten.length := by rfl

namespace ByteLog

/-- The bytes, in the order in which they came. -/
def toBytes (log : ByteLog) : Bytes :=
  log.pieces.reverse.flatten

/-- Adds bytes at the end. -/
def push (log : ByteLog) (bs : Bytes) : ByteLog :=
  ⟨bs :: log.pieces, bs.length + log.size, by simp [log.size_eq]⟩

/-- Adds the pieces of another log at the end. -/
def append (log more : ByteLog) : ByteLog :=
  ⟨more.pieces ++ log.pieces, more.size + log.size, by simp [log.size_eq, more.size_eq]⟩

@[simp] theorem toBytes_empty : ({} : ByteLog).toBytes = [] := rfl

@[simp] theorem toBytes_push (log : ByteLog) (bs : Bytes) :
    (log.push bs).toBytes = log.toBytes ++ bs := by
  simp [toBytes, push]

@[simp] theorem toBytes_append (log more : ByteLog) :
    (log.append more).toBytes = log.toBytes ++ more.toBytes := by
  simp [toBytes, append]

theorem length_toBytes (log : ByteLog) : log.toBytes.length = log.size := by
  rw [log.size_eq]
  exact (List.reverse_perm log.pieces).flatten.length_eq

end ByteLog

/-- A destination behind a buffer. -/
structure Sink where
  /-- How many bytes the destination can hold, if limited. -/
  limit : Option Nat := none
  /-- What the destination holds. -/
  delivered : ByteLog := {}
  /-- What waits in the buffer. -/
  pending : ByteLog := {}
  /-- The number of bytes accepted. -/
  bytesWritten : Nat := 0

namespace Sink

/-- An operation on a sink. -/
abbrev Step (α : Type) := ExceptT Error (StateM Sink) α

/-- The capacity of the buffer. -/
def capacity : Nat :=
  8192

/-- How many bytes the buffer can take in addition. -/
def spare (sink : Sink) : Nat :=
  capacity - sink.pending.size

/-- Hands bytes to the destination. -/
def deliver (bs : ByteLog) : Step Unit := fun sink =>
  let fits := match sink.limit with
    | none => true
    | some limit => sink.delivered.size + bs.size ≤ limit
  if fits then (.ok (), { sink with delivered := sink.delivered.append bs })
  else (.error .sinkFull, sink)

/-- Hands the contents of the buffer to the destination. -/
def empty : Step Unit := do
  let sink ← get
  if sink.pending.size ≠ 0 then
    deliver sink.pending
    modify fun sink => { sink with pending := {} }

/-- Adds bytes to the buffer. -/
def buffer (bs : Bytes) : Step Unit :=
  modify fun sink => { sink with pending := sink.pending.push bs }

/-- Counts accepted bytes. -/
def count (n : Nat) : Step Unit :=
  modify fun sink => { sink with bytesWritten := sink.bytesWritten + n }

/-- Accepts bytes, buffered or passed by. -/
def accept (bs : Bytes) : Step Unit := do
  let sink ← get
  let length := bs.length
  if length < sink.spare then buffer bs
  else
    if sink.spare < length then empty
    if capacity ≤ length then deliver (ByteLog.push {} bs) else buffer bs

/-- Writes all of `bs`. -/
def writeAll (bs : Bytes) : Step Unit := do
  accept bs
  count bs.length

/-- Writes `bs`, of which all is accepted, and returns the number of bytes accepted. -/
def write (bs : Bytes) : Step Nat := do
  writeAll bs
  return bs.length

/-- Looks through byte strings that follow `total` bytes of the same write. The buffer is emptied as
soon as they do not fit; whether they pass it by is returned. -/
def makeRoom (total : Nat) : List Bytes → Step Bool
  | [] => return false
  | bs :: rest => do
    let total := total + bs.length
    let sink ← get
    if sink.spare < total ∧ sink.pending.size ≠ 0 then empty
    if capacity ≤ total then return true else makeRoom total rest

/-- Writes several byte strings at once and returns the number of bytes accepted. -/
def writeVectored (parts : List Bytes) : Step Nat := do
  let bs := parts.flatten
  if ← makeRoom 0 parts then deliver (ByteLog.push {} bs) else buffer bs
  count bs.length
  return bs.length

/-- Hands everything over. -/
def flush : Step Unit :=
  empty

/-- Hands everything over and gives up the sink for what the destination holds. -/
def release : Step Bytes := fun sink =>
  match (empty : Step Unit) sink with
  | (.ok (), sink) => (.ok sink.delivered.toBytes, sink)
  | (.error cause, sink) => (.error (.sinkNotReleased cause.detail), sink)

end Sink

end SealedColumns
