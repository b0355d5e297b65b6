import SealedColumns.Error

/-!
# Random bytes

Nonces and file identifiers are drawn from a source of random bytes. A source is the whole stream
that it will deliver, a position in it, and possibly a limit: a draw that would pass the limit
takes nothing and fails. `splitMix` is a source determined by a seed, for files that have to come
out the same every time.
-/

namespace SealedColumns

/-- A stream of bytes, of which those before `position` are used up. -/
structure RandomSource where
  /-- The bytes of the stream. -/
  byteAt : Nat → UInt8
  /-- The number of bytes drawn so far. -/
  position : Nat := 0
  /-- The number of bytes that can be drawn in all. -/
  limit : Option Nat := none

namespace RandomSource

/-- Whether `n` more bytes can be drawn. -/
def has (source : RandomSource) (n : Nat) : Bool :=
  match source.limit with
  | none => true
  | some limit => source.position + n ≤ limit

/-- The next `n` bytes of the stream. -/
def upcoming (source : RandomSource) (n : Nat) : Bytes :=
  (List.range n).map fun i => source.byteAt (source.position + i)

/-- Draws `n` bytes. -/
def draw (n : Nat) : ExceptT Error (StateM RandomSource) Bytes := fun source =>
  if source.has n then
    (.ok (source.upcoming n), { source with position := source.position + n })
  else (.error .randomnessExhausted, source)

/-- The mixing function of the seeded source. -/
def mix (z : UInt64) : UInt64 :=
  let z := (z ^^^ (z >>> 30)) * 0xBF58476D1CE4E5B9
  let z := (z ^^^ (z >>> 27)) * 0x94D049BB133111EB
  z ^^^ (z >>> 31)

/-- The source of a seed: the mixed multiples of an odd constant added to the
seed, eight bytes each. -/
def splitMix (seed : UInt64) (limit : Option Nat := none) : RandomSource where
  byteAt i :=
    let word := mix (seed + 0x9E3779B97F4A7C15 * (i / 8 + 1).toUInt64)
    (word >>> (8 * (i % 8)).toUInt64).toUInt8
  limit := limit

end RandomSource

end SealedColumns
