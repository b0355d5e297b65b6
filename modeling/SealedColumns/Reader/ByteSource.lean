import SealedColumns.Checked

/-!
# Byte sources

A file is read through requests for ranges of its bytes. A source in memory compares the range with
its size; a file on disk is positioned and read, and the number of bytes found is compared with the
number wanted. They differ where nothing is wanted behind the end.
-/

namespace SealedColumns

/-- Where the bytes of a source are. -/
inductive SourceKind where
  | memory
  | disk
  deriving DecidableEq

/-- Bytes that can be read in ranges. -/
structure ByteSource where
  kind : SourceKind
  bytes : Bytes

namespace ByteSource

/-- The number of bytes. -/
def size (source : ByteSource) : Nat :=
  source.bytes.length

/-- The `length` bytes from position `start` on. -/
def get (source : ByteSource) (start length : Nat) : Except Error Bytes :=
  match source.kind with
  | .memory =>
    if start + length ≤ source.size then source.bytes.slice start (start + length)
    else .error (.sourceRange length start source.size)
  | .disk =>
    if 0x8000000000000000 ≤ start then .error .sourcePosition
    else
      let found := (source.bytes.drop start).take length
      if found.length = length then .ok found else .error (.sourceShort length found.length)

end ByteSource

end SealedColumns
