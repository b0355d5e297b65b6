import SealedColumns.Column.Reader
import SealedColumns.Decryption.ColumnOpener
import SealedColumns.Checked

/-!
# Pages of a column chunk

The pages of a column chunk are read from its bytes until as many values as declared were seen. If
the chunk has a dictionary page, it comes first; bytes after the last page are left alone.

A page header has twenty bytes at least, so the number of pages is bounded by the number of bytes,
also where pages without values never exhaust the declared count.
-/

namespace SealedColumns

/-- The part of a column chunk that was not read yet. -/
structure ChunkPages where
  rest : Bytes
  /-- The number of declared values not seen yet; pages may hold more than declared. -/
  remaining : Int
  /-- Whether the dictionary page is still to come. -/
  awaitsDictionary : Bool
  /-- The ordinal of the next data page. -/
  page : Nat := 0
  opener : Option ColumnOpener

namespace ChunkPages

/-- The pages of a chunk, with the number of values that it declares. -/
def start (chunk : Bytes) (declared : Int64) (hasDictionary : Bool) (opener : Option ColumnOpener) :
    ChunkPages where
  rest := chunk
  remaining := declared.toInt
  awaitsDictionary := hasDictionary
  opener

/-- An operation on the pages of a chunk. -/
abbrev Step (α : Type) := ExceptT Error (StateM ChunkPages) α

/-- The length of a page header in plain form. -/
def headerLength : Nat :=
  20

/-- The kind of the page that has to come next. -/
def expectedKind (p : ChunkPages) : PageKind :=
  if p.awaitsDictionary then .dictionary else .data

/-- Reads the next page header. Nothing is passed over unless the header can be read. -/
def readHeader : Step PageHeader := fun p =>
  match p.opener with
  | none =>
    match (decodeFront p.rest : Except Error (PageHeader × Bytes)) with
    | .ok (header, rest) => (.ok header, { p with rest })
    | .error e => (.error e, p)
  | some o =>
    let (result, o) := o.readHeader p.expectedKind p.page p.rest
    let p := { p with opener := some o }
    match result with
    | .error e => (.error e, p)
    | .ok (plain, rest) =>
      match (decodeFront plain : Except Error (PageHeader × Bytes)) with
      | .ok (header, _) => (.ok header, { p with rest })
      | .error e => (.error e, p)

/-- The plain form of the body of a page. -/
def openBody (kind : PageKind) (body : Bytes) : Step Bytes := fun p =>
  match p.opener with
  | none => (.ok body, p)
  | some o =>
    let (result, o) := o.openBody kind p.page body
    (result, { p with opener := some o })

/-- Takes the next `n` bytes. -/
def takeBody (n : Nat) : Step Bytes := do
  let p ← get
  if (p.rest.take n).length < n then throw (.pageTooLong n p.rest.length)
  let (body, rest) ← p.rest.cut n
  set { p with rest }
  return body

/-- The next page, or nothing once all declared values were seen. -/
def next : Step (Option Page) := do
  let p ← get
  if p.remaining ≤ 0 ∧ !p.awaitsDictionary then return none
  if p.rest.isEmpty then throw (.chunkEnded p.remaining)
  let header ← readHeader
  if header.kind ≠ p.expectedKind then throw (.unexpectedPage header.kind p.page)
  let length ← natural header.compressedSize.toInt
  let numValues ← natural header.numValues.toInt
  let body ← takeBody length
  let body ← openBody header.kind body
  match header.kind with
  | .dictionary => modify fun p => { p with awaitsDictionary := false }
  | .data =>
    let p ← get
    let page ← addSizes p.page 1
    let remaining ← subCounts p.remaining numValues
    set { p with page, remaining }
  return some ⟨header.kind, body, UInt32.ofNat numValues, header.encoding⟩

instance : PageSource ChunkPages where
  next := next
  bound p := p.rest.length / headerLength + 1

end ChunkPages

end SealedColumns
