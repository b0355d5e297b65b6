import SealedColumns.Column.Dictionary
import SealedColumns.Column.Page

/-!
# Reading columns from pages

A column reader turns pages into values. It keeps the dictionary, which must come before the first
page that refers to it and at most once; hence a step looks at two pages at most.

Pages come from a page source: a state that delivers the next page, with a bound on the number of
pages that it can still deliver. The bound ends the reading of all pages.
-/

namespace SealedColumns

/-- A state that delivers pages. -/
class PageSource (σ : Type) where
  /-- The next page, or nothing at the end. -/
  next : ExceptT Error (StateM σ) (Option Page)
  /-- More pages than this are never delivered. -/
  bound : σ → Nat

/-- Pages and failures given in advance. -/
structure PageList where
  items : List (Except Error Page)

instance : PageSource PageList where
  next := fun ⟨items⟩ =>
    match items with
    | [] => (.ok none, ⟨[]⟩)
    | .ok page :: rest => (.ok (some page), ⟨rest⟩)
    | .error e :: rest => (.error e, ⟨rest⟩)
  bound source := source.items.length

namespace PageSource

variable {σ : Type} [PageSource σ]

/-- At most `n` more pages after those in `acc`, which holds the latest first, up to the end
or the first failure. -/
def drainFrom : (n : Nat) → (acc : List Page) → σ → List Page × Option Error × σ
  | 0, acc, source => (acc.reverse, none, source)
  | n + 1, acc, source =>
    match (next : ExceptT Error (StateM σ) (Option Page)) source with
    | (.ok (some page), source) => drainFrom n (page :: acc) source
    | (.ok none, source) => (acc.reverse, none, source)
    | (.error e, source) => (acc.reverse, some e, source)

/-- All pages up to the end or the first failure. -/
def drain (source : σ) : List Page × Option Error × σ :=
  drainFrom (bound source + 1) [] source

end PageSource

/-- Reads the values of a column from a page source. -/
structure ColumnReader (σ : Type) where
  type : PhysicalType
  source : σ
  /-- The values of the dictionary page, once it was met. -/
  dictionary : Option ColumnValues := none

namespace ColumnReader

variable {σ : Type} [PageSource σ]

/-- An operation of a column reader. -/
abbrev Step (σ α : Type) := ExceptT Error (StateM (ColumnReader σ)) α

/-- The next page of the source. -/
def nextPage : Step σ (Option Page) := fun reader =>
  let (result, source) := (PageSource.next : ExceptT Error (StateM σ) (Option Page)) reader.source
  (result, { reader with source })

/-- Takes the values of a dictionary page as the dictionary. -/
def acceptDictionary (page : Page) : Step σ Unit := do
  if page.encoding ≠ .plain then throw (.dictionaryEncoding page.encoding)
  let reader ← get
  if reader.dictionary.isSome then throw .dictionaryRepeated
  let dictionary ← ColumnValues.decodePlain reader.type page.body page.numValues.toNat
  set { reader with dictionary := some dictionary }

/-- The values of a data page. -/
def decodePage (t : PhysicalType) (dictionary : Option ColumnValues) (page : Page) :
    Except Error ColumnValues :=
  match page.encoding with
  | .plain => ColumnValues.decodePlain t page.body page.numValues.toNat
  | .dictionary => do
    let some values := dictionary | throw .dictionaryMissing
    values.take (← Dictionary.decodeIndices page.body page.numValues.toNat)

/-- The values of the next data page among the next `n` pages. -/
def readPageWithin : (n : Nat) → Step σ (Option ColumnValues)
  | 0 => return none
  | n + 1 => do
    match ← nextPage with
    | none => return none
    | some page =>
      match page.kind with
      | .dictionary =>
        acceptDictionary page
        readPageWithin n
      | .data =>
        let reader ← get
        return some (← decodePage reader.type reader.dictionary page)

/-- The values of the next data page, or nothing at the end. Of two pages one is a data page, or the
second dictionary is refused. -/
def readPage : Step σ (Option ColumnValues) :=
  readPageWithin 2

/-- The values of at most `n` data pages, after those in `values`. -/
def readPages : (n : Nat) → (values : ColumnValues) → Step σ ColumnValues
  | 0, values => return values
  | n + 1, values => do
    match ← readPage with
    | none => return values
    | some more => readPages n (← values.append more)

/-- The values of all data pages that are left. -/
def readAll : Step σ ColumnValues := do
  let reader ← get
  readPages (PageSource.bound reader.source + 1) (ColumnValues.empty reader.type)

end ColumnReader

end SealedColumns
