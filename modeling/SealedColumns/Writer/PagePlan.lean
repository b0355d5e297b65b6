import SealedColumns.Column.Dictionary
import SealedColumns.Column.Page

/-!
# Division of a column into pages

The values of a column chunk are cut into data pages of at most as many rows as the limit allows.
With a dictionary, a page with the distinct values comes first and the data pages hold indices.
-/

namespace SealedColumns

/-- A page that is to be written. -/
structure PlannedPage where
  kind : PageKind
  body : Bytes
  /-- The number of values. -/
  count : Nat
  encoding : Encoding
  /-- The row of the first value of a data page. -/
  firstRow : Nat

namespace PagePlan

variable {α : Type}

/-- The data pages of at most `n` runs of `size` values from `as`, after those in `acc`, which holds
the latest first. The first value is in row `row`. -/
def dataPages (size : Nat) (encoding : Encoding) (encode : α → Bytes) :
    (n : Nat) → (acc : List PlannedPage) → (row : Nat) → List α → List PlannedPage
  | 0, acc, _, _ => acc.reverse
  | n + 1, acc, row, as =>
    let run := as.take size
    let page := ⟨.data, run.flatMap encode, run.length, encoding, row⟩
    dataPages size encoding encode n (page :: acc) (row + size) (as.drop size)

/-- The number of runs of `size` values that hold `length` values. -/
def runCount (size length : Nat) : Nat :=
  (length + size - 1) / size

/-- The pages of a column chunk. A column without values has none. -/
def ofValues (c : ColumnValues) (rowLimit : Nat) (useDictionary : Bool) :
    Except Error (List PlannedPage) :=
  let runs := runCount rowLimit c.length
  if c.values.isEmpty then .ok []
  else if useDictionary then do
    let (distinct, indices) ← Dictionary.encode c
    return ⟨.dictionary, distinct.encodePlain, distinct.length, .plain, 0⟩ ::
      dataPages rowLimit .dictionary (fun i => Bytes.ofNat 4 i.toNat) runs [] 0 indices
  else
    .ok (dataPages rowLimit .plain (Plain.encodeValue c.type) runs [] 0 c.values)

end PagePlan

end SealedColumns
