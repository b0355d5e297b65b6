import SealedColumns.Footer.FileMetaData
import SealedColumns.Checked
import Std.Data.HashSet

/-!
# Schemas

A schema is a name and a list of leaf columns with distinct, non-empty paths. Columns are found by
position or by path, and a schema is stored as a list of elements.
-/

namespace SealedColumns

/-- A leaf column. -/
structure Column where
  path : ColumnPath
  type : PhysicalType
  deriving DecidableEq

/-- A name and the leaf columns in file order. -/
structure Schema where
  name : String
  columns : List Column
  deriving DecidableEq

namespace Schema

/-- Fails at the first column whose path is empty or already among `seen` or the columns before
it. -/
def checkColumns : (seen : Std.HashSet ColumnPath) → List Column → Except Error Unit
  | _, [] => .ok ()
  | seen, c :: rest => do
    if c.path.parts.isEmpty then throw .columnPathEmpty
    if seen.contains c.path then throw (.columnRepeated c.path)
    checkColumns (seen.insert c.path) rest

/-- The schema with the given columns. -/
def ofColumns (name : String) (columns : List Column) : Except Error Schema := do
  checkColumns {} columns
  return ⟨name, columns⟩

/-- The number of columns. -/
def numColumns (schema : Schema) : Nat :=
  schema.columns.length

/-- The column at a position. -/
def column (schema : Schema) (i : Nat) : Except Error Column :=
  match schema.columns[i]? with
  | some c => .ok c
  | none => .error (.indexOutOfBound i schema.numColumns)

/-- The position of the column with a path. -/
def indexOf? (schema : Schema) (path : ColumnPath) : Option Nat :=
  schema.columns.findIdx? fun c => c.path = path

/-- The stored form of the columns. -/
def toElements (schema : Schema) : List SchemaElement :=
  schema.columns.map fun c => ⟨c.path.parts, c.type⟩

/-- The schema of a stored form. -/
def ofElements (name : String) (elements : List SchemaElement) : Except Error Schema :=
  match ofColumns name (elements.map fun e => ⟨⟨e.path⟩, e.type⟩) with
  | .ok schema => .ok schema
  | .error cause => .error (.schemaInvalid cause)

end Schema

end SealedColumns
