import SealedColumns.Text.Blank

/-!
# Column paths

The place of a column in a schema, a list of names. Paths are compared name by name, so
that a path stands before its extensions. `PathMap` is a map with paths as keys that lists
its entries in path order.
-/

namespace SealedColumns

/-- The names that lead to a column. -/
structure ColumnPath where
  /-- The names, outermost first. -/
  parts : List String
  deriving DecidableEq, Hashable

namespace ColumnPath

/-- The path written with dots between its names. A name that itself holds a dot needs `mk`. -/
def ofDotted (s : String) : ColumnPath :=
  ⟨(Text.parts '.' s.toList).map String.ofList⟩

/-- The names joined by dots. -/
def dotted (path : ColumnPath) : String :=
  String.intercalate "." path.parts

/-- The path with more names at its end. -/
def append (path : ColumnPath) (tail : List String) : ColumnPath :=
  ⟨path.parts ++ tail⟩

/-- The last name, empty if there is none. -/
def name (path : ColumnPath) : String :=
  path.parts.getLastD ""

/-- Whether `a` stands before `b`: at the first difference its name is smaller, or it ends there. -/
def precedes (a b : ColumnPath) : Bool :=
  decide (a.parts < b.parts)

/-- The order used for sorting, which keeps equal paths in place. -/
def atMost (a b : ColumnPath) : Bool :=
  !b.precedes a

end ColumnPath

/-- Entries with distinct paths, in path order. -/
structure PathMap (α : Type) where
  /-- The entries, the smallest path first. -/
  entries : List (ColumnPath × α) := []

namespace PathMap

variable {α : Type}

/-- Whether there are no entries. -/
def isEmpty (m : PathMap α) : Bool :=
  m.entries.isEmpty

/-- The entry of a path. -/
def get? (m : PathMap α) (path : ColumnPath) : Option α :=
  m.entries.findSome? fun (p, a) => if p = path then some a else none

/-- Whether a path has an entry. -/
def contains (m : PathMap α) (path : ColumnPath) : Bool :=
  (m.get? path).isSome

/-- Places an entry before the first larger path; an entry of the same path is replaced. -/
def insertEntry (path : ColumnPath) (a : α) : List (ColumnPath × α) → List (ColumnPath × α)
  | [] => [(path, a)]
  | (p, b) :: rest =>
    if p = path then (path, a) :: rest
    else if path.precedes p then (path, a) :: (p, b) :: rest
    else (p, b) :: insertEntry path a rest

/-- Adds an entry or replaces that of the same path. -/
def insert (m : PathMap α) (path : ColumnPath) (a : α) : PathMap α :=
  ⟨insertEntry path a m.entries⟩

/-- The paths, smallest first. -/
def paths (m : PathMap α) : List ColumnPath :=
  m.entries.map Prod.fst

/-- The values, in the order of their paths. -/
def values (m : PathMap α) : List α :=
  m.entries.map Prod.snd

end PathMap

end SealedColumns
