import SealedColumns.Wire

/-!
# Physical types, encodings and page kinds

The three closed choices that schemas and page headers are made of. Each is stored as its position
in its list of variants.
-/

namespace SealedColumns

/-- How the values of a column are stored. -/
inductive PhysicalType where
  | boolean
  | int32
  | int64
  | float
  | double
  | byteArray
  deriving DecidableEq, Inhabited

namespace PhysicalType

/-- All physical types, in the order of their stored indices. -/
def all : List PhysicalType :=
  [boolean, int32, int64, float, double, byteArray]

/-- The stored index of a physical type. -/
def index : PhysicalType → Nat
  | boolean => 0
  | int32 => 1
  | int64 => 2
  | float => 3
  | double => 4
  | byteArray => 5

/-- The name of a physical type. -/
def name : PhysicalType → String
  | boolean => "BOOLEAN"
  | int32 => "INT32"
  | int64 => "INT64"
  | float => "FLOAT"
  | double => "DOUBLE"
  | byteArray => "BYTE_ARRAY"

theorem all_index (t : PhysicalType) : all[t.index]? = some t := by
  cases t <;> rfl

instance : Wire PhysicalType :=
  Wire.ofVariants all index

end PhysicalType

/-- How the values of a page are written. -/
inductive Encoding where
  /-- The values one after the other. -/
  | plain
  /-- The positions of the values in the dictionary of the column chunk. -/
  | dictionary
  deriving DecidableEq

namespace Encoding

/-- All encodings, in the order of their stored indices. -/
def all : List Encoding :=
  [plain, dictionary]

/-- The stored index of an encoding. -/
def index : Encoding → Nat
  | plain => 0
  | dictionary => 1

/-- The name of an encoding. -/
def name : Encoding → String
  | plain => "PLAIN"
  | dictionary => "RLE_DICTIONARY"

theorem all_index (e : Encoding) : all[e.index]? = some e := by
  cases e <;> rfl

instance : Wire Encoding :=
  Wire.ofVariants all index

end Encoding

/-- What a page holds. -/
inductive PageKind where
  /-- Values of the column. -/
  | data
  /-- The distinct values that later pages refer to. -/
  | dictionary
  deriving DecidableEq

namespace PageKind

/-- All page kinds, in the order of their stored indices. -/
def all : List PageKind :=
  [data, dictionary]

/-- The stored index of a page kind. -/
def index : PageKind → Nat
  | data => 0
  | dictionary => 1

/-- The name of a page kind. -/
def name : PageKind → String
  | data => "DATA_PAGE"
  | dictionary => "DICTIONARY_PAGE"

theorem all_index (k : PageKind) : all[k.index]? = some k := by
  cases k <;> rfl

instance : Wire PageKind :=
  Wire.ofVariants all index

end PageKind

end SealedColumns
