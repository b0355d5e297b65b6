import SealedColumns.Schema.PhysicalType

/-!
# Pages

A column chunk is a sequence of pages, each behind its header: at most one dictionary page, then
data pages. The offset index of a chunk says where its data pages are.
-/

namespace SealedColumns

/-- A page with its body in plain form. -/
structure Page where
  kind : PageKind
  body : Bytes
  numValues : UInt32
  encoding : Encoding
  deriving DecidableEq

/-- What stands in front of a page. -/
structure PageHeader where
  kind : PageKind
  /-- The length of the body before encryption. -/
  uncompressedSize : Int32
  /-- The length of the body as stored. -/
  compressedSize : Int32
  numValues : Int32
  encoding : Encoding
  deriving DecidableEq

instance : Wire PageHeader :=
  Wire.ofEquivalent (α := PageKind × Int32 × Int32 × Int32 × Encoding)
    (fun h => (h.kind, h.uncompressedSize, h.compressedSize, h.numValues, h.encoding))
    (fun (k, u, c, n, e) => ⟨k, u, c, n, e⟩)

/-- Where a data page is. -/
structure PageLocation where
  /-- Where the header of the page starts in the file. -/
  offset : Int64
  /-- The length of header and body as stored. -/
  compressedSize : Int32
  /-- The row of the first value of the page, counted from the start of the row group. -/
  firstRowIndex : Int64
  deriving DecidableEq

instance : Wire PageLocation :=
  Wire.ofEquivalent (α := Int64 × Int32 × Int64)
    (fun l => (l.offset, l.compressedSize, l.firstRowIndex)) (fun (o, c, f) => ⟨o, c, f⟩)

/-- The locations of the data pages of a column chunk, in order. -/
structure OffsetIndex where
  pageLocations : List PageLocation
  deriving DecidableEq

instance : Wire OffsetIndex :=
  Wire.ofEquivalent (α := List PageLocation) (fun i => i.pageLocations) (fun l => ⟨l⟩)

end SealedColumns
