import SealedColumns.Checked

/-!
# Key rings

A key retriever finds a key by the metadata that the writer stored for it. Key rings hold their keys
in memory: one kind knows them by text, the other by numbers of 32 bits stored in four bytes.
-/

namespace SealedColumns

/-- Finds the bytes of a key by its metadata. -/
abbrev KeyRetriever := Bytes → Except Error Bytes

/-- Keys by identifiers; a later entry takes the place of an earlier one. -/
structure KeyRing (ι : Type) where
  /-- The entries, latest first. -/
  entries : List (ι × Bytes) := []

namespace KeyRing

variable {ι : Type} [BEq ι]

/-- Adds or replaces a key. -/
def put (ring : KeyRing ι) (id : ι) (key : Bytes) : KeyRing ι :=
  ⟨(id, key) :: ring.entries⟩

/-- The key with an identifier. -/
def get? (ring : KeyRing ι) (id : ι) : Option Bytes :=
  ring.entries.lookup id

/-- Finds keys whose metadata is the text of their identifier. -/
def textRetriever (ring : KeyRing String) : KeyRetriever := fun keyMetadata =>
  match Utf8.decode keyMetadata with
  | .error fault => .error (.keyIdNotText fault)
  | .ok id =>
    match ring.get? id with
    | some key => .ok key
    | none => .error (.unknownTextKeyId id)

/-- The metadata of the key with a number. -/
def numericKeyMetadata (id : UInt32) : Bytes :=
  Bytes.ofNat 4 id.toNat

/-- Finds keys whose metadata is their number. -/
def numericRetriever (ring : KeyRing UInt32) : KeyRetriever := fun keyMetadata =>
  if keyMetadata.length ≠ 4 then .error (.keyIdLength keyMetadata.length)
  else
    let id := Bytes.toNat keyMetadata
    match ring.get? (UInt32.ofNat id) with
    | some key => .ok key
    | none => .error (.unknownNumericKeyId id)

end KeyRing

end SealedColumns
