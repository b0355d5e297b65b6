import SealedColumns.Proofs.Forecast
import SealedColumns.Proofs.StoredFile

/-!
# What is public of settings and metadata

The public part of settings has other keys in place of the real ones. The public part of the
encryption of a file and of the metadata of a file has zeros in place of the bytes that depend on
keys or on what was drawn at random: the identifier of the file, and the metadata of chunks in
sealed form. The number of these bytes is public.

Which modules are sealed, how many bytes sealing adds and how long metadata is in its stored form
are functions of public parts.
-/

namespace SealedColumns

/-- As many zeros. -/
def Bytes.blank (bs : Bytes) : Bytes :=
  List.replicate bs.length 0

@[simp] theorem Bytes.length_blank (bs : Bytes) : bs.blank.length = bs.length :=
  List.length_replicate

theorem Bytes.blank_eq_iff {bs cs : Bytes} : bs.blank = cs.blank ↔ bs.length = cs.length := by
  constructor
  · intro same
    rw [← bs.length_blank, same, cs.length_blank]
  · intro same
    rw [blank, blank, same]

/-! ### Settings -/

/-- A key that stands in for others. -/
def Key.blank : Key :=
  ⟨List.replicate 16 0, by decide⟩

/-- The map with other values. -/
def PathMap.map {α β : Type} (f : α → β) (m : PathMap α) : PathMap β :=
  ⟨m.entries.map fun (path, a) => (path, f a)⟩

theorem PathMap.get?_map {α β : Type} (f : α → β) (m : PathMap α) (path : ColumnPath) :
    (m.map f).get? path = (m.get? path).map f := by
  rw [get?, get?, map, List.findSome?_map, List.map_findSome?]
  congr 1
  funext entry
  dsimp only [Function.comp_apply]
  by_cases here : entry.1 = path
  · rw [if_pos here, if_pos here, Option.map_some]
  · rw [if_neg here, if_neg here, Option.map_none]

/-- Whether the column has a key of its own, and what is stored about it. -/
def ColumnEncryption.publicPart (c : ColumnEncryption) : ColumnEncryption :=
  { c with
    key := c.key.map fun _ => .blank
    usesFooterKey_eq := by simp [c.usesFooterKey_eq] }

/-- The settings apart from the bytes of keys. -/
def EncryptionProperties.publicPart (p : EncryptionProperties) : EncryptionProperties :=
  { p with
    footerKey := .blank
    columns := p.columns.map ColumnEncryption.publicPart }

/-- The settings apart from the bytes of keys. -/
def WriterProperties.publicPart (p : WriterProperties) : WriterProperties :=
  { p with encryption := p.encryption.map EncryptionProperties.publicPart }

/-- The encryption apart from the bytes of keys and of the identifier. -/
def FileEncryption.publicPart (e : FileEncryption) : FileEncryption :=
  ⟨e.properties.publicPart, e.fileUnique.blank⟩

namespace EncryptionProperties

@[simp] theorem publicPart_isUniform (p : EncryptionProperties) :
    p.publicPart.isUniform = p.isUniform := by
  rw [isUniform, isUniform, publicPart, PathMap.isEmpty, PathMap.isEmpty, PathMap.map,
    List.isEmpty_map]

@[simp] theorem publicPart_columnCrypto (p : EncryptionProperties) (path : ColumnPath) :
    p.publicPart.columnCrypto path = p.columnCrypto path := by
  rw [columnCrypto, columnCrypto, publicPart_isUniform]
  by_cases uniform : p.isUniform = true
  · rw [if_pos uniform, if_pos uniform]
  · rw [if_neg uniform, if_neg uniform, publicPart, PathMap.get?_map, Option.map_map]
    rfl

@[simp] theorem publicPart_columnKey_isSome (p : EncryptionProperties) (path : ColumnPath) :
    (p.publicPart.columnKey path).isSome = (p.columnKey path).isSome := by
  rw [columnKey, columnKey, publicPart_isUniform]
  by_cases uniform : p.isUniform = true
  · rw [if_pos uniform, if_pos uniform, Option.isSome_some, Option.isSome_some]
  · rw [if_neg uniform, if_neg uniform, publicPart, PathMap.get?_map, Option.isSome_map,
      Option.isSome_map, Option.isSome_map]

end EncryptionProperties

section

variable {encryption encryption' : Option FileEncryption}

/-- What the file says about the key of a column. -/
theorem chunkCrypto_publicPart (encryption : Option FileEncryption) (path : ColumnPath) :
    chunkCrypto (encryption.map FileEncryption.publicPart) path = chunkCrypto encryption path := by
  cases encryption with
  | none => rfl
  | some e => exact e.properties.publicPart_columnCrypto path

/-- How many bytes sealing adds to a module. -/
theorem sealingOverhead_publicPart (encryption : Option FileEncryption) (rowGroup column : Nat)
    (path : ColumnPath) :
    sealingOverhead (chunkSealing (encryption.map FileEncryption.publicPart) rowGroup column path) =
      sealingOverhead (chunkSealing encryption rowGroup column path) := by
  cases encryption with
  | none => rfl
  | some e =>
      have encrypted := e.properties.publicPart_columnKey_isSome path
      funext moduleClass
      rw [chunkSealing, chunkSealing, Option.map_some, Option.bind_some, Option.bind_some,
        FileEncryption.publicPart]
      cases hkey : e.properties.columnKey path with
      | none =>
          rw [hkey, Option.isSome_none, Option.isSome_eq_false_iff, Option.isNone_iff_eq_none]
            at encrypted
          rw [encrypted, Option.map_none, Option.map_none]
      | some key =>
          rw [hkey, Option.isSome_some, Option.isSome_iff_exists] at encrypted
          obtain ⟨other, hother⟩ := encrypted
          rw [hother, Option.map_some, Option.map_some]
          rfl

/-- Whether the footer is sealed. -/
theorem encryptedFooter_publicPart (encryption : Option FileEncryption) :
    ((encryption.map FileEncryption.publicPart).any fun e => e.properties.encryptedFooter) =
      encryption.any fun e => e.properties.encryptedFooter := by
  cases encryption <;> rfl

end

/-! ### Metadata -/

/-- The description apart from the bytes of the identifier. -/
def EncryptionAlgorithm.publicPart (a : EncryptionAlgorithm) : EncryptionAlgorithm :=
  { a with parameters :=
    { a.parameters with fileUnique := a.parameters.fileUnique.map Bytes.blank } }

/-- The entry apart from the bytes of the metadata in sealed form. -/
def ColumnChunk.publicPart (c : ColumnChunk) : ColumnChunk :=
  { c with encryptedMetaData := c.encryptedMetaData.map Bytes.blank }

/-- The entry apart from the bytes of the metadata of chunks in sealed form. -/
def RowGroup.publicPart (g : RowGroup) : RowGroup :=
  { g with columns := g.columns.map ColumnChunk.publicPart }

/-- The metadata apart from the bytes of the identifier and of the metadata of
chunks in sealed form. -/
def FileMetaData.publicPart (m : FileMetaData) : FileMetaData :=
  { m with
    rowGroups := m.rowGroups.map RowGroup.publicPart
    encryptionAlgorithm := m.encryptionAlgorithm.map EncryptionAlgorithm.publicPart }

/-! ### Lengths in stored form -/

/-- The wire forms of two values are equally long. -/
def EquallyLong {α : Type} [Wire α] (a b : α) : Prop :=
  (Wire.encode a).length = (Wire.encode b).length

namespace EquallyLong

variable {α β : Type} [Wire α] [Wire β]

theorem refl (a : α) : EquallyLong a a := rfl

theorem pair {a a' : α} {b b' : β} (first : EquallyLong a a') (second : EquallyLong b b') :
    EquallyLong (a, b) (a', b') := by
  change (Wire.encode a ++ Wire.encode b).length = (Wire.encode a' ++ Wire.encode b').length
  rw [List.length_append, List.length_append, first, second]

theorem optionMap {f : α → α} (each : ∀ a, EquallyLong (f a) a) (o : Option α) :
    EquallyLong (o.map f) o := by
  cases o with
  | none => exact refl none
  | some a => exact congrArg (· + 1) (each a)

theorem listMap {f : α → α} (each : ∀ a, EquallyLong (f a) a) (as : List α) :
    EquallyLong (as.map f) as := by
  change (Bytes.ofNat 8 (as.map f).length ++ (as.map f).flatMap Wire.encode).length =
    (Bytes.ofNat 8 as.length ++ as.flatMap Wire.encode).length
  simp only [List.length_append, Bytes.length_ofNat, List.length_flatMap, List.map_map]
  congr 3
  funext a
  exact each a

theorem blank (bs : Bytes) : EquallyLong bs.blank bs := by
  change (Bytes.ofNat 8 bs.blank.length ++ bs.blank.flatMap fun b => [b]).length =
    (Bytes.ofNat 8 bs.length ++ bs.flatMap fun b => [b]).length
  simp

end EquallyLong

open EquallyLong (refl pair optionMap listMap blank)

theorem EncryptionAlgorithm.publicPart_equallyLong (a : EncryptionAlgorithm) :
    EquallyLong a.publicPart a :=
  pair (refl a.algorithm) (pair (refl a.parameters.aadPrefix)
    (pair (optionMap blank a.parameters.fileUnique) (refl a.parameters.supplyAadPrefix)))

theorem ColumnChunk.publicPart_equallyLong (c : ColumnChunk) : EquallyLong c.publicPart c :=
  pair (refl c.fileOffset) (pair (refl c.metaData) (pair (refl c.offsetIndexOffset)
    (pair (refl c.offsetIndexLength) (pair (refl c.crypto) (optionMap blank c.encryptedMetaData)))))

theorem RowGroup.publicPart_equallyLong (g : RowGroup) : EquallyLong g.publicPart g :=
  pair (listMap ColumnChunk.publicPart_equallyLong g.columns) (refl (g.totalByteSize, g.numRows,
    g.fileOffset, g.totalCompressedSize, g.ordinal))

theorem FileMetaData.publicPart_equallyLong (m : FileMetaData) : EquallyLong m.publicPart m :=
  pair (refl m.version) (pair (refl m.schemaName) (pair (refl m.schema) (pair (refl m.numRows)
    (pair (listMap RowGroup.publicPart_equallyLong m.rowGroups) (pair (refl m.createdBy)
      (pair (optionMap EncryptionAlgorithm.publicPart_equallyLong m.encryptionAlgorithm)
        (refl m.footerSigningKeyMetadata)))))))

/-- What stands in front of a sealed footer is as long as its public part. -/
theorem FileEncryption.length_cryptoMetaData (e : FileEncryption) :
    EquallyLong e.publicPart.cryptoMetaData e.cryptoMetaData :=
  pair e.description.publicPart_equallyLong (refl e.properties.footerKeyMetadata)

end SealedColumns
