import SealedColumns.Encryption.ColumnSealer
import SealedColumns.Footer.FileMetaData
import SealedColumns.Proofs.StoredPages
import SealedColumns.Writer.Properties

/-!
# Stored column chunks and their entries

What a file holds of a column, independently of who wrote it. The metadata of a chunk tells where
its pages are, and the entry of the chunk in the footer names the key of the column and shows the
metadata: in sealed form, in plain form or both. A column with a key of its own always has the
sealed form, and this form is what a reader with decryption properties goes by.
-/

namespace SealedColumns

namespace EncryptionProperties

variable {p : EncryptionProperties} {path : ColumnPath}

/-- A file names a key for exactly the columns that are encrypted. -/
theorem columnCrypto_eq_none_iff : p.columnCrypto path = none ↔ p.columnKey path = none := by
  rw [columnCrypto, columnKey]
  split <;> simp

/-- A column that is said to have the footer key is sealed with it. -/
theorem columnKey_of_footerKey (h : p.columnCrypto path = some .footerKey) :
    p.columnKey path = some p.footerKey := by
  rw [columnCrypto] at h
  rw [columnKey]
  split
  · rfl
  · next columns =>
    rw [if_neg columns, Option.map_eq_some_iff] at h
    obtain ⟨c, found, crypto⟩ := h
    have absent : c.key = none := by
      by_contra present
      rw [if_neg (by simpa [c.usesFooterKey_eq] using present)] at crypto
      cases crypto
    rw [found, Option.map_some, absent, Option.getD_none]

/-- A column that is said to have a key of its own is sealed with that key, and what is stored with
it is the metadata of that key. -/
theorem columnKey_of_ownKey {info : ColumnKeyInfo}
    (h : p.columnCrypto path = some (.columnKey info)) :
    ∃ c key, p.columns.get? path = some c ∧ c.key = some key ∧ p.columnKey path = some key ∧
      info = ⟨path.parts, c.keyMetadata⟩ := by
  rw [columnCrypto] at h
  split at h
  · cases h
  · next columns =>
    rw [Option.map_eq_some_iff] at h
    obtain ⟨c, found, crypto⟩ := h
    split at crypto
    · cases crypto
    · next own =>
      cases crypto
      rw [c.usesFooterKey_eq, Bool.not_eq_true, Option.isNone_eq_false_iff] at own
      obtain ⟨key, hkey⟩ := Option.isSome_iff_exists.mp own
      refine ⟨c, key, found, hkey, ?_, rfl⟩
      rw [columnKey, if_neg columns, found, Option.map_some, hkey, Option.getD_some]

/-- A column with a key of its own is said to have one. -/
theorem columnCrypto_of_ownKey {c : ColumnEncryption} {key : Key}
    (found : p.columns.get? path = some c) (hkey : c.key = some key) :
    p.columnCrypto path = some (.columnKey ⟨path.parts, c.keyMetadata⟩) := by
  have columns : ¬ p.isUniform = true := by
    intro empty
    rw [PathMap.get?, List.isEmpty_iff.mp empty] at found
    cases found
  rw [columnCrypto, if_neg columns, found, Option.map_some, c.usesFooterKey_eq, hkey]
  rfl

end EncryptionProperties

/-- What a column chunk is sealed with, if the file and the column are encrypted. -/
def chunkSealing (encryption : Option FileEncryption) (rowGroup column : Nat) (path : ColumnPath) :
    Option ChunkSealing :=
  encryption.bind fun e => (e.properties.columnKey path).map fun key =>
    ⟨e.properties.algorithm, key, e.fileAad, rowGroup, column⟩

/-- What a file says about the key of a column, if the file and the column are encrypted. -/
def chunkCrypto (encryption : Option FileEncryption) (path : ColumnPath) : Option ColumnCrypto :=
  encryption.bind fun e => e.properties.columnCrypto path

/-- The metadata of a column appears in sealed form only: the footer is sealed, and the column
has a key of its own. -/
def SealedOnly (encryption : Option FileEncryption) (path : ColumnPath) : Prop :=
  (encryption.any fun e => e.properties.encryptedFooter) = true ∧
    ∃ info, chunkCrypto encryption path = some (.columnKey info)

/-- The metadata of a column appears in sealed form, alone or beside the plain form: the column is
encrypted, and if the footer is sealed then the column has a key of its own. -/
def HasSealedForm (encryption : Option FileEncryption) (path : ColumnPath) : Prop :=
  chunkCrypto encryption path ≠ none ∧
    ((encryption.any fun e => e.properties.encryptedFooter) = true →
      ∃ info, chunkCrypto encryption path = some (.columnKey info))

/-- A chunk is sealed if and only if the file names a key for it. -/
theorem chunkSealing_eq_none_iff {encryption : Option FileEncryption} {rowGroup column : Nat}
    {path : ColumnPath} :
    chunkSealing encryption rowGroup column path = none ↔ chunkCrypto encryption path = none := by
  cases encryption with
  | none => exact ⟨fun _ => rfl, fun _ => rfl⟩
  | some e =>
      simp only [chunkSealing, chunkCrypto, Option.bind_some, Option.map_eq_none_iff,
        EncryptionProperties.columnCrypto_eq_none_iff]

theorem eq_of_chunkSealing {e : FileEncryption} {rowGroup column : Nat} {path : ColumnPath}
    {s : ChunkSealing} (h : chunkSealing (some e) rowGroup column path = some s) :
    e.properties.columnKey path = some s.key ∧
      s = ⟨e.properties.algorithm, s.key, e.fileAad, rowGroup, column⟩ := by
  rw [chunkSealing, Option.bind_some, Option.map_eq_some_iff] at h
  obtain ⟨key, hkey, rfl⟩ := h
  exact ⟨hkey, rfl⟩

/-- The metadata of a chunk tells where in a file the pages with the given values are. -/
inductive StoredChunk (sealing : Option ChunkSealing) (file : Bytes) (c : ColumnValues)
    (m : ColumnMetaData) : Prop where
  | intro {before bytes after : Bytes} {dictionary : Option PlannedPage} {data : List PlannedPage}
      {rows : Nat}
      (file_eq : file = before ++ (bytes ++ after))
      (holds : PagePlan.Holds c.type c.values rows dictionary data)
      (stored : StoredPages sealing 0 (dictionary.toList ++ data) bytes)
      (type : m.type = c.type)
      (numValues : m.numValues.toInt = rows)
      (size : m.totalCompressedSize.toInt = bytes.length)
      (start : (m.dictionaryPageOffset.getD m.dataPageOffset).toInt = before.length)
      (dataPage : 0 ≤ m.dataPageOffset.toInt)
      (dictionaryPage : m.dictionaryPageOffset.isSome = dictionary.isSome)

/-- The entry of a chunk in the footer names the key and shows the metadata. -/
structure ChunkEntry (encryption : Option FileEncryption) (rowGroup ordinal : Nat)
    (path : ColumnPath)
    (m : ColumnMetaData) (c : ColumnChunk) : Prop where
  crypto : c.crypto = chunkCrypto encryption path
  shown : ∀ other ∈ c.metaData, other = m
  plain : c.encryptedMetaData = none → c.metaData = some m
  sealedForm : ∀ module ∈ c.encryptedMetaData, c.crypto.isSome ∧
    StoredModule (chunkSealing encryption rowGroup ordinal path) .metadata .columnMetaData none
      (Wire.encode m) module
  ownKey : ∀ info, c.crypto = some (.columnKey info) → c.encryptedMetaData.isSome

/-- The entry of a chunk has the metadata in each form that is due. -/
structure EntryForms (encryption : Option FileEncryption) (path : ColumnPath) (c : ColumnChunk) :
    Prop where
  plain : c.metaData = none ↔ SealedOnly encryption path
  inSealedForm : c.encryptedMetaData ≠ none ↔ HasSealedForm encryption path

section

variable {encryption : Option FileEncryption} {rowGroup ordinal : Nat} {path : ColumnPath}
variable {m : ColumnMetaData} {c : ColumnChunk}

/-- An entry that shows the metadata in plain form only. -/
theorem ChunkEntry.of_plain (crypto : c.crypto = chunkCrypto encryption path)
    (absent : c.encryptedMetaData = none) (plain : c.metaData = some m)
    (shared : ∀ info, c.crypto ≠ some (.columnKey info)) :
    ChunkEntry encryption rowGroup ordinal path m c where
  crypto := crypto
  shown other ho := by
    rw [plain] at ho
    exact (Option.mem_some.mp ho).symm
  plain _ := plain
  sealedForm module hm := by
    rw [absent] at hm
    cases hm
  ownKey info own := absurd own (shared info)

/-- An entry that shows the metadata in sealed form. -/
theorem ChunkEntry.of_sealed {module : Bytes} (crypto : c.crypto = chunkCrypto encryption path)
    (plain : ∀ other ∈ c.metaData, other = m)
    (shown : c.encryptedMetaData = some module) (named : c.crypto.isSome)
    (stored : StoredModule (chunkSealing encryption rowGroup ordinal path) .metadata .columnMetaData
      none (Wire.encode m) module) :
    ChunkEntry encryption rowGroup ordinal path m c where
  crypto := crypto
  shown := plain
  plain absent := by
    rw [shown] at absent
    cases absent
  sealedForm other ho := by
    rw [shown] at ho
    cases ho
    exact ⟨named, stored⟩
  ownKey _ _ := by
    rw [shown]
    rfl

end

/-- The chunk of a column is in the file, and its entry shows where. -/
def StoredColumn (encryption : Option FileEncryption) (file : Bytes) (rowGroup ordinal : Nat)
    (path : ColumnPath) (values : ColumnValues) (c : ColumnChunk) : Prop :=
  ∃ m, ChunkEntry encryption rowGroup ordinal path m c ∧
    StoredChunk (chunkSealing encryption rowGroup ordinal path) file values m

/-- The values of a column as they are read back. -/
def ColumnValues.stored (c : ColumnValues) (useDictionary : Bool) : ColumnValues :=
  ⟨c.type, PagePlan.storedValues c useDictionary⟩

/-- A row group is in the file: one chunk for each column, read back as far as the dictionaries
allow. -/
structure StoredRowGroup (properties : WriterProperties) (encryption : Option FileEncryption)
    (file : Bytes) (index : Nat) (columns : List (Column × ColumnValues))
    (g : RowGroup) : Prop where
  length : g.columns.length = columns.length
  ordinal : g.ordinal = int16? index
  chunk : ∀ j column values, columns[j]? = some (column, values) → values.type = column.type ∧
    ∃ c, g.columns[j]? = some c ∧
      StoredColumn encryption file index j column.path
        (values.stored (properties.usesDictionary column.path)) c

end SealedColumns
