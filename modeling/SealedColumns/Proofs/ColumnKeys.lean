import SealedColumns.Proofs.BuiltProperties
import SealedColumns.Proofs.ColumnSealers
import SealedColumns.Proofs.Sessions
import SealedColumns.Proofs.StoredChunks

/-!
# What is decided about a column

Whether a column is encrypted, what seals its metadata and its pages, what the footer says about its
key and which key a reader takes are decided in different places, each from the properties of the
file and the path of the column. `ColumnAgreement` says that the decisions belong together. There
are three cases: the column is left alone, or the footer key protects it, or a key of its own.

A writer takes the engines of the handles from a pool, which plays no part in the
decisions. A reader has to be able to find its keys at all: its session is open and
remembers no other footer key.
-/

namespace SealedColumns

namespace EncryptionProperties

variable {p : EncryptionProperties} {path : ColumnPath} {c : ColumnEncryption} {key : Key}

/-- The footer key is to protect the column: it protects all columns, or the column was configured
without a key of its own. -/
def SharesFooterKey (p : EncryptionProperties) (path : ColumnPath) : Prop :=
  p.isUniform = true ∨ ∃ c ∈ p.columns.values, c.path = path ∧ c.key = none

/-- The column was configured with a key of its own. -/
structure HasOwnKey (p : EncryptionProperties) (path : ColumnPath) (c : ColumnEncryption)
    (key : Key) : Prop where
  configured : c ∈ p.columns.values
  path_eq : c.path = path
  key_eq : c.key = some key

/-- A column is encrypted if there is a key for it. -/
theorem encryptsColumn_eq_isSome (p : EncryptionProperties) (path : ColumnPath) :
    p.encryptsColumn path = (p.columnKey path).isSome := by
  rw [encryptsColumn, columnKey]
  cases p.isUniform with
  | true => rfl
  | false => exact Option.isSome_map.symm

theorem columnCrypto_isSome (p : EncryptionProperties) (path : ColumnPath) :
    (p.columnCrypto path).isSome = (p.columnKey path).isSome := by
  rw [Bool.eq_iff_iff, Option.isSome_iff_ne_none, Option.isSome_iff_ne_none]
  exact not_congr columnCrypto_eq_none_iff

/-- The footer names the footer key for the columns that it is to protect. -/
theorem Built.columnCrypto_eq_footerKey_iff (h : p.Built) :
    p.columnCrypto path = some .footerKey ↔ p.SharesFooterKey path := by
  rw [columnCrypto, SharesFooterKey]
  cases uniform : p.isUniform with
  | true => exact ⟨fun _ => .inl rfl, fun _ => rfl⟩
  | false =>
      rw [if_neg Bool.false_ne_true, Option.map_eq_some_iff]
      constructor
      · rintro ⟨c, found, named⟩
        obtain ⟨configured, same⟩ := h.get?_eq_some_iff.mp found
        refine .inr ⟨c, configured, same, ?_⟩
        split at named
        · next shared => exact Option.isNone_iff_eq_none.mp (c.usesFooterKey_eq.symm.trans shared)
        · cases named
      · rintro (impossible | ⟨c, configured, same, shared⟩)
        · cases impossible
        refine ⟨c, h.get?_eq_some_iff.mpr ⟨configured, same⟩, ?_⟩
        rw [c.usesFooterKey_eq, shared]
        rfl

/-- The footer names a column's own key where one was configured, by the column's path and
with the key's metadata. -/
theorem Built.columnCrypto_eq_columnKey_iff (h : p.Built) {info : ColumnKeyInfo} :
    p.columnCrypto path = some (.columnKey info) ↔
      ∃ c key, p.HasOwnKey path c key ∧ info = ⟨c.path.parts, c.keyMetadata⟩ := by
  constructor
  · intro named
    obtain ⟨c, key, found, hkey, _, rfl⟩ := columnKey_of_ownKey named
    obtain ⟨configured, rfl⟩ := h.get?_eq_some_iff.mp found
    exact ⟨c, key, ⟨configured, rfl, hkey⟩, rfl⟩
  · rintro ⟨c, key, ⟨configured, rfl, hkey⟩, rfl⟩
    exact columnCrypto_of_ownKey (h.get?_eq_some_iff.mpr ⟨configured, rfl⟩) hkey

theorem Built.columnKey_of_hasOwnKey (h : p.Built) (own : p.HasOwnKey path c key) :
    p.columnKey path = some key := by
  have found := h.get?_eq_some_iff.mpr ⟨own.configured, own.path_eq⟩
  obtain ⟨c', key', found', hkey', sealedWith, _⟩ :=
    columnKey_of_ownKey (columnCrypto_of_ownKey found own.key_eq)
  cases found.symm.trans found'
  cases own.key_eq.symm.trans hkey'
  exact sealedWith

end EncryptionProperties

/-- A reader brings along the footer key and the keys of all columns that have one of their own. -/
structure DecryptionProperties.BringsKeysOf (r : DecryptionProperties) (p : EncryptionProperties) :
    Prop where
  footerKey : r.footerKey = some p.footerKey
  columnKey : ∀ path c key, p.HasOwnKey path c key → r.columnKey path = some key

/-- The key that the footer names is found by a reader that brought it along. -/
theorem FileDecryption.columnKey_of_brought {d : FileDecryption} {p : EncryptionProperties}
    {path : ColumnPath} {crypto : ColumnCrypto} {key : Key} (built : p.Built)
    (brings : d.properties.BringsKeysOf p) (named : p.columnCrypto path = some crypto)
    (sealedWith : p.columnKey path = some key) :
    Yields (ReadState.Keeps (some p.footerKey)) (d.columnKey path crypto) (· = .ok key) := by
  cases crypto with
  | footerKey =>
      cases (EncryptionProperties.columnKey_of_footerKey named).symm.trans sealedWith
      refine columnKey_footerKey (footerKey_of_finds (.brought brings.footerKey) fun absent => ?_)
      rw [brings.footerKey] at absent
      cases absent
  | columnKey info =>
      obtain ⟨c, key', own, rfl⟩ := built.columnCrypto_eq_columnKey_iff.mp named
      cases (built.columnKey_of_hasOwnKey own).symm.trans sealedWith
      refine columnKey_of_finds (.brought (brings.columnKey path c _ own)) ?_
      exact (built.column_built own.configured).metadata_nonempty

/-- The decisions about a column, given what comes of asking for the handles of its
metadata and of its pages. -/
structure ColumnAgreement (e : FileEncryption) (path : ColumnPath)
    (metadata data : Except Error (Option ModuleSealer)) : Prop where
  handles_iff : e.properties.encryptsColumn path = true ↔
    (∃ handle, metadata = .ok (some handle)) ∧ ∃ handle, data = .ok (some handle)
  described_iff : e.properties.encryptsColumn path = true ↔
    (e.properties.columnCrypto path).isSome = true
  leftAlone : e.properties.encryptsColumn path = false → metadata = .ok none ∧ data = .ok none
  footerKey_iff : e.properties.columnCrypto path = some .footerKey ↔
    e.properties.SharesFooterKey path
  underFooterKey : e.properties.SharesFooterKey path →
    metadata = .ok (some (e.properties.footerKey.sealer e.properties.algorithm .metadata)) ∧
      data = .ok (some (e.properties.footerKey.sealer e.properties.algorithm .data))
  columnKey_iff : ∀ info, e.properties.columnCrypto path = some (.columnKey info) ↔
    ∃ c key, e.properties.HasOwnKey path c key ∧ info = ⟨c.path.parts, c.keyMetadata⟩
  underOwnKey : ∀ c key, e.properties.HasOwnKey path c key →
    metadata = .ok (some (key.sealer e.properties.algorithm .metadata)) ∧
      data = .ok (some (key.sealer e.properties.algorithm .data))
  /-- A reader with the same keys takes the key that the handles hold. -/
  resolved : ∀ (d : FileDecryption) (s : ReadState) (crypto : ColumnCrypto),
    d.properties.BringsKeysOf e.properties → s.Keeps (some e.properties.footerKey) →
    e.properties.columnCrypto path = some crypto →
    ∃ key, (d.columnKey path crypto s).1 = .ok key ∧
      ∀ handle, metadata = .ok (some handle) ∨ data = .ok (some handle) → handle.key = key

/-- All decisions about a column agree, for every column of a file with built properties and
whatever engines were made before. -/
theorem FileEncryption.columnAgreement_of_built (e : FileEncryption) (built : e.properties.Built)
    (path : ColumnPath) (pool pool' : EnginePool) :
    ColumnAgreement e path (e.columnSealer? path .metadata pool).1
      (e.columnSealer? path .data pool').1 := by
  rw [(e.columnSealer?_yields path .metadata pool trivial).1,
    (e.columnSealer?_yields path .data pool' trivial).1]
  refine ⟨?_, ?_, ?_, built.columnCrypto_eq_footerKey_iff, ?_,
    fun _ => built.columnCrypto_eq_columnKey_iff, ?_, ?_⟩
  · rw [EncryptionProperties.encryptsColumn_eq_isSome]
    cases e.properties.columnKey path with
    | none => simp
    | some key => simp
  · rw [EncryptionProperties.encryptsColumn_eq_isSome, EncryptionProperties.columnCrypto_isSome]
  · rw [EncryptionProperties.encryptsColumn_eq_isSome, Option.isSome_eq_false_iff,
      Option.isNone_iff_eq_none]
    intro absent
    rw [absent]
    exact ⟨rfl, rfl⟩
  · intro shares
    have named := built.columnCrypto_eq_footerKey_iff.mpr shares
    rw [EncryptionProperties.columnKey_of_footerKey named]
    exact ⟨rfl, rfl⟩
  · intro c key own
    rw [built.columnKey_of_hasOwnKey own]
    exact ⟨rfl, rfl⟩
  · intro d s crypto brings keeps named
    have encrypted : (e.properties.columnKey path).isSome = true := by
      rw [← EncryptionProperties.columnCrypto_isSome, named]
      rfl
    obtain ⟨key, sealedWith⟩ := Option.isSome_iff_exists.mp encrypted
    refine ⟨key, (FileDecryption.columnKey_of_brought built brings named sealedWith s keeps).1, ?_⟩
    rw [sealedWith]
    rintro handle (held | held)
    · cases held
      rfl
    · cases held
      rfl

namespace Sample

/-- A reader with the footer key and the only key of a column, and without a retriever. -/
def keyed : DecryptionProperties where
  footerKey := some footerKey
  columns := ⟨[(own.path, ⟨own.path, some ownKey⟩)]⟩
  keyRetriever := none
  checkFooterSignature := true
  aadPrefix := none
  aadPrefixVerifier := none

theorem bringsKeys : keyed.BringsKeysOf encryption where
  footerKey := rfl
  columnKey path c key has := by
    have found := built.get?_eq_some_iff.mpr ⟨has.configured, has.path_eq⟩
    obtain ⟨rfl, _, rfl⟩ := own_of_get? found has.key_eq
    rfl

end Sample

/-- A column has a key of its own, and a reader that brought it along takes it. -/
theorem FileEncryption.columnAgreement_of_built_sample : Sample.encryption.Built ∧
    ColumnAgreement ⟨Sample.encryption, [7]⟩ Sample.own.path
      (.ok (some (Sample.ownKey.sealer .gcmCtr .metadata)))
      (.ok (some (Sample.ownKey.sealer .gcmCtr .data))) ∧
    (FileDecryption.columnKey ⟨Sample.keyed, .gcmCtr, [9, 7], none⟩ Sample.own.path
      (.columnKey ⟨["own"], some [5]⟩) {}).1 = .ok Sample.ownKey := by
  have agreement : ColumnAgreement ⟨Sample.encryption, [7]⟩ Sample.own.path
      (.ok (some (Sample.ownKey.sealer .gcmCtr .metadata)))
      (.ok (some (Sample.ownKey.sealer .gcmCtr .data))) :=
    columnAgreement_of_built ⟨Sample.encryption, [7]⟩ Sample.built Sample.own.path {} {}
  obtain ⟨key, found, same⟩ := agreement.resolved ⟨Sample.keyed, .gcmCtr, [9, 7], none⟩ {} _
    Sample.bringsKeys (.start _) rfl
  obtain rfl : Sample.ownKey = key := same _ (.inl rfl)
  exact ⟨Sample.built, agreement, found⟩

end SealedColumns
