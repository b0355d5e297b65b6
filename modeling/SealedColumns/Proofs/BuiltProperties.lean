import SealedColumns.Proofs.Operation
import SealedColumns.Decryption.Properties

/-!
# Properties that come from builders

Encryption properties are made by calls to a builder. What the builders check or ignore on the way
holds of all properties that they build: stored key metadata is never empty, there is no empty
prefix, and none is stored that was not set. Both builders are taken call by call, and columns enter
file properties only as built ones, each under its own path and only once. The builder of decryption
properties ignores empty prefixes in the same way.
-/

namespace SealedColumns

namespace PathMap

variable {α : Type} {m : PathMap α} {path : ColumnPath} {a : α}

theorem mem_of_insertEntry {entries : List (ColumnPath × α)} {entry : ColumnPath × α}
    (h : entry ∈ insertEntry path a entries) : entry = (path, a) ∨ entry ∈ entries := by
  induction entries with
  | nil => exact .inl (List.mem_singleton.mp h)
  | cons first rest ih =>
      obtain ⟨p, b⟩ := first
      rw [insertEntry] at h
      split at h
      · obtain rfl | old := List.mem_cons.mp h
        · exact .inl rfl
        · exact .inr (List.mem_cons_of_mem _ old)
      · split at h
        · exact List.mem_cons.mp h
        · obtain rfl | old := List.mem_cons.mp h
          · exact .inr List.mem_cons_self
          · exact (ih old).imp_right (List.mem_cons_of_mem _)

theorem mem_of_get? (h : m.get? path = some a) : (path, a) ∈ m.entries := by
  obtain ⟨⟨p, b⟩, hmem, found⟩ := List.exists_of_findSome?_eq_some h
  dsimp only at found
  split at found
  · next same =>
    cases found
    rwa [same] at hmem
  · cases found

theorem get?_cons (path : ColumnPath) (entry : ColumnPath × α) (entries : List (ColumnPath × α)) :
    get? ⟨entry :: entries⟩ path =
      if entry.1 = path then some entry.2 else get? ⟨entries⟩ path := by
  obtain ⟨p, a⟩ := entry
  rw [get?, get?, List.findSome?_cons]
  by_cases same : p = path
  · simp only [if_pos same]
  · simp only [if_neg same]

/-- An entry that was added is found, wherever the others stand. -/
theorem get?_insert_self (m : PathMap α) (path : ColumnPath) (a : α) :
    (m.insert path a).get? path = some a := by
  obtain ⟨entries⟩ := m
  rw [insert]
  induction entries with
  | nil => rw [insertEntry, get?_cons, if_pos rfl]
  | cons first rest ih =>
      obtain ⟨p, b⟩ := first
      rw [insertEntry]
      split
      · rw [get?_cons, if_pos rfl]
      · next other =>
        split
        · rw [get?_cons, if_pos rfl]
        · rw [get?_cons, if_neg other, ih]

theorem get?_insert_of_ne (m : PathMap α) {path other : ColumnPath} (a : α) (ne : path ≠ other) :
    (m.insert path a).get? other = m.get? other := by
  obtain ⟨entries⟩ := m
  rw [insert]
  induction entries with
  | nil => rw [insertEntry, get?_cons, if_neg ne]
  | cons first rest ih =>
      obtain ⟨p, b⟩ := first
      rw [insertEntry]
      split
      · next same => rw [get?_cons, get?_cons, if_neg ne, if_neg (same ▸ ne)]
      · split
        · rw [get?_cons, if_neg ne]
        · rw [get?_cons, get?_cons, ih]

/-- Every entry is the one that is found under its path, so that no two have the same path. -/
def Exact (m : PathMap α) : Prop :=
  ∀ entry ∈ m.entries, m.get? entry.1 = some entry.2

theorem exact_empty : Exact ({} : PathMap α) :=
  fun _ none => absurd none List.not_mem_nil

/-- Nothing is hidden by an entry for a path that had none. -/
theorem Exact.insert (h : m.Exact) (absent : m.contains path = false) (a : α) :
    (m.insert path a).Exact := by
  intro entry hentry
  obtain rfl | old := mem_of_insertEntry hentry
  · exact m.get?_insert_self path a
  · have found := h entry old
    have ne : path ≠ entry.1 := by
      rintro rfl
      rw [contains, found] at absent
      cases absent
    rw [get?_insert_of_ne m a ne, found]

end PathMap

namespace ColumnEncryption

namespace Builder

/-- The states that calls to a column builder lead to. -/
inductive Reached : Builder → Prop where
  | start (path : ColumnPath) : Reached { path }
  | withKey {b : Builder} (h : Reached b) (key : Bytes) : Reached (b.withKey key)
  | withKeyMetadata {b b' : Builder} (h : Reached b) (keyMetadata : Bytes)
      (call : b.withKeyMetadata keyMetadata = .ok b') : Reached b'
  | withKeyId {b b' : Builder} (h : Reached b) (id : String) (call : b.withKeyId id = .ok b') :
      Reached b'

theorem withKeyMetadata_nonempty {b b' : Builder} {keyMetadata : Bytes}
    (before : ∀ bs ∈ b.keyMetadata, bs ≠ []) (call : b.withKeyMetadata keyMetadata = .ok b') :
    ∀ bs ∈ b'.keyMetadata, bs ≠ [] := by
  rw [withKeyMetadata] at call
  split at call
  · cases call
    exact before
  · next given =>
    split at call
    · cases call
    · cases call
      rintro _ ⟨⟩
      rwa [List.isEmpty_iff] at given

theorem Reached.metadata_nonempty {b : Builder}
    (h : Reached b) : ∀ bs ∈ b.keyMetadata, bs ≠ [] := by
  induction h with
  | start path =>
      rintro _ ⟨⟩
  | @withKey b _ key ih =>
      have same : (b.withKey key).keyMetadata = b.keyMetadata := by
        rw [Builder.withKey]
        split <;> rfl
      rwa [same]
  | withKeyMetadata _ _ call ih => exact withKeyMetadata_nonempty ih call
  | withKeyId _ _ call ih => exact withKeyMetadata_nonempty ih call

end Builder

/-- Column properties that come from a builder. -/
def Built (c : ColumnEncryption) : Prop :=
  ∃ b : Builder, b.Reached ∧ b.build = .ok c

theorem Built.metadata_nonempty {c : ColumnEncryption} (h : c.Built) :
    ∀ bs ∈ c.keyMetadata, bs ≠ [] := by
  obtain ⟨b, reached, build⟩ := h
  obtain ⟨_, _, rest⟩ := Except.bind_eq_ok.mp build
  obtain ⟨_, finished⟩ := Except.guard_eq_ok.mp rest
  cases Except.pure_eq_ok.mp finished
  exact reached.metadata_nonempty

end ColumnEncryption

/-- Collecting properties adds nothing but the properties, each under its own path. -/
theorem mem_of_collectColumns {α : Type} {role : PropertyRole} {path : α → ColumnPath}
    {m m' : PathMap α} {as : List α} (h : collectColumns role path m as = .ok m')
    {entry : ColumnPath × α} (hentry : entry ∈ m'.entries) :
    entry ∈ m.entries ∨ entry.2 ∈ as ∧ entry.1 = path entry.2 := by
  induction as generalizing m with
  | nil =>
      cases h
      exact .inl hentry
  | cons a as ih =>
      rw [collectColumns] at h
      split at h
      · cases h
      · obtain old | ⟨new, keyed⟩ := ih h
        · obtain rfl | older := PathMap.mem_of_insertEntry old
          · exact .inr ⟨List.mem_cons_self, rfl⟩
          · exact .inl older
        · exact .inr ⟨List.mem_cons_of_mem _ new, keyed⟩

/-- Properties are collected only as long as no path has two of them. -/
theorem exact_of_collectColumns {α : Type} {role : PropertyRole} {path : α → ColumnPath}
    {m m' : PathMap α} {as : List α} (h : collectColumns role path m as = .ok m')
    (exact : m.Exact) : m'.Exact := by
  induction as generalizing m with
  | nil =>
      cases h
      exact exact
  | cons a as ih =>
      rw [collectColumns] at h
      split at h
      · cases h
      · next absent => exact ih h (exact.insert (Bool.eq_false_iff.mpr absent) a)

namespace EncryptionProperties

namespace Builder

/-- The states that calls to a file builder lead to. -/
inductive Reached : Builder → Prop where
  | start (footerKey : Bytes) : Reached { footerKey }
  | withPlaintextFooter {b : Builder} (h : Reached b) (plaintext : Bool) :
      Reached (b.withPlaintextFooter plaintext)
  | withAlgorithm {b : Builder} (h : Reached b) (algorithm : Algorithm) :
      Reached (b.withAlgorithm algorithm)
  | withFooterKeyMetadata {b b' : Builder} (h : Reached b) (keyMetadata : Bytes)
      (call : b.withFooterKeyMetadata keyMetadata = .ok b') : Reached b'
  | withFooterKeyId {b b' : Builder} (h : Reached b) (id : String)
      (call : b.withFooterKeyId id = .ok b') : Reached b'
  | withAadPrefix {b : Builder} (h : Reached b) (aadPrefix : Bytes) :
      Reached (b.withAadPrefix aadPrefix)
  | disableAadPrefixStorage {b b' : Builder} (h : Reached b)
      (call : b.disableAadPrefixStorage = .ok b') : Reached b'
  | withColumns {b b' : Builder} (h : Reached b) (columns : List ColumnEncryption)
      (built : ∀ c ∈ columns, c.Built) (call : b.withColumns columns = .ok b') : Reached b'

/-- What all states of a builder have in common: there is no empty key metadata and no
empty prefix, a prefix that is to be stored was set, and all columns were built and stand
under their own paths. -/
structure Sound (b : Builder) : Prop where
  footer : ∀ bs ∈ b.footerKeyMetadata, bs ≠ []
  aadPrefix : ∀ bs ∈ b.aadPrefix, bs ≠ []
  stored : b.storeAadPrefix = true → b.aadPrefix.isSome = true
  columns : ∀ entry ∈ b.columns.entries, entry.2.Built ∧ entry.1 = entry.2.path
  distinct : b.columns.Exact

theorem Sound.withFooterKeyMetadata {b b' : Builder} {keyMetadata : Bytes} (h : b.Sound)
    (call : b.withFooterKeyMetadata keyMetadata = .ok b') : b'.Sound := by
  rw [Builder.withFooterKeyMetadata] at call
  split at call
  · cases call
    exact h
  · next given =>
    split at call
    · cases call
    · cases call
      refine { h with footer := ?_ }
      rintro _ ⟨⟩
      rwa [List.isEmpty_iff] at given

theorem Sound.withAadPrefix {b : Builder} (h : b.Sound) (aadPrefix : Bytes) :
    (b.withAadPrefix aadPrefix).Sound := by
  rw [Builder.withAadPrefix]
  split
  · exact h
  · next given =>
    refine { h with aadPrefix := ?_, stored := fun _ => rfl }
    rintro _ ⟨⟩
    rwa [List.isEmpty_iff] at given

theorem Sound.withColumns {b b' : Builder} {columns : List ColumnEncryption} (h : b.Sound)
    (built : ∀ c ∈ columns, c.Built) (call : b.withColumns columns = .ok b') : b'.Sound := by
  rw [Builder.withColumns] at call
  split at call
  · cases call
    exact h
  · split at call
    · cases call
    · obtain ⟨collected, collecting, finished⟩ := Except.bind_eq_ok.mp call
      cases Except.pure_eq_ok.mp finished
      refine { h with columns := ?_, distinct := exact_of_collectColumns collecting h.distinct }
      intro entry hentry
      obtain old | ⟨new, keyed⟩ := mem_of_collectColumns collecting hentry
      · exact h.columns entry old
      · exact ⟨built _ new, keyed⟩

theorem Reached.sound {b : Builder} (h : Reached b) : b.Sound := by
  induction h with
  | start footerKey =>
      refine ⟨?_, ?_, by rintro ⟨⟩, fun _ none => absurd none List.not_mem_nil, PathMap.exact_empty⟩
      · rintro _ ⟨⟩
      · rintro _ ⟨⟩
  | withPlaintextFooter _ _ ih => exact { ih with }
  | withAlgorithm _ _ ih => exact { ih with }
  | withFooterKeyMetadata _ _ call ih => exact ih.withFooterKeyMetadata call
  | withFooterKeyId _ _ call ih => exact ih.withFooterKeyMetadata call
  | withAadPrefix _ aadPrefix ih => exact ih.withAadPrefix aadPrefix
  | disableAadPrefixStorage _ call ih =>
      rw [Builder.disableAadPrefixStorage] at call
      split at call
      · cases call
      · cases call
        exact { ih with stored := by rintro ⟨⟩ }
  | withColumns _ _ built call ih => exact ih.withColumns built call

end Builder

/-- File properties that come from a builder. -/
def Built (p : EncryptionProperties) : Prop :=
  ∃ b : Builder, b.Reached ∧ b.build = .ok p

/-- Stored key metadata is never empty. -/
structure MetadataNonempty (p : EncryptionProperties) : Prop where
  footer : ∀ bs ∈ p.footerKeyMetadata, bs ≠ []
  column : ∀ path c, p.columns.get? path = some c → ∀ bs ∈ c.keyMetadata, bs ≠ []

/-- Properties are the last state of their builder, with a footer key that was checked. -/
theorem Built.exists_sound {p : EncryptionProperties} (h : p.Built) :
    ∃ b : Builder, b.Sound ∧ p = { b with footerKey := p.footerKey } := by
  obtain ⟨b, reached, build⟩ := h
  obtain ⟨_, _, finished⟩ := Except.bind_eq_ok.mp build
  cases Except.pure_eq_ok.mp finished
  exact ⟨b, reached.sound, rfl⟩

variable {p : EncryptionProperties} {path : ColumnPath} {c : ColumnEncryption}

theorem Built.column_built (h : p.Built) (hc : c ∈ p.columns.values) : c.Built := by
  obtain ⟨b, sound, same⟩ := h.exists_sound
  obtain ⟨entry, hentry, rfl⟩ := List.mem_map.mp hc
  rw [same] at hentry
  exact (sound.columns entry hentry).1

/-- The columns are found under their own paths. -/
theorem Built.get?_eq_some_iff (h : p.Built) :
    p.columns.get? path = some c ↔ c ∈ p.columns.values ∧ c.path = path := by
  obtain ⟨b, sound, same⟩ := h.exists_sound
  have columns : p.columns = b.columns := by rw [same]
  rw [columns]
  constructor
  · intro found
    have listed := PathMap.mem_of_get? found
    exact ⟨List.mem_map_of_mem listed, (sound.columns _ listed).2.symm⟩
  · rintro ⟨hc, rfl⟩
    obtain ⟨entry, hentry, rfl⟩ := List.mem_map.mp hc
    rw [← (sound.columns entry hentry).2]
    exact sound.distinct entry hentry

/-- The builders see to it that there is no empty key metadata. -/
theorem Built.metadataNonempty (h : p.Built) : p.MetadataNonempty := by
  refine ⟨?_,
    fun path c found => (h.column_built (h.get?_eq_some_iff.mp found).1).metadata_nonempty⟩
  obtain ⟨b, sound, same⟩ := h.exists_sound
  rw [same]
  exact sound.footer

theorem Built.aadPrefix_nonempty (h : p.Built) : ∀ bs ∈ p.aadPrefix, bs ≠ [] := by
  obtain ⟨b, sound, same⟩ := h.exists_sound
  rw [same]
  exact sound.aadPrefix

end EncryptionProperties

namespace DecryptionProperties

namespace Builder

/-- The states that calls to a builder of a reader's properties lead to. -/
inductive Reached : Builder → Prop where
  | start : Reached {}
  | withFooterKey {b : Builder} (h : Reached b) (key : Bytes) : Reached (b.withFooterKey key)
  | withColumns {b b' : Builder} (h : Reached b) (columns : List ColumnDecryption)
      (call : b.withColumns columns = .ok b') : Reached b'
  | withKeyRetriever {b : Builder} (h : Reached b) (retriever : KeyRetriever) :
      Reached (b.withKeyRetriever retriever)
  | disableFooterSignatureCheck {b : Builder} (h : Reached b) :
      Reached b.disableFooterSignatureCheck
  | withAadPrefix {b : Builder} (h : Reached b) (aadPrefix : Bytes) :
      Reached (b.withAadPrefix aadPrefix)
  | withAadPrefixVerifier {b : Builder} (h : Reached b) (verifier : AadPrefixVerifier) :
      Reached (b.withAadPrefixVerifier verifier)

theorem aadPrefix_of_withColumns {b b' : Builder} {columns : List ColumnDecryption}
    (call : b.withColumns columns = .ok b') : b'.aadPrefix = b.aadPrefix := by
  rw [Builder.withColumns] at call
  split at call
  · cases call
    rfl
  · obtain ⟨_, collecting⟩ := Except.guard_eq_ok.mp call
    obtain ⟨_, _, finished⟩ := Except.bind_eq_ok.mp collecting
    cases Except.pure_eq_ok.mp finished
    rfl

theorem Reached.aadPrefix_nonempty {b : Builder} (h : Reached b) : ∀ bs ∈ b.aadPrefix, bs ≠ [] := by
  induction h with
  | start =>
      rintro _ ⟨⟩
  | withFooterKey _ _ ih =>
      rw [Builder.withFooterKey]
      split <;> exact ih
  | withColumns _ _ call ih => rwa [aadPrefix_of_withColumns call]
  | withKeyRetriever _ _ ih => exact ih
  | disableFooterSignatureCheck _ ih => exact ih
  | withAadPrefix _ _ ih =>
      rw [Builder.withAadPrefix]
      split
      · exact ih
      · next given =>
        rintro _ ⟨⟩
        rwa [List.isEmpty_iff] at given
  | withAadPrefixVerifier _ _ ih => exact ih

end Builder

/-- A reader's properties that come from a builder. -/
def Built (r : DecryptionProperties) : Prop :=
  ∃ b : Builder, b.Reached ∧ b.build = .ok r

theorem Built.aadPrefix_nonempty {r : DecryptionProperties} (h : r.Built) :
    ∀ bs ∈ r.aadPrefix, bs ≠ [] := by
  obtain ⟨b, reached, build⟩ := h
  obtain ⟨_, _, finished⟩ := Except.bind_eq_ok.mp build
  cases Except.pure_eq_ok.mp finished
  exact reached.aadPrefix_nonempty

end DecryptionProperties

/-! ### Properties to try theorems on -/

namespace Sample

def footerKey : Key :=
  ⟨List.replicate 16 1, by decide⟩

def ownKey : Key :=
  ⟨List.replicate 32 2, by decide⟩

/-- The column's own key is to be retrieved with the metadata `[5]`. -/
def own : ColumnEncryption where
  path := ⟨["own"]⟩
  isEncrypted := true
  usesFooterKey := false
  key := some ownKey
  keyMetadata := some [5]

def shared : ColumnEncryption where
  path := ⟨["shared"]⟩
  isEncrypted := true
  usesFooterKey := true
  key := none
  keyMetadata := none

def encryption : EncryptionProperties where
  algorithm := .gcmCtr
  encryptedFooter := false
  footerKey := footerKey
  footerKeyMetadata := none
  aadPrefix := some [9]
  storeAadPrefix := true
  columns := ⟨[(own.path, own), (shared.path, shared)]⟩

theorem built : encryption.Built := by
  have columns : ∀ c ∈ [own, shared], c.Built := by
    have first : own.Built :=
      ⟨_, .withKeyMetadata (.withKey (.start ⟨["own"]⟩) ownKey.bytes) [5] rfl, rfl⟩
    have second : shared.Built := ⟨_, .start ⟨["shared"]⟩, rfl⟩
    simp [first, second]
  exact ⟨_, .withColumns (.withAlgorithm (.withPlaintextFooter (.withAadPrefix
    (.start footerKey.bytes) [9]) true) .gcmCtr) _ columns rfl, rfl⟩

theorem own_of_get? {path : ColumnPath} {c : ColumnEncryption} {key : Key}
    (found : encryption.columns.get? path = some c) (hkey : c.key = some key) :
    path = own.path ∧ c.keyMetadata = some [5] ∧ key = ownKey := by
  obtain first | rest := List.mem_cons.mp (PathMap.mem_of_get? found)
  · cases first
    cases hkey
    exact ⟨rfl, rfl, rfl⟩
  · cases List.mem_singleton.mp rest
    cases hkey

end Sample

end SealedColumns
