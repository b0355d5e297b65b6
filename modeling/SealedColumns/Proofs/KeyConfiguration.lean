import SealedColumns.Proofs.BuiltProperties
import SealedColumns.Proofs.ConfiguredWriters
import SealedColumns.Proofs.Sessions

/-!
# Errors about keys come before writing

Builders of encryption properties take any bytes as keys and check them in the end. What is built is
therefore well configured, whatever calls led to it, and a writer that was created with it meets no
error about the configuration any more: not when it takes engines for the keys, and not when the
engines look at the keys again for every module.
-/

namespace SealedColumns

/-- A column has the key that its builder was given, if any; key metadata
without a key are refused. -/
theorem ColumnEncryption.Builder.key_of_build {b : Builder} {c : ColumnEncryption}
    (build : b.build = .ok c) :
    c.key.map Key.bytes = b.key ∧ (c.keyMetadata.isSome = true → c.key.isSome = true) := by
  obtain ⟨key, checked, rest⟩ := Except.bind_eq_ok.mp build
  obtain ⟨together, finished⟩ := Except.guard_eq_ok.mp rest
  cases Except.pure_eq_ok.mp finished
  constructor
  · cases given : b.key with
    | none =>
        rw [given] at checked
        cases checked
        rfl
    | some bytes =>
        rw [given] at checked
        obtain ⟨key, valid, rfl⟩ := Except.map_eq_ok.mp checked
        exact congrArg some (Key.bytes_of_ofBytes valid)
  · intro metadata
    by_contra absent
    rw [Bool.not_eq_true, Option.isSome_eq_false_iff] at absent
    exact together (by rw [absent, metadata]; rfl)

/-- A key has one of three lengths. -/
theorem Key.length_mem (key : Key) : key.bytes.length ∈ [16, 24, 32] := by
  obtain short | middle | long := key.valid
  · simp [short]
  · simp [middle]
  · simp [long]

namespace EncryptionProperties

/-- What is settled once properties are built. -/
structure WellConfigured (p : EncryptionProperties) : Prop where
  footerKey : p.footerKey.bytes.length ∈ [16, 24, 32]
  /-- Every column was built, and has the key that its builder was given. -/
  given : ∀ c ∈ p.columns.values, ∃ b : ColumnEncryption.Builder,
    b.Reached ∧ b.build = .ok c ∧ c.key.map Key.bytes = b.key
  columnKey : ∀ c ∈ p.columns.values, ∀ key ∈ c.key, key.bytes.length ∈ [16, 24, 32]
  /-- Metadata of a key come with the key. -/
  ownKey : ∀ c ∈ p.columns.values, c.keyMetadata.isSome = true → c.key.isSome = true
  aadPrefix : ∀ bs ∈ p.aadPrefix, bs ≠ []
  footerKeyMetadata : ∀ bs ∈ p.footerKeyMetadata, bs ≠ []
  columnKeyMetadata : ∀ c ∈ p.columns.values, ∀ bs ∈ c.keyMetadata, bs ≠ []
  ownPath : ∀ entry ∈ p.columns.entries, entry.1 = entry.2.path
  storedPrefix : p.storeAadPrefix = true → p.aadPrefix.isSome = true

variable {p : EncryptionProperties}

theorem Built.wellConfigured (h : p.Built) : p.WellConfigured := by
  obtain ⟨b, sound, same⟩ := h.exists_sound
  refine ⟨p.footerKey.length_mem, ?_, fun _ _ key _ => key.length_mem, ?_, h.aadPrefix_nonempty,
    h.metadataNonempty.footer, fun c hc => (h.column_built hc).metadata_nonempty, ?_, ?_⟩
  · intro c hc
    obtain ⟨column, reached, build⟩ := h.column_built hc
    exact ⟨column, reached, build, (ColumnEncryption.Builder.key_of_build build).1⟩
  · intro c hc
    obtain ⟨column, _, build⟩ := h.column_built hc
    exact (ColumnEncryption.Builder.key_of_build build).2
  · rw [same]
    exact fun entry hentry => (sound.columns entry hentry).2
  · rw [same]
    exact sound.stored

/-- A builder that was called in any way builds well configured properties with the key that it was
given, if it builds any, and no run of a writer that is created with them has a call that fails with
an error about the configuration. -/
theorem Builder.Reached.build_settles {b : Builder} (reached : b.Reached)
    (build : b.build = .ok p) :
    p.footerKey.bytes = b.footerKey ∧ p.WellConfigured ∧
      ∀ schema (properties : WriterProperties) random sink w, properties.encryption = some p →
        FileWriter.create schema properties random sink = .ok w →
        ∀ (calls : List FileWriter.Call) (call : FileWriter.Call) (e : Error),
          (FileWriter.call call (w.afterCalls calls)).1 = .error e →
            e.kind ≠ .encryptionConfig := by
  refine ⟨?_, Built.wellConfigured ⟨b, reached, build⟩, ?_⟩
  · obtain ⟨key, checked, finished⟩ := Except.bind_eq_ok.mp build
    cases Except.pure_eq_ok.mp finished
    exact Key.bytes_of_ofBytes checked
  · intro schema properties random sink w _ _ calls call e failed
    have result := (FileWriter.call_unblamed call (w.afterCalls calls) trivial).1
    rwa [failed] at result

end EncryptionProperties

/-- A writer refuses row groups without columns, for a reason other than the configuration. -/
theorem EncryptionProperties.Builder.Reached.build_settles_sample :
    ∃ b : EncryptionProperties.Builder, b.Reached ∧ b.build = .ok Sample.encryption ∧
      Sample.footerKey.bytes = b.footerKey ∧ Sample.encryption.WellConfigured ∧
      ∃ w, FileWriter.create Sample.schema (Sample.properties (some Sample.encryption))
          Sample.random = .ok w ∧
        ∃ e, (FileWriter.call (.writeRowGroup []) (w.afterCalls [.writeRowGroup []])).1 = .error e ∧
          e.kind ≠ .encryptionConfig := by
  obtain ⟨b, reached, build⟩ := Sample.built
  obtain ⟨given, configured, unblamed⟩ := reached.build_settles build
  have runs : ((FileWriter.create Sample.schema (Sample.properties (some Sample.encryption))
      Sample.random).toOption.any fun w =>
        (FileWriter.call (.writeRowGroup []) (w.afterCalls [.writeRowGroup []])).1.isOk = false) =
          true := by
    rfl
  obtain ⟨w, created, fails⟩ := Except.exists_of_any runs
  refine ⟨b, reached, build, given, configured, w, created, ?_⟩
  have blameless := unblamed _ _ _ _ w rfl created [.writeRowGroup []] (.writeRowGroup [])
  generalize (FileWriter.call (.writeRowGroup []) (w.afterCalls [.writeRowGroup []])).1 = result
    at fails blameless
  cases result with
  | ok u => cases of_decide_eq_true fails
  | error e => exact ⟨e, rfl, blameless e rfl⟩

end SealedColumns
