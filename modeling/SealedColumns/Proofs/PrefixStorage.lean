import SealedColumns.Proofs.PrefixAgreement

/-!
# Which prefix is stored

A builder of file properties is called to set a prefix, which has it stored, and to leave the prefix
out of the file. Here the calls are data, so that what is stored can be told from their order: the
last call that is about the prefix decides. In particular, a call that leaves the prefix out is
undone by a later call that sets one, and a file with the later prefix states it.
-/

namespace SealedColumns

namespace EncryptionProperties

namespace Builder

/-- A call to a builder of file properties. -/
inductive Call where
  | withPlaintextFooter (plaintext : Bool)
  | withAlgorithm (algorithm : Algorithm)
  | withFooterKeyMetadata (keyMetadata : Bytes)
  | withFooterKeyId (id : String)
  | withAadPrefix (aadPrefix : Bytes)
  | disableAadPrefixStorage
  | withColumns (columns : List ColumnEncryption)

def perform (b : Builder) : Call → Except Error Builder
  | .withPlaintextFooter plaintext => .ok (b.withPlaintextFooter plaintext)
  | .withAlgorithm algorithm => .ok (b.withAlgorithm algorithm)
  | .withFooterKeyMetadata keyMetadata => b.withFooterKeyMetadata keyMetadata
  | .withFooterKeyId id => b.withFooterKeyId id
  | .withAadPrefix aadPrefix => .ok (b.withAadPrefix aadPrefix)
  | .disableAadPrefixStorage => b.disableAadPrefixStorage
  | .withColumns columns => b.withColumns columns

/-- Performs calls one after the other. The first one that fails takes the builder with it. -/
def performAll (b : Builder) : List Call → Except Error Builder
  | [] => .ok b
  | call :: rest => do performAll (← b.perform call) rest

/-- A call is not about the prefix. To set an empty prefix is to do nothing. -/
def Call.LeavesPrefix : Call → Prop
  | .withAadPrefix aadPrefix => aadPrefix = []
  | .disableAadPrefixStorage => False
  | .withPlaintextFooter _ | .withAlgorithm _ | .withFooterKeyMetadata _ | .withFooterKeyId _
  | .withColumns _ => True

/-- The last call that is about the prefix sets this one. -/
def LastSets (calls : List Call) (own : Bytes) : Prop :=
  ∃ before after, calls = before ++ .withAadPrefix own :: after ∧ own ≠ [] ∧
    ∀ call ∈ after, call.LeavesPrefix

/-- The prefix as far as it is to be stored. -/
def storedPrefix (b : Builder) : Option Bytes :=
  if b.storeAadPrefix then b.aadPrefix else none

variable {b b' : Builder} {call : Call} {calls : List Call} {own : Bytes}

theorem storedPrefix_of_withFooterKeyMetadata {keyMetadata : Bytes}
    (h : b.withFooterKeyMetadata keyMetadata = .ok b') : b'.storedPrefix = b.storedPrefix := by
  rw [withFooterKeyMetadata] at h
  split at h
  · cases h
    rfl
  · split at h
    · cases h
    · cases h
      rfl

theorem storedPrefix_of_withColumns {columns : List ColumnEncryption}
    (h : b.withColumns columns = .ok b') : b'.storedPrefix = b.storedPrefix := by
  rw [withColumns] at h
  split at h
  · cases h
    rfl
  · obtain ⟨_, collecting⟩ := Except.guard_eq_ok.mp h
    obtain ⟨_, _, finished⟩ := Except.bind_eq_ok.mp collecting
    cases Except.pure_eq_ok.mp finished
    rfl

/-- A call that is not about the prefix changes nothing of what is stored, and of the others only
the one that sets a prefix has it stored. -/
theorem storedPrefix_perform (h : b.perform call = .ok b') :
    b'.storedPrefix = some own ↔
      (call = .withAadPrefix own ∧ own ≠ []) ∨ (call.LeavesPrefix ∧ b.storedPrefix = some own) := by
  have kept (leaves : call.LeavesPrefix) (other : ∀ own, own ≠ [] → call ≠ .withAadPrefix own)
      (same : b'.storedPrefix = b.storedPrefix) :
      b'.storedPrefix = some own ↔
        (call = .withAadPrefix own ∧ own ≠ []) ∨
          (call.LeavesPrefix ∧ b.storedPrefix = some own) := by
    rw [same]
    constructor
    · exact fun stored => .inr ⟨leaves, stored⟩
    · rintro (⟨sets, nonempty⟩ | ⟨_, stored⟩)
      · exact absurd sets (other own nonempty)
      · exact stored
  cases call with
  | withPlaintextFooter plaintext =>
      cases h
      exact kept trivial (fun _ _ => by rintro ⟨⟩) rfl
  | withAlgorithm algorithm =>
      cases h
      exact kept trivial (fun _ _ => by rintro ⟨⟩) rfl
  | withFooterKeyMetadata keyMetadata =>
      exact kept trivial (fun _ _ => by rintro ⟨⟩) (storedPrefix_of_withFooterKeyMetadata h)
  | withFooterKeyId id =>
      exact kept trivial (fun _ _ => by rintro ⟨⟩) (storedPrefix_of_withFooterKeyMetadata h)
  | withColumns columns =>
      exact kept trivial (fun _ _ => by rintro ⟨⟩) (storedPrefix_of_withColumns h)
  | disableAadPrefixStorage =>
      rw [perform, disableAadPrefixStorage] at h
      split at h
      · cases h
      · cases h
        constructor
        · rintro ⟨⟩
        · rintro (⟨⟨⟩, _⟩ | ⟨⟨⟩, _⟩)
  | withAadPrefix aadPrefix =>
      cases h
      by_cases empty : aadPrefix = []
      · refine kept empty ?_ ?_
        · rintro own nonempty ⟨⟩
          exact nonempty empty
        · rw [withAadPrefix, if_pos (List.isEmpty_iff.mpr empty)]
      · rw [withAadPrefix, if_neg (mt List.isEmpty_iff.mp empty)]
        constructor
        · rintro ⟨⟩
          exact .inl ⟨rfl, empty⟩
        · rintro (⟨⟨⟩, _⟩ | ⟨leaves, _⟩)
          · rfl
          · exact absurd leaves empty

theorem lastSets_cons :
    LastSets (call :: calls) own ↔
      LastSets calls own ∨
        ((call = .withAadPrefix own ∧ own ≠ []) ∧ ∀ later ∈ calls, later.LeavesPrefix) := by
  constructor
  · rintro ⟨before, after, split, nonempty, leaves⟩
    cases before with
    | nil =>
        obtain ⟨rfl, rfl⟩ := List.cons.inj split
        exact .inr ⟨⟨rfl, nonempty⟩, leaves⟩
    | cons first before =>
        obtain ⟨rfl, rfl⟩ := List.cons.inj split
        exact .inl ⟨before, after, rfl, nonempty, leaves⟩
  · rintro (⟨before, after, rfl, rest⟩ | ⟨⟨rfl, nonempty⟩, leaves⟩)
    · exact ⟨call :: before, after, rfl, rest⟩
    · exact ⟨[], calls, rfl, nonempty, leaves⟩

/-- What is stored after some calls is what the last call about the prefix says, and without such a
call what was stored before. -/
theorem storedPrefix_performAll (h : b.performAll calls = .ok b') :
    b'.storedPrefix = some own ↔
      LastSets calls own ∨ ((∀ call ∈ calls, call.LeavesPrefix) ∧ b.storedPrefix = some own) := by
  induction calls generalizing b with
  | nil =>
      cases h
      constructor
      · intro stored
        exact .inr ⟨fun _ none => absurd none List.not_mem_nil, stored⟩
      · rintro (⟨before, after, split, _⟩ | ⟨_, stored⟩)
        · cases before <;> cases split
        · exact stored
  | cons call calls ih =>
      obtain ⟨middle, first, rest⟩ := Except.bind_eq_ok.mp h
      rw [ih rest, storedPrefix_perform first, lastSets_cons, List.forall_mem_cons]
      constructor
      · rintro (last | ⟨leaves, here | ⟨quiet, stored⟩⟩)
        · exact .inl (.inl last)
        · exact .inl (.inr ⟨here, leaves⟩)
        · exact .inr ⟨⟨quiet, leaves⟩, stored⟩
      · rintro ((last | ⟨here, leaves⟩) | ⟨⟨quiet, leaves⟩, stored⟩)
        · exact .inl last
        · exact .inr ⟨leaves, .inl here⟩
        · exact .inr ⟨leaves, .inr ⟨quiet, stored⟩⟩

/-- Properties that were built from the calls store what the last call about the prefix says. -/
theorem storedPrefix_of_built {footerKey : Bytes} {p : EncryptionProperties}
    (calling : performAll { footerKey } calls = .ok b) (building : b.build = .ok p) :
    (if p.storesAadPrefix then p.aadPrefix else none) = some own ↔ LastSets calls own := by
  obtain ⟨_, _, finished⟩ := Except.bind_eq_ok.mp building
  cases Except.pure_eq_ok.mp finished
  have same : (if b.storeAadPrefix && b.aadPrefix.isSome then b.aadPrefix else none) =
      b.storedPrefix := by
    rw [storedPrefix]
    cases b.storeAadPrefix <;> cases b.aadPrefix <;> rfl
  change (if b.storeAadPrefix && b.aadPrefix.isSome then b.aadPrefix else none) = some own ↔ _
  rw [same, storedPrefix_performAll calling]
  refine ⟨?_, .inl⟩
  rintro (last | ⟨_, ⟨⟩⟩)
  exact last

end Builder

theorem storesAadPrefix_iff {p : EncryptionProperties} :
    p.storesAadPrefix = true ↔
      ∃ own, (if p.storesAadPrefix then p.aadPrefix else none) = some own := by
  rw [storesAadPrefix]
  cases p.storeAadPrefix <;> cases p.aadPrefix <;> simp

end EncryptionProperties

namespace FileWriter

open EncryptionProperties.Builder (Call LastSets performAll)
open Opening (EndsWith DescribesEncryption)

/-- The prefix is stored exactly if the last call to the builder that is about the prefix sets it,
whatever earlier calls have said, and then every file that is finished with the properties states
this prefix in the description of its encryption, which is in plain form. -/
theorem storesPrefix_iff_lastSets {footerKey : Bytes} {calls : List Call}
    {b : EncryptionProperties.Builder} {p : EncryptionProperties}
    (calling : performAll { footerKey } calls = .ok b) (building : b.build = .ok p) :
    (p.storesAadPrefix = true ↔ ∃ own, LastSets calls own) ∧
    ∀ {schema : Schema} {properties : WriterProperties} {groups : List (List ColumnValues)}
      {m : FileMetaData} {w : FileWriter},
      Finished schema properties groups m w → properties.encryption = some p →
      ∃ file front bs mode description behind, release w = (.ok file, w) ∧
        EndsWith file front bs mode ∧
        DescribesEncryption bs description p.footerKeyMetadata behind mode ∧
        ∀ own, description.parameters.aadPrefix = some own ↔ LastSets calls own := by
  have stored (own : Bytes) :
      (if p.storesAadPrefix then p.aadPrefix else none) = some own ↔ LastSets calls own :=
    EncryptionProperties.Builder.storedPrefix_of_built calling building
  constructor
  · rw [EncryptionProperties.storesAadPrefix_iff]
    exact exists_congr stored
  · intro schema properties groups m w finished encrypted
    obtain ⟨encryption, file, same, placed, released⟩ := finished.storedFile
    rw [encrypted, Option.map_eq_some_iff] at same
    obtain ⟨e, rfl, rfl⟩ := same
    obtain ⟨front, bs, mode, behind, ends, described⟩ := Opening.describes_of_stored placed
    exact ⟨file, front, bs, mode, e.description, behind, released, ends, described, stored⟩

end FileWriter

namespace Sample

open EncryptionProperties.Builder (Call)

/-- Calls that set a prefix, leave it out of the file, and then set another one. -/
def changingPrefix : List Call :=
  [.withPlaintextFooter true, .withAlgorithm .gcmCtr, .withAadPrefix [8], .disableAadPrefixStorage,
    .withAadPrefix [9], .withColumns [own, shared]]

/-- Where these calls lead to. -/
def changedPrefix : EncryptionProperties.Builder where
  footerKey := footerKey.bytes
  algorithm := .gcmCtr
  encryptedFooter := false
  aadPrefix := some [9]
  storeAadPrefix := true
  columns := encryption.columns

theorem lastSets_changingPrefix : EncryptionProperties.Builder.LastSets changingPrefix [9] := by
  refine ⟨changingPrefix.take 4, [.withColumns [own, shared]], rfl, by simp, ?_⟩
  intro call hcall
  cases List.mem_singleton.mp hcall
  trivial

end Sample

namespace FileWriter

open EncryptionProperties.Builder (Call LastSets performAll)
open Opening (EndsWith DescribesEncryption)

/-- Although the prefix was to be left out, the file states the one that was set later. -/
theorem storesPrefix_iff_lastSets_sample :
    Call.disableAadPrefixStorage ∈ Sample.changingPrefix ∧
    performAll { footerKey := Sample.footerKey.bytes } Sample.changingPrefix =
      .ok Sample.changedPrefix ∧
    Sample.changedPrefix.build = .ok Sample.encryption ∧
    Sample.encryption.storesAadPrefix = true ∧
    ∃ m w file front bs mode description behind,
      Finished Sample.schema (Sample.properties (some Sample.encryption)) [Sample.columns] m w ∧
      release w = (.ok file, w) ∧ EndsWith file front bs mode ∧
      DescribesEncryption bs description none behind mode ∧
      description.parameters.aadPrefix = some [9] := by
  have disabled : Call.disableAadPrefixStorage ∈ Sample.changingPrefix := by
    simp [Sample.changingPrefix]
  have calling : performAll { footerKey := Sample.footerKey.bytes } Sample.changingPrefix =
      .ok Sample.changedPrefix := rfl
  have building : Sample.changedPrefix.build = .ok Sample.encryption := rfl
  obtain ⟨stores, states⟩ := storesPrefix_iff_lastSets calling building
  obtain ⟨m, w, finished⟩ := Sample.finished
  obtain ⟨file, front, bs, mode, description, behind, released, ends, described, stated⟩ :=
    states finished rfl
  exact ⟨disabled, calling, building, stores.mpr ⟨_, Sample.lastSets_changingPrefix⟩, m, w, file,
    front, bs, mode, description, behind, finished, released, ends, described,
    (stated _).mpr Sample.lastSets_changingPrefix⟩

end FileWriter

end SealedColumns
