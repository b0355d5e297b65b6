import SealedColumns.Proofs.ExactOpening

/-!
# Sealed modules one behind the other

A module says how long it is, so no module has to know what comes behind it. Reading one takes the
length field and as many bytes as it announces, whoever wrote them: what is read, and whether it is
opened, is decided by these bytes alone. A stream of sealed modules is therefore read back
module by module, each with its own engine, key and associated data, and what follows the last
module is left as it is.
-/

namespace SealedColumns

/-- Reads modules one behind the other, each with what opens it. Returns the plaintexts and the
bytes after the last module. -/
def readSealedAll : List (Bytes → Except Error Bytes) → Bytes → Except Error (List Bytes × Bytes)
  | [], input => return ([], input)
  | openModule :: others, input => do
    let (plaintext, input) ← readSealed openModule input
    let (plaintexts, rest) ← readSealedAll others input
    return (plaintext :: plaintexts, rest)

theorem readSealedAll_cons {openModule : Bytes → Except Error Bytes}
    {others : List (Bytes → Except Error Bytes)} {input between rest plaintext : Bytes}
    {plaintexts : List Bytes} (first : readSealed openModule input = .ok (plaintext, between))
    (following : readSealedAll others between = .ok (plaintexts, rest)) :
    readSealedAll (openModule :: others) input = .ok (plaintext :: plaintexts, rest) :=
  Except.bind_eq_ok.mpr ⟨_, first, Except.bind_eq_ok.mpr ⟨_, following, rfl⟩⟩

/-- A plaintext, what it is sealed with, and a module that it is sealed as. -/
structure SealedPlaintext where
  engine : Engine
  key : Bytes
  aad : Bytes
  plaintext : Bytes
  stored : Bytes
  sealing : engine.SealedAs plaintext key aad stored

namespace SealedPlaintext

/-- A plaintext that is not too long is sealed by an engine for the key. -/
def ofNonce (engine : Engine) (key aad plaintext nonce : Bytes)
    (length : nonce.length = nonceLength) (keyed : key.length = engine.keyLength)
    (short : plaintext.length + engine.sizeDelta < UInt32.size) : SealedPlaintext where
  engine := engine
  key := key
  aad := aad
  plaintext := plaintext
  stored := Bytes.ofNat lengthWidth (plaintext.length + engine.sizeDelta) ++
    (nonce ++ Engine.body engine.mode (Aes.cipher key) nonce aad plaintext)
  sealing := ⟨nonce, length, Engine.encryptWithNonce_eq_ok.mpr ⟨keyed, short, rfl⟩⟩

/-- Opens modules that are sealed like this one. -/
def openModule (m : SealedPlaintext) (sealedModule : Bytes) : Except Error Bytes :=
  m.engine.decrypt sealedModule m.key m.aad

theorem readSealed (m : SealedPlaintext) (rest : Bytes) :
    readSealed m.openModule (m.stored ++ rest) = .ok (m.plaintext, rest) := by
  obtain ⟨nonce, length, sealing⟩ := m.sealing
  obtain ⟨contents, short, framed⟩ := Engine.framed_of_encryptWithNonce length sealing
  have opened : m.openModule m.stored = .ok m.plaintext :=
    Engine.decrypt_of_encryptWithNonce length sealing
  rw [framed] at opened ⊢
  rw [readSealed_append _ short, opened]
  rfl

theorem readSealedAll (modules : List SealedPlaintext) (rest : Bytes) :
    readSealedAll (modules.map openModule) (modules.flatMap stored ++ rest) =
      .ok (modules.map plaintext, rest) := by
  induction modules with
  | nil => rfl
  | cons m modules ih =>
      rw [List.flatMap_cons, List.append_assoc]
      exact readSealedAll_cons (m.readSealed (modules.flatMap stored ++ rest)) ih

end SealedPlaintext

/-- Sealed modules in a row are read back in order, up to what follows them. Whatever opens
modules, one that is read takes the length field and the bytes that it announces, and nothing
else counts for what is read: with any other bytes behind these the plaintext is the same,
and the others are left. -/
theorem readSealed_exact :
    (∀ (modules : List SealedPlaintext) (rest : Bytes),
      readSealedAll (modules.map SealedPlaintext.openModule)
          (modules.flatMap SealedPlaintext.stored ++ rest) =
        .ok (modules.map SealedPlaintext.plaintext, rest)) ∧
    ∀ (openModule : Bytes → Except Error Bytes) (input plaintext rest : Bytes),
      readSealed openModule input = .ok (plaintext, rest) →
        announcedSize input ≤ input.length ∧ rest = input.drop (announcedSize input) ∧
        ∀ tail, readSealed openModule (input.take (announcedSize input) ++ tail) =
          .ok (plaintext, tail) := by
  refine ⟨SealedPlaintext.readSealedAll, ?_⟩
  intro openModule input plaintext rest h
  obtain ⟨long, _, behind⟩ := readSealed_eq_ok_iff.mp h
  exact ⟨long, behind.symm, readSealed_take_append h⟩

namespace Sample

/-- An empty page body in counter mode. -/
def emptyBody : SealedPlaintext :=
  .ofNonce ⟨.ctr, 16⟩ (List.replicate 16 1) [7] [] (List.replicate 12 0) rfl rfl (by decide)

/-- A module with a tag under a longer key. -/
def taggedModule : SealedPlaintext :=
  .ofNonce ⟨.gcm, 32⟩ (List.replicate 32 2) [8] [1, 2, 3] (List.replicate 12 9) rfl rfl (by decide)

end Sample

/-- A module without plaintext in front of one with a tag. -/
theorem readSealed_exact_sample :
    readSealedAll [Sample.emptyBody.openModule, Sample.taggedModule.openModule]
        (Sample.emptyBody.stored ++ (Sample.taggedModule.stored ++ [0xfe, 0xff])) =
      .ok ([[], [1, 2, 3]], [0xfe, 0xff]) ∧
    readSealed Sample.emptyBody.openModule (Sample.emptyBody.stored ++ [0xfe]) =
      .ok ([], [0xfe]) ∧
    announcedSize (Sample.emptyBody.stored ++ [0xfe]) ≤
      (Sample.emptyBody.stored ++ [0xfe]).length := by
  obtain ⟨streamed, consumed⟩ := readSealed_exact
  have read : readSealed Sample.emptyBody.openModule (Sample.emptyBody.stored ++ [0xfe]) =
      .ok ([], [0xfe]) := Sample.emptyBody.readSealed [0xfe]
  refine ⟨?_, read, (consumed _ _ _ _ read).1⟩
  have both := streamed [Sample.emptyBody, Sample.taggedModule] [0xfe, 0xff]
  rw [List.flatMap_cons, List.flatMap_cons, List.flatMap_nil, List.append_nil,
    List.append_assoc] at both
  exact both

end SealedColumns
