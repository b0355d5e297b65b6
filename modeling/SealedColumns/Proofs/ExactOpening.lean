import SealedColumns.Proofs.Answers
import SealedColumns.Proofs.OpenedModules

/-!
# An engine opens exactly what it seals

For every key and associated data, an engine opens a byte string if and only if it is the sealed
module of some plaintext, and gives this plaintext. It refuses a key of the wrong length because of
the key, and everything else because the module is not authentic: no byte string, however cut, is
refused for another reason or makes the library break a promise. So opening undoes sealing, and
sealing again under the nonce that a module carries gives the module. The latter is offered for
signatures, and only by engines that append a tag.

That a module is opened does not say who sealed it. Nothing is assumed of the block cipher.
-/

namespace SealedColumns

namespace Except

variable {α β : Type} {e : Error}

/-- A computation fails where its first part fails, or after the value of the first part. -/
theorem bind_eq_error {x : Except Error α} {f : α → Except Error β} :
    (x >>= f) = .error e ↔ x = .error e ∨ ∃ a, x = .ok a ∧ f a = .error e := by
  cases x <;> simp [bind, Except.bind]

theorem guard_eq_error {c : Prop} [Decidable c] {refusal : Error} {f : α → Except Error β}
    {rest : Except Error β} :
    (if c then throw refusal >>= f else rest) = .error e ↔
      c ∧ refusal = e ∨ ¬ c ∧ rest = .error e := by
  by_cases hc : c
  · simp [hc, throw, throwThe, MonadExceptOf.throw, bind, Except.bind]
  · simp [hc]

end Except

/-! ### Broken promises -/

theorem kind_of_subSizes {a b : Nat} {e : Error} (h : subSizes a b = .error e) :
    e.kind = .assertion := by
  rw [subSizes] at h
  split at h
  · cases h
  · cases h
    rfl

theorem Bytes.kind_of_cut {bs : Bytes} {n : Nat} {e : Error} (h : bs.cut n = .error e) :
    e.kind = .assertion := by
  rw [cut] at h
  split at h
  · cases h
  · cases h
    rfl

namespace Engine

variable {engine : Engine} {plaintext key aad nonce sealedModule : Bytes} {e : Error}

/-! ### Refused modules -/

theorem checkKey_of_length (keyed : key.length = engine.keyLength) : engine.checkKey key = .ok () :=
  checkKey_eq_ok.mpr keyed

/-- A key of the wrong length is refused before anything else is looked at. -/
theorem decrypt_of_wrong_key (unkeyed : key.length ≠ engine.keyLength) :
    engine.decrypt sealedModule key aad =
      .error (.engineKeyLength key.length engine.keyLength) := by
  have refused : engine.checkKey key = .error (.engineKeyLength key.length engine.keyLength) :=
    if_neg unkeyed
  rw [decrypt, refused]
  rfl

/-- With the right key a module is refused for one reason only. What it says of its length may be
wrong, or its tag; what is cut off it is always there. -/
theorem kind_of_decrypt_error (keyed : key.length = engine.keyLength)
    (h : engine.decrypt sealedModule key aad = .error e) : e.kind = .authenticationFailure := by
  have promised : e.kind ≠ .assertion := by
    have answered : Answers.Plainly (engine.decrypt sealedModule key aad) := decrypt_answers
    rw [h] at answered
    exact answered
  rw [decrypt, checkKey_of_length keyed, Except.ok_bind] at h
  obtain ⟨_, rfl⟩ | ⟨_, h⟩ := Except.guard_eq_error.mp h
  · rfl
  obtain broken | ⟨⟨field, contents⟩, _, h⟩ := Except.bind_eq_error.mp h
  · exact absurd (Bytes.kind_of_cut broken) promised
  obtain ⟨_, rfl⟩ | ⟨_, h⟩ := Except.guard_eq_error.mp h
  · rfl
  obtain broken | ⟨⟨nonce, body⟩, _, h⟩ := Except.bind_eq_error.mp h
  · exact absurd (Bytes.kind_of_cut broken) promised
  dsimp only at h
  cases hmode : engine.mode with
  | ctr =>
      rw [hmode] at h
      cases h
  | gcm =>
      rw [hmode] at h
      obtain broken | ⟨start, _, h⟩ := Except.bind_eq_error.mp h
      · exact absurd (kind_of_subSizes broken) promised
      obtain broken | ⟨⟨ciphertext, tag⟩, _, h⟩ := Except.bind_eq_error.mp h
      · exact absurd (Bytes.kind_of_cut broken) promised
      dsimp only at h
      cases hopen : Gcm.decrypt? (Aes.cipher key) nonce aad ciphertext tag with
      | some plaintext =>
          rw [hopen] at h
          cases h
      | none =>
          rw [hopen] at h
          cases h
          rfl

/-- The kind of the error tells a wrong key from a module that is not authentic. -/
theorem decrypt_fails_config_iff :
    (∃ e, engine.decrypt sealedModule key aad = .error e ∧ e.kind = .encryptionConfig) ↔
      key.length ≠ engine.keyLength := by
  constructor
  · rintro ⟨e, failed, config⟩ keyed
    rw [kind_of_decrypt_error keyed failed] at config
    cases config
  · intro unkeyed
    exact ⟨_, decrypt_of_wrong_key unkeyed, rfl⟩

/-! ### Sealing under fresh nonces, and under a known one -/

/-- The nonce that a sealed module carries. -/
def carriedNonce (sealedModule : Bytes) : Bytes :=
  (sealedModule.drop lengthWidth).take nonceLength

theorem carriedNonce_of_encryptWithNonce (length : nonce.length = nonceLength)
    (h : engine.encryptWithNonce plaintext key aad nonce = .ok sealedModule) :
    carriedNonce sealedModule = nonce := by
  obtain ⟨_, _, rfl⟩ := encryptWithNonce_eq_ok.mp h
  rw [carriedNonce, List.drop_left' (Bytes.length_ofNat _ _), List.take_left' length]

/-- Sealing again under the nonce that a module carries gives the module, where the engine signs. -/
theorem encryptForSignature_carriedNonce (length : nonce.length = nonceLength)
    (h : engine.encryptWithNonce plaintext key aad nonce = .ok sealedModule) :
    engine.encryptForSignature plaintext key aad (carriedNonce sealedModule) =
      if engine.mode = .gcm then .ok sealedModule else .error .signingNeedsGcm := by
  rw [carriedNonce_of_encryptWithNonce length h, encryptForSignature]
  by_cases signs : engine.mode = .gcm
  · simp [signs, length, h]
  · simp [signs]
    rfl

/-- With the right key, every plaintext that is not too long is sealed if a nonce can be drawn. -/
theorem exists_encrypt (keyed : key.length = engine.keyLength)
    (short : plaintext.length + engine.sizeDelta < UInt32.size) {source : RandomSource}
    (enough : source.has nonceLength = true) :
    ∃ sealedModule after, engine.encrypt plaintext key aad source = (.ok sealedModule, after) := by
  have sealing : engine.encryptWithNonce plaintext key aad (source.upcoming nonceLength) = .ok _ :=
    encryptWithNonce_eq_ok.mpr ⟨keyed, short, rfl⟩
  rw [encrypt_run, if_pos enough, sealing]
  exact ⟨_, _, rfl⟩

/-- What was sealed under a fresh nonce is opened again. -/
theorem decrypt_of_encrypt {source after : RandomSource}
    (h : engine.encrypt plaintext key aad source = (.ok sealedModule, after)) :
    engine.decrypt sealedModule key aad = .ok plaintext := by
  rw [encrypt_run] at h
  split at h
  · obtain ⟨sealing, _⟩ := Prod.mk.inj h
    exact decrypt_of_encryptWithNonce (RandomSource.length_upcoming _ _) sealing
  · cases h

/-! ### What engines guarantee -/

/-- The module is what sealing the plaintext gives under some nonce. -/
def SealedAs (engine : Engine) (plaintext key aad sealedModule : Bytes) : Prop :=
  ∃ nonce, nonce.length = nonceLength ∧
    engine.encryptWithNonce plaintext key aad nonce = .ok sealedModule

/-- How sealing and opening under a key and associated data belong together. -/
structure OpensWhatItSeals (engine : Engine) (key aad : Bytes) : Prop where
  /-- What is opened is the sealed modules, each to its plaintext. -/
  opens : ∀ sealedModule plaintext, engine.decrypt sealedModule key aad = .ok plaintext ↔
    engine.SealedAs plaintext key aad sealedModule
  /-- A key is refused for its length, whatever it is used on. -/
  refusesKey : ∀ sealedModule,
    (∃ e, engine.decrypt sealedModule key aad = .error e ∧ e.kind = .encryptionConfig) ↔
      key.length ≠ engine.keyLength
  /-- Whatever is not a sealed module is refused as not authentic. -/
  refusesModule : ∀ sealedModule, key.length = engine.keyLength →
    (∀ plaintext, ¬ engine.SealedAs plaintext key aad sealedModule) →
    ∃ e, engine.decrypt sealedModule key aad = .error e ∧ e.kind = .authenticationFailure
  /-- Plaintexts are sealed, unless they are too long or there is no nonce for them. -/
  sealable : ∀ plaintext source, key.length = engine.keyLength →
    plaintext.length + engine.sizeDelta < UInt32.size → source.has nonceLength = true →
    ∃ sealedModule after, engine.encrypt plaintext key aad source = (.ok sealedModule, after)
  /-- Opening undoes sealing. -/
  inverse : ∀ plaintext source sealedModule after,
    engine.encrypt plaintext key aad source = (.ok sealedModule, after) →
    engine.decrypt sealedModule key aad = .ok plaintext
  /-- Signing under the nonce of a module gives the module, and is refused in counter mode. -/
  signs : ∀ plaintext sealedModule, engine.SealedAs plaintext key aad sealedModule →
    engine.encryptForSignature plaintext key aad (carriedNonce sealedModule) =
      if engine.mode = .gcm then .ok sealedModule else .error .signingNeedsGcm

theorem opensWhatItSeals (engine : Engine) (key aad : Bytes) :
    engine.OpensWhatItSeals key aad := by
  constructor
  · intro sealedModule plaintext
    exact decrypt_eq_ok
  · intro sealedModule
    exact decrypt_fails_config_iff
  · intro sealedModule keyed unsealed
    cases opened : engine.decrypt sealedModule key aad with
    | ok plaintext => exact absurd (decrypt_eq_ok.mp opened) (unsealed plaintext)
    | error e => exact ⟨e, rfl, kind_of_decrypt_error keyed opened⟩
  · intro plaintext source keyed short enough
    exact exists_encrypt keyed short enough
  · intro plaintext source sealedModule after run
    exact decrypt_of_encrypt run
  · rintro plaintext sealedModule ⟨nonce, length, sealing⟩
    exact encryptForSignature_carriedNonce length sealing

/-- There is an engine for every algorithm, class of modules and length of keys. It opens what it
seals, and signs unless it seals data in counter mode. -/
theorem create_opensWhatItSeals (algorithm : Algorithm) {keyLength : Nat}
    (valid : ValidKeyLength keyLength) (moduleClass : ModuleClass) :
    ∃ engine, create algorithm keyLength moduleClass = .ok engine ∧
      engine.keyLength = keyLength ∧
      (engine.mode = .ctr ↔ algorithm = .gcmCtr ∧ moduleClass = .data) ∧
      ∀ key aad, engine.OpensWhatItSeals key aad := by
  refine ⟨⟨.of algorithm moduleClass, keyLength⟩, ?_, rfl, ?_, opensWhatItSeals _⟩
  · rw [create, checkKeyLength, if_pos valid]
    rfl
  · cases algorithm <;> cases moduleClass <;> simp [CipherMode.of]

theorem create_opensWhatItSeals_sample : ValidKeyLength 24 ∧
    ∃ engine, create .gcm 24 .metadata = .ok engine ∧ engine.mode ≠ .ctr ∧
      ∀ key aad, engine.OpensWhatItSeals key aad := by
  have valid : ValidKeyLength 24 := by decide
  obtain ⟨engine, created, _, counter, exact⟩ := create_opensWhatItSeals .gcm valid .metadata
  refine ⟨valid, engine, created, ?_, exact⟩
  intro mode
  cases (counter.mp mode).1

/-- An engine that seals data in counter mode does not seal its modules again on request. -/
theorem counterMode_does_not_sign :
    ¬ ∀ algorithm keyLength moduleClass engine,
      create algorithm keyLength moduleClass = .ok engine →
      ∀ plaintext key aad sealedModule, engine.SealedAs plaintext key aad sealedModule →
        engine.encryptForSignature plaintext key aad (carriedNonce sealedModule) =
          .ok sealedModule := by
  intro signs
  let key : Bytes := List.replicate 16 0x30
  let nonce : Bytes := List.replicate 12 0
  have sealing : (⟨.ctr, 16⟩ : Engine).SealedAs [] key [] ([12, 0, 0, 0] ++ nonce) :=
    ⟨nonce, rfl, rfl⟩
  have signed := signs .gcmCtr 16 .data ⟨.ctr, 16⟩ rfl [] key [] _ sealing
  cases signed

end Engine

end SealedColumns
