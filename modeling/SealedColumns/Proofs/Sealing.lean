import SealedColumns.Decryption.SealedStream
import SealedColumns.Encryption.ColumnSealer
import SealedColumns.Proofs.Checked

/-!
# Sealed modules are opened again

Counter mode undoes itself, so opening a sealed module under the key and the associated data it was
sealed with gives the plaintext back, in both cipher modes and for every nonce. Nothing about the
block cipher is used: the statements hold of any block function that stands in its place.

A request is met by every sealed module that some nonce gives for it. Such a module announces its
own length, and is therefore found again at the front of any byte string that starts with it.
-/

namespace SealedColumns

namespace Counter

theorem length_keystream (f : Block → Block) (nonce : Bytes) (start : UInt32) (n : Nat) :
    (keystream f nonce start n).length = 16 * n := by
  induction n with
  | zero => rfl
  | succ n ih =>
      simp only [keystream, List.range_succ, List.flatMap_append, List.length_append] at ih ⊢
      rw [ih]
      simp only [List.flatMap_cons, List.flatMap_nil, List.append_nil, Block.length_toBytes]
      omega

theorem length_le_keystream (f : Block → Block) (nonce : Bytes) (start : UInt32) (length : Nat) :
    length ≤ (keystream f nonce start (Block.count length)).length := by
  rw [length_keystream, Block.count]
  omega

@[simp] theorem length_apply (f : Block → Block) (nonce : Bytes) (start : UInt32) (data : Bytes) :
    (apply f nonce start data).length = data.length := by
  rw [apply, List.length_zipWith]
  exact Nat.min_eq_left (length_le_keystream f nonce start data.length)

theorem zipWith_xor_twice (data stream : Bytes) (h : data.length ≤ stream.length) :
    (data.zipWith (· ^^^ ·) stream).zipWith (· ^^^ ·) stream = data := by
  induction data generalizing stream with
  | nil => rfl
  | cons b data ih =>
      cases stream with
      | nil => cases h
      | cons s stream =>
          simp only [List.zipWith_cons_cons, List.cons.injEq]
          exact ⟨by rw [UInt8.xor_assoc, UInt8.xor_self, UInt8.xor_zero],
            ih stream (Nat.le_of_succ_le_succ h)⟩

/-- Combining twice with the same keystream changes nothing. -/
theorem apply_apply (f : Block → Block) (nonce : Bytes) (start : UInt32) (data : Bytes) :
    apply f nonce start (apply f nonce start data) = data := by
  have enough := length_le_keystream f nonce start data.length
  rw [apply, length_apply]
  exact zipWith_xor_twice data _ enough

end Counter

@[simp] theorem RandomSource.length_upcoming (source : RandomSource) (n : Nat) :
    (source.upcoming n).length = n := by
  simp [RandomSource.upcoming]

namespace Engine

variable {engine : Engine} {plaintext key aad nonce sealedModule : Bytes}

/-- Sealing under a fresh nonce is sealing under the next bytes of the source. -/
theorem encrypt_run (engine : Engine) (plaintext key aad : Bytes) (source : RandomSource) :
    engine.encrypt plaintext key aad source =
      if source.has nonceLength then
        (engine.encryptWithNonce plaintext key aad (source.upcoming nonceLength),
          { source with position := source.position + nonceLength })
      else (.error .randomnessExhausted, source) := by
  rw [encrypt, Operation.run_bind, RandomSource.draw]
  by_cases enough : source.has nonceLength = true
  · rw [if_pos enough, if_pos enough]
    rfl
  · rw [if_neg enough, if_neg enough]

theorem length_body (mode : CipherMode) (f : Block → Block) (nonce aad plaintext : Bytes) :
    (body mode f nonce aad plaintext).length = plaintext.length + mode.tagLength := by
  cases mode with
  | gcm => simp [body, Gcm.encrypt, CipherMode.tagLength]
  | ctr => simp [body, CipherMode.tagLength]

/-- In Galois/counter mode the tag stands at the end. -/
theorem subSizes_body (f : Block → Block) (nonce aad plaintext : Bytes) :
    subSizes (body .gcm f nonce aad plaintext).length tagLength =
      .ok (Gcm.encrypt f nonce aad plaintext).1.length := by
  have length : (Gcm.encrypt f nonce aad plaintext).1.length = plaintext.length := by
    simp [Gcm.encrypt]
  have whole : (body .gcm f nonce aad plaintext).length = plaintext.length + tagLength :=
    length_body .gcm f nonce aad plaintext
  rw [whole, length, subSizes, if_pos (Nat.le_add_left _ _), Nat.add_sub_cancel]

theorem cut_body (f : Block → Block) (nonce aad plaintext : Bytes) :
    (body .gcm f nonce aad plaintext).cut (Gcm.encrypt f nonce aad plaintext).1.length =
      .ok (Gcm.encrypt f nonce aad plaintext) :=
  Bytes.cut_append _ _

theorem checkKey_eq_ok {u : Unit} :
    engine.checkKey key = .ok u ↔ key.length = engine.keyLength := by
  rw [checkKey]
  split
  · next h => exact ⟨fun _ => h, fun _ => rfl⟩
  · next h => exact ⟨fun failed => (by cases failed), fun h' => absurd h' h⟩

/-- When a module is sealed and what it looks like. -/
theorem encryptWithNonce_eq_ok :
    engine.encryptWithNonce plaintext key aad nonce = .ok sealedModule ↔
      key.length = engine.keyLength ∧ plaintext.length + engine.sizeDelta < UInt32.size ∧
        sealedModule = Bytes.ofNat lengthWidth (plaintext.length + engine.sizeDelta) ++
          (nonce ++ body engine.mode (Aes.cipher key) nonce aad plaintext) := by
  rw [encryptWithNonce]
  simp only [Except.bind_eq_ok, checkKey_eq_ok, Except.guard_eq_ok, Except.pure_eq_ok, Nat.not_le]
  constructor
  · rintro ⟨_, hkey, length, added, hsize, rfl⟩
    obtain rfl := addSizes_eq_ok added
    exact ⟨hkey, hsize, rfl⟩
  · rintro ⟨hkey, hsize, rfl⟩
    exact ⟨⟨⟩, hkey, _, addSizes_of_lt (Nat.lt_trans hsize (by decide)), hsize, rfl⟩

theorem length_of_encryptWithNonce (hn : nonce.length = nonceLength)
    (h : engine.encryptWithNonce plaintext key aad nonce = .ok sealedModule) :
    sealedModule.length = lengthWidth + (plaintext.length + engine.sizeDelta) := by
  obtain ⟨_, _, rfl⟩ := encryptWithNonce_eq_ok.mp h
  simp only [List.length_append, Bytes.length_ofNat, length_body, sizeDelta, hn]
  omega

/-- A sealed module is the length of its contents followed by the contents. -/
theorem framed_of_encryptWithNonce (hn : nonce.length = nonceLength)
    (h : engine.encryptWithNonce plaintext key aad nonce = .ok sealedModule) :
    ∃ contents : Bytes, contents.length < UInt32.size ∧
      sealedModule = Bytes.ofNat lengthWidth contents.length ++ contents := by
  obtain ⟨_, hsize, rfl⟩ := encryptWithNonce_eq_ok.mp h
  have length : (nonce ++ body engine.mode (Aes.cipher key) nonce aad plaintext).length =
      plaintext.length + engine.sizeDelta := by
    simp only [List.length_append, length_body, sizeDelta, hn]
    omega
  rw [← length] at hsize
  exact ⟨_, hsize, by rw [length]⟩

/-- Opening under the key and the associated data of the sealing gives the plaintext back. -/
theorem decrypt_of_encryptWithNonce (hn : nonce.length = nonceLength)
    (h : engine.encryptWithNonce plaintext key aad nonce = .ok sealedModule) :
    engine.decrypt sealedModule key aad = .ok plaintext := by
  have length := length_of_encryptWithNonce hn h
  obtain ⟨hkey, hsize, rfl⟩ := encryptWithNonce_eq_ok.mp h
  have long : ¬ lengthWidth + (plaintext.length + engine.sizeDelta) <
      lengthWidth + engine.sizeDelta := by omega
  have field := Bytes.cut_append (Bytes.ofNat lengthWidth (plaintext.length + engine.sizeDelta))
    (nonce ++ body engine.mode (Aes.cipher key) nonce aad plaintext)
  have front := Bytes.cut_append nonce (body engine.mode (Aes.cipher key) nonce aad plaintext)
  have announced := Bytes.toNat_ofNat lengthWidth (plaintext.length + engine.sizeDelta) hsize
  have contents : (nonce ++ body engine.mode (Aes.cipher key) nonce aad plaintext).length =
      plaintext.length + engine.sizeDelta := by
    simp only [List.length_append, length_body, sizeDelta, hn]
    omega
  rw [Bytes.length_ofNat] at field
  rw [hn] at front
  rw [decrypt, (checkKey_eq_ok (u := ⟨⟩)).mpr hkey]
  simp only [length, if_neg long, field, announced, contents, front, ne_eq, not_true_eq_false,
    if_false, Except.ok_bind]
  cases engine.mode with
  | gcm =>
      simp only [subSizes_body, cut_body, Except.ok_bind]
      simp [Gcm.encrypt, Gcm.decrypt?, Counter.apply_apply, pure, Except.pure]
  | ctr => simp [body, Counter.apply_apply, pure, Except.pure]

end Engine

/-- Reading a module from a stream cuts it out by the length it announces. -/
theorem readSealed_append (openModule : Bytes → Except Error Bytes) {contents : Bytes}
    (short : contents.length < UInt32.size) (rest : Bytes) :
    readSealed openModule ((Bytes.ofNat lengthWidth contents.length ++ contents) ++ rest) =
      (openModule (Bytes.ofNat lengthWidth contents.length ++ contents)).map (·, rest) := by
  have announced := Bytes.toNat_ofNat lengthWidth contents.length short
  have width := Bytes.length_ofNat lengthWidth contents.length
  generalize Bytes.ofNat lengthWidth contents.length = field at announced width ⊢
  have front : ((field ++ contents) ++ rest).take lengthWidth = field := by
    rw [List.append_assoc, List.take_left' width]
  have behind : ((field ++ contents) ++ rest).drop lengthWidth = contents ++ rest := by
    rw [List.append_assoc, List.drop_left' width]
  rw [readSealed]
  simp only [front, behind, announced, width, List.take_left, List.drop_left, ne_eq,
    not_true_eq_false, if_false]
  cases openModule (field ++ contents) <;> rfl

namespace SealRequest

/-- Some nonce seals the request as the given module. -/
def Seals (request : SealRequest) (sealedModule : Bytes) : Prop :=
  ∃ nonce, nonce.length = nonceLength ∧
    request.sealer.engine.encryptWithNonce request.plaintext request.sealer.key.bytes request.aad
      nonce = .ok sealedModule

variable {request : SealRequest} {sealedModule : Bytes}

theorem Seals.decrypt (h : request.Seals sealedModule) :
    request.sealer.engine.decrypt sealedModule request.sealer.key.bytes request.aad =
      .ok request.plaintext := by
  obtain ⟨nonce, hn, sealing⟩ := h
  exact Engine.decrypt_of_encryptWithNonce hn sealing

theorem Seals.length (h : request.Seals sealedModule) :
    sealedModule.length =
      lengthWidth + (request.plaintext.length + request.sealer.engine.sizeDelta) := by
  obtain ⟨nonce, hn, sealing⟩ := h
  exact Engine.length_of_encryptWithNonce hn sealing

theorem Seals.plaintext_lt (h : request.Seals sealedModule) :
    request.plaintext.length < UInt32.size := by
  obtain ⟨nonce, _, sealing⟩ := h
  have size := (Engine.encryptWithNonce_eq_ok.mp sealing).2.1
  omega

theorem Seals.framed (h : request.Seals sealedModule) :
    ∃ contents : Bytes, contents.length < UInt32.size ∧
      sealedModule = Bytes.ofNat lengthWidth contents.length ++ contents := by
  obtain ⟨nonce, hn, sealing⟩ := h
  exact Engine.framed_of_encryptWithNonce hn sealing

/-- What is short enough can be sealed under a key that the engine takes. -/
theorem exists_seals (keyed : request.sealer.key.bytes.length = request.sealer.engine.keyLength)
    (short : request.plaintext.length + request.sealer.engine.sizeDelta < UInt32.size) :
    ∃ sealedModule, request.Seals sealedModule :=
  ⟨_, List.replicate nonceLength 0, List.length_replicate,
    Engine.encryptWithNonce_eq_ok.mpr ⟨keyed, short, rfl⟩⟩

/-- A module that is met at the front of a byte string is opened, and what follows is left. -/
theorem Seals.readSealed (h : request.Seals sealedModule) (rest : Bytes) :
    readSealed (fun m => request.sealer.engine.decrypt m request.sealer.key.bytes request.aad)
      (sealedModule ++ rest) = .ok (request.plaintext, rest) := by
  have opened := h.decrypt
  obtain ⟨contents, short, rfl⟩ := h.framed
  rw [readSealed_append _ short, opened]
  rfl

end SealRequest

end SealedColumns
