import SealedColumns.Proofs.AesPermutation
import SealedColumns.Proofs.ExactOpening
import SealedColumns.Proofs.HashField

/-!
# A changed byte is detected

Under a key whose hash key is not zero, no two sealed modules with the same associated data differ
in a single byte. Since only sealed modules are opened, a module with one byte changed is not,
whatever byte it is and whatever it is changed to. Each part of a module has its own reason: the
length field follows from the length, the block cipher maps different nonces to different masks of
the tag, the hash tells every block of the ciphertext, and the tag follows from all of these.

Nothing is said about a hash key that is zero: then all inputs have the same hash.
-/

namespace SealedColumns

/-- Byte strings that differ in exactly one byte. -/
inductive OneByteApart : Bytes → Bytes → Prop
  | here {b b' : UInt8} {rest : Bytes} : b ≠ b' → OneByteApart (b :: rest) (b' :: rest)
  | there {b : UInt8} {bs bs' : Bytes} : OneByteApart bs bs' → OneByteApart (b :: bs) (b :: bs')

namespace OneByteApart

variable {bs bs' : Bytes}

theorem length (apart : OneByteApart bs bs') : bs.length = bs'.length := by
  induction apart with
  | here _ => rfl
  | there _ ih => rw [List.length_cons, List.length_cons, ih]

theorem ne (apart : OneByteApart bs bs') : bs ≠ bs' := by
  intro same
  induction apart with
  | here differ => exact differ (List.head_eq_of_cons_eq same)
  | there _ ih => exact ih (List.tail_eq_of_cons_eq same)

theorem cons_iff {b b' : UInt8} :
    OneByteApart (b :: bs) (b' :: bs') ↔ b ≠ b' ∧ bs = bs' ∨ b = b' ∧ OneByteApart bs bs' := by
  constructor
  · intro apart
    cases apart with
    | here differ => exact .inl ⟨differ, rfl⟩
    | there apart => exact .inr ⟨rfl, apart⟩
  · rintro (⟨differ, rfl⟩ | ⟨rfl, apart⟩)
    · exact .here differ
    · exact .there apart

/-- Byte strings of one length that differ at one position only. -/
theorem of_getElem? {i : Nat} (length : bs.length = bs'.length)
    (differ : ∀ j, bs[j]? ≠ bs'[j]? ↔ j = i) : OneByteApart bs bs' := by
  induction bs generalizing bs' i with
  | nil =>
    obtain rfl := List.length_eq_zero_iff.mp length.symm
    exact absurd rfl ((differ i).mpr rfl)
  | cons b bs ih =>
    cases bs' with
    | nil => cases length
    | cons b' bs' =>
      have front : b ≠ b' ↔ 0 = i := by
        rw [← differ 0, List.getElem?_cons_zero, List.getElem?_cons_zero, ne_eq, ne_eq,
          Option.some.injEq]
      have behind (j : Nat) : bs[j]? ≠ bs'[j]? ↔ j + 1 = i := by
        rw [← differ (j + 1), List.getElem?_cons_succ, List.getElem?_cons_succ]
      rw [cons_iff]
      cases i with
      | zero =>
        refine .inl ⟨front.mpr rfl, List.ext_getElem? ?_⟩
        intro j
        exact Decidable.not_not.mp (mt (behind j).mp (Nat.succ_ne_zero j))
      | succ i =>
        have same : b = b' := Decidable.not_not.mp (mt front.mp (Nat.succ_ne_zero i).symm)
        refine .inr ⟨same, ih (i := i) (Nat.succ.inj length) ?_⟩
        intro j
        rw [behind, Nat.add_right_cancel_iff]

/-- One of two parts differs, and the other one is the same. -/
theorem of_append {front front' back back' : Bytes} (width : front.length = front'.length)
    (apart : OneByteApart (front ++ back) (front' ++ back')) :
    OneByteApart front front' ∧ back = back' ∨ front = front' ∧ OneByteApart back back' := by
  induction front generalizing front' with
  | nil =>
    obtain rfl := List.length_eq_zero_iff.mp width.symm
    exact .inr ⟨rfl, apart⟩
  | cons b front ih =>
    cases front' with
    | nil => cases width
    | cons b' front' =>
      have rest := Nat.succ.inj width
      obtain ⟨differ, same⟩ | ⟨rfl, behind⟩ := cons_iff.mp apart
      · obtain ⟨rfl, backs⟩ := List.append_inj same rest
        exact .inl ⟨.here differ, backs⟩
      · obtain ⟨fronts, backs⟩ | ⟨fronts, backs⟩ := ih rest behind
        · exact .inl ⟨.there fronts, backs⟩
        · exact .inr ⟨by rw [fronts], backs⟩

/-- Exactly one block differs. -/
theorem ofPadded (apart : OneByteApart bs bs') : ∃ before b b' after, b ≠ b' ∧
    Block.ofPadded bs = before ++ b :: after ∧ Block.ofPadded bs' = before ++ b' :: after := by
  induction size : bs.length using Nat.strong_induction_on generalizing bs bs' with
  | _ size' ih =>
    have length := apart.length
    have some : bs ≠ [] := by
      rintro rfl
      cases apart
    have some' : bs' ≠ [] := by
      rintro rfl
      cases apart
    have front := Block.ofBytes_eq_iff_take length
    have parts : OneByteApart (bs.take 16 ++ bs.drop 16) (bs'.take 16 ++ bs'.drop 16) := by
      rwa [List.take_append_drop, List.take_append_drop]
    rw [Block.ofPadded_of_ne_nil some, Block.ofPadded_of_ne_nil some']
    obtain ⟨here, rest⟩ | ⟨same, there⟩ := of_append (by simp [length]) parts
    · rw [rest]
      exact ⟨[], _, _, _, mt front.mp here.ne, rfl, rfl⟩
    · have long : 0 < bs.length := List.length_pos_iff.mpr some
      have shorter : (bs.drop 16).length < size' := by
        rw [List.length_drop]
        omega
      obtain ⟨before, b, b', after, differ, blocks, blocks'⟩ := ih _ shorter there rfl
      rw [front.mpr same, blocks, blocks']
      exact ⟨_ :: before, b, b', after, differ, rfl, rfl⟩

end OneByteApart

namespace Gcm

variable {f : Block → Block} {nonce nonce' aad ciphertext ciphertext' : Bytes}

/-- The tag of a ciphertext tells the nonce. -/
theorem nonce_eq_of_tag (injective : Function.Injective f) (length : nonce.length = nonceLength)
    (length' : nonce'.length = nonceLength)
    (same : tag f nonce aad ciphertext = tag f nonce' aad ciphertext) : nonce = nonce' := by
  have masks := injective (Block.xor_right_inj.mp (Block.toBytes_inj.mp same))
  exact (Counter.block_inj length length').mp masks

/-- Ciphertexts that differ in one byte have different tags. -/
theorem tag_ne (nonzero : f Block.zero ≠ Block.zero) (apart : OneByteApart ciphertext ciphertext') :
    tag f nonce aad ciphertext ≠ tag f nonce aad ciphertext' := by
  intro same
  have hashes := Block.xor_left_inj.mp (Block.toBytes_inj.mp same)
  have lengths : Ghash.lengthBlock aad ciphertext = Ghash.lengthBlock aad ciphertext' := by
    rw [Ghash.lengthBlock, apart.length, Ghash.lengthBlock]
  obtain ⟨before, b, b', after, differ, blocks, blocks'⟩ := apart.ofPadded
  have input (b : Block) (last : Block) :
      Block.ofPadded aad ++ (before ++ b :: after) ++ [last] =
        (Block.ofPadded aad ++ before) ++ b :: (after ++ [last]) := by
    simp
  rw [Ghash.inputBlocks, Ghash.inputBlocks, blocks, blocks', lengths, input, input,
    Ghash.hash_inj nonzero] at hashes
  exact differ hashes

end Gcm

namespace Engine

variable {engine : Engine}
    {key aad plaintext plaintext' nonce nonce' sealedModule sealedModule' : Bytes}

/-- Sealed modules with the same associated data do not differ in a single byte. -/
theorem not_oneByteApart (authenticated : engine.mode = .gcm)
    (nonzero : Aes.cipher key Block.zero ≠ Block.zero)
    (length : nonce.length = nonceLength) (length' : nonce'.length = nonceLength)
    (sealing : engine.encryptWithNonce plaintext key aad nonce = .ok sealedModule)
    (sealing' : engine.encryptWithNonce plaintext' key aad nonce' = .ok sealedModule') :
    ¬ OneByteApart sealedModule sealedModule' := by
  intro apart
  have size := length_of_encryptWithNonce length sealing
  have size' := length_of_encryptWithNonce length' sealing'
  have plain : plaintext.length = plaintext'.length := by
    have := apart.length
    omega
  obtain ⟨_, _, rfl⟩ := encryptWithNonce_eq_ok.mp sealing
  obtain ⟨_, _, rfl⟩ := encryptWithNonce_eq_ok.mp sealing'
  rw [plain, authenticated, body, body, Gcm.encrypt, Gcm.encrypt] at apart
  obtain ⟨field, _⟩ | ⟨_, contents⟩ := apart.of_append rfl
  · exact field.ne rfl
  obtain ⟨nonces, sealed⟩ | ⟨rfl, stored⟩ := contents.of_append (by rw [length, length'])
  · obtain ⟨texts, tags⟩ := List.append_inj sealed (by simp [plain])
    rw [texts] at tags
    exact nonces.ne (Gcm.nonce_eq_of_tag (Aes.cipher_injective key) length length' tags)
  obtain ⟨texts, tags⟩ | ⟨texts, tags⟩ := stored.of_append (by simp [plain])
  · exact Gcm.tag_ne nonzero texts tags
  · rw [texts] at tags
    exact tags.ne rfl

/-- Metadata is always authenticated, and so is data under the first algorithm. -/
theorem mode_of_create {algorithm : Algorithm} {keyLength : Nat} {moduleClass : ModuleClass}
    (created : create algorithm keyLength moduleClass = .ok engine)
    (authenticated : moduleClass = .metadata ∨ algorithm = .gcm) :
    engine.mode = .gcm ∧ engine.keyLength = keyLength := by
  obtain ⟨_, _, made⟩ := Except.bind_eq_ok.mp created
  cases made
  refine ⟨?_, rfl⟩
  obtain rfl | rfl := authenticated
  · cases algorithm <;> rfl
  · rfl

/-- A change of a single byte of a module, at any place and by any amount, is detected: the module
is not opened, and the error says that it is not authentic. -/
theorem decrypt_oneByteChanged {algorithm : Algorithm} {keyLength : Nat} {moduleClass : ModuleClass}
    (created : create algorithm keyLength moduleClass = .ok engine)
    (authenticated : moduleClass = .metadata ∨ algorithm = .gcm)
    (keyed : key.length = keyLength) (nonzero : Aes.cipher key Block.zero ≠ Block.zero)
    (length : nonce.length = nonceLength)
    (sealing : engine.encryptWithNonce plaintext key aad nonce = .ok sealedModule)
    {changed : Bytes} {i : Nat} (sameLength : changed.length = sealedModule.length)
    (differ : ∀ j, changed[j]? ≠ sealedModule[j]? ↔ j = i) :
    ∃ e, engine.decrypt changed key aad = .error e ∧ e.kind = .authenticationFailure := by
  obtain ⟨mode, width⟩ := mode_of_create created authenticated
  have apart := OneByteApart.of_getElem? sameLength differ
  cases opening : engine.decrypt changed key aad with
  | error e => exact ⟨e, rfl, kind_of_decrypt_error (keyed.trans width.symm) opening⟩
  | ok plaintext' =>
    obtain ⟨nonce', length', sealing'⟩ := decrypt_eq_ok.mp opening
    exact absurd apart (not_oneByteApart mode nonzero length' length sealing' sealing)

theorem decrypt_oneByteChanged_sample :
    let key : Bytes := List.replicate 16 0x30
    let nonce : Bytes := List.replicate 12 7
    ∃ engine sealedModule, create .gcmCtr 16 .metadata = .ok engine ∧
      Aes.cipher key Block.zero ≠ Block.zero ∧
      engine.encryptWithNonce [1, 2, 3] key [] nonce = .ok sealedModule ∧
      ∃ e, engine.decrypt (sealedModule.modify 17 (· + 1)) key [] = .error e ∧
        e.kind = .authenticationFailure := by
  intro key nonce
  have created : create .gcmCtr 16 .metadata = .ok ⟨.gcm, 16⟩ := rfl
  have nonzero : Aes.cipher key Block.zero ≠ Block.zero := by decide +kernel
  obtain ⟨sealedModule, sealing⟩ : ∃ sealedModule,
      (⟨.gcm, 16⟩ : Engine).encryptWithNonce [1, 2, 3] key [] nonce = .ok sealedModule :=
    ⟨_, encryptWithNonce_eq_ok.mpr ⟨rfl, by decide, rfl⟩⟩
  have size : sealedModule.length = 35 := length_of_encryptWithNonce rfl sealing
  have differ (j : Nat) : (sealedModule.modify 17 (· + 1))[j]? ≠ sealedModule[j]? ↔ j = 17 := by
    obtain rfl | other := eq_or_ne j 17
    · rw [List.getElem?_modify_eq, List.getElem?_eq_getElem (by omega)]
      simp
    · rw [List.getElem?_modify_ne _ _ other.symm]
      simp [other]
  exact ⟨_, _, created, nonzero, sealing,
    decrypt_oneByteChanged created (.inl rfl) rfl nonzero rfl sealing (List.length_modify _ _ _)
      differ⟩

end Engine

end SealedColumns
