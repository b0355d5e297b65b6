import SealedColumns.Proofs.Checked
import SealedColumns.Proofs.Sealing

/-!
# Only sealed modules are opened

The converse of opening what was sealed: a byte string that is opened under a key and associated
data is the sealed module of the plaintext under the nonce that it carries. So opening accepts
exactly what sealing produces, and reading a module from a stream consumes exactly one such module:
its length field and the bytes that this announces, which decide alone what is read. As in the other
direction, nothing about the block cipher is used.
-/

namespace SealedColumns

namespace Gcm

variable {f : Block → Block} {nonce aad ciphertext sealTag plaintext : Bytes}

/-- Ciphertext and tag that are accepted are those of the plaintext. -/
theorem encrypt_of_decrypt? (h : decrypt? f nonce aad ciphertext sealTag = some plaintext) :
    encrypt f nonce aad plaintext = (ciphertext, sealTag) := by
  rw [decrypt?] at h
  split at h
  · next right =>
      cases h
      rw [encrypt, Counter.apply_apply, right]
  · cases h

end Gcm

namespace Engine

variable {engine : Engine} {plaintext key aad nonce sealedModule : Bytes}

/-- What stands behind the nonce of a module that is opened. The two modes differ only in this. -/
theorem body_of_opened {mode : CipherMode} {f : Block → Block} {stored : Bytes}
    (h : (match mode with
      | .gcm => do
        let (ciphertext, tag) ← stored.cut (← subSizes stored.length tagLength)
        match Gcm.decrypt? f nonce aad ciphertext tag with
        | some plaintext => return plaintext
        | none => throw .tagMismatch
      | .ctr => return Counter.apply f nonce 1 stored : Except Error Bytes) = .ok plaintext) :
    stored = body mode f nonce aad plaintext := by
  cases mode with
  | gcm =>
      obtain ⟨_, _, parts⟩ := Except.bind_eq_ok.mp h
      obtain ⟨⟨ciphertext, sealTag⟩, cut, opened⟩ := Except.bind_eq_ok.mp parts
      obtain ⟨_, rfl⟩ := Bytes.cut_eq_ok cut
      dsimp only at opened
      cases hopen : Gcm.decrypt? f nonce aad ciphertext sealTag with
      | none =>
          rw [hopen] at opened
          cases opened
      | some p =>
          rw [hopen] at opened
          cases opened
          rw [body, Gcm.encrypt_of_decrypt? hopen]
  | ctr =>
      cases h
      exact (Counter.apply_apply _ _ _ _).symm

/-- A module that is opened was sealed under the nonce that it carries. -/
theorem encryptWithNonce_of_decrypt (h : engine.decrypt sealedModule key aad = .ok plaintext) :
    ∃ nonce, nonce.length = nonceLength ∧
      engine.encryptWithNonce plaintext key aad nonce = .ok sealedModule := by
  rw [decrypt] at h
  obtain ⟨_, keyed, afterKey⟩ := Except.bind_eq_ok.mp h
  obtain ⟨_, afterLength⟩ := Except.guard_eq_ok.mp afterKey
  obtain ⟨⟨field, contents⟩, framed, afterField⟩ := Except.bind_eq_ok.mp afterLength
  obtain ⟨announced, afterCheck⟩ := Except.guard_eq_ok.mp afterField
  obtain ⟨⟨nonce, stored⟩, carried, opened⟩ := Except.bind_eq_ok.mp afterCheck
  obtain ⟨width, rfl⟩ := Bytes.cut_eq_ok framed
  obtain ⟨length, rfl⟩ := Bytes.cut_eq_ok carried
  have unsealed : stored = body engine.mode (Aes.cipher key) nonce aad plaintext :=
    body_of_opened opened
  have size : (nonce ++ stored).length = plaintext.length + engine.sizeDelta := by
    rw [List.length_append, length, unsealed, length_body, sizeDelta]
    omega
  have told : Bytes.toNat field = plaintext.length + engine.sizeDelta := by
    rw [← size]
    exact Decidable.not_not.mp announced
  have small := Bytes.toNat_lt field
  rw [width, told] at small
  refine ⟨nonce, length, encryptWithNonce_eq_ok.mpr ⟨checkKey_eq_ok.mp keyed, small, ?_⟩⟩
  rw [← told, ← width, Bytes.ofNat_toNat, unsealed]

/-- Opening accepts exactly what sealing produces. -/
theorem decrypt_eq_ok : engine.decrypt sealedModule key aad = .ok plaintext ↔
    ∃ nonce, nonce.length = nonceLength ∧
      engine.encryptWithNonce plaintext key aad nonce = .ok sealedModule := by
  constructor
  · exact encryptWithNonce_of_decrypt
  · rintro ⟨nonce, length, sealing⟩
    exact decrypt_of_encryptWithNonce length sealing

end Engine

/-- The size that the front of a byte string announces: the length field and what it counts. -/
def announcedSize (input : Bytes) : Nat :=
  lengthWidth + Bytes.toNat (input.take lengthWidth)

theorem lengthWidth_le_announcedSize (input : Bytes) : lengthWidth ≤ announcedSize input :=
  Nat.le_add_right _ _

/-- The bytes of a module announce its size, whatever follows. -/
theorem announcedSize_append {front : Bytes} (long : lengthWidth ≤ front.length) (rest : Bytes) :
    announcedSize (front ++ rest) = announcedSize front := by
  rw [announcedSize, announcedSize, List.take_append_of_le_length long]

theorem announcedSize_take {input : Bytes} {n : Nat} (long : lengthWidth ≤ n) :
    announcedSize (input.take n) = announcedSize input := by
  rw [announcedSize, announcedSize, List.take_take, Nat.min_eq_left long]

/-- When a module is read: there are as many bytes as announced, and these are opened. -/
theorem readSealed_eq_ok_iff {openModule : Bytes → Except Error Bytes}
    {input plaintext rest : Bytes} :
    readSealed openModule input = .ok (plaintext, rest) ↔
      announcedSize input ≤ input.length ∧
        openModule (input.take (announcedSize input)) = .ok plaintext ∧
        input.drop (announcedSize input) = rest := by
  have framed : input.take lengthWidth ++
      (input.drop lengthWidth).take (Bytes.toNat (input.take lengthWidth)) =
        input.take (announcedSize input) := List.take_add.symm
  have behind : (input.drop lengthWidth).drop (Bytes.toNat (input.take lengthWidth)) =
      input.drop (announcedSize input) := List.drop_drop
  have enough : (input.take lengthWidth).length = lengthWidth ∧
      ((input.drop lengthWidth).take (Bytes.toNat (input.take lengthWidth))).length =
        Bytes.toNat (input.take lengthWidth) ↔ announcedSize input ≤ input.length := by
    simp only [announcedSize, List.length_take, List.length_drop]
    omega
  rw [readSealed]
  simp only [framed, behind]
  constructor
  · intro h
    obtain ⟨width, h⟩ := Except.guard_eq_ok.mp h
    obtain ⟨all, h⟩ := Except.guard_eq_ok.mp h
    obtain ⟨opened, opening, h⟩ := Except.bind_eq_ok.mp h
    cases h
    exact ⟨enough.mp ⟨Decidable.not_not.mp width, Decidable.not_not.mp all⟩, opening, rfl⟩
  · rintro ⟨long, opening, rfl⟩
    obtain ⟨width, all⟩ := enough.mpr long
    refine Except.guard_eq_ok.mpr ⟨not_not_intro width, ?_⟩
    refine Except.guard_eq_ok.mpr ⟨not_not_intro all, ?_⟩
    exact Except.bind_eq_ok.mpr ⟨plaintext, opening, rfl⟩

/-- A module that is read is read from the same bytes in front of any others. -/
theorem readSealed_take_append {openModule : Bytes → Except Error Bytes}
    {input plaintext rest : Bytes} (h : readSealed openModule input = .ok (plaintext, rest))
    (tail : Bytes) :
    readSealed openModule (input.take (announcedSize input) ++ tail) = .ok (plaintext, tail) := by
  obtain ⟨long, opening, _⟩ := readSealed_eq_ok_iff.mp h
  have width := lengthWidth_le_announcedSize input
  have length : (input.take (announcedSize input)).length = announcedSize input :=
    List.length_take_of_le long
  have announced :
      announcedSize (input.take (announcedSize input) ++ tail) = announcedSize input := by
    rw [announcedSize_append (Nat.le_trans width (Nat.le_of_eq length.symm)),
      announcedSize_take width]
  refine readSealed_eq_ok_iff.mpr ?_
  rw [announced]
  refine ⟨?_, ?_, List.drop_left' length⟩
  · rw [List.length_append, length]
    exact Nat.le_add_right _ _
  · rw [List.take_left' length]
    exact opening

/-- A module that is read was opened, and stands in front of what is left. -/
theorem readSealed_eq_ok {openModule : Bytes → Except Error Bytes} {input plaintext rest : Bytes}
    (h : readSealed openModule input = .ok (plaintext, rest)) :
    ∃ sealedModule, openModule sealedModule = .ok plaintext ∧ input = sealedModule ++ rest := by
  obtain ⟨_, opened, rfl⟩ := readSealed_eq_ok_iff.mp h
  exact ⟨_, opened, (List.take_append_drop _ _).symm⟩

end SealedColumns
