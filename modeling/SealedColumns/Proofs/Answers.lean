import SealedColumns.Column.Reader
import SealedColumns.Decryption.ColumnOpener
import SealedColumns.Proofs.ErrorKinds
import SealedColumns.Proofs.Sealing
import SealedColumns.Proofs.WireCanonical

/-!
# Values, modules and numbers are read without a broken promise

A computation answers if it ends in a value, or in an error that tells the caller something about
the input. What it must not end in is an error of the kind `ErrorKind.assertion`: a slice outside
its byte string, a sum of sizes beyond 64 bits, a position outside a dictionary. Every such place in
the library is checked when it is reached, so it has to be shown that the checks never fail, on
bytes that nobody vouches for.

Promises are one kind of error that is avoided; the fact about the value that `Avoids` carries along
is what the checks of one step tell the next one.
-/

namespace SealedColumns

/-- The computation ends in a value that meets `Good`, or in an error that breaks no promise. -/
abbrev Answers {α : Type} (Good : α → Prop) : Except Error α → Prop :=
  Avoids .assertion Good

/-- The computation answers, and no more is said of its value. -/
abbrev Answers.Plainly {α : Type} : Except Error α → Prop :=
  Answers fun _ => True

/-! ### Checked words and slices -/

theorem natural_answers (n : Int) : Answers (fun m : Nat => (m : Int) = n) (natural n) := by
  rw [natural]
  refine .ite (fun _ => .error rfl) fun nonneg => .ok ?_
  exact Int.toNat_of_nonneg (Int.not_lt.mp nonneg)

theorem addSizes_answers {a b : Nat} (h : a + b < UInt64.size) :
    Answers (· = a + b) (addSizes a b) := by
  rw [addSizes_of_lt h]
  exact .ok rfl

theorem subSizes_answers {a b : Nat} (h : b ≤ a) : Answers (· = a - b) (subSizes a b) := by
  rw [subSizes_of_le h]
  exact .ok rfl

theorem mulSizes_answers {a b : Nat} (h : a * b < UInt64.size) :
    Answers (· = a * b) (mulSizes a b) := by
  rw [mulSizes, if_pos h]
  exact .ok rfl

theorem subCounts_answers {a b : Int} (h : -0x8000000000000000 ≤ a - b)
    (h' : a - b < 0x8000000000000000) : Answers (· = a - b) (subCounts a b) := by
  rw [subCounts, if_pos ⟨h, h'⟩]
  exact .ok rfl

namespace Bytes

theorem cut_answers {bs : Bytes} {n : Nat} (h : n ≤ bs.length) :
    Answers (fun parts => parts.1.length = n ∧ bs = parts.1 ++ parts.2) (bs.cut n) := by
  have long : (bs.take n).length = n := by
    rw [List.length_take]
    omega
  rw [cut, if_pos long]
  exact .ok ⟨long, (List.take_append_drop n bs).symm⟩

theorem slice_answers {bs : Bytes} {start stop : Nat} (h : start ≤ stop)
    (inside : stop ≤ bs.length) :
    Answers (fun part => part.length = stop - start) (bs.slice start stop) := by
  rw [slice, if_pos ⟨h, inside⟩]
  refine .ok ?_
  rw [List.length_take, List.length_drop]
  omega

theorem sliceFrom_answers {bs : Bytes} {start : Nat} (h : start ≤ bs.length) :
    Answers (fun part => part.length = bs.length - start) (bs.sliceFrom start) :=
  slice_answers h (Nat.le_refl _)

end Bytes

section

variable {α : Type} [Wire α] {bs : Bytes}

theorem decodeFront_answers : Answers.Plainly (decodeFront bs : Except Error (α × Bytes)) := by
  rw [decodeFront]
  cases (Wire.decode : Decoder α) bs with
  | ok decoded => exact .ok trivial
  | error fault => exact .error rfl

variable [CanonicalWire α]

theorem decodePart_answers :
    Answers (fun part => part.2 ≤ bs.length) (decodePart bs : Except Error (α × Nat)) := by
  have front : Answers (fun decoded => True ∧ decoded.2.length ≤ bs.length)
      (decodeFront bs : Except Error (α × Bytes)) := by
    refine decodeFront_answers.and_of_eq_ok fun decoded h => ?_
    rw [decodeFront_eq_ok h, List.length_append]
    exact Nat.le_add_left _ _
  refine front.bind ?_
  rintro ⟨a, rest⟩ ⟨_, shorter⟩
  refine (subSizes_answers shorter).bind ?_
  rintro consumed rfl
  exact .pure (Nat.sub_le _ _)

end

/-! ### Sealed modules -/

theorem moduleAad_answers (fileAad : Bytes) (kind : ModuleKind) (rowGroup column : Nat)
    (page : Option Nat) : Answers.Plainly (moduleAad fileAad kind rowGroup column page) :=
  moduleAad_avoids rfl _ _ _ _ _

theorem footerAad_answers (fileAad : Bytes) : Answers.Plainly (footerAad fileAad) :=
  moduleAad_answers _ _ _ _ _

theorem PageAad.forPage_answers (p : PageAad) (page : Nat) : Answers.Plainly (p.forPage page).1 :=
  p.forPage_avoids rfl page

theorem Key.ofBytes_answers (bs : Bytes) : Answers.Plainly (Key.ofBytes bs) := by
  rw [Key.ofBytes]
  split
  · exact .ok trivial
  · exact .error rfl

namespace Engine

variable {engine : Engine} {plaintext sealedModule key aad nonce : Bytes}

theorem checkKey_answers : Answers.Plainly (engine.checkKey key) :=
  .ite (fun _ => .ok trivial) fun _ => .error rfl

/-- The least length of a module covers everything that is cut off it. -/
theorem decrypt_answers : Answers.Plainly (engine.decrypt sealedModule key aad) := by
  rw [decrypt]
  refine checkKey_answers.bind fun _ _ => .guard rfl fun long => ?_
  rw [sizeDelta] at long
  refine (Bytes.cut_answers (by omega)).bind ?_
  rintro ⟨field, contents⟩ ⟨width, rfl⟩
  dsimp only at width long ⊢
  rw [List.length_append, width] at long
  refine .guard rfl fun _ => (Bytes.cut_answers (by omega)).bind ?_
  rintro ⟨nonce, body⟩ ⟨drawn, rfl⟩
  dsimp only at drawn long ⊢
  rw [List.length_append, drawn] at long
  cases hmode : engine.mode with
  | ctr => exact .pure trivial
  | gcm =>
      rw [hmode] at long
      have tagged : tagLength ≤ body.length := by
        rw [CipherMode.tagLength] at long
        rw [tagLength]
        omega
      refine (subSizes_answers tagged).bind ?_
      rintro start rfl
      refine (Bytes.cut_answers (Nat.sub_le _ _)).bind ?_
      rintro ⟨ciphertext, tag⟩ _
      dsimp only
      cases Gcm.decrypt? (Aes.cipher key) nonce aad ciphertext tag with
      | some plaintext => exact .pure trivial
      | none => exact .error rfl

/-- A plaintext that was itself in memory can be sealed or is refused. -/
theorem encryptWithNonce_answers (short : plaintext.length < UInt32.size) :
    Answers.Plainly (engine.encryptWithNonce plaintext key aad nonce) := by
  have fits : plaintext.length + engine.sizeDelta < UInt64.size := by
    have delta : engine.sizeDelta ≤ 28 := by
      rw [sizeDelta]
      cases engine.mode <;> decide
    have words : UInt32.size + 28 < UInt64.size := by decide
    omega
  rw [encryptWithNonce]
  refine checkKey_answers.bind fun _ _ => (addSizes_answers fits).bind fun _ _ => ?_
  exact .guard rfl fun _ => .pure trivial

theorem encryptForSignature_answers (short : plaintext.length < UInt32.size) :
    Answers (fun sealedFooter =>
        sealedFooter.length = lengthWidth + plaintext.length + (nonceLength + tagLength))
      (engine.encryptForSignature plaintext key aad nonce) := by
  rw [encryptForSignature]
  refine .guard rfl fun mode => .guard rfl fun length => ?_
  have sealing : Answers.Plainly (engine.encryptWithNonce plaintext key aad nonce) :=
    encryptWithNonce_answers short
  refine Avoids.mono (sealing.and_of_eq_ok fun sealedFooter h => ?_) fun _ h => h.2
  rw [length_of_encryptWithNonce (Decidable.not_not.mp length) h, sizeDelta,
    Decidable.not_not.mp mode, CipherMode.tagLength, tagLength, Nat.add_assoc]

end Engine

/-- A module that is read from a stream takes some of it, and what is left is the rest of it. -/
theorem readSealed_answers {openModule : Bytes → Except Error Bytes}
    (opens : ∀ sealedModule, Answers.Plainly (openModule sealedModule)) (input : Bytes) :
    Answers (fun part => ∃ passed, input = passed ++ part.2 ∧ 0 < passed.length)
      (readSealed openModule input) := by
  rw [readSealed]
  refine .guard rfl fun field => ?_
  have width : (input.take lengthWidth).length = lengthWidth := Decidable.not_not.mp field
  refine .guard rfl fun _ => (opens _).bind fun plaintext _ => .pure ?_
  refine ⟨input.take (lengthWidth + Bytes.toNat (input.take lengthWidth)), ?_, ?_⟩
  · rw [List.drop_drop, List.take_append_drop]
  · rw [List.length_take] at width ⊢
    rw [lengthWidth] at width ⊢
    omega

/-! ### Values -/

theorem Bytes.le_length_of_take {bs : Bytes} {n : Nat} (h : ¬ (bs.take n).length < n) :
    n ≤ bs.length := by
  rw [List.length_take] at h
  omega

namespace Plain

variable {t : PhysicalType}

theorem decodeValue_answers (front rest : Bytes) : Answers.Plainly (decodeValue t front rest) := by
  cases t with
  | boolean | int32 | int64 | float | double => exact .ok trivial
  | byteArray =>
      rw [decodeValue]
      refine .guard rfl fun there => ?_
      exact (Bytes.cut_answers (Bytes.le_length_of_take there)).mono fun _ _ => trivial

theorem decodeValues_answers (total n : Nat) (acc : List t.Value) (bs : Bytes) :
    Answers.Plainly (decodeValues t total n acc bs) := by
  induction n generalizing acc bs with
  | zero => exact .ok trivial
  | succ n ih =>
      rw [decodeValues]
      refine .guard rfl fun there => ?_
      refine (Bytes.cut_answers (Bytes.le_length_of_take there)).bind fun parts _ => ?_
      exact (decodeValue_answers _ _).bind fun decoded _ => ih _ _

end Plain

namespace Dictionary

theorem readIndices_answers {n : Nat} (acc : List UInt32) {bs : Bytes} (there : n * 4 ≤ bs.length) :
    Answers.Plainly (readIndices n acc bs) := by
  induction n generalizing acc bs with
  | zero => exact .ok trivial
  | succ n ih =>
      rw [readIndices]
      refine (Bytes.cut_answers (by omega)).bind ?_
      rintro ⟨word, rest⟩ ⟨width, rfl⟩
      dsimp only at width there ⊢
      rw [List.length_append, width] at there
      exact ih _ (by omega)

/-- The number of bytes of all indices is computed before any of them is read. -/
theorem decodeIndices_answers (bs : Bytes) {n : Nat} (h : n < UInt32.size) :
    Answers.Plainly (decodeIndices bs n) := by
  have fits : n * 4 < UInt64.size := by
    have words : UInt32.size * 4 < UInt64.size := by decide
    omega
  rw [decodeIndices]
  refine (mulSizes_answers fits).bind ?_
  rintro size rfl
  exact .guard rfl fun there => readIndices_answers [] (Nat.not_lt.mp there)

end Dictionary

namespace ColumnValues

theorem decodePlain_answers (t : PhysicalType) (bs : Bytes) (n : Nat) :
    Answers.Plainly (decodePlain t bs n) :=
  (Plain.decodeValues_answers _ _ _ _).bind fun _ _ => .pure trivial

theorem mapM_valueAt_answers {α : Type} (values : Array α) {indices : List UInt32}
    (inside : ∀ i ∈ indices, i.toNat < values.size) :
    Answers.Plainly (indices.mapM fun i => valueAt values i.toNat) := by
  induction indices with
  | nil => exact .ok trivial
  | cons i indices ih =>
      have first : Answers.Plainly (valueAt values i.toNat) := by
        rw [valueAt, Array.getElem?_eq_getElem (inside i List.mem_cons_self)]
        exact .ok trivial
      rw [List.mapM_cons]
      refine first.bind fun v _ => (ih fun j hj => ?_).bind fun _ _ => .pure trivial
      exact inside j (List.mem_cons_of_mem i hj)

/-- No position is looked up before all of them were compared with the number of values. -/
theorem take_answers (c : ColumnValues) (indices : List UInt32) :
    Answers.Plainly (c.take indices) := by
  rw [take]
  dsimp only
  split
  · exact .error rfl
  · next absent =>
      refine (mapM_valueAt_answers _ ?_).bind fun _ _ => .pure trivial
      intro i hi
      have within := List.find?_eq_none.mp absent i hi
      rw [decide_eq_true_eq, Nat.not_le] at within
      rw [List.size_toArray]
      exact within

theorem append_answers (c d : ColumnValues) : Answers.Plainly (c.append d) := by
  rw [append]
  split
  · exact .ok trivial
  · exact .error rfl

end ColumnValues

theorem ColumnReader.decodePage_answers (t : PhysicalType) (dictionary : Option ColumnValues)
    (page : Page) : Answers.Plainly (decodePage t dictionary page) := by
  unfold decodePage
  cases page.encoding with
  | plain => exact ColumnValues.decodePlain_answers _ _ _
  | dictionary =>
      cases dictionary with
      | none => exact .error rfl
      | some values =>
          refine (Dictionary.decodeIndices_answers _ page.numValues.toNat_lt).bind fun _ _ => ?_
          exact ColumnValues.take_answers _ _

end SealedColumns
