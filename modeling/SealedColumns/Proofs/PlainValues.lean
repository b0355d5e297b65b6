import SealedColumns.Column.Values
import SealedColumns.Proofs.Checked

/-!
# Plain encoding is read back

Decoding the plain encoding of a column gives its values bit for bit, whatever bytes follow. A byte
array has a length field of four bytes, so it has to be shorter than that field can tell; every
other value fits. Different values have different encodings, without that restriction, because a
byte array is written in full behind its length.
-/

namespace SealedColumns

namespace Plain

variable {t : PhysicalType}

/-- The length of a byte array fits its length field. -/
def Fits : (t : PhysicalType) → t.Value → Prop
  | .byteArray, bs => List.length bs < UInt32.size
  | _, _ => True

/-- An encoding comes apart into a front of known length and a tail, and leads back to the value. -/
def Splits (v : t.Value) : Prop :=
  ∃ front tail : Bytes, encodeValue t v = front ++ tail ∧ front.length = t.width ∧
    (Fits t v → ∀ rest, decodeValue t front (tail ++ rest) = .ok (v, rest))

/-- The encodings of most types have no tail. -/
theorem splits_of_fixed {v : t.Value} (width : (encodeValue t v).length = t.width)
    (decode : ∀ rest, decodeValue t (encodeValue t v) rest = .ok (v, rest)) : Splits v :=
  ⟨encodeValue t v, [], (List.append_nil _).symm, width, fun _ rest => decode rest⟩

theorem splits (v : t.Value) : Splits v := by
  cases t with
  | boolean =>
      refine splits_of_fixed rfl ?_
      intro rest
      cases v <;> rfl
  | int32 =>
      refine splits_of_fixed (Bytes.length_ofNat _ _) ?_
      intro rest
      simp only [decodeValue, encodeValue]
      rw [Bytes.toNat_ofNat 4 _ (Int32.toUInt32 v).toNat_lt, UInt32.ofNat_toNat]
      rfl
  | int64 =>
      refine splits_of_fixed (Bytes.length_ofNat _ _) ?_
      intro rest
      simp only [decodeValue, encodeValue]
      rw [Bytes.toNat_ofNat 8 _ (Int64.toUInt64 v).toNat_lt, UInt64.ofNat_toNat]
      rfl
  | float =>
      refine splits_of_fixed (Bytes.length_ofNat _ _) ?_
      intro rest
      simp only [decodeValue, encodeValue]
      rw [Bytes.toNat_ofNat 4 _ (UInt32.toNat_lt v), UInt32.ofNat_toNat]
  | double =>
      refine splits_of_fixed (Bytes.length_ofNat _ _) ?_
      intro rest
      simp only [decodeValue, encodeValue]
      rw [Bytes.toNat_ofNat 8 _ (UInt64.toNat_lt v), UInt64.ofNat_toNat]
  | byteArray =>
      refine ⟨Bytes.ofNat 4 (List.length v % UInt32.size), v, rfl, Bytes.length_ofNat _ _, ?_⟩
      intro h rest
      have bound : List.length v % UInt32.size < Bytes.count 4 := Nat.mod_lt _ (by decide)
      have length : List.length v % UInt32.size = List.length v := Nat.mod_eq_of_lt h
      have read : Bytes.toNat (Bytes.ofNat 4 (List.length v % UInt32.size)) = List.length v := by
        rw [Bytes.toNat_ofNat 4 _ bound, length]
      simp only [decodeValue, read, List.take_left, Nat.lt_irrefl, if_false]
      exact Bytes.cut_append v rest

theorem length_encodeValue_pos (v : t.Value) : 0 < (encodeValue t v).length := by
  obtain ⟨front, tail, split, width, _⟩ := splits v
  have fixed : 0 < t.width := by cases t <;> decide
  rw [split, List.length_append, width]
  omega

/-- Values written one after the other are read back one after the other. -/
theorem decodeValues_append (total : Nat) (vs : List t.Value) (h : ∀ v ∈ vs, Fits t v)
    (acc : List t.Value) (rest : Bytes) :
    decodeValues t total vs.length acc (vs.flatMap (encodeValue t) ++ rest) =
      .ok (acc.reverse ++ vs) := by
  induction vs generalizing acc with
  | nil => simp [decodeValues]
  | cons v vs ih =>
      obtain ⟨front, tail, split, width, decode⟩ := splits v
      have first := decode (h v List.mem_cons_self) (vs.flatMap (encodeValue t) ++ rest)
      have others := ih (fun u hu => h u (List.mem_cons_of_mem v hu)) (v :: acc)
      have cut := Bytes.cut_append front (tail ++ (vs.flatMap (encodeValue t) ++ rest))
      rw [width] at cut
      rw [List.flatMap_cons, List.length_cons, split, List.append_assoc, List.append_assoc,
        decodeValues]
      simp only [List.take_left' width, width, Nat.lt_irrefl, if_false, cut, first, Except.ok_bind,
        others, List.reverse_cons, List.append_assoc, List.cons_append, List.nil_append]

theorem eq_of_encodeValue_eq {v w : t.Value} (h : encodeValue t v = encodeValue t w) : v = w := by
  by_cases array : t = .byteArray
  · subst array
    exact (List.append_inj h (by simp)).2
  · have fits : ∀ u, Fits t u := by
      intro u
      cases t <;> trivial
    obtain ⟨frontV, tailV, splitV, widthV, decodeV⟩ := splits v
    obtain ⟨frontW, tailW, splitW, widthW, decodeW⟩ := splits w
    rw [splitV, splitW] at h
    obtain ⟨rfl, rfl⟩ := List.append_inj h (widthV.trans widthW.symm)
    have same := (decodeV (fits v) []).symm.trans (decodeW (fits w) [])
    cases same
    rfl

/-- Values whose encodings take less than the largest byte array fit. -/
theorem fits_of_mem {v : t.Value} {vs : List t.Value} (hv : v ∈ vs)
    (h : (vs.flatMap (encodeValue t)).length < UInt32.size) : Fits t v := by
  obtain ⟨before, after, rfl⟩ := List.append_of_mem hv
  cases t with
  | byteArray =>
      change List.length v < UInt32.size
      simp only [List.flatMap_append, List.flatMap_cons, List.length_append, encodeValue] at h
      omega
  | boolean | int32 | int64 | float | double => trivial

end Plain

namespace ColumnValues

/-- Every byte array has a length that fits its length field. -/
def Fits (c : ColumnValues) : Prop :=
  ∀ v ∈ c.values, Plain.Fits c.type v

theorem decodePlain_append {c : ColumnValues} (fits : c.Fits) (rest : Bytes) :
    decodePlain c.type (c.encodePlain ++ rest) c.length = .ok c := by
  have read := Plain.decodeValues_append c.length c.values fits [] rest
  change (Plain.decodeValues c.type c.length c.values.length [] _ >>= _) = _
  rw [encodePlain, read]
  rfl

theorem decodePlain_encodePlain {c : ColumnValues} (h : c.encodePlain.length < UInt32.size) :
    decodePlain c.type c.encodePlain c.length = .ok c := by
  have fits : c.Fits := fun v hv => Plain.fits_of_mem hv h
  have read := decodePlain_append fits []
  rwa [List.append_nil] at read

end ColumnValues

end SealedColumns
