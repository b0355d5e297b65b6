import SealedColumns.Column.Page
import SealedColumns.Footer.FileMetaData
import SealedColumns.Proofs.Checked

/-!
# Wire forms are read back

Decoding the wire form of a value gives the value and leaves what follows it. The only limit is the
length field of texts and lists, which has eight bytes: `Fits` says that no text or list inside a
value is longer than that field can tell. A value whose own wire form is short enough always fits,
since a list needs at least one byte for each of its members.
-/

namespace SealedColumns

/-- Values that are read back from their wire form, whatever follows it. -/
class LawfulWire (α : Type) [Wire α] where
  /-- The texts and lists inside a value are short enough for their length fields. -/
  Fits : α → Prop
  decode_encode : ∀ a rest, Fits a → Wire.decode (Wire.encode a ++ rest) = .ok (a, rest)
  encode_pos : ∀ a : α, 0 < (Wire.encode a).length
  fits_of_length : ∀ a : α, (Wire.encode a).length < Bytes.count 8 → Fits a

namespace Decoder

variable {α β : Type}

theorem bind_of_ok {x : Decoder α} {f : α → Decoder β} {bs rest : Bytes} {a : α}
    (h : x bs = .ok (a, rest)) : (x >>= f) bs = f a rest := by
  change (x bs >>= fun p => f p.1 p.2) = f a rest
  rw [h]
  rfl

theorem map_of_ok {x : Decoder α} {f : α → β} {bs rest : Bytes} {a : α}
    (h : x bs = .ok (a, rest)) : (f <$> x) bs = .ok (f a, rest) := by
  change ((fun p : α × Bytes => (f p.1, p.2)) <$> x bs) = _
  rw [h]
  rfl

theorem take_append (front rest : Bytes) :
    Decoder.take front.length (front ++ rest) = .ok (front, rest) := by
  simp [Decoder.take]

/-- A number that fits its width is read back. -/
theorem word_append {width n : Nat} (h : n < Bytes.count width) (rest : Bytes) :
    Decoder.word width (Bytes.ofNat width n ++ rest) = .ok (n, rest) := by
  have front := take_append (Bytes.ofNat width n) rest
  rw [Bytes.length_ofNat] at front
  rw [Decoder.word, bind_of_ok front, Bytes.toNat_ofNat width n h]
  rfl

theorem variant_append {count index : Nat} (h : index < count) (short : count ≤ Bytes.count 4)
    (rest : Bytes) : Decoder.variant count (Bytes.ofNat 4 index ++ rest) = .ok (index, rest) := by
  have front := word_append (Nat.lt_of_lt_of_le h short) rest
  rw [Decoder.variant, bind_of_ok front, if_pos h]
  rfl

/-- Values written one after the other are read back one after the other. -/
theorem items_append [Wire α] [LawfulWire α] (as : List α) (h : ∀ a ∈ as, LawfulWire.Fits a)
    (acc : List α) (rest : Bytes) :
    Decoder.items Wire.decode as.length acc (as.flatMap Wire.encode ++ rest) =
      .ok (acc.reverse ++ as, rest) := by
  induction as generalizing acc with
  | nil =>
      rw [List.append_nil]
      rfl
  | cons a as ih =>
      have first := LawfulWire.decode_encode a (as.flatMap Wire.encode ++ rest)
        (h a List.mem_cons_self)
      have others : ∀ b ∈ as, LawfulWire.Fits b := fun b hb => h b (List.mem_cons_of_mem a hb)
      rw [List.flatMap_cons, List.append_assoc, List.length_cons, Decoder.items, bind_of_ok first,
        ih others (a :: acc), List.reverse_cons, List.append_assoc]
      rfl

end Decoder

namespace LawfulWire

variable {α β : Type} [Wire α] [LawfulWire α]

instance : LawfulWire UInt8 where
  Fits _ := True
  decode_encode _ _ _ := rfl
  encode_pos _ := Nat.one_pos
  fits_of_length _ _ := trivial

instance : LawfulWire Int16 where
  Fits _ := True
  decode_encode n rest _ := by
    have bound : n.toUInt16.toNat < Bytes.count 2 := n.toUInt16.toNat_lt
    change (Decoder.word 2 >>= _) (Bytes.ofNat 2 n.toUInt16.toNat ++ rest) = _
    rw [Decoder.bind_of_ok (Decoder.word_append bound rest), UInt16.ofNat_toNat]
    rfl
  encode_pos _ := by simp [Wire.encode]
  fits_of_length _ _ := trivial

instance : LawfulWire Int32 where
  Fits _ := True
  decode_encode n rest _ := by
    have bound : n.toUInt32.toNat < Bytes.count 4 := n.toUInt32.toNat_lt
    change (Decoder.word 4 >>= _) (Bytes.ofNat 4 n.toUInt32.toNat ++ rest) = _
    rw [Decoder.bind_of_ok (Decoder.word_append bound rest), UInt32.ofNat_toNat]
    rfl
  encode_pos _ := by simp [Wire.encode]
  fits_of_length _ _ := trivial

instance : LawfulWire Int64 where
  Fits _ := True
  decode_encode n rest _ := by
    have bound : n.toUInt64.toNat < Bytes.count 8 := n.toUInt64.toNat_lt
    change (Decoder.word 8 >>= _) (Bytes.ofNat 8 n.toUInt64.toNat ++ rest) = _
    rw [Decoder.bind_of_ok (Decoder.word_append bound rest), UInt64.ofNat_toNat]
    rfl
  encode_pos _ := by simp [Wire.encode]
  fits_of_length _ _ := trivial

instance : LawfulWire Bool where
  Fits _ := True
  decode_encode b rest _ := by cases b <;> rfl
  encode_pos _ := Nat.one_pos
  fits_of_length _ _ := trivial

instance : LawfulWire String where
  Fits s := (Utf8.encode s).length < Bytes.count 8
  decode_encode s rest h := by
    change (Decoder.word 8 >>= _) ((Bytes.ofNat 8 _ ++ Utf8.encode s) ++ rest) = _
    rw [List.append_assoc, Decoder.bind_of_ok (Decoder.word_append h _),
      Decoder.bind_of_ok (Decoder.take_append _ rest), Utf8.decode_encode]
    rfl
  encode_pos _ := by
    simp only [Wire.encode, List.length_append, Bytes.length_ofNat]
    omega
  fits_of_length s h := by
    simp only [Wire.encode, List.length_append] at h
    omega

instance : LawfulWire (List α) where
  Fits as := as.length < Bytes.count 8 ∧ ∀ a ∈ as, Fits a
  decode_encode as rest h := by
    change (Decoder.word 8 >>= _) ((Bytes.ofNat 8 as.length ++ as.flatMap Wire.encode) ++ rest) = _
    rw [List.append_assoc, Decoder.bind_of_ok (Decoder.word_append h.1 _)]
    exact Decoder.items_append as h.2 [] rest
  encode_pos _ := by
    simp only [Wire.encode, List.length_append, Bytes.length_ofNat]
    omega
  fits_of_length as h := by
    have parts : ∀ bs : List α, bs.length ≤ (bs.flatMap Wire.encode).length ∧
        ∀ a ∈ bs, (Wire.encode a).length ≤ (bs.flatMap Wire.encode).length := by
      intro bs
      induction bs with
      | nil => simp
      | cons b bs ih =>
          have first := encode_pos b
          simp only [List.length_cons, List.flatMap_cons, List.length_append, List.mem_cons]
          refine ⟨by omega, ?_⟩
          rintro a (rfl | ha)
          · omega
          · have := ih.2 a ha
            omega
    simp only [Wire.encode, List.length_append] at h
    have whole := parts as
    refine ⟨by omega, fun a ha => fits_of_length a ?_⟩
    have := whole.2 a ha
    omega

instance : LawfulWire (Option α) where
  Fits o := ∀ a ∈ o, Fits a
  decode_encode o rest h := by
    cases o with
    | none => rfl
    | some a =>
        have inner := decode_encode a rest (h a rfl)
        change (Wire.decode >>= fun a => pure (some a) : Decoder (Option α))
          (Wire.encode a ++ rest) = _
        rw [Decoder.bind_of_ok inner]
        rfl
  encode_pos o := by cases o <;> simp [Wire.encode]
  fits_of_length o h := by
    rintro a rfl
    simp only [Wire.encode, List.length_cons] at h
    exact fits_of_length a (by omega)

instance [Wire β] [LawfulWire β] : LawfulWire (α × β) where
  Fits p := Fits p.1 ∧ Fits p.2
  decode_encode p rest h := by
    have first := decode_encode p.1 (Wire.encode p.2 ++ rest) h.1
    have second := decode_encode p.2 rest h.2
    change (Wire.decode >>= fun a => Wire.decode >>= fun b => pure (a, b) : Decoder (α × β))
      ((Wire.encode p.1 ++ Wire.encode p.2) ++ rest) = _
    rw [List.append_assoc, Decoder.bind_of_ok first, Decoder.bind_of_ok second]
    rfl
  encode_pos p := by
    have first := encode_pos p.1
    simp only [Wire.encode, List.length_append]
    omega
  fits_of_length p h := by
    simp only [Wire.encode, List.length_append] at h
    exact ⟨fits_of_length p.1 (by omega), fits_of_length p.2 (by omega)⟩

/-- A structure is read back if its data is and determines it. -/
@[reducible] def ofEquivalent {toData : β → α} {ofData : α → β}
    (h : ∀ b, ofData (toData b) = b) : @LawfulWire β (Wire.ofEquivalent toData ofData) :=
  letI := Wire.ofEquivalent toData ofData
  { Fits := fun b => Fits (toData b)
    decode_encode := by
      intro b rest hb
      change (ofData <$> (Wire.decode : Decoder α)) (Wire.encode (toData b) ++ rest) = _
      rw [Decoder.map_of_ok (decode_encode (toData b) rest hb), h b]
    encode_pos := fun b => encode_pos (toData b)
    fits_of_length := fun b hb => fits_of_length (toData b) hb }

/-- A closed choice is read back if its list of variants is in the order of the stored indices. -/
@[reducible] def ofVariants {γ : Type} {variants : List γ} {index : γ → Nat}
    (h : ∀ c, variants[index c]? = some c) (short : variants.length ≤ Bytes.count 4) :
    @LawfulWire γ (Wire.ofVariants variants index) :=
  letI := Wire.ofVariants variants index
  { Fits := fun _ => True
    decode_encode := by
      intro c rest _
      have bound : index c < Bytes.count 4 :=
        Nat.lt_of_lt_of_le (List.getElem?_eq_some_iff.mp (h c)).1 short
      change (Decoder.word 4 >>= _) (Bytes.ofNat 4 (index c) ++ rest) = _
      rw [Decoder.bind_of_ok (Decoder.word_append bound rest), h c]
      rfl
    encode_pos := fun _ => by simp [Wire.encode]
    fits_of_length := fun _ _ => trivial }

end LawfulWire

section

variable {α : Type} [Wire α] [LawfulWire α]

theorem decodeFront_encode {a : α} (h : LawfulWire.Fits a) (rest : Bytes) :
    decodeFront (Wire.encode a ++ rest) = .ok (a, rest) := by
  rw [decodeFront, LawfulWire.decode_encode a rest h]

/-- A structure that nothing stands behind. -/
theorem decodeFront_whole {a : α} (h : LawfulWire.Fits a) : decodeFront (Wire.encode a) = .ok
    (a, []) := by
  have decoded := decodeFront_encode h []
  rwa [List.append_nil] at decoded

theorem decodePart_encode {a : α} (h : LawfulWire.Fits a) (rest : Bytes) :
    decodePart (Wire.encode a ++ rest) = .ok (a, (Wire.encode a).length) := by
  have whole : subSizes (Wire.encode a ++ rest).length rest.length =
      .ok (Wire.encode a).length := by
    rw [List.length_append, subSizes_of_le (Nat.le_add_left _ _), Nat.add_sub_cancel]
  rw [decodePart, decodeFront_encode h rest, Except.ok_bind]
  dsimp only
  rw [whole]
  rfl

end

/-! ### Stored structures -/

instance : LawfulWire PhysicalType :=
  LawfulWire.ofVariants PhysicalType.all_index (by decide)

instance : LawfulWire Encoding :=
  LawfulWire.ofVariants Encoding.all_index (by decide)

instance : LawfulWire PageKind :=
  LawfulWire.ofVariants PageKind.all_index (by decide)

instance : LawfulWire PageHeader :=
  LawfulWire.ofEquivalent fun _ => rfl

instance : LawfulWire PageLocation :=
  LawfulWire.ofEquivalent fun _ => rfl

instance : LawfulWire OffsetIndex :=
  LawfulWire.ofEquivalent fun _ => rfl

instance : LawfulWire Algorithm :=
  LawfulWire.ofVariants (fun a => by cases a <;> rfl) (by decide)

instance : LawfulWire AadParameters :=
  LawfulWire.ofEquivalent fun _ => rfl

instance : LawfulWire EncryptionAlgorithm :=
  LawfulWire.ofEquivalent fun _ => rfl

instance : LawfulWire FileCryptoMetaData :=
  LawfulWire.ofEquivalent fun _ => rfl

instance : LawfulWire ColumnKeyInfo :=
  LawfulWire.ofEquivalent fun _ => rfl

instance : LawfulWire ColumnCrypto where
  Fits c := ∀ info, c = .columnKey info → LawfulWire.Fits info
  decode_encode c rest h := by
    cases c with
    | footerKey =>
        have choice := Decoder.variant_append (by decide : 0 < 2) (by decide) rest
        exact Decoder.bind_of_ok choice
    | columnKey info =>
        have choice :=
          Decoder.variant_append (by decide : 1 < 2) (by decide) (Wire.encode info ++ rest)
        have inner := Decoder.map_of_ok (f := ColumnCrypto.columnKey)
          (LawfulWire.decode_encode info rest (h info rfl))
        have whole : Wire.encode (ColumnCrypto.columnKey info) =
            Bytes.ofNat 4 1 ++ Wire.encode info := rfl
        rw [whole, List.append_assoc]
        exact (Decoder.bind_of_ok choice).trans inner
  encode_pos c := by
    cases c with
    | footerKey => simp [Wire.encode]
    | columnKey info =>
        change 0 < (Bytes.ofNat 4 1 ++ Wire.encode info).length
        rw [List.length_append, Bytes.length_ofNat]
        omega
  fits_of_length c h := by
    rintro info rfl
    have whole : Wire.encode (ColumnCrypto.columnKey info) =
        Bytes.ofNat 4 1 ++ Wire.encode info := rfl
    rw [whole, List.length_append] at h
    exact LawfulWire.fits_of_length info (by omega)

instance : LawfulWire SchemaElement :=
  LawfulWire.ofEquivalent fun _ => rfl

instance : LawfulWire ColumnMetaData :=
  LawfulWire.ofEquivalent fun _ => rfl

instance : LawfulWire ColumnChunk :=
  LawfulWire.ofEquivalent fun _ => rfl

instance : LawfulWire RowGroup :=
  LawfulWire.ofEquivalent fun _ => rfl

instance : LawfulWire FileMetaData :=
  LawfulWire.ofEquivalent fun _ => rfl

end SealedColumns
