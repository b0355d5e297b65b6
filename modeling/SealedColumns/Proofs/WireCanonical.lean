import SealedColumns.Proofs.Wire
import SealedColumns.Proofs.Operation

/-!
# Only the wire form is read

What a decoder reads off the front of a byte string is the wire form of the value it returns,
byte for byte. So a value has one wire form, and a hostile byte string that is accepted holds
nothing that the value does not say. No limit on lengths is needed in this direction: a length
that was read fits its field.
-/

namespace SealedColumns

/-- Values that are read from their wire form only. -/
class CanonicalWire (α : Type) [Wire α] : Prop where
  encode_of_decode : ∀ {bs rest : Bytes} {a : α},
    Wire.decode bs = .ok (a, rest) → bs = Wire.encode a ++ rest

namespace Decoder

variable {α β : Type} {bs rest : Bytes}

/-- The parts of a decoder that succeeds, and the bytes between them. -/
theorem bind_eq_ok {x : Decoder α} {f : α → Decoder β} {b : β} :
    (x >>= f) bs = .ok (b, rest) ↔
      ∃ a middle, x bs = .ok (a, middle) ∧ f a middle = .ok (b, rest) := by
  change (x bs >>= fun p => f p.1 p.2) = _ ↔ _
  rcases x bs with fault | ⟨a, middle⟩
  · constructor
    · intro h
      cases h
    · rintro ⟨_, _, h, _⟩
      cases h
  · constructor
    · intro h
      exact ⟨a, middle, rfl, h⟩
    · rintro ⟨_, _, h, others⟩
      cases h
      exact others

theorem map_eq_ok {x : Decoder α} {f : α → β} {b : β} :
    (f <$> x) bs = .ok (b, rest) ↔ ∃ a, x bs = .ok (a, rest) ∧ f a = b := by
  rw [map_eq_pure_bind, bind_eq_ok]
  constructor
  · rintro ⟨a, _, first, done⟩
    cases done
    exact ⟨a, first, rfl⟩
  · rintro ⟨a, first, rfl⟩
    exact ⟨a, rest, first, rfl⟩

theorem pure_eq_ok {a b : α} : (pure a : Decoder α) bs = .ok (b, rest) ↔ a = b ∧ bs = rest := by
  constructor
  · intro h
    cases h
    exact ⟨rfl, rfl⟩
  · rintro ⟨rfl, rfl⟩
    rfl

theorem take_eq_ok {n : Nat} {front : Bytes} (h : take n bs = .ok (front, rest)) :
    front.length = n ∧ bs = front ++ rest := by
  rw [take] at h
  split at h
  · next long =>
      cases h
      exact ⟨long, (List.take_append_drop n bs).symm⟩
  · cases h

theorem byte_eq_ok {b : UInt8} (h : byte bs = .ok (b, rest)) : bs = b :: rest := by
  cases bs with
  | nil => cases h
  | cons c bs =>
      cases h
      rfl

/-- A number is read from the bytes that it is written with, and fits them. -/
theorem word_eq_ok {width n : Nat} (h : word width bs = .ok (n, rest)) :
    n < Bytes.count width ∧ bs = Bytes.ofNat width n ++ rest := by
  obtain ⟨front, middle, taken, done⟩ := bind_eq_ok.mp h
  obtain ⟨rfl, rfl⟩ := pure_eq_ok.mp done
  obtain ⟨rfl, rfl⟩ := take_eq_ok taken
  exact ⟨Bytes.toNat_lt front, by rw [Bytes.ofNat_toNat]⟩

theorem variant_eq_ok {count index : Nat} (h : variant count bs = .ok (index, rest)) :
    index < count ∧ bs = Bytes.ofNat 4 index ++ rest := by
  obtain ⟨found, middle, read, chosen⟩ := bind_eq_ok.mp h
  split at chosen
  · next possible =>
      obtain ⟨rfl, rfl⟩ := pure_eq_ok.mp chosen
      exact ⟨possible, (word_eq_ok read).2⟩
  · cases chosen

/-- Values that are read one after the other stand one after the other. -/
theorem items_eq_ok [Wire α] [CanonicalWire α] {n : Nat} {acc as : List α}
    (h : items Wire.decode n acc bs = .ok (as, rest)) :
    ∃ found : List α, as = acc.reverse ++ found ∧ found.length = n ∧
      bs = found.flatMap Wire.encode ++ rest := by
  induction n generalizing acc bs with
  | zero =>
      obtain ⟨rfl, rfl⟩ := pure_eq_ok.mp h
      exact ⟨[], (List.append_nil _).symm, rfl, rfl⟩
  | succ n ih =>
      rw [items] at h
      obtain ⟨a, middle, first, others⟩ := bind_eq_ok.mp h
      obtain ⟨found, rfl, rfl, rfl⟩ := ih others
      refine ⟨a :: found, ?_, rfl, ?_⟩
      · rw [List.reverse_cons, List.append_assoc]
        rfl
      · rw [List.flatMap_cons, List.append_assoc]
        exact CanonicalWire.encode_of_decode first

end Decoder

namespace CanonicalWire

variable {α β : Type} [Wire α] [CanonicalWire α]

instance : CanonicalWire UInt8 where
  encode_of_decode h := Decoder.byte_eq_ok h

instance : CanonicalWire Int16 where
  encode_of_decode {bs rest a} h := by
    obtain ⟨n, middle, read, done⟩ := Decoder.bind_eq_ok.mp h
    obtain ⟨rfl, rfl⟩ := Decoder.pure_eq_ok.mp done
    obtain ⟨bound, rfl⟩ := Decoder.word_eq_ok read
    have back : (UInt16.ofNat n).toInt16.toUInt16.toNat = n :=
      UInt16.toNat_ofNat_of_lt' bound
    simp only [Wire.encode, back]

instance : CanonicalWire Int32 where
  encode_of_decode {bs rest a} h := by
    obtain ⟨n, middle, read, done⟩ := Decoder.bind_eq_ok.mp h
    obtain ⟨rfl, rfl⟩ := Decoder.pure_eq_ok.mp done
    obtain ⟨bound, rfl⟩ := Decoder.word_eq_ok read
    have back : (UInt32.ofNat n).toInt32.toUInt32.toNat = n :=
      UInt32.toNat_ofNat_of_lt' bound
    simp only [Wire.encode, back]

instance : CanonicalWire Int64 where
  encode_of_decode {bs rest a} h := by
    obtain ⟨n, middle, read, done⟩ := Decoder.bind_eq_ok.mp h
    obtain ⟨rfl, rfl⟩ := Decoder.pure_eq_ok.mp done
    obtain ⟨bound, rfl⟩ := Decoder.word_eq_ok read
    have back : (UInt64.ofNat n).toInt64.toUInt64.toNat = n :=
      UInt64.toNat_ofNat_of_lt' bound
    simp only [Wire.encode, back]

instance : CanonicalWire Bool where
  encode_of_decode {bs rest a} h := by
    obtain ⟨found, middle, read, chosen⟩ := Decoder.bind_eq_ok.mp h
    obtain rfl := Decoder.byte_eq_ok read
    split at chosen
    · obtain ⟨rfl, rfl⟩ := Decoder.pure_eq_ok.mp chosen
      rfl
    · obtain ⟨rfl, rfl⟩ := Decoder.pure_eq_ok.mp chosen
      rfl
    · cases chosen

instance : CanonicalWire String where
  encode_of_decode {bs rest a} h := by
    obtain ⟨length, middle, read, others⟩ := Decoder.bind_eq_ok.mp h
    obtain ⟨text, last, taken, chosen⟩ := Decoder.bind_eq_ok.mp others
    obtain ⟨_, rfl⟩ := Decoder.word_eq_ok read
    obtain ⟨rfl, rfl⟩ := Decoder.take_eq_ok taken
    cases decoded : Utf8.decode text with
    | error fault =>
        rw [decoded] at chosen
        cases chosen
    | ok s =>
        rw [decoded] at chosen
        obtain ⟨rfl, rfl⟩ := Decoder.pure_eq_ok.mp chosen
        rw [← Utf8.encode_of_decode decoded]
        exact (List.append_assoc _ _ _).symm

instance : CanonicalWire (List α) where
  encode_of_decode {bs rest as} h := by
    obtain ⟨length, middle, read, others⟩ := Decoder.bind_eq_ok.mp h
    obtain ⟨_, rfl⟩ := Decoder.word_eq_ok read
    obtain ⟨found, rfl, rfl, rfl⟩ := Decoder.items_eq_ok others
    exact (List.append_assoc _ _ _).symm

instance : CanonicalWire (Option α) where
  encode_of_decode {bs rest o} h := by
    obtain ⟨tag, middle, read, chosen⟩ := Decoder.bind_eq_ok.mp h
    obtain rfl := Decoder.byte_eq_ok read
    split at chosen
    · obtain ⟨rfl, rfl⟩ := Decoder.pure_eq_ok.mp chosen
      rfl
    · obtain ⟨a, last, inner, done⟩ := Decoder.bind_eq_ok.mp chosen
      obtain ⟨rfl, rfl⟩ := Decoder.pure_eq_ok.mp done
      exact congrArg (1 :: ·) (encode_of_decode inner)
    · cases chosen

instance [Wire β] [CanonicalWire β] : CanonicalWire (α × β) where
  encode_of_decode {bs rest p} h := by
    obtain ⟨a, middle, first, others⟩ := Decoder.bind_eq_ok.mp h
    obtain ⟨b, last, second, done⟩ := Decoder.bind_eq_ok.mp others
    obtain ⟨rfl, rfl⟩ := Decoder.pure_eq_ok.mp done
    rw [encode_of_decode first, encode_of_decode second]
    exact (List.append_assoc _ _ _).symm

/-- A structure is read from its wire form only if its data is and tells nothing more. -/
theorem ofEquivalent {toData : β → α} {ofData : α → β} (h : ∀ a, toData (ofData a) = a) :
    @CanonicalWire β (Wire.ofEquivalent toData ofData) :=
  letI := Wire.ofEquivalent toData ofData
  { encode_of_decode := by
      intro bs rest b decoded
      obtain ⟨a, inner, rfl⟩ := Decoder.map_eq_ok.mp decoded
      change bs = Wire.encode (toData (ofData a)) ++ rest
      rw [h a]
      exact encode_of_decode inner }

/-- A closed choice is read from its wire form only if the variants are listed in the order of their
stored indices. -/
theorem ofVariants {γ : Type} {variants : List γ} {index : γ → Nat}
    (ordered : variants.map index = List.range variants.length) :
    @CanonicalWire γ (Wire.ofVariants variants index) :=
  letI := Wire.ofVariants variants index
  { encode_of_decode := by
      intro bs rest c decoded
      obtain ⟨i, middle, read, chosen⟩ := Decoder.bind_eq_ok.mp decoded
      obtain ⟨_, rfl⟩ := Decoder.word_eq_ok read
      cases present : variants[i]? with
      | none =>
          rw [present] at chosen
          cases chosen
      | some d =>
          rw [present] at chosen
          obtain ⟨rfl, rfl⟩ := Decoder.pure_eq_ok.mp chosen
          have place : (variants.map index)[i]? = some (index d) := by
            rw [List.getElem?_map, present]
            rfl
          rw [ordered] at place
          obtain ⟨_, same⟩ := List.getElem?_eq_some_iff.mp place
          rw [List.getElem_range] at same
          rw [same]
          rfl }

end CanonicalWire

/-! ### Stored structures -/

instance : CanonicalWire PhysicalType :=
  CanonicalWire.ofVariants rfl

instance : CanonicalWire Encoding :=
  CanonicalWire.ofVariants rfl

instance : CanonicalWire PageKind :=
  CanonicalWire.ofVariants rfl

instance : CanonicalWire PageHeader :=
  CanonicalWire.ofEquivalent fun _ => rfl

instance : CanonicalWire PageLocation :=
  CanonicalWire.ofEquivalent fun _ => rfl

instance : CanonicalWire OffsetIndex :=
  CanonicalWire.ofEquivalent fun _ => rfl

instance : CanonicalWire Algorithm :=
  CanonicalWire.ofVariants rfl

instance : CanonicalWire AadParameters :=
  CanonicalWire.ofEquivalent fun _ => rfl

instance : CanonicalWire EncryptionAlgorithm :=
  CanonicalWire.ofEquivalent fun _ => rfl

instance : CanonicalWire FileCryptoMetaData :=
  CanonicalWire.ofEquivalent fun _ => rfl

instance : CanonicalWire ColumnKeyInfo :=
  CanonicalWire.ofEquivalent fun _ => rfl

instance : CanonicalWire ColumnCrypto where
  encode_of_decode {bs rest c} h := by
    obtain ⟨index, middle, read, chosen⟩ := Decoder.bind_eq_ok.mp h
    obtain ⟨bound, rfl⟩ := Decoder.variant_eq_ok read
    have possible : index = 0 ∨ index = 1 := by omega
    rcases possible with rfl | rfl
    · obtain ⟨rfl, rfl⟩ := Decoder.pure_eq_ok.mp chosen
      rfl
    · obtain ⟨info, last, inner, done⟩ := Decoder.bind_eq_ok.mp chosen
      obtain ⟨rfl, rfl⟩ := Decoder.pure_eq_ok.mp done
      rw [CanonicalWire.encode_of_decode inner]
      exact (List.append_assoc _ _ _).symm

instance : CanonicalWire SchemaElement :=
  CanonicalWire.ofEquivalent fun _ => rfl

instance : CanonicalWire ColumnMetaData :=
  CanonicalWire.ofEquivalent fun _ => rfl

instance : CanonicalWire ColumnChunk :=
  CanonicalWire.ofEquivalent fun _ => rfl

instance : CanonicalWire RowGroup :=
  CanonicalWire.ofEquivalent fun _ => rfl

instance : CanonicalWire FileMetaData :=
  CanonicalWire.ofEquivalent fun _ => rfl

section

variable {α : Type} [Wire α] [CanonicalWire α]

/-- A structure that is read off the front stands there, and nothing of what follows is lost. -/
theorem decodeFront_eq_ok {bs rest : Bytes} {a : α} (h : decodeFront bs = .ok (a, rest)) :
    bs = Wire.encode a ++ rest := by
  rw [decodeFront] at h
  split at h
  · next decoded =>
      cases h
      exact CanonicalWire.encode_of_decode decoded
  · cases h

/-- The number of bytes that a structure is said to take is that of its wire form. -/
theorem decodePart_eq_ok {bs : Bytes} {a : α} {consumed : Nat}
    (h : decodePart bs = .ok (a, consumed)) :
    consumed = (Wire.encode a).length ∧ ∃ rest, bs = Wire.encode a ++ rest := by
  obtain ⟨⟨b, rest⟩, decoded, counted⟩ := Except.bind_eq_ok.mp h
  obtain ⟨count, taken, same⟩ := Except.bind_eq_ok.mp counted
  cases same
  obtain rfl := decodeFront_eq_ok decoded
  obtain ⟨_, rfl⟩ := subSizes_eq_ok taken
  refine ⟨?_, rest, rfl⟩
  rw [List.length_append, Nat.add_sub_cancel]

end

end SealedColumns
