import SealedColumns.Proofs.WireCanonical

/-!
# Where a wire form ends

A wire form tells where it ends, and nothing shorter is mistaken for it: a decoder that is given
only the front of one asks for more bytes, wherever the cut is. Together with the two modules before
this one, the structures of files and the byte strings that they are read from correspond one to
one, and the number of bytes that a structure is said to take is exact.

The cut may be inside a word, between two fields, or inside the tenth text of a list, so the
statement is carried from the parts of a decoder to the whole: `Decoder.Needs.bind` is the only
place where the position of the cut matters.
-/

namespace SealedColumns

namespace Decoder

variable {α β : Type} {bs more : Bytes}

/-- The decoder asks for every byte of `bs`: given only the front of it, it runs out of bytes. -/
def Needs (x : Decoder α) (bs : Bytes) : Prop :=
  ∀ front back, bs = front ++ back → back ≠ [] → x front = .error .sizeLimit

namespace Needs

/-- Nothing is a proper front of no bytes. -/
theorem nil (x : Decoder α) : Needs x [] := by
  intro front back split cut
  obtain ⟨_, rfl⟩ := List.append_eq_nil_iff.mp split.symm
  exact absurd rfl cut

/-- What runs out of bytes stops the decoder that it is a part of. -/
theorem fails_bind {x : Decoder α} {f : α → Decoder β} (h : x bs = .error .sizeLimit) :
    (x >>= f) bs = .error .sizeLimit := by
  change (x bs >>= fun p => f p.1 p.2) = _
  rw [h]
  rfl

/-- Two parts in sequence need the bytes of both: a cut is inside the first, or behind it. -/
theorem bind {x : Decoder α} {f : α → Decoder β} {a : α} (first : Needs x bs)
    (reads : ∀ rest, x (bs ++ rest) = .ok (a, rest)) (second : Needs (f a) more) :
    Needs (x >>= f) (bs ++ more) := by
  intro front back split cut
  -- A cut at the border counts as one behind the first part, which then ends in success.
  have behind : ∀ middle, front = bs ++ middle → more = middle ++ back →
      (x >>= f) front = .error .sizeLimit := by
    rintro middle rfl divided
    rw [bind_of_ok (reads middle)]
    exact second middle back divided cut
  rcases List.append_eq_append_iff.mp split with ⟨middle, after, rest⟩ | ⟨middle, inside, rest⟩
  · exact behind middle after rest
  · by_cases border : middle = []
    · subst border
      exact behind [] (by rw [inside, List.append_nil, List.append_nil]) rest.symm
    · exact fails_bind (first front middle inside border)

/-- A decoder whose last step only shapes the value. -/
theorem bind_nil {x : Decoder α} {f : α → Decoder β} {a : α} (first : Needs x bs)
    (reads : ∀ rest, x (bs ++ rest) = .ok (a, rest)) : Needs (x >>= f) bs := by
  have whole := first.bind (f := f) reads (Needs.nil (f a))
  rwa [List.append_nil] at whole

theorem map {x : Decoder α} {f : α → β} (h : Needs x bs) : Needs (f <$> x) bs := by
  intro front back split cut
  rw [map_eq_pure_bind]
  exact fails_bind (h front back split cut)

theorem take (bs : Bytes) : Needs (Decoder.take bs.length) bs := by
  intro front back split cut
  have missing : (front.take bs.length).length ≠ bs.length := by
    have some_left : 0 < back.length := List.length_pos_iff.mpr cut
    have total : bs.length = front.length + back.length := by
      rw [split, List.length_append]
    rw [List.length_take]
    omega
  exact if_neg missing

theorem byte (b : UInt8) : Needs Decoder.byte [b] := by
  intro front back split cut
  cases front with
  | nil => rfl
  | cons c front =>
      have nothing : front ++ back = [] := (List.cons.inj split).2.symm
      exact absurd (List.append_eq_nil_iff.mp nothing).2 cut

theorem word (width n : Nat) : Needs (Decoder.word width) (Bytes.ofNat width n) := by
  have front := take (Bytes.ofNat width n)
  have reads := take_append (Bytes.ofNat width n)
  rw [Bytes.length_ofNat] at front reads
  exact front.bind_nil reads

/-- Values one after the other need the bytes of all of them. -/
theorem items [Wire α] [LawfulWire α] (as : List α)
    (each : ∀ a ∈ as, Needs (Wire.decode : Decoder α) (Wire.encode a))
    (fits : ∀ a ∈ as, LawfulWire.Fits a)
    (acc : List α) : Needs (Decoder.items Wire.decode as.length acc) (as.flatMap Wire.encode) := by
  induction as generalizing acc with
  | nil => exact Needs.nil _
  | cons a as ih =>
      have reads : ∀ rest, Wire.decode (Wire.encode a ++ rest) = .ok (a, rest) := fun rest =>
        LawfulWire.decode_encode a rest (fits a List.mem_cons_self)
      have others := ih (fun b hb => each b (List.mem_cons_of_mem a hb))
        (fun b hb => fits b (List.mem_cons_of_mem a hb)) (a :: acc)
      exact (each a List.mem_cons_self).bind reads others

end Needs

end Decoder

/-- Values whose wire form is asked for to its last byte. -/
class DelimitedWire (α : Type) [Wire α] [LawfulWire α] : Prop where
  needs_encode : ∀ a : α, LawfulWire.Fits a →
    Decoder.Needs (Wire.decode : Decoder α) (Wire.encode a)

namespace DelimitedWire

variable {α β : Type} [Wire α] [LawfulWire α] [DelimitedWire α]

instance : DelimitedWire UInt8 where
  needs_encode b _ := Decoder.Needs.byte b

instance : DelimitedWire Int16 where
  needs_encode n _ :=
    (Decoder.Needs.word 2 n.toUInt16.toNat).bind_nil (Decoder.word_append n.toUInt16.toNat_lt)

instance : DelimitedWire Int32 where
  needs_encode n _ :=
    (Decoder.Needs.word 4 n.toUInt32.toNat).bind_nil (Decoder.word_append n.toUInt32.toNat_lt)

instance : DelimitedWire Int64 where
  needs_encode n _ :=
    (Decoder.Needs.word 8 n.toUInt64.toNat).bind_nil (Decoder.word_append n.toUInt64.toNat_lt)

instance : DelimitedWire Bool where
  needs_encode _ _ := (Decoder.Needs.byte _).bind_nil fun _ => rfl

instance : DelimitedWire String where
  needs_encode s h := by
    have text := (Decoder.Needs.take (Utf8.encode s)).bind_nil
      (f := fun bs => match Utf8.decode bs with
        | .ok s => return s
        | .error fault => Decoder.fail (.invalidText fault))
      (Decoder.take_append (Utf8.encode s))
    exact (Decoder.Needs.word 8 _).bind (Decoder.word_append h) text

instance : DelimitedWire (List α) where
  needs_encode as h :=
    (Decoder.Needs.word 8 as.length).bind (Decoder.word_append h.1)
      (Decoder.Needs.items as (fun a ha => needs_encode a (h.2 a ha)) h.2 [])

instance : DelimitedWire (Option α) where
  needs_encode o h := by
    cases o with
    | none => exact (Decoder.Needs.byte 0).bind_nil fun _ => rfl
    | some a =>
        have inner := (needs_encode a (h a rfl)).map (f := some)
        rw [map_eq_pure_bind] at inner
        exact (Decoder.Needs.byte 1).bind (fun _ => rfl) inner

instance [Wire β] [LawfulWire β] [DelimitedWire β] : DelimitedWire (α × β) where
  needs_encode p h := by
    have first : ∀ rest, Wire.decode (Wire.encode p.1 ++ rest) = .ok (p.1, rest) := fun rest =>
      LawfulWire.decode_encode p.1 rest h.1
    have second : ∀ rest, Wire.decode (Wire.encode p.2 ++ rest) = .ok (p.2, rest) := fun rest =>
      LawfulWire.decode_encode p.2 rest h.2
    exact (needs_encode p.1 h.1).bind first ((needs_encode p.2 h.2).bind_nil second)

/-- A structure is asked for to its last byte if its data is. -/
theorem ofEquivalent {toData : β → α} {ofData : α → β} (h : ∀ b, ofData (toData b) = b) :
    @DelimitedWire β (Wire.ofEquivalent toData ofData) (LawfulWire.ofEquivalent h) :=
  letI := Wire.ofEquivalent toData ofData
  letI := LawfulWire.ofEquivalent h
  { needs_encode := fun b fits => (needs_encode (toData b) fits).map }

theorem ofVariants {γ : Type} {variants : List γ} {index : γ → Nat}
    (h : ∀ c, variants[index c]? = some c) (short : variants.length ≤ Bytes.count 4) :
    @DelimitedWire γ (Wire.ofVariants variants index) (LawfulWire.ofVariants h short) :=
  letI := Wire.ofVariants variants index
  letI := LawfulWire.ofVariants h short
  { needs_encode := fun c _ => by
      have bound : index c < Bytes.count 4 :=
        Nat.lt_of_lt_of_le (List.getElem?_eq_some_iff.mp (h c)).1 short
      exact (Decoder.Needs.word 4 (index c)).bind_nil (Decoder.word_append bound) }

end DelimitedWire

/-! ### Stored structures -/

instance : DelimitedWire PhysicalType :=
  DelimitedWire.ofVariants PhysicalType.all_index (by decide)

instance : DelimitedWire Encoding :=
  DelimitedWire.ofVariants Encoding.all_index (by decide)

instance : DelimitedWire PageKind :=
  DelimitedWire.ofVariants PageKind.all_index (by decide)

instance : DelimitedWire PageHeader :=
  DelimitedWire.ofEquivalent fun _ => rfl

instance : DelimitedWire PageLocation :=
  DelimitedWire.ofEquivalent fun _ => rfl

instance : DelimitedWire OffsetIndex :=
  DelimitedWire.ofEquivalent fun _ => rfl

instance : DelimitedWire Algorithm :=
  DelimitedWire.ofVariants (fun a => by cases a <;> rfl) (by decide)

instance : DelimitedWire AadParameters :=
  DelimitedWire.ofEquivalent fun _ => rfl

instance : DelimitedWire EncryptionAlgorithm :=
  DelimitedWire.ofEquivalent fun _ => rfl

instance : DelimitedWire FileCryptoMetaData :=
  DelimitedWire.ofEquivalent fun _ => rfl

instance : DelimitedWire ColumnKeyInfo :=
  DelimitedWire.ofEquivalent fun _ => rfl

instance : DelimitedWire ColumnCrypto where
  needs_encode c h := by
    have index (i : Nat) : Decoder.Needs (Decoder.variant 2) (Bytes.ofNat 4 i) := by
      intro front back split cut
      exact Decoder.Needs.fails_bind (Decoder.Needs.word 4 i front back split cut)
    cases c with
    | footerKey => exact (index 0).bind_nil (Decoder.variant_append (by decide) (by decide))
    | columnKey info =>
        have inner := (DelimitedWire.needs_encode info (h info rfl)).map
          (f := ColumnCrypto.columnKey)
        rw [map_eq_pure_bind] at inner
        exact (index 1).bind (Decoder.variant_append (by decide) (by decide)) inner

instance : DelimitedWire SchemaElement :=
  DelimitedWire.ofEquivalent fun _ => rfl

instance : DelimitedWire ColumnMetaData :=
  DelimitedWire.ofEquivalent fun _ => rfl

instance : DelimitedWire ColumnChunk :=
  DelimitedWire.ofEquivalent fun _ => rfl

instance : DelimitedWire RowGroup :=
  DelimitedWire.ofEquivalent fun _ => rfl

instance : DelimitedWire FileMetaData :=
  DelimitedWire.ofEquivalent fun _ => rfl

section

variable {α : Type} [Wire α] [LawfulWire α] [DelimitedWire α]

theorem decodeFront_take {a : α} (h : LawfulWire.Fits a) {n : Nat}
    (cut : n < (Wire.encode a).length) :
    (decodeFront ((Wire.encode a).take n) : Except Error (α × Bytes)) =
      .error (.undecodable .sizeLimit) := by
  have split := (List.take_append_drop n (Wire.encode a)).symm
  have left : (Wire.encode a).drop n ≠ [] := by
    intro nothing
    rw [List.drop_eq_nil_iff] at nothing
    omega
  rw [decodeFront, DelimitedWire.needs_encode a h _ _ split left]

/-- A wire form that is cut anywhere is refused. -/
theorem decodePart_take {a : α} (h : LawfulWire.Fits a) {n : Nat}
    (cut : n < (Wire.encode a).length) :
    (decodePart ((Wire.encode a).take n) : Except Error (α × Nat)) =
      .error (.undecodable .sizeLimit) := by
  rw [decodePart, decodeFront_take h cut]
  rfl

end

/-- The structures that footers, page headers and sealed modules are made of, and the closed choices
inside them. -/
inductive StoredStructure where
  | fileMetaData
  | schemaElement
  | rowGroup
  | columnChunk
  | columnMetaData
  | columnCrypto
  | columnKeyInfo
  | fileCryptoMetaData
  | encryptionAlgorithm
  | aadParameters
  | pageHeader
  | offsetIndex
  | pageLocation
  | physicalType
  | encoding
  | pageKind
  | algorithm
  deriving DecidableEq

namespace StoredStructure

/-- The values of a structure. -/
@[reducible] def Carrier : StoredStructure → Type
  | fileMetaData => FileMetaData
  | schemaElement => SchemaElement
  | rowGroup => RowGroup
  | columnChunk => ColumnChunk
  | columnMetaData => ColumnMetaData
  | columnCrypto => ColumnCrypto
  | columnKeyInfo => ColumnKeyInfo
  | fileCryptoMetaData => FileCryptoMetaData
  | encryptionAlgorithm => EncryptionAlgorithm
  | aadParameters => AadParameters
  | pageHeader => PageHeader
  | offsetIndex => OffsetIndex
  | pageLocation => PageLocation
  | physicalType => PhysicalType
  | encoding => Encoding
  | pageKind => PageKind
  | algorithm => Algorithm

instance (s : StoredStructure) : Wire s.Carrier := by
  cases s <;> exact inferInstance

instance (s : StoredStructure) : LawfulWire s.Carrier := by
  cases s <;> exact inferInstance

instance (s : StoredStructure) : CanonicalWire s.Carrier := by
  cases s <;> exact inferInstance

instance (s : StoredStructure) : DelimitedWire s.Carrier := by
  cases s <;> exact inferInstance

/-- The values of a structure and their wire forms correspond one to one. The wire form of a value
is read back with its exact length, whatever follows it; where a value is read, the bytes that it is
said to take are its wire form; and every proper front of a wire form is refused as corrupt.

`LawfulWire.Fits` asks of the texts and lists inside the value that they are shorter than
`Bytes.count 8`, and of nothing else. -/
theorem decodePart_exact (s : StoredStructure) (v : s.Carrier) :
    (LawfulWire.Fits v → ∀ rest,
      decodePart (Wire.encode v ++ rest) = .ok (v, (Wire.encode v).length)) ∧
    (∀ bs consumed, decodePart bs = .ok (v, consumed) →
      consumed ≤ bs.length ∧ Wire.encode v = bs.take consumed) ∧
    (LawfulWire.Fits v → ∀ n < (Wire.encode v).length,
      (decodePart ((Wire.encode v).take n) : Except Error (s.Carrier × Nat)) =
        .error (.undecodable .sizeLimit) ∧
      (Error.undecodable .sizeLimit).kind = .corruptFile) := by
  refine ⟨fun fits rest => decodePart_encode fits rest, ?_, ?_⟩
  · intro bs consumed read
    obtain ⟨rfl, rest, rfl⟩ := decodePart_eq_ok read
    constructor
    · simp
    · exact List.take_left.symm
  · intro fits n cut
    exact ⟨decodePart_take fits cut, rfl⟩

end StoredStructure

namespace Sample

/-- A chunk with a key of its own, of a column whose name is not all letters. -/
def storedChunk : ColumnChunk where
  fileOffset := 4
  metaData := some
    { type := .byteArray, encodings := [.plain, .dictionary], pathInSchema := ["a", "é\n"],
      numValues := 3, totalUncompressedSize := 100, totalCompressedSize := 156,
      dataPageOffset := 90, dictionaryPageOffset := some 4 }
  offsetIndexOffset := some (-1)
  offsetIndexLength := some 60
  crypto := some (.columnKey ⟨["a", "é\n"], some [7, 0]⟩)
  encryptedMetaData := some [1, 2, 3]

end Sample

theorem StoredStructure.decodePart_exact_sample :
    LawfulWire.Fits Sample.storedChunk ∧
    decodePart (Wire.encode Sample.storedChunk ++ [9, 9]) = .ok (Sample.storedChunk, 168) ∧
    Wire.encode Sample.storedChunk = (Wire.encode Sample.storedChunk ++ [9, 9]).take 168 ∧
    (decodePart ((Wire.encode Sample.storedChunk).take 100) : Except Error (ColumnChunk × Nat)) =
      .error (.undecodable .sizeLimit) := by
  have length : (Wire.encode Sample.storedChunk).length = 168 := by decide +kernel
  have fits : LawfulWire.Fits Sample.storedChunk :=
    LawfulWire.fits_of_length _ (by rw [length]; decide)
  obtain ⟨reads, canonical, refuses⟩ :=
    StoredStructure.decodePart_exact .columnChunk Sample.storedChunk
  have whole := reads fits [9, 9]
  have front := canonical _ _ whole
  have cut := refuses fits 100 (by rw [length]; decide)
  rw [length] at whole front
  exact ⟨fits, whole, front.2, cut.1⟩

end SealedColumns
