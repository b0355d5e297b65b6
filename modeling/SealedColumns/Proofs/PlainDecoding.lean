import SealedColumns.Proofs.PlainValues

/-!
# What plain decoding accepts

Decoding takes one value after the other from the front of a buffer, so it is told by one step. The
step takes a value exactly when the buffer starts with a piece that is read as this value, and fails
with an end of file otherwise. For every type but truth values the piece is the encoding of the
value, and then the values of a buffer are those whose encoding it starts with. A truth value is
read from any byte, so a buffer that is decoded need not start with the encoding of what it gives.

A byte array whose length does not fit its length field has an encoding that tells another length.
No buffer below `UInt32.size + 4` bytes starts with such an encoding.
-/

namespace SealedColumns

namespace Plain

variable {t : PhysicalType}

/-- The piece of a buffer that decoding reads as a value. -/
def ReadAs : (t : PhysicalType) → t.Value → Bytes → Prop
  | .boolean, b, piece => ∃ byte : UInt8, piece = [byte] ∧ b = (byte != 0)
  | t, v, piece => Fits t v ∧ piece = encodeValue t v

theorem readAs_iff (h : t ≠ .boolean) {v : t.Value} {piece : Bytes} :
    ReadAs t v piece ↔ Fits t v ∧ piece = encodeValue t v := by
  cases t with
  | boolean => exact absurd rfl h
  | int32 | int64 | float | double | byteArray => exact Iff.rfl

/-- The first value of a buffer, and the bytes after it. -/
def nextValue (t : PhysicalType) (total : Nat) (bs : Bytes) : Except Error (t.Value × Bytes) :=
  if bs.length < t.width then .error (.valuesCutShort total)
  else decodeValue t (bs.take t.width) (bs.drop t.width)

theorem decodeValues_succ (total n : Nat) (acc : List t.Value) (bs : Bytes) :
    decodeValues t total (n + 1) acc bs =
      nextValue t total bs >>= fun next => decodeValues t total n (next.1 :: acc) next.2 := by
  rw [decodeValues, nextValue, List.length_take]
  by_cases short : bs.length < t.width
  · have cut : min t.width bs.length < t.width := by omega
    rw [if_pos short, if_pos cut]
    rfl
  · have whole : min t.width bs.length = t.width := by omega
    rw [if_neg short, if_neg (by omega), Bytes.cut, List.length_take, if_pos whole]
    rfl

theorem decodeValue_byteArray (front rest : Bytes) :
    decodeValue .byteArray front rest =
      if rest.length < Bytes.toNat front then .error (.byteArrayCutShort (Bytes.toNat front))
      else .ok (rest.take (Bytes.toNat front), rest.drop (Bytes.toNat front)) := by
  rw [decodeValue, List.length_take]
  by_cases short : rest.length < Bytes.toNat front
  · rw [if_pos short, if_pos (by omega)]
    rfl
  · have whole : min (Bytes.toNat front) rest.length = Bytes.toNat front := by omega
    rw [if_neg short, if_neg (by omega), Bytes.cut, List.length_take, if_pos whole]

/-- The bytes that a value is decoded from start with its encoding. Truth values are the exception,
since every byte is one. -/
theorem append_of_decodeValue (truth : t ≠ .boolean) {v : t.Value} {front rest left : Bytes}
    (width : front.length = t.width) (h : decodeValue t front rest = .ok (v, left)) :
    Fits t v ∧ front ++ rest = encodeValue t v ++ left := by
  have bound : Bytes.toNat front < Bytes.count t.width := width ▸ Bytes.toNat_lt front
  have told : Bytes.ofNat t.width (Bytes.toNat front) = front := width ▸ Bytes.ofNat_toNat front
  cases t with
  | boolean => exact absurd rfl truth
  | int32 =>
      cases h
      rw [encodeValue, UInt32.toUInt32_toInt32, UInt32.toNat_ofNat_of_lt' bound]
      exact ⟨trivial, congrArg (· ++ rest) told.symm⟩
  | int64 =>
      cases h
      rw [encodeValue, UInt64.toUInt64_toInt64, UInt64.toNat_ofNat_of_lt' bound]
      exact ⟨trivial, congrArg (· ++ rest) told.symm⟩
  | float =>
      cases h
      rw [encodeValue, UInt32.toNat_ofNat_of_lt' bound]
      exact ⟨trivial, congrArg (· ++ rest) told.symm⟩
  | double =>
      cases h
      rw [encodeValue, UInt64.toNat_ofNat_of_lt' bound]
      exact ⟨trivial, congrArg (· ++ rest) told.symm⟩
  | byteArray =>
      rw [decodeValue_byteArray] at h
      split at h
      · cases h
      next covered =>
        cases h
        have length := List.length_take_of_le (Nat.le_of_not_lt covered)
        have fits : Fits .byteArray (rest.take (Bytes.toNat front)) := by
          rw [Fits, length]
          exact bound
        rw [encodeValue, Nat.mod_eq_of_lt fits, length, List.append_assoc, List.take_append_drop]
        exact ⟨fits, congrArg (· ++ rest) told.symm⟩

theorem toNat_singleton_bne (byte : UInt8) : (Bytes.toNat [byte] != 0) = (byte != 0) := by
  rw [Bytes.toNat, Bytes.toNat, Nat.mul_zero, Nat.add_zero, Bool.eq_iff_iff, bne_iff_ne, bne_iff_ne,
    Ne, Ne, ← UInt8.toNat_inj]
  rfl

/-- A buffer that starts with a piece gives the value that is read from the piece. -/
theorem nextValue_of_readAs {total : Nat} {v : t.Value} {piece : Bytes} (read : ReadAs t v piece)
    (rest : Bytes) : nextValue t total (piece ++ rest) = .ok (v, rest) := by
  by_cases truth : t = .boolean
  · subst truth
    obtain ⟨byte, rfl, rfl⟩ := read
    rw [nextValue, if_neg (by simp [PhysicalType.width])]
    exact congrArg (fun b => Except.ok (b, rest)) (toNat_singleton_bne byte)
  · obtain ⟨fits, rfl⟩ := (readAs_iff truth).mp read
    obtain ⟨front, tail, split, width, decode⟩ := splits v
    rw [nextValue, split, List.append_assoc, ← width, List.take_left, List.drop_left,
      if_neg (by simp), decode fits]

/-- A value that a buffer gives is read from a piece that the buffer starts with. -/
theorem exists_readAs_of_nextValue {total : Nat} {v : t.Value} {bs rest : Bytes}
    (h : nextValue t total bs = .ok (v, rest)) :
    ∃ piece, ReadAs t v piece ∧ bs = piece ++ rest := by
  rw [nextValue] at h
  split at h
  · cases h
  next long =>
    have width : (bs.take t.width).length = t.width := by
      rw [List.length_take]
      omega
    rw [← List.take_append_drop t.width bs]
    by_cases truth : t = .boolean
    · subst truth
      obtain ⟨byte, one⟩ := List.length_eq_one_iff.mp width
      rw [one] at h ⊢
      cases h
      exact ⟨[byte], ⟨byte, rfl, toNat_singleton_bne byte⟩, rfl⟩
    · obtain ⟨fits, written⟩ := append_of_decodeValue truth width h
      exact ⟨encodeValue t v, (readAs_iff truth).mpr ⟨fits, rfl⟩, written⟩

theorem nextValue_eq_ok {total : Nat} {v : t.Value} {bs rest : Bytes} :
    nextValue t total bs = .ok (v, rest) ↔ ∃ piece, ReadAs t v piece ∧ bs = piece ++ rest := by
  constructor
  · exact exists_readAs_of_nextValue
  · rintro ⟨piece, read, rfl⟩
    exact nextValue_of_readAs read rest

theorem nextValue_error {total : Nat} {bs : Bytes} {e : Error}
    (h : nextValue t total bs = .error e) : e.kind = .endOfFile := by
  rw [nextValue] at h
  split at h
  · cases h
    rfl
  · cases t with
    | byteArray =>
        rw [decodeValue_byteArray] at h
        split at h
        · cases h
          rfl
        · cases h
    | boolean | int32 | int64 | float | double => cases h

/-- The values that decoding reads one after the other from the front of a buffer. -/
def Holds (t : PhysicalType) : List t.Value → Bytes → Prop
  | [], _ => True
  | v :: vs, bs => ∃ piece rest, ReadAs t v piece ∧ bs = piece ++ rest ∧ Holds t vs rest

theorem decodeValues_eq_ok {total n : Nat} {acc read : List t.Value} {bs : Bytes} :
    decodeValues t total n acc bs = .ok read ↔
      ∃ vs, vs.length = n ∧ Holds t vs bs ∧ acc.reverse ++ vs = read := by
  induction n generalizing acc bs with
  | zero =>
      rw [decodeValues, Except.ok.injEq]
      constructor
      · intro done
        exact ⟨[], rfl, trivial, by rw [List.append_nil, done]⟩
      · rintro ⟨vs, none, _, joined⟩
        rw [← joined, List.eq_nil_of_length_eq_zero none, List.append_nil]
  | succ n ih =>
      rw [decodeValues_succ, Except.bind_eq_ok]
      constructor
      · rintro ⟨⟨v, rest⟩, first, others⟩
        obtain ⟨piece, asV, rfl⟩ := nextValue_eq_ok.mp first
        obtain ⟨vs, rfl, held, joined⟩ := ih.mp others
        refine ⟨v :: vs, rfl, ⟨piece, rest, asV, rfl, held⟩, ?_⟩
        rw [← joined, List.reverse_cons, List.append_assoc, List.singleton_append]
      · rintro ⟨_ | ⟨v, vs⟩, length, held, joined⟩
        · cases length
        · obtain ⟨piece, rest, asV, rfl, held⟩ := held
          refine ⟨(v, rest), nextValue_of_readAs asV rest, ih.mpr ⟨vs, ?_, held, ?_⟩⟩
          · exact Nat.succ.inj length
          · rw [← joined, List.reverse_cons, List.append_assoc, List.singleton_append]

theorem decodeValues_error {total n : Nat} {acc : List t.Value} {bs : Bytes} {e : Error}
    (h : decodeValues t total n acc bs = .error e) : e.kind = .endOfFile := by
  induction n generalizing acc bs with
  | zero => cases h
  | succ n ih =>
      rw [decodeValues_succ] at h
      cases first : nextValue t total bs with
      | error fault =>
          rw [first] at h
          cases h
          exact nextValue_error first
      | ok next =>
          rw [first] at h
          exact ih h

/-- Truth values are read from any bytes, one from each. -/
theorem holds_boolean {vs : List Bool} {bs : Bytes} :
    Holds .boolean vs bs ↔ vs.length ≤ bs.length ∧ vs = (bs.take vs.length).map (· != 0) := by
  induction vs generalizing bs with
  | nil => simp [Holds]
  | cons v vs ih =>
      constructor
      · rintro ⟨_, rest, ⟨byte, rfl, rfl⟩, rfl, held⟩
        obtain ⟨enough, same⟩ := ih.mp held
        refine ⟨Nat.succ_le_succ enough, ?_⟩
        rw [List.length_cons, List.singleton_append, List.take_succ_cons, List.map_cons, ← same]
      · rintro ⟨enough, same⟩
        cases bs with
        | nil => exact absurd enough (Nat.not_succ_le_zero _)
        | cons byte rest =>
            rw [List.length_cons, List.take_succ_cons, List.map_cons] at same
            obtain ⟨first, others⟩ := List.cons.inj same
            exact ⟨[byte], rest, ⟨byte, rfl, first⟩, rfl,
              ih.mpr ⟨Nat.le_of_succ_le_succ enough, others⟩⟩

/-- Values of the other types are those whose encoding a buffer starts with. -/
theorem holds_iff_front (truth : t ≠ .boolean) {vs : List t.Value} {bs : Bytes} :
    Holds t vs bs ↔ (∀ v ∈ vs, Fits t v) ∧ vs.flatMap (encodeValue t) <+: bs := by
  induction vs generalizing bs with
  | nil => simp [Holds]
  | cons v vs ih =>
      rw [List.forall_mem_cons, List.flatMap_cons]
      constructor
      · rintro ⟨piece, rest, asV, rfl, held⟩
        obtain ⟨fits, rfl⟩ := (readAs_iff truth).mp asV
        obtain ⟨others, front⟩ := ih.mp held
        exact ⟨⟨fits, others⟩, (List.prefix_append_right_inj _).mpr front⟩
      · rintro ⟨⟨fits, others⟩, rest, rfl⟩
        refine ⟨encodeValue t v, vs.flatMap (encodeValue t) ++ rest, ?_, ?_, ?_⟩
        · exact (readAs_iff truth).mpr ⟨fits, rfl⟩
        · exact List.append_assoc ..
        · exact ih.mpr ⟨others, List.prefix_append _ _⟩

/-- A buffer that is not longer than the longest byte array with its length field has no room for
the encoding of a byte array that does not fit. -/
theorem fits_of_front {vs : List t.Value} {bs : Bytes} (short : bs.length < UInt32.size + 4)
    (front : vs.flatMap (encodeValue t) <+: bs) : ∀ v ∈ vs, Fits t v := by
  intro v hv
  obtain ⟨before, after, rfl⟩ := List.append_of_mem hv
  have length := front.length_le
  cases t with
  | byteArray =>
      change List.length v < UInt32.size
      simp only [List.flatMap_append, List.flatMap_cons, List.length_append, encodeValue,
        Bytes.length_ofNat] at length
      omega
  | boolean | int32 | int64 | float | double => trivial

end Plain

namespace ColumnValues

theorem decodePlain_eq_ok {t : PhysicalType} {bs : Bytes} {n : Nat} {c : ColumnValues} :
    decodePlain t bs n = .ok c ↔
      ∃ vs : List t.Value, vs.length = n ∧ Plain.Holds t vs bs ∧ ⟨t, vs⟩ = c := by
  rw [decodePlain, Except.bind_eq_ok]
  constructor
  · rintro ⟨read, decoded, same⟩
    obtain ⟨vs, length, held, rfl⟩ := Plain.decodeValues_eq_ok.mp decoded
    exact ⟨vs, length, held, Except.pure_eq_ok.mp same⟩
  · rintro ⟨vs, length, held, rfl⟩
    exact ⟨vs, Plain.decodeValues_eq_ok.mpr ⟨vs, length, held, rfl⟩, rfl⟩

theorem decodePlain_error {t : PhysicalType} {bs : Bytes} {n : Nat} {e : Error}
    (h : decodePlain t bs n = .error e) : e.kind = .endOfFile := by
  rw [decodePlain] at h
  cases decoded : Plain.decodeValues t n n [] bs with
  | error fault =>
      rw [decoded] at h
      cases h
      exact Plain.decodeValues_error decoded
  | ok read =>
      rw [decoded] at h
      cases h

theorem decodePlain_boolean_eq_ok {bs : Bytes} {n : Nat} {c : ColumnValues} :
    decodePlain .boolean bs n = .ok c ↔
      n ≤ bs.length ∧ c = ⟨.boolean, (bs.take n).map (· != 0)⟩ := by
  rw [decodePlain_eq_ok]
  constructor
  · rintro ⟨vs, rfl, held, rfl⟩
    obtain ⟨enough, same⟩ := Plain.holds_boolean.mp held
    exact ⟨enough, congrArg (ColumnValues.mk .boolean) same⟩
  · rintro ⟨enough, rfl⟩
    have length : ((bs.take n).map (· != 0)).length = n := by
      rw [List.length_map, List.length_take_of_le enough]
    refine ⟨_, length, Plain.holds_boolean.mpr ?_, rfl⟩
    rw [length]
    exact ⟨enough, rfl⟩

theorem decodePlain_eq_ok_iff_front {t : PhysicalType} (truth : t ≠ .boolean) {bs : Bytes} {n : Nat}
    {c : ColumnValues} :
    decodePlain t bs n = .ok c ↔
      c.type = t ∧ c.length = n ∧ c.Fits ∧ c.encodePlain <+: bs := by
  rw [decodePlain_eq_ok]
  constructor
  · rintro ⟨vs, length, held, rfl⟩
    exact ⟨rfl, length, (Plain.holds_iff_front truth).mp held⟩
  · rintro ⟨rfl, length, front⟩
    exact ⟨c.values, length, (Plain.holds_iff_front truth).mpr front, rfl⟩

theorem fits_of_boolean {c : ColumnValues} (h : c.type = .boolean) : c.Fits := by
  obtain ⟨type, values⟩ := c
  subst h
  intro v _
  trivial

/-- What the decoded values have to do with the buffer. -/
theorem decodePlain_gives {t : PhysicalType} {bs : Bytes} {n : Nat} {c : ColumnValues}
    (h : decodePlain t bs n = .ok c) :
    c.type = t ∧ c.length = n ∧ c.Fits ∧
      (t ≠ .boolean → c.encodePlain <+: bs) ∧
      (t = .boolean → c = ⟨.boolean, (bs.take n).map (· != 0)⟩) := by
  by_cases truth : t = .boolean
  · subst truth
    obtain ⟨enough, same⟩ := decodePlain_boolean_eq_ok.mp h
    have type : c.type = .boolean := by rw [same]
    have length : c.length = n := by
      rw [same, ColumnValues.length, List.length_map, List.length_take_of_le enough]
    exact ⟨type, length, fits_of_boolean type, fun other => absurd rfl other, fun _ => same⟩
  · obtain ⟨type, length, fits, front⟩ := (decodePlain_eq_ok_iff_front truth).mp h
    exact ⟨type, length, fits, fun _ => front, fun is => absurd is truth⟩

theorem decodePlain_fails_iff {t : PhysicalType} {bs : Bytes} {n : Nat} :
    (∃ e, decodePlain t bs n = .error e) ↔
      if t = .boolean then bs.length < n
      else ∀ c : ColumnValues, c.type = t → c.length = n → c.Fits → ¬ c.encodePlain <+: bs := by
  have failure : (∃ e, decodePlain t bs n = .error e) ↔ ∀ c, decodePlain t bs n ≠ .ok c := by
    cases decodePlain t bs n <;> simp
  rw [failure]
  split
  next truth =>
    subst truth
    simp only [Ne, decodePlain_boolean_eq_ok, not_and]
    constructor
    · intro none
      exact Nat.lt_of_not_le fun enough => none _ enough rfl
    · intro short c enough
      exact absurd enough (Nat.not_le_of_lt short)
  next truth =>
    simp only [Ne, decodePlain_eq_ok_iff_front truth, not_and]

/-- Decoding undoes encoding whatever bytes follow. It gives nothing but values whose encoding the
buffer starts with (for truth values, the bytes that are not zero), and fails with an end of file
exactly when there are no such values. Among these values count only byte arrays of fewer than 2^32
bytes (`Fits`), since the field for the length tells no more. This leaves out nothing that a buffer
of fewer than 2^32 + 4 bytes starts with. -/
theorem decodePlain_inverts_encodePlain (t : PhysicalType) :
    (∀ c : ColumnValues, c.type = t → c.Fits → ∀ rest,
      decodePlain t (c.encodePlain ++ rest) c.length = .ok c) ∧
    ∀ (bs : Bytes) (n : Nat),
      (∀ c, decodePlain t bs n = .ok c →
        c.type = t ∧ c.length = n ∧ c.Fits ∧
        (t ≠ .boolean → c.encodePlain <+: bs) ∧
        (t = .boolean → c = ⟨.boolean, (bs.take n).map (· != 0)⟩)) ∧
      (∀ e, decodePlain t bs n = .error e → e.kind = .endOfFile) ∧
      ((∃ e, decodePlain t bs n = .error e) ↔
        if t = .boolean then bs.length < n
        else ∀ c : ColumnValues, c.type = t → c.length = n → c.Fits → ¬ c.encodePlain <+: bs) ∧
      (bs.length < UInt32.size + 4 → ∀ c : ColumnValues, c.encodePlain <+: bs → c.Fits) := by
  refine ⟨?_, fun bs n => ⟨?_, ?_, decodePlain_fails_iff, ?_⟩⟩
  · rintro c rfl fits rest
    exact decodePlain_append fits rest
  · intro c
    exact decodePlain_gives
  · intro e
    exact decodePlain_error
  · intro short c front
    exact Plain.fits_of_front short front

/-- A byte array is read back from the front of a buffer. The second length field there tells more
bytes than follow, so that two byte arrays are not in the buffer. -/
theorem decodePlain_inverts_sample :
    decodePlain .byteArray [2, 0, 0, 0, 7, 8, 3, 0, 0, 0, 9] 1 = .ok ⟨.byteArray, [[7, 8]]⟩ ∧
    (∃ e, decodePlain .byteArray [2, 0, 0, 0, 7, 8, 3, 0, 0, 0, 9] 2 = .error e ∧
      e.kind = .endOfFile) ∧
    ∀ c : ColumnValues, c.type = .byteArray → c.length = 2 →
      ¬ c.encodePlain <+: [2, 0, 0, 0, 7, 8, 3, 0, 0, 0, 9] := by
  have spec := decodePlain_inverts_encodePlain .byteArray
  obtain ⟨_, kinds, fails, short⟩ := spec.2 [2, 0, 0, 0, 7, 8, 3, 0, 0, 0, 9] 2
  have fits : Fits ⟨.byteArray, [[7, 8]]⟩ := by
    simp [Fits, Plain.Fits, UInt32.size]
  have failed : decodePlain .byteArray [2, 0, 0, 0, 7, 8, 3, 0, 0, 0, 9] 2 =
      .error (.byteArrayCutShort 3) := by
    rfl
  refine ⟨spec.1 _ rfl fits [3, 0, 0, 0, 9], ⟨_, failed, kinds _ failed⟩, ?_⟩
  intro c type length front
  exact fails.mp ⟨_, failed⟩ c type length (short (by decide) c front) front

end ColumnValues

end SealedColumns
