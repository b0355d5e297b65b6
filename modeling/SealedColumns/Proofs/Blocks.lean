import SealedColumns.Cipher.Counter

/-!
# Blocks and their bytes

A word and its four bytes determine each other, and so do a block and its sixteen bytes. Where a
block is made of too few bytes it stands for these bytes with zeros behind them, so that two byte
strings of one length give the same block only if they agree as far as the block reaches.

A byte string is the block at its front and what is left behind sixteen bytes; the
last block is filled up.
-/

namespace SealedColumns

namespace Block

/-! ### Words -/

/-- The bytes of a word are its digits. -/
theorem toNat_wordOfBytes (a b c d : UInt8) : (wordOfBytes a b c d).toNat =
    0x1000000 * a.toNat + 0x10000 * b.toNat + 0x100 * c.toNat + d.toNat := by
  have join (n m : Nat) (h : m < 2 ^ 8) : n <<< 8 ||| m = 2 ^ 8 * n + m := by
    rw [← Nat.shiftLeft_add_eq_or_of_lt h, Nat.shiftLeft_eq, Nat.mul_comm]
  have ha := a.toNat_lt
  have hb := b.toNat_lt
  have hc := c.toNat_lt
  have hd := d.toNat_lt
  have digits : (wordOfBytes a b c d).toNat =
      ((a.toNat <<< 8 ||| b.toNat) <<< 8 ||| c.toNat) <<< 8 ||| d.toNat := by
    have first : a.toNat <<< 24 % 0x100000000 = a.toNat <<< 24 := by omega
    have second : b.toNat <<< 16 % 0x100000000 = b.toNat <<< 16 := by omega
    have third : c.toNat <<< 8 % 0x100000000 = c.toNat <<< 8 := by omega
    simp [wordOfBytes, first, second, third, Nat.shiftLeft_or_distrib, ← Nat.shiftLeft_add]
  rw [digits, join _ _ hb, join _ _ hc, join _ _ hd]
  omega

theorem wordOfBytes_inj {a b c d a' b' c' d' : UInt8} :
    wordOfBytes a b c d = wordOfBytes a' b' c' d' ↔ a = a' ∧ b = b' ∧ c = c' ∧ d = d' := by
  constructor
  · intro same
    have digits := congrArg UInt32.toNat same
    rw [toNat_wordOfBytes, toNat_wordOfBytes] at digits
    have hb := b.toNat_lt
    have hc := c.toNat_lt
    have hd := d.toNat_lt
    have hb' := b'.toNat_lt
    have hc' := c'.toNat_lt
    have hd' := d'.toNat_lt
    simp only [← UInt8.toNat_inj]
    omega
  · rintro ⟨rfl, rfl, rfl, rfl⟩
    rfl

/-- A word is put together from its bytes. -/
theorem wordOfBytes_bytes (w : UInt32) :
    wordOfBytes (w >>> 24).toUInt8 (w >>> 16).toUInt8 (w >>> 8).toUInt8 w.toUInt8 = w := by
  have hw := w.toNat_lt
  apply UInt32.toNat_inj.mp
  rw [toNat_wordOfBytes]
  simp [Nat.shiftRight_eq_div_pow]
  omega

/-- Words with the same bytes are the same. -/
theorem word_ext {w w' : UInt32} (first : (w >>> 24).toUInt8 = (w' >>> 24).toUInt8)
    (second : (w >>> 16).toUInt8 = (w' >>> 16).toUInt8)
    (third : (w >>> 8).toUInt8 = (w' >>> 8).toUInt8) (fourth : w.toUInt8 = w'.toUInt8) :
    w = w' := by
  rw [← wordOfBytes_bytes w, first, second, third, fourth, wordOfBytes_bytes]

theorem wordBytes_inj {w w' : UInt32} {rest rest' : Bytes} :
    wordBytes w rest = wordBytes w' rest' ↔ w = w' ∧ rest = rest' := by
  constructor
  · intro same
    simp only [wordBytes, List.cons.injEq] at same
    obtain ⟨first, second, third, fourth, behind⟩ := same
    exact ⟨word_ext first second third fourth, behind⟩
  · rintro ⟨rfl, rfl⟩
    rfl

/-! ### Blocks -/

/-- A block has as many bytes as it takes to tell it. -/
theorem toBytes_inj {a b : Block} : a.toBytes = b.toBytes ↔ a = b := by
  constructor
  · intro same
    simp only [toBytes, wordBytes_inj] at same
    obtain ⟨first, second, third, fourth, _⟩ := same
    cases a
    cases b
    simp_all
  · rintro rfl
    rfl

/-- Exclusive or is taken word by word. -/
theorem xor_eq (a b : Block) :
    a ^^^ b = ⟨a.w0 ^^^ b.w0, a.w1 ^^^ b.w1, a.w2 ^^^ b.w2, a.w3 ^^^ b.w3⟩ := rfl

theorem xor_self (a : Block) : a ^^^ a = zero := by
  rw [xor_eq, UInt32.xor_self, UInt32.xor_self, UInt32.xor_self, UInt32.xor_self]
  rfl

theorem xor_comm (a b : Block) : a ^^^ b = b ^^^ a := by
  rw [xor_eq, xor_eq, UInt32.xor_comm, UInt32.xor_comm a.w1, UInt32.xor_comm a.w2,
    UInt32.xor_comm a.w3]

theorem xor_left_inj {a b c : Block} : a ^^^ c = b ^^^ c ↔ a = b := by
  constructor
  · intro same
    injection same with first second third fourth
    cases a
    cases b
    simp_all
  · rintro rfl
    rfl

theorem xor_right_inj {a b c : Block} : c ^^^ a = c ^^^ b ↔ a = b := by
  rw [xor_comm c a, xor_comm c b, xor_left_inj]

/-- The word behind `n` bytes tells the four bytes there. -/
theorem frontWord_drop_eq_iff (bs bs' : Bytes) (n : Nat) :
    frontWord (bs.drop n) = frontWord (bs'.drop n) ↔
      ∀ i, n ≤ i → i < n + 4 → bs.getD i 0 = bs'.getD i 0 := by
  have behind (l : Bytes) (i : Nat) : (l.drop n).getD i 0 = l.getD (n + i) 0 := by
    simp [List.getD_eq_getElem?_getD]
  rw [frontWord, frontWord, wordOfBytes_inj]
  simp only [behind]
  constructor
  · rintro ⟨first, second, third, fourth⟩ i hi hi'
    obtain rfl | rfl | rfl | rfl : i = n + 0 ∨ i = n + 1 ∨ i = n + 2 ∨ i = n + 3 := by omega
    all_goals assumption
  · intro same
    exact ⟨same _ (by omega) (by omega), same _ (by omega) (by omega), same _ (by omega) (by omega),
      same _ (by omega) (by omega)⟩

/-- The block at the front of a byte string tells the bytes there. -/
theorem ofBytes_eq_iff {bs bs' : Bytes} :
    ofBytes bs = ofBytes bs' ↔ ∀ i < 16, bs.getD i 0 = bs'.getD i 0 := by
  have word₀ := frontWord_drop_eq_iff bs bs' 0
  have word₁ := frontWord_drop_eq_iff bs bs' 4
  have word₂ := frontWord_drop_eq_iff bs bs' 8
  have word₃ := frontWord_drop_eq_iff bs bs' 12
  rw [List.drop_zero, List.drop_zero] at word₀
  simp only [ofBytes, List.drop_drop, mk.injEq, word₀, word₁, word₂, word₃]
  grind

/-- Byte strings of one length that have the same block at the front have the same bytes there. -/
theorem ofBytes_eq_iff_take {bs bs' : Bytes} (length : bs.length = bs'.length) :
    ofBytes bs = ofBytes bs' ↔ bs.take 16 = bs'.take 16 := by
  rw [ofBytes_eq_iff]
  constructor
  · intro same
    apply List.ext_getElem
    · simp [length]
    · intro i hi hi'
      have := same i (by grind)
      grind
  · intro same i hi
    have := congrArg (·[i]?) same
    grind

/-! ### Byte strings -/

theorem split_eq (n : Nat) (acc : List Block) (bs : Bytes) :
    split n acc bs = acc.reverse ++ split n [] bs := by
  induction n generalizing acc bs with
  | zero => simp [split]
  | succ n ih =>
    rw [split, split, ih, ih [_]]
    simp

/-- A byte string that is not empty has a block at its front. -/
theorem ofPadded_of_ne_nil {bs : Bytes} (some : bs ≠ []) :
    ofPadded bs = ofBytes bs :: ofPadded (bs.drop 16) := by
  have long : 0 < bs.length := List.length_pos_iff.mpr some
  have blocks : count bs.length = count (bs.drop 16).length + 1 := by
    simp only [count, List.length_drop]
    omega
  rw [ofPadded, blocks, split, split_eq]
  rfl

end Block

namespace Counter

/-- A counter block tells the nonce. -/
theorem block_inj {nonce nonce' : Bytes} {counter : UInt32} (length : nonce.length = 12)
    (length' : nonce'.length = 12) :
    block nonce counter = block nonce' counter ↔ nonce = nonce' := by
  constructor
  · intro same
    have last : (Block.ofBytes nonce).w3 = (Block.ofBytes nonce').w3 := by
      simp [Block.ofBytes, List.drop_of_length_le, length, length']
    have whole : Block.ofBytes nonce = Block.ofBytes nonce' := by
      injection same with first second third
      cases h : Block.ofBytes nonce
      cases h' : Block.ofBytes nonce'
      simp_all
    rw [Block.ofBytes_eq_iff_take (by omega), List.take_of_length_le (by omega),
      List.take_of_length_le (by omega)] at whole
    exact whole
  · rintro rfl
    rfl

end Counter

end SealedColumns
