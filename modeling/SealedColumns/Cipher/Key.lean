import SealedColumns.Error

/-!
# Keys

A key is a byte string of one of the three lengths that the block cipher takes. The length is
checked where a key enters the library and is a fact about the type from there on.
-/

namespace SealedColumns

/-- The lengths of keys. -/
def ValidKeyLength (n : Nat) : Prop :=
  n = 16 ∨ n = 24 ∨ n = 32

instance (n : Nat) : Decidable (ValidKeyLength n) :=
  inferInstanceAs (Decidable (_ ∨ _ ∨ _))

/-- Fails on a length that no key has. -/
def checkKeyLength (n : Nat) : Except Error Unit :=
  if ValidKeyLength n then .ok () else .error (.keyLength n)

/-- A key of the block cipher. -/
structure Key where
  /-- The bytes of the key. -/
  bytes : Bytes
  valid : ValidKeyLength bytes.length
  deriving DecidableEq

namespace Key

/-- The key with the given bytes. -/
def ofBytes (bs : Bytes) : Except Error Key :=
  if h : ValidKeyLength bs.length then .ok ⟨bs, h⟩ else .error (.keyLength bs.length)

/-- The key with the given bytes, where there are any. -/
def ofBytes? : Option Bytes → Except Error (Option Key)
  | none => .ok none
  | some bs => some <$> ofBytes bs

end Key

end SealedColumns
