import SealedColumns.Error

/-!
# Magic words and the trailer

A file starts with a magic word of four bytes. It ends with a trailer of eight bytes: the
length of the metadata section in four bytes, and the magic word again, which tells
whether the footer is sealed.
-/

namespace SealedColumns

/-- The magic word of a mode. -/
def FooterMode.magic : FooterMode → Bytes
  | .plaintext => [0x50, 0x41, 0x52, 0x31]
  | .encrypted => [0x50, 0x41, 0x52, 0x45]

/-- The end of a file. -/
structure Trailer where
  metadataLength : Nat
  mode : FooterMode
  deriving DecidableEq

namespace Trailer

/-- The length of a trailer. -/
def size : Nat :=
  8

/-- The bytes of a trailer. -/
def encode (t : Trailer) : Bytes :=
  Bytes.ofNat 4 t.metadataLength ++ t.mode.magic

/-- The trailer in the eight bytes at the end of a file. -/
def decode (bs : Bytes) : Except Error Trailer :=
  let length := Bytes.toNat (bs.take 4)
  let magic := bs.drop 4
  if magic = FooterMode.encrypted.magic then .ok ⟨length, .encrypted⟩
  else if magic = FooterMode.plaintext.magic then .ok ⟨length, .plaintext⟩
  else .error .footerMagic

end Trailer

end SealedColumns
