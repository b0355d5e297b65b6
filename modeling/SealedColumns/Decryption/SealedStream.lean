import SealedColumns.Cipher.Engine

/-!
# Sealed modules in a stream

A sealed module announces its own length, so modules that follow each other can be read one by one.
What comes after a module is handed back untouched.
-/

namespace SealedColumns

/-- Reads the sealed module at the front of a byte string and opens it. Returns the plaintext and
the bytes after the module. -/
def readSealed (openModule : Bytes → Except Error Bytes) (input : Bytes) :
    Except Error (Bytes × Bytes) := do
  let field := input.take lengthWidth
  if field.length ≠ lengthWidth then throw .lengthCutShort
  let announced := Bytes.toNat field
  let input := input.drop lengthWidth
  let contents := input.take announced
  if contents.length ≠ announced then throw (.ciphertextCutShort announced contents.length)
  let plaintext ← openModule (field ++ contents)
  return (plaintext, input.drop announced)

end SealedColumns
