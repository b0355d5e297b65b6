import SealedColumns.Text.Printable

/-!
# Quoted text

Identifiers that appear inside an error text are written between double quotes, with escapes for the
quote, the backslash and every character that cannot be shown as it is.
-/

namespace SealedColumns.Text

/-- A character as it stands inside quoted text. -/
def quoteChar (c : Char) : String :=
  match c with
  | '\x00' => "\\0"
  | '\t' => "\\t"
  | '\n' => "\\n"
  | '\r' => "\\r"
  | '"' => "\\\""
  | '\\' => "\\\\"
  | c =>
    if isPrintable c then String.singleton c
    else "\\u\x7b" ++ String.ofList (Nat.toDigits 16 c.toNat) ++ "\x7d"

/-- A text between double quotes. -/
def quote (s : String) : String :=
  "\"" ++ String.join (s.toList.map quoteChar) ++ "\""

end SealedColumns.Text
