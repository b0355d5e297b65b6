/-!
# Words between blanks

A text is cut into words at white space, the characters of Unicode's `White_Space` property.
-/

namespace SealedColumns.Text

/-- Whether a character separates words. -/
def isBlank (c : Char) : Bool :=
  let n := c.toNat
  (0x9 ≤ n && n ≤ 0xD) || n == 0x20 || n == 0x85 || n == 0xA0 || n == 0x1680 ||
    (0x2000 ≤ n && n ≤ 0x200A) || n == 0x2028 || n == 0x2029 || n == 0x202F || n == 0x205F ||
    n == 0x3000

/-- The words of `cs`, of which `word` holds the characters of the current one, latest first. -/
def wordsFrom (word : List Char) : List Char → List (List Char)
  | [] => if word.isEmpty then [] else [word.reverse]
  | c :: rest =>
    if isBlank c then
      if word.isEmpty then wordsFrom [] rest else word.reverse :: wordsFrom [] rest
    else wordsFrom (c :: word) rest

/-- The words of a text. -/
def words (cs : List Char) : List (List Char) :=
  wordsFrom [] cs

/-- The parts of `cs` between the occurrences of `separator`, of which `part` holds the characters
of the current one, latest first. -/
def partsFrom (separator : Char) (part : List Char) : List Char → List (List Char)
  | [] => [part.reverse]
  | c :: rest =>
    if c = separator then part.reverse :: partsFrom separator [] rest
    else partsFrom separator (c :: part) rest

/-- The parts of a text between the occurrences of a separator; there is always at least one. -/
def parts (separator : Char) (cs : List Char) : List (List Char) :=
  partsFrom separator [] cs

end SealedColumns.Text
