import SealedColumns.Text.Blank
import SealedColumns.Text.Case

/-!
# Writing applications

A file names the application that wrote it, as in `parquet-mr version 1.2.8 (build abcd)`. The name
and the version decide whether the sizes of its column chunks can be trusted: releases of
`parquet-mr` before 1.2.9 left the header of the dictionary page out.
-/

namespace SealedColumns

/-- The application that wrote a file, in lower case, with its version. -/
structure ApplicationVersion where
  application : String
  major : Nat
  minor : Nat
  patch : Nat
  deriving DecidableEq

namespace ApplicationVersion

/-- The number of a run of decimal digits. -/
def decimal (digits : List Char) : Nat :=
  digits.foldl (fun n c => 10 * n + (c.toNat - '0'.toNat)) 0

/-- The number at the front of a part of a version. There has to be a digit, and the number has to
fit a word of 32 bits. -/
def component? (part : List Char) : Option Nat :=
  let digits := part.takeWhile fun c => '0' ≤ c && c ≤ '9'
  let n := decimal digits
  if digits.isEmpty || UInt32.size ≤ n then none else some n

/-- The application and the version in a `createdBy` text. Of the version only the first number is
required; others that are absent or cannot be read count as zero. -/
def parse? (createdBy : String) : Option ApplicationVersion :=
  match Text.words createdBy.toList with
  | application :: keyword :: version :: _ =>
    if String.ofList keyword ≠ "version" then none
    else do
      let components := (Text.parts '.' version).map component?
      let major ← (← components[0]?)
      let minor := (components[1]?.join).getD 0
      let patch := (components[2]?.join).getD 0
      return ⟨Text.toLowerCase (String.ofList application), major, minor, patch⟩
  | _ => none

/-- Whether version `(a, b, c)` stands before version `(d, e, f)`. -/
def isBefore (v : ApplicationVersion) (major minor patch : Nat) : Bool :=
  v.major < major || (v.major == major &&
    (v.minor < minor || (v.minor == minor && v.patch < patch)))

/-- Whether the application left the header of the dictionary page out of the chunk sizes. -/
def omitsDictionaryHeader (v : ApplicationVersion) : Bool :=
  v.application == "parquet-mr" && v.isBefore 1 2 9

end ApplicationVersion

end SealedColumns
