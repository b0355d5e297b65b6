import Mathlib.Data.Bool.AllAny
import Mathlib.Data.List.TakeWhile
import SealedColumns.Proofs.LowerCase
import SealedColumns.Reader.CreatedBy

/-!
# Versions of writing applications as numbers

A file whose application is `parquet-mr` of a version before 1.2.9 has chunk sizes that are
not trusted. Versions are compared number by number, and numbers are written with any number
of digits. A number that does not fit a word of 32 bits is taken as absent: as the first of a
version it leaves the application unknown, as the second or third it counts as zero.
`omitsDictionaryHeader_parse?_iff` says what comes of this for every version, and that it goes
wrong exactly for the versions 1.b and 1.2.c with such a b or c, which come after 1.2.9 and
are taken for earlier ones.
-/

namespace SealedColumns

namespace Text

/-! ### Words and parts -/

theorem wordsFrom_append {b : Char} (blank : isBlank b = true) (word cs rest : List Char) :
    wordsFrom word (cs ++ b :: rest) = wordsFrom word cs ++ words rest := by
  induction cs generalizing word with
  | nil =>
      simp only [List.nil_append, wordsFrom, blank, if_true]
      split <;> rfl
  | cons c cs ih =>
      rw [List.cons_append, wordsFrom, wordsFrom]
      split
      · split
        · exact ih []
        · rw [ih, List.cons_append]
      · exact ih (c :: word)

/-- A blank separates the words in front of it from those behind it. -/
theorem words_append {b : Char} (blank : isBlank b = true) (cs rest : List Char) :
    words (cs ++ b :: rest) = words cs ++ words rest :=
  wordsFrom_append blank [] cs rest

theorem wordsFrom_unbroken {cs : List Char} (unbroken : ∀ c ∈ cs, isBlank c = false)
    {word : List Char} (some : cs.reverse ++ word ≠ []) :
    wordsFrom word cs = [word.reverse ++ cs] := by
  induction cs generalizing word with
  | nil =>
      rw [List.reverse_nil, List.nil_append] at some
      rw [wordsFrom, if_neg (by simpa using some), List.append_nil]
  | cons c cs ih =>
      obtain ⟨first, others⟩ := List.forall_mem_cons.mp unbroken
      rw [wordsFrom, if_neg (by simp [first]), ih others (by simp), List.reverse_cons,
        List.append_assoc, List.singleton_append]

theorem words_unbroken {word : List Char} (unbroken : ∀ c ∈ word, isBlank c = false)
    (some : word ≠ []) : words word = [word] :=
  wordsFrom_unbroken unbroken (by simpa using some)

/-- The first word of a text that starts with one goes on to the next blank. -/
theorem exists_words {word : List Char} (unbroken : ∀ c ∈ word, isBlank c = false)
    (some : word ≠ []) (rest : List Char) :
    ∃ more, words (word ++ rest) = (word ++ rest.takeWhile (!isBlank ·)) :: more := by
  have whole : ∀ c ∈ word ++ rest.takeWhile (!isBlank ·), isBlank c = false := by
    intro c hc
    rcases List.mem_append.mp hc with front | behind
    · exact unbroken c front
    · simpa using List.mem_takeWhile_imp behind
  have nonempty : word ++ rest.takeWhile (!isBlank ·) ≠ [] := by simp [some]
  have split : word ++ rest =
      word ++ rest.takeWhile (!isBlank ·) ++ rest.dropWhile (!isBlank ·) := by
    rw [List.append_assoc, List.takeWhile_append_dropWhile]
  rw [split]
  cases behind : rest.dropWhile (!isBlank ·) with
  | nil =>
      refine ⟨[], ?_⟩
      rw [List.append_nil, words_unbroken whole nonempty]
  | cons b back =>
      have blank : isBlank b = true := by
        have stopped := List.head?_dropWhile_not (!isBlank ·) rest
        rw [behind] at stopped
        simpa using stopped
      exact ⟨words back, by rw [words_append blank, words_unbroken whole nonempty]; rfl⟩

variable {separator : Char}

theorem partsFrom_append {piece : List Char} (inside : separator ∉ piece) (part rest : List Char) :
    partsFrom separator part (piece ++ separator :: rest) =
      (part.reverse ++ piece) :: parts separator rest := by
  induction piece generalizing part with
  | nil => rw [List.nil_append, partsFrom, if_pos rfl, List.append_nil, parts]
  | cons c piece ih =>
      obtain ⟨other, others⟩ := not_or.mp (List.mem_cons.not.mp inside)
      rw [List.cons_append, partsFrom, if_neg (Ne.symm other), ih others, List.reverse_cons,
        List.append_assoc, List.singleton_append]

/-- The part in front of a separator. -/
theorem parts_append {piece : List Char} (inside : separator ∉ piece) (rest : List Char) :
    parts separator (piece ++ separator :: rest) = piece :: parts separator rest :=
  partsFrom_append inside [] rest

theorem exists_partsFrom (separator : Char) (part cs : List Char) :
    ∃ more, partsFrom separator part cs =
      (part.reverse ++ cs.takeWhile (· ≠ separator)) :: more := by
  induction cs generalizing part with
  | nil => exact ⟨[], by rw [partsFrom, List.takeWhile_nil, List.append_nil]⟩
  | cons c cs ih =>
      rw [partsFrom]
      by_cases same : c = separator
      · exact ⟨partsFrom separator [] cs, by rw [if_pos same]; simp [same]⟩
      · obtain ⟨more, rest⟩ := ih (c :: part)
        exact ⟨more, by rw [if_neg same, rest]; simp [same]⟩

end Text

/-- A text of decimal digits writes a number. There may be zeros in front. -/
structure Numeral (digits : String) (n : Nat) : Prop where
  ne_empty : digits ≠ ""
  isDigit : ∀ c ∈ digits.toList, c.isDigit = true
  value : Nat.ofDigitChars 10 digits.toList 0 = n

/-- Every number is written in digits. -/
theorem numeral_repr (n : Nat) : Numeral n.repr n where
  ne_empty := by
    rw [ne_eq, ← String.toList_inj, Nat.toList_repr]
    exact Nat.toDigits_ne_nil
  isDigit c hc := by
    rw [Nat.toList_repr] at hc
    exact Nat.isDigit_of_mem_toDigits (by decide) (by decide) hc
  value := by rw [Nat.toList_repr, Nat.ofDigitChars_ten_toDigits]

theorem Numeral.toList_ne_nil {digits : String} {n : Nat} (h : Numeral digits n) :
    digits.toList ≠ [] := by
  simpa using h.ne_empty

theorem isBlank_of_isDigit {c : Char} (digit : c.isDigit = true) : Text.isBlank c = false := by
  have range : 48 ≤ c.toNat ∧ c.toNat ≤ 57 := by
    simpa [Char.isDigit, UInt32.le_iff_toNat_le] using digit
  simp only [Text.isBlank, Bool.or_eq_false_iff, Bool.and_eq_false_iff, decide_eq_false_iff_not,
    beq_eq_false_iff_ne]
  omega

theorem Numeral.dot_notMem {digits : String} {n : Nat} (h : Numeral digits n) :
    '.' ∉ digits.toList :=
  fun dot => absurd (h.isDigit '.' dot) (by decide)

namespace ApplicationVersion

open Text

/-! ### Numbers of a version -/

/-- What a number counts as where it is not the first of a version. -/
def counted (n : Nat) : Nat :=
  if n < UInt32.size then n else 0

theorem decimal_eq (digits : List Char) : decimal digits = Nat.ofDigitChars 10 digits 0 :=
  Nat.ofDigitChars_eq_foldl.symm

/-- A component is the number that the digits in front tell. -/
theorem component?_eq (part : List Char) :
    component? part =
      let digits := part.takeWhile Char.isDigit
      if digits.isEmpty || UInt32.size ≤ decimal digits then none else some (decimal digits) :=
  rfl

/-- A number is read up to the first character that is not a digit. -/
theorem component?_of_numeral {digits : String} {n : Nat} (h : Numeral digits n) {rest : List Char}
    (ends : ∀ c ∈ rest.head?, c.isDigit = false) :
    component? (digits.toList ++ rest) = if n < UInt32.size then some n else none := by
  have stops : rest.takeWhile Char.isDigit = [] := by
    cases rest with
    | nil => rfl
    | cons c rest => simp [ends c rfl]
  have front : (digits.toList ++ rest).takeWhile Char.isDigit = digits.toList := by
    rw [List.takeWhile_append_of_pos h.isDigit, stops, List.append_nil]
  have some : digits.toList.isEmpty = false := by
    simpa using h.ne_empty
  rw [component?_eq]
  simp only [front, decimal_eq, h.value, some, Bool.false_or, decide_eq_true_eq]
  by_cases small : n < UInt32.size
  · rw [if_neg (Nat.not_le_of_lt small), if_pos small]
  · rw [if_pos (Nat.le_of_not_lt small), if_neg small]

theorem getD_eq_counted (n : Nat) :
    (if n < UInt32.size then some n else none).getD 0 = counted n := by
  rw [counted]
  split <;> rfl

/-- The text that names an application and its version, with what may follow. -/
def described (name major minor patch suffix : String) : String :=
  name ++ " version " ++ major ++ "." ++ minor ++ "." ++ patch ++ suffix

variable {name suffix digitsA digitsB digitsC : String} {a b c : Nat}

/-- The first two words are the name, if there is one, and the keyword. The third is the version
with what follows it up to a blank. -/
theorem exists_words_described (name suffix : String) (ha : Numeral digitsA a)
    (hb : Numeral digitsB b) (hc : Numeral digitsC c) :
    ∃ more, words (described name digitsA digitsB digitsC suffix).toList =
      words name.toList ++ "version".toList :: (digitsA.toList ++ '.' :: (digitsB.toList ++ '.' ::
        (digitsC.toList ++ suffix.toList.takeWhile (!isBlank ·)))) :: more := by
  have unbroken : ∀ x ∈ digitsA.toList ++ '.' :: (digitsB.toList ++ '.' :: digitsC.toList),
      isBlank x = false := by
    intro x hx
    simp only [List.mem_append, List.mem_cons] at hx
    obtain digit | rfl | digit | rfl | digit := hx
    · exact isBlank_of_isDigit (ha.isDigit x digit)
    · decide
    · exact isBlank_of_isDigit (hb.isDigit x digit)
    · decide
    · exact isBlank_of_isDigit (hc.isDigit x digit)
  obtain ⟨more, version⟩ := exists_words unbroken (by simp) suffix.toList
  have keyword : words "version".toList = ["version".toList] :=
    words_unbroken (List.all_iff_forall_prop.mp (by decide)) (by decide)
  have text : (described name digitsA digitsB digitsC suffix).toList =
      name.toList ++ ' ' :: ("version".toList ++ ' ' :: (digitsA.toList ++ '.' ::
        (digitsB.toList ++ '.' :: digitsC.toList) ++ suffix.toList)) := by
    simp [described]
  refine ⟨more, ?_⟩
  rw [text, words_append (by decide), words_append (by decide), keyword, version]
  simp

theorem head?_takeWhile {p : Char → Bool} {cs : List Char} {x : Char}
    (h : x ∈ (cs.takeWhile p).head?) : x ∈ cs.head? := by
  cases cs with
  | nil => exact h
  | cons y cs =>
      rw [List.takeWhile_cons] at h
      split at h
      · exact h
      · cases h

/-- The numbers that are read of a version. -/
theorem components_of_numerals (ha : Numeral digitsA a) (hb : Numeral digitsB b)
    (hc : Numeral digitsC c) (rest : List Char) (ends : ∀ x ∈ rest.head?, x.isDigit = false) :
    ∃ more, (parts '.' (digitsA.toList ++ '.' :: (digitsB.toList ++ '.' :: (digitsC.toList ++
        rest)))).map component? =
      (if a < UInt32.size then some a else none) :: (if b < UInt32.size then some b else none) ::
        (if c < UInt32.size then some c else none) :: more := by
  have alone {digits : String} {n : Nat} (h : Numeral digits n) :
      component? digits.toList = if n < UInt32.size then some n else none := by
    have nothing : ∀ x ∈ ([] : List Char).head?, x.isDigit = false := fun _ none => by cases none
    have read := component?_of_numeral h nothing
    rwa [List.append_nil] at read
  obtain ⟨more, last⟩ := exists_partsFrom '.' [] (digitsC.toList ++ rest)
  have dotless : ∀ x ∈ digitsC.toList, decide (x ≠ '.') = true := by
    intro x hx
    exact decide_eq_true fun dot => hc.dot_notMem (dot ▸ hx)
  refine ⟨more.map component?, ?_⟩
  rw [parts_append ha.dot_notMem, parts_append hb.dot_notMem, parts, last, List.reverse_nil,
    List.nil_append, List.takeWhile_append_of_pos dotless, List.map_cons, List.map_cons,
    List.map_cons, alone ha, alone hb,
    component?_of_numeral hc fun x hx => ends x (head?_takeWhile hx)]

theorem words_name (unbroken : ∀ x ∈ name.toList, isBlank x = false) :
    words name.toList = if name = "" then [] else [name.toList] := by
  split
  · next empty =>
      rw [empty]
      rfl
  · next named => exact words_unbroken unbroken (by simpa using named)

/-- What is understood of a text that names an application and its version. -/
theorem parse?_described (unbroken : ∀ x ∈ name.toList, isBlank x = false)
    (ha : Numeral digitsA a) (hb : Numeral digitsB b) (hc : Numeral digitsC c)
    (ends : ∀ x ∈ suffix.toList.head?, x.isDigit = false) :
    parse? (described name digitsA digitsB digitsC suffix) =
      if name ≠ "" ∧ a < UInt32.size then
        some ⟨toLowerCase name, a, counted b, counted c⟩
      else none := by
  obtain ⟨more, split⟩ := exists_words_described name suffix ha hb hc
  obtain ⟨others, components⟩ := components_of_numerals ha hb hc
    (suffix.toList.takeWhile (!isBlank ·)) fun x hx => ends x (head?_takeWhile hx)
  rw [parse?, split, words_name unbroken]
  by_cases named : name = ""
  · rw [if_pos named, if_neg fun both => both.1 named, List.nil_append]
    cases more with
    | nil => rfl
    | cons third more =>
        -- The version is taken for the keyword, and starts with a digit.
        refine if_pos fun keyword => ?_
        obtain ⟨d, ds, digits⟩ := List.exists_cons_of_ne_nil ha.toList_ne_nil
        have first := ha.isDigit d (by rw [digits]; exact List.mem_cons_self)
        rw [digits, ← String.toList_inj, String.toList_ofList] at keyword
        have same : some d = some 'v' := congrArg List.head? keyword
        cases same
        exact absurd first (by decide)
  · rw [if_neg named, List.singleton_append]
    dsimp only
    rw [if_neg (by simp), components]
    change (if a < UInt32.size then some a else none).bind (fun major =>
      some (ApplicationVersion.mk (toLowerCase (String.ofList name.toList)) major
        ((if b < UInt32.size then some b else none).getD 0)
        ((if c < UInt32.size then some c else none).getD 0))) = _
    rw [getD_eq_counted, getD_eq_counted, String.ofList_toList]
    by_cases small : a < UInt32.size
    · rw [if_pos small, if_pos ⟨named, small⟩, Option.bind_some]
    · rw [if_neg small, if_neg fun both => small both.2, Option.bind_none]

theorem isBefore_iff (v : ApplicationVersion) (major minor patch : Nat) :
    v.isBefore major minor patch = true ↔ [v.major, v.minor, v.patch] < [major, minor, patch] := by
  simp [isBefore, List.cons_lt_cons_iff]

/-- The only name in question is not the lower case of anything but itself. -/
theorem toLowerCase_name : toLowerCase name = "parquet-mr" ↔ name.toLower = "parquet-mr" := by
  have letters : ∀ d ∈ "parquet-mr".toList, d.toNat < 128 ∧ d ≠ '\x00' ∧ d ≠ 'i' ∧ d ≠ 'k' :=
    List.all_iff_forall_prop.mp (by decide)
  refine toLowerCase_eq_iff fun d hd => ?_
  obtain ⟨lt, ne_nul, ne_i, ne_k⟩ := letters d hd
  exact ⟨lt, ne_nul, ne_i, ne_k⟩

theorem omits_described_iff (unbroken : ∀ x ∈ name.toList, isBlank x = false)
    (ha : Numeral digitsA a) (hb : Numeral digitsB b) (hc : Numeral digitsC c)
    (ends : ∀ x ∈ suffix.toList.head?, x.isDigit = false) :
    (parse? (described name digitsA digitsB digitsC suffix)).any omitsDictionaryHeader = true ↔
      name.toLower = "parquet-mr" ∧ [a, counted b, counted c] < [1, 2, 9] := by
  rw [parse?_described unbroken ha hb hc ends]
  split
  · rw [Option.any_some, omitsDictionaryHeader, Bool.and_eq_true, beq_iff_eq, isBefore_iff,
      toLowerCase_name]
  · next unknown =>
      rw [Option.any_none]
      refine iff_of_false Bool.false_ne_true ?_
      rintro ⟨named, before⟩
      refine unknown ⟨?_, ?_⟩
      · rintro rfl
        rw [← String.toList_inj, toList_toLower] at named
        exact absurd named (by decide)
      · rw [List.cons_lt_cons_iff] at before
        exact Nat.lt_of_le_of_lt (m := 1) (by omega) (by decide)

/-- Taking the second and third number as counted changes the order with 1.2.9 only for versions 1.b
and 1.2.c whose b or c does not fit. -/
theorem counted_before_iff (a b c : Nat) :
    ([a, counted b, counted c] < [1, 2, 9] ↔ [a, b, c] < [1, 2, 9]) ↔
      ¬ (a = 1 ∧ (UInt32.size ≤ b ∨ b = 2 ∧ UInt32.size ≤ c)) := by
  have size : UInt32.size = 4294967296 := rfl
  simp only [List.cons_lt_cons_iff, List.not_lt_nil, and_false, or_false, counted, size]
  split <;> split <;> omega

/-- The gate for every text that names an application and its version. It compares numbers of any
size, but for the second and the third, which count as zero if they do not fit a word of 32 bits. So
it is right exactly for the versions that are not 1.b or 1.2.c with such a b or c. Those are behind
1.2.9, and `parquet-mr` of such a version is treated as if it was in front. -/
theorem omitsDictionaryHeader_parse?_iff (unbroken : ∀ x ∈ name.toList, isBlank x = false)
    (ha : Numeral digitsA a) (hb : Numeral digitsB b) (hc : Numeral digitsC c)
    (ends : ∀ x ∈ suffix.toList.head?, x.isDigit = false) :
    ((parse? (described name digitsA digitsB digitsC suffix)).any omitsDictionaryHeader = true ↔
      name.toLower = "parquet-mr" ∧ [a, counted b, counted c] < [1, 2, 9]) ∧
    (((parse? (described name digitsA digitsB digitsC suffix)).any omitsDictionaryHeader = true ↔
        name.toLower = "parquet-mr" ∧ [a, b, c] < [1, 2, 9]) ↔
      ¬ (name.toLower = "parquet-mr" ∧ a = 1 ∧
        (UInt32.size ≤ b ∨ b = 2 ∧ UInt32.size ≤ c))) := by
  have gate := omits_described_iff unbroken ha hb hc ends
  refine ⟨gate, ?_⟩
  rw [gate]
  by_cases named : name.toLower = "parquet-mr"
  · simp only [named, true_and]
    exact counted_before_iff a b c
  · simp only [named, false_and, not_false_eq_true]

/-- Version 1.4294967296.7 counts as 1.0.7, with the name in any case and a
build behind the version. -/
theorem omitsDictionaryHeader_parse?_large :
    (parse? "Parquet-MR version 1.4294967296.7 (build 1.2)").any omitsDictionaryHeader = true ∧
      ¬ [1, 4294967296, 7] < [1, 2, 9] := by
  have unbroken : ∀ x ∈ "Parquet-MR".toList, isBlank x = false :=
    List.all_iff_forall_prop.mp (by decide)
  have ends : ∀ x ∈ " (build 1.2)".toList.head?, x.isDigit = false := by simp
  have spec := omitsDictionaryHeader_parse?_iff unbroken (numeral_repr 1) (numeral_repr 4294967296)
    (numeral_repr 7) ends
  have lowered : "Parquet-MR".toLower = "parquet-mr" := by
    rw [← String.toList_inj, toList_toLower]
    rfl
  exact ⟨spec.1.mpr ⟨lowered, by decide⟩, by decide⟩

end ApplicationVersion

end SealedColumns
