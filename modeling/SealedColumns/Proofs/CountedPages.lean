import SealedColumns.Proofs.AcceptedPages
import SealedColumns.Proofs.OpenedModules
import SealedColumns.Proofs.StoredPages
import SealedColumns.Proofs.WireCanonical

/-!
# The pages of a chunk are counted down

The pages of a chunk are delivered until the data pages have announced as many values as the chunk
declares. The dictionary page, if there is one, comes first and does not count. The last data page
may announce more values than are left; nothing compares the two.

Every page passes over a header of twenty bytes at least, so the bound on the
number of pages is kept.
-/

namespace SealedColumns

/-- What sealing adds to a plaintext is what opening takes off again. -/
theorem Engine.length_of_decrypt {engine : Engine} {sealedModule key aad plaintext : Bytes}
    (h : engine.decrypt sealedModule key aad = .ok plaintext) :
    sealedModule.length = plaintext.length + (lengthWidth + engine.sizeDelta) := by
  obtain ⟨nonce, hn, sealing⟩ := encryptWithNonce_of_decrypt h
  have length := length_of_encryptWithNonce hn sealing
  omega

/-- The bytes that a module has besides its plaintext. -/
def ModuleOpener.overhead (o : ModuleOpener) : Nat :=
  lengthWidth + o.engine.sizeDelta

namespace ColumnOpener

variable {o o' : ColumnOpener} {kind : PageKind} {page : Nat}

theorem readHeader_eq_ok {input plain rest : Bytes}
    (h : o.readHeader kind page input = (.ok (plain, rest), o')) :
    plain.length + o.metadata.overhead + rest.length = input.length := by
  have opened (aad : Except Error Bytes)
      (h : aad.bind (fun aad => readSealed (o.openMetadata aad) input) = .ok (plain, rest)) :
      plain.length + o.metadata.overhead + rest.length = input.length := by
    obtain ⟨bs, _, read⟩ := Except.bind_eq_ok.mp h
    obtain ⟨sealedModule, decrypted, rfl⟩ := readSealed_eq_ok read
    rw [List.length_append, Engine.length_of_decrypt decrypted]
    rfl
  cases kind with
  | data => exact opened _ (congrArg Prod.fst h)
  | dictionary => exact opened _ (congrArg Prod.fst h)

theorem openBody_eq_ok {stored body : Bytes} (h : o.openBody kind page stored = (.ok body, o')) :
    stored.length = body.length + o.data.overhead := by
  have opened (aad : Except Error Bytes)
      (h : aad.bind (fun aad => o.openData aad stored) = .ok body) :
      stored.length = body.length + o.data.overhead := by
    obtain ⟨bs, _, decrypted⟩ := Except.bind_eq_ok.mp h
    exact Engine.length_of_decrypt decrypted
  cases kind with
  | data => exact opened _ (congrArg Prod.fst h)
  | dictionary => exact opened _ (congrArg Prod.fst h)

/-- Only the associated data of the next page changes while pages are opened. -/
theorem readHeader_openers (o : ColumnOpener) (kind : PageKind) (page : Nat) (input : Bytes) :
    (o.readHeader kind page input).2.metadata = o.metadata ∧
      (o.readHeader kind page input).2.data = o.data := by
  cases kind <;> exact ⟨rfl, rfl⟩

theorem openBody_openers (o : ColumnOpener) (kind : PageKind) (page : Nat) (body : Bytes) :
    (o.openBody kind page body).2.metadata = o.metadata ∧
      (o.openBody kind page body).2.data = o.data := by
  cases kind <;> exact ⟨rfl, rfl⟩

end ColumnOpener

/-- The number of values that are left is counted down by data pages, as long as some are left. -/
inductive CountsDown : (remaining : Int) → List Page → Prop where
  | done {remaining : Int} (enough : remaining ≤ 0) : CountsDown remaining []
  | page {remaining : Int} {page : Page} {pages : List Page} (more : 0 < remaining)
      (kind : page.kind = .data)
      (rest : CountsDown (remaining - page.numValues.toNat) pages) :
      CountsDown remaining (page :: pages)

theorem announced_append (front back : List Page) :
    announced (front ++ back) = announced front + announced back := by
  induction front with
  | nil => exact (Nat.zero_add _).symm
  | cons page front ih =>
      rw [List.cons_append, announced, announced]
      cases page.kind with
      | data => rw [ih, Nat.add_assoc]
      | dictionary => exact ih

theorem announced_data {page : Page} (kind : page.kind = .data) (pages : List Page) :
    announced (page :: pages) = page.numValues.toNat + announced pages := by
  rw [announced, kind]

/-- A dictionary page in front does not announce values. -/
theorem announced_dictionary {dictionary : Option Page}
    (kind : ∀ page ∈ dictionary, page.kind = .dictionary) (pages : List Page) :
    announced (dictionary.toList ++ pages) = announced pages := by
  cases dictionary with
  | none => rfl
  | some page => rw [Option.toList_some, List.singleton_append, announced, kind page rfl]

namespace CountsDown

variable {remaining : Int} {pages front back : List Page} {last : Page}

theorem kind_of_mem (h : CountsDown remaining pages) : ∀ page ∈ pages, page.kind = .data := by
  induction h with
  | done => exact fun _ none => absurd none List.not_mem_nil
  | page _ kind _ ih => exact List.forall_mem_cons.mpr ⟨kind, ih⟩

theorem le_announced (h : CountsDown remaining pages) : remaining ≤ announced pages := by
  induction h with
  | done enough => exact enough
  | page _ kind _ ih =>
      rw [announced_data kind]
      omega

/-- Before each page some values were left. -/
theorem announced_lt (h : CountsDown remaining (front ++ last :: back)) :
    announced front < remaining := by
  induction front generalizing remaining with
  | nil =>
      cases h with
      | page more _ _ => exact more
  | cons page front ih =>
      cases h with
      | page _ kind rest =>
          have less := ih rest
          rw [announced_data kind]
          omega

/-- Exactly the declared number of values is announced if the last page announces no more than are
left for it. -/
theorem announced_eq_iff (h : CountsDown remaining pages) (declared : 0 ≤ remaining) :
    (announced pages : Int) = remaining ↔
      ∀ front last, pages = front ++ [last] →
        (announced front + last.numValues.toNat : Int) ≤ remaining := by
  have least := h.le_announced
  have total (front : List Page) (last : Page) (split : pages = front ++ [last]) :
      announced pages = announced front + last.numValues.toNat := by
    have kind : last.kind = .data := by
      apply h.kind_of_mem
      rw [split]
      exact List.mem_append_right front List.mem_cons_self
    rw [split, announced_append, announced_data kind, announced, Nat.add_zero]
  constructor
  · intro exactly front last split
    rw [← exactly, total front last split]
    exact Int.le_of_eq (Int.natCast_add _ _).symm
  · intro fits
    obtain rfl | ⟨front, last, split⟩ := List.eq_nil_or_concat pages
    · rw [announced] at least ⊢
      omega
    · rw [List.concat_eq_append] at split
      have most := fits front last split
      rw [total front last split] at least ⊢
      omega

end CountsDown

namespace ChunkPages

variable {p q r : ChunkPages} {n m : Nat}

/-- What opens the metadata and the data of an encrypted chunk. -/
def moduleOpeners (p : ChunkPages) : Option (ModuleOpener × ModuleOpener) :=
  p.opener.map fun o => (o.metadata, o.data)

/-- The least size of a stored page header. -/
def leastHeader (p : ChunkPages) : Nat :=
  headerLength + p.moduleOpeners.elim 0 fun openers => openers.1.overhead

/-- The least size of a stored page body. -/
def leastBody (p : ChunkPages) : Nat :=
  p.moduleOpeners.elim 0 fun openers => openers.2.overhead

/-- The least size of a page. -/
def leastPage (p : ChunkPages) : Nat :=
  p.leastHeader + p.leastBody

theorem headerLength_le_leastPage (p : ChunkPages) : headerLength ≤ p.leastPage := by
  rw [leastPage, leastHeader]
  omega

/-- At least the given number of bytes was passed over, and nothing was counted. -/
structure Passed (n : Nat) (p q : ChunkPages) : Prop where
  length : q.rest.length + n ≤ p.rest.length
  remaining : q.remaining = p.remaining
  awaitsDictionary : q.awaitsDictionary = p.awaitsDictionary
  moduleOpeners : q.moduleOpeners = p.moduleOpeners

theorem Passed.trans (first : Passed n p q) (second : Passed m q r) : Passed (n + m) p r where
  length := by
    have := first.length
    have := second.length
    omega
  remaining := second.remaining.trans first.remaining
  awaitsDictionary := second.awaitsDictionary.trans first.awaitsDictionary
  moduleOpeners := second.moduleOpeners.trans first.moduleOpeners

theorem readHeader_passes {header : PageHeader} (h : readHeader p = (.ok header, q)) :
    Passed p.leastHeader p q := by
  rw [readHeader] at h
  cases opener : p.opener with
  | none =>
      rw [opener] at h
      dsimp only at h
      split at h
      · next decoded =>
          cases h
          refine ⟨?_, rfl, rfl, by rw [moduleOpeners, moduleOpeners, opener]⟩
          rw [decodeFront_eq_ok decoded, List.length_append, PlannedPage.length_encode_header,
            leastHeader, moduleOpeners, opener]
          dsimp only [Option.map_none, Option.elim_none]
          omega
      · cases h
  | some o =>
      rw [opener] at h
      dsimp only at h
      have kept := o.readHeader_openers p.expectedKind p.page p.rest
      generalize hread : o.readHeader p.expectedKind p.page p.rest = outcome at h kept
      rcases outcome with ⟨e | ⟨plain, rest⟩, o'⟩
      · cases h
      · dsimp only at h
        have inside := ColumnOpener.readHeader_eq_ok hread
        split at h
        · next decoded =>
            cases h
            refine ⟨?_, rfl, rfl, ?_⟩
            · rw [decodeFront_eq_ok decoded, List.length_append,
                PlannedPage.length_encode_header] at inside
              rw [leastHeader, moduleOpeners, opener]
              dsimp only [Option.map_some, Option.elim_some]
              omega
            · rw [moduleOpeners, moduleOpeners, opener, Option.map_some, Option.map_some, kept.1,
                kept.2]
        · cases h

theorem takeBody_passes {body : Bytes} (h : takeBody n p = (.ok body, q)) :
    Passed body.length p q := by
  rw [takeBody, Operation.run_get_bind] at h
  obtain ⟨_, h⟩ := Operation.guard_eq_ok.mp h
  obtain ⟨⟨front, rest⟩, cut, h⟩ := Operation.lift_bind_eq_ok.mp h
  cases h
  refine ⟨?_, rfl, rfl, rfl⟩
  rw [(Bytes.cut_eq_ok cut).2, List.length_append]
  dsimp only
  omega

theorem openBody_passes {kind : PageKind} {stored body : Bytes}
    (h : openBody kind stored p = (.ok body, q)) : Passed 0 p q ∧ p.leastBody ≤ stored.length := by
  rw [openBody] at h
  cases opener : p.opener with
  | none =>
      rw [opener] at h
      cases h
      refine ⟨⟨Nat.le_refl _, rfl, rfl, rfl⟩, ?_⟩
      rw [leastBody, moduleOpeners, opener]
      exact Nat.zero_le _
  | some o =>
      rw [opener] at h
      dsimp only at h
      have kept := o.openBody_openers kind p.page stored
      generalize hopen : o.openBody kind p.page stored = outcome at h kept
      rcases outcome with ⟨result, o'⟩
      cases h
      refine ⟨⟨Nat.le_refl _, rfl, rfl, ?_⟩, ?_⟩
      · rw [moduleOpeners, moduleOpeners, opener, Option.map_some, Option.map_some, kept.1, kept.2]
      · rw [leastBody, moduleOpeners, opener, ColumnOpener.openBody_eq_ok hopen]
        exact Nat.le_add_left _ _

/-- What a page that is delivered has to do with the pages that are still to come. -/
structure Advanced (p : ChunkPages) (page : Page) (q : ChunkPages) : Prop where
  kind : page.kind = p.expectedKind
  unfinished : 0 < p.remaining ∨ p.awaitsDictionary = true
  awaitsDictionary : q.awaitsDictionary = false
  remaining : q.remaining =
    match page.kind with
    | .data => p.remaining - page.numValues.toNat
    | .dictionary => p.remaining
  length : q.rest.length + p.leastPage ≤ p.rest.length
  moduleOpeners : q.moduleOpeners = p.moduleOpeners

theorem awaitsDictionary_of_data (h : p.expectedKind = .data) : p.awaitsDictionary = false := by
  rw [expectedKind] at h
  cases awaits : p.awaitsDictionary with
  | false => rfl
  | true =>
      rw [awaits] at h
      cases h

theorem subCounts_eq_ok {a b c : Int} (h : subCounts a b = .ok c) : c = a - b := by
  rw [subCounts] at h
  split at h
  · cases h
    rfl
  · cases h

/-- A number of values in a header is the number of values of the page. -/
theorem toNat_numValues {numValues : Int32} {n : Nat} (h : natural numValues.toInt = .ok n) :
    (UInt32.ofNat n).toNat = n := by
  have below : numValues.toInt < 0x80000000 := numValues.toInt_lt
  rw [natural] at h
  split at h
  · cases h
  · cases h
    exact UInt32.toNat_ofNat_of_lt' (by rw [UInt32.size]; omega)

/-- Either all declared values were seen, or there is one more page. -/
theorem next_eq_ok {result : Option Page} (h : next p = (.ok result, q)) :
    (result = none ∧ p.remaining ≤ 0 ∧ p.awaitsDictionary = false) ∨
      ∃ page, result = some page ∧ Advanced p page q := by
  rw [next, Operation.run_get_bind] at h
  by_cases finished : p.remaining ≤ 0 ∧ (!p.awaitsDictionary) = true
  · rw [if_pos finished] at h
    cases h
    exact .inl ⟨rfl, finished.1, by simpa using finished.2⟩
  rw [if_neg finished] at h
  obtain ⟨_, h⟩ := Operation.guard_eq_ok.mp h
  obtain ⟨header, behind, reading, h⟩ := Operation.bind_eq_ok.mp h
  obtain ⟨expected, h⟩ := Operation.guard_eq_ok.mp h
  obtain ⟨length, _, h⟩ := Operation.lift_bind_eq_ok.mp h
  obtain ⟨numValues, told, h⟩ := Operation.lift_bind_eq_ok.mp h
  obtain ⟨stored, taken, taking, h⟩ := Operation.bind_eq_ok.mp h
  obtain ⟨body, opened, opening, h⟩ := Operation.bind_eq_ok.mp h
  obtain ⟨unmoved, large⟩ := openBody_passes opening
  have passed := (readHeader_passes reading).trans (takeBody_passes taking)
  have size : taken.leastBody = p.leastBody := by
    rw [leastBody, leastBody, passed.moduleOpeners]
  have passed := passed.trans unmoved
  have length : opened.rest.length + p.leastPage ≤ p.rest.length := by
    have := passed.length
    rw [leastPage]
    omega
  have kind : header.kind = p.expectedKind := Decidable.not_not.mp expected
  have unfinished : 0 < p.remaining ∨ p.awaitsDictionary = true := by
    cases awaits : p.awaitsDictionary with
    | true => exact .inr rfl
    | false => exact .inl (Int.not_le.mp fun none_left => finished ⟨none_left, by rw [awaits]; rfl⟩)
  refine .inr ⟨⟨header.kind, body, UInt32.ofNat numValues, header.encoding⟩, ?_⟩
  cases hkind : header.kind with
  | dictionary =>
      rw [hkind] at h
      cases h
      exact ⟨rfl, hkind ▸ kind, unfinished, rfl, passed.remaining, length, passed.moduleOpeners⟩
  | data =>
      rw [hkind] at h
      dsimp only at h
      rw [Operation.run_get_bind] at h
      obtain ⟨page, _, h⟩ := Operation.lift_bind_eq_ok.mp h
      obtain ⟨remaining, counted, h⟩ := Operation.lift_bind_eq_ok.mp h
      cases h
      refine ⟨rfl, hkind ▸ kind, unfinished, ?_, ?_, length, passed.moduleOpeners⟩
      · exact passed.awaitsDictionary.trans (awaitsDictionary_of_data (kind.symm.trans hkind))
      · dsimp only
        rw [subCounts_eq_ok counted, passed.remaining, toNat_numValues told]

theorem shrinks : PageSource.Shrinks ChunkPages := by
  intro p q page h
  obtain ⟨⟨⟩, _⟩ | ⟨_, ⟨⟩, advanced⟩ := next_eq_ok h
  have shorter := advanced.length
  have least : 20 ≤ p.leastPage := p.headerLength_le_leastPage
  change q.rest.length / 20 + 1 < p.rest.length / 20 + 1
  omega

/-- Without a dictionary page to come, the pages are data pages that count down. -/
theorem countsDown_of_delivers {pages : List Page} (delivers : PageSource.Delivers pages p)
    (began : p.awaitsDictionary = false) : CountsDown p.remaining pages := by
  induction pages generalizing p with
  | nil =>
      obtain ⟨q, ended⟩ := delivers
      obtain ⟨_, enough, _⟩ | ⟨_, ⟨⟩, _⟩ := next_eq_ok ended
      exact .done enough
  | cons page pages ih =>
      obtain ⟨q, delivered, rest⟩ := delivers
      obtain ⟨⟨⟩, _⟩ | ⟨_, ⟨⟩, advanced⟩ := next_eq_ok delivered
      have kind : page.kind = .data := by
        rw [advanced.kind, expectedKind, began]
        rfl
      have remaining := advanced.remaining
      rw [kind] at remaining
      have more : 0 < p.remaining := by
        obtain more | awaits := advanced.unfinished
        · exact more
        · rw [began] at awaits
          cases awaits
      have counted := ih rest advanced.awaitsDictionary
      rw [remaining] at counted
      exact .page more kind counted

/-- The pages of a chunk are its dictionary page, if it is to come, and data
pages that count down. -/
theorem counted_of_delivers {pages : List Page} (delivers : PageSource.Delivers pages p) :
    ∃ dictionary data, pages = Option.toList dictionary ++ data ∧
      (∀ page ∈ dictionary, page.kind = .dictionary) ∧ CountsDown p.remaining data := by
  cases awaits : p.awaitsDictionary with
  | false => exact ⟨none, pages, rfl, by simp, countsDown_of_delivers delivers awaits⟩
  | true =>
      cases pages with
      | nil =>
          obtain ⟨q, ended⟩ := delivers
          obtain ⟨_, _, began⟩ | ⟨_, ⟨⟩, _⟩ := next_eq_ok ended
          rw [awaits] at began
          cases began
      | cons page pages =>
          obtain ⟨q, delivered, rest⟩ := delivers
          obtain ⟨⟨⟩, _⟩ | ⟨_, ⟨⟩, advanced⟩ := next_eq_ok delivered
          have kind : page.kind = .dictionary := by
            rw [advanced.kind, expectedKind, awaits]
            rfl
          have remaining := advanced.remaining
          rw [kind] at remaining
          have counted := countsDown_of_delivers rest advanced.awaitsDictionary
          rw [remaining] at counted
          exact ⟨some page, pages, rfl, by simpa using kind, counted⟩

end ChunkPages

end SealedColumns
