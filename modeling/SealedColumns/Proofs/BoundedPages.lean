import SealedColumns.Proofs.Answers
import SealedColumns.Reader.ChunkPages

/-!
# Pages of a chunk that nobody vouches for

Whatever the bytes of a chunk are, and whatever its metadata declares, a page reader stays inside
the chunk: what it has not read yet is the end of the bytes it was given, and every page that it
delivered took at least one of them. So its page counter never leaves 64 bits. The count of values
to come stays between the number declared and the largest number of values that one page can
announce, because no page is read once the count is used up.

Page headers, sealed or not, and page bodies may be anything. A reader that failed can be asked
again: it still stands inside the chunk.
-/

namespace SealedColumns

/-- Started where `P` holds, the operation ends in a value and a state that meet `Q`, or in an error
that breaks no promise and a state that meets `E`. -/
def AnswersFrom {σ α : Type} (P : σ → Prop) (op : Operation σ α) (Q : α → σ → Prop)
    (E : σ → Prop) : Prop :=
  ∀ s, P s → match op s with
    | (.ok a, t) => Q a t
    | (.error e, t) => e.kind ≠ .assertion ∧ E t

namespace AnswersFrom

variable {σ α β : Type} {P : σ → Prop} {Q : α → σ → Prop} {R : β → σ → Prop} {E : σ → Prop}

theorem seq {op : Operation σ α} {f : α → Operation σ β} (first : AnswersFrom P op Q E)
    (rest : ∀ a, AnswersFrom (Q a) (f a) R E) : AnswersFrom P (op >>= f) R E := by
  intro s hs
  have middle := first s hs
  rw [Operation.run_bind]
  generalize op s = outcome at middle ⊢
  rcases outcome with ⟨e | a, t⟩
  · exact middle
  · exact rest a t middle

theorem done {a : α} (h : ∀ s, P s → Q a s) : AnswersFrom P (pure a) Q E := h

/-- A value that is computed without the state is known to be good. -/
theorem lift {Good : α → Prop} {x : Except Error α} {f : α → Operation σ β}
    (first : Answers Good x) (rest : ∀ a, Good a → AnswersFrom P (f a) R E)
    (kept : ∀ s, P s → E s) : AnswersFrom P (liftM x >>= f) R E := by
  cases x with
  | error e => exact fun s hs => ⟨first, kept s hs⟩
  | ok a => exact rest a first

theorem get {f : σ → Operation σ β} (rest : ∀ s, P s → AnswersFrom (· = s) (f s) R E) :
    AnswersFrom P (MonadState.get >>= f) R E :=
  fun s hs => rest s hs s rfl

theorem set {t : σ} {f : PUnit → Operation σ β} (rest : AnswersFrom (· = t) (f ⟨⟩) R E) :
    AnswersFrom P (MonadStateOf.set t >>= f) R E :=
  fun _ _ => rest t rfl

theorem modify {g : σ → σ} {f : PUnit → Operation σ β}
    (rest : ∀ s, P s → AnswersFrom (· = g s) (f ⟨⟩) R E) :
    AnswersFrom P (modify g >>= f) R E :=
  fun s hs => rest s hs (g s) rfl

theorem guard {c : Prop} [Decidable c] {e : Error} {f : α → Operation σ β} {rest : Operation σ β}
    (refusal : (e.kind == .assertion) = false) (kept : ∀ s, P s → E s)
    (h : ¬ c → AnswersFrom P rest R E) :
    AnswersFrom P (if c then throw e >>= f else rest) R E := by
  by_cases hc : c
  · rw [if_pos hc]
    exact fun s hs => ⟨beq_eq_false_iff_ne.mp refusal, kept s hs⟩
  · rw [if_neg hc]
    exact h hc

theorem weaken {op : Operation σ α} {P' : σ → Prop} {Q' : α → σ → Prop} {E' : σ → Prop}
    (h : AnswersFrom P op Q E) (pre : ∀ s, P' s → P s) (post : ∀ a t, Q a t → Q' a t)
    (failed : ∀ t, E t → E' t) : AnswersFrom P' op Q' E' := by
  intro s hs
  have ended := h s (pre s hs)
  generalize op s = outcome at ended ⊢
  rcases outcome with ⟨e | a, t⟩
  · exact ⟨ended.1, failed t ended.2⟩
  · exact post a t ended

end AnswersFrom

namespace ColumnOpener

theorem aad_answers (o : ColumnOpener) (kind : ModuleKind) : Answers.Plainly (o.aad kind) :=
  moduleAad_answers _ _ _ _ _

theorem readHeader_answers (o : ColumnOpener) (kind : PageKind) (page : Nat) (input : Bytes) :
    Answers (fun part => ∃ passed, input = passed ++ part.2 ∧ 0 < passed.length)
      (o.readHeader kind page input).1 := by
  have read (aad : Bytes) : Answers _ (readSealed (o.openMetadata aad) input) :=
    readSealed_answers (fun _ => Engine.decrypt_answers) input
  cases kind with
  | data => exact (o.headerAad.forPage_answers page).bind fun aad _ => read aad
  | dictionary => exact (o.aad_answers _).bind fun aad _ => read aad

theorem openBody_answers (o : ColumnOpener) (kind : PageKind) (page : Nat) (body : Bytes) :
    Answers.Plainly (o.openBody kind page body).1 := by
  cases kind with
  | data =>
      exact (o.bodyAad.forPage_answers page).bind fun _ _ => Engine.decrypt_answers
  | dictionary => exact (o.aad_answers _).bind fun _ _ => Engine.decrypt_answers

theorem openOffsetIndex_answers (o : ColumnOpener) (sealedModule : Bytes) :
    Answers.Plainly (o.openOffsetIndex sealedModule) :=
  (o.aad_answers _).bind fun _ _ => Engine.decrypt_answers

end ColumnOpener

namespace ChunkPages

/-- The largest number of values that a page can announce, and one. -/
def pageLimit : Int :=
  0x80000000

/-- The reader stands inside the chunk. -/
structure Within (chunk : Bytes) (p : ChunkPages) : Prop where
  /-- Some bytes were passed over, at least one for each data page. -/
  position : ∃ passed, chunk = passed ++ p.rest ∧ p.page ≤ passed.length
  short : chunk.length < UInt64.size
  remaining_lt : p.remaining < 0x8000000000000000
  lt_remaining : -pageLimit < p.remaining

/-- The reader has passed over a page header, and the page is not counted yet. -/
structure Behind (chunk : Bytes) (before p : ChunkPages) : Prop where
  position : ∃ passed, chunk = passed ++ p.rest ∧ p.page < passed.length
  remaining : p.remaining = before.remaining
  awaitsDictionary : p.awaitsDictionary = before.awaitsDictionary

variable {chunk : Bytes} {before p : ChunkPages}

theorem Behind.within (h : Behind chunk before p) (start : Within chunk before) :
    Within chunk p := by
  obtain ⟨passed, split, counted⟩ := h.position
  exact {
    position := ⟨passed, split, Nat.le_of_lt counted⟩
    short := start.short
    remaining_lt := by rw [h.remaining]; exact start.remaining_lt
    lt_remaining := by rw [h.remaining]; exact start.lt_remaining }

/-- Passing over more bytes leaves the reader inside the chunk. -/
theorem Within.behind (start : Within chunk before) {passed rest : Bytes}
    (split : before.rest = passed ++ rest) (some_passed : 0 < passed.length)
    (opener : Option ColumnOpener) : Behind chunk before { before with rest, opener } := by
  obtain ⟨already, whole, counted⟩ := start.position
  refine ⟨⟨already ++ passed, ?_, ?_⟩, rfl, rfl⟩
  · rw [whole, split, List.append_assoc]
  · rw [List.length_append]
    exact Nat.lt_of_le_of_lt counted (Nat.lt_add_of_pos_right some_passed)

theorem readHeader_answers (start : Within chunk before) :
    AnswersFrom (· = before) (readHeader : Step PageHeader) (fun _ => Behind chunk before)
      (Within chunk) := by
  intro p same
  rw [same, readHeader]
  cases hopener : before.opener with
  | none =>
      cases hdecoded : (decodeFront before.rest : Except Error (PageHeader × Bytes)) with
      | error e =>
          have answer :
              Answers.Plainly (decodeFront before.rest : Except Error (PageHeader × Bytes)) :=
            decodeFront_answers
          rw [hdecoded] at answer
          exact ⟨answer, start⟩
      | ok decoded =>
          exact start.behind (decodeFront_eq_ok hdecoded) (LawfulWire.encode_pos decoded.1) none
  | some o =>
      have answer := o.readHeader_answers before.expectedKind before.page before.rest
      dsimp only
      generalize o.readHeader before.expectedKind before.page before.rest = outcome at answer ⊢
      rcases outcome with ⟨e | ⟨plain, rest⟩, o'⟩
      · exact ⟨answer, { start with }⟩
      · obtain ⟨passed, split, some_passed⟩ := answer
        have decoded : Answers.Plainly (decodeFront plain : Except Error (PageHeader × Bytes)) :=
          decodeFront_answers
        dsimp only
        generalize (decodeFront plain : Except Error (PageHeader × Bytes)) = header at decoded ⊢
        rcases header with e | ⟨header, _⟩
        · exact ⟨decoded, { start with }⟩
        · exact start.behind split some_passed (some o')

theorem takeBody_answers (start : Within chunk before) (n : Nat) :
    AnswersFrom (Behind chunk before) (takeBody n : Step Bytes) (fun _ => Behind chunk before)
      (Within chunk) := by
  refine .get fun p behind => ?_
  have kept : ∀ s, s = p → Within chunk s := by
    rintro _ rfl
    exact behind.within start
  refine .guard rfl kept fun there => ?_
  refine .lift (Bytes.cut_answers (Bytes.le_length_of_take there)) ?_ kept
  rintro ⟨body, rest⟩ ⟨_, split⟩
  refine .set (.done ?_)
  rintro _ rfl
  obtain ⟨passed, whole, counted⟩ := behind.position
  refine ⟨⟨passed ++ body, ?_, ?_⟩, behind.remaining, behind.awaitsDictionary⟩
  · rw [whole, split, List.append_assoc]
  · rw [List.length_append]
    exact Nat.lt_add_right _ counted

theorem openBody_answers (start : Within chunk before) (kind : PageKind) (body : Bytes) :
    AnswersFrom (Behind chunk before) (openBody kind body : Step Bytes)
      (fun _ => Behind chunk before) (Within chunk) := by
  intro p behind
  rw [openBody]
  cases hopener : p.opener with
  | none => exact behind
  | some o =>
      have answer := o.openBody_answers kind p.page body
      dsimp only
      generalize o.openBody kind p.page body = outcome at answer ⊢
      rcases outcome with ⟨e | plain, o'⟩
      · exact ⟨answer, { behind.within start with }⟩
      · exact { behind with }

/-- A data page is expected only as long as values are to come. -/
theorem remaining_pos (unfinished : ¬ (before.remaining ≤ 0 ∧ (!before.awaitsDictionary) = true))
    (data : .data = before.expectedKind) : 0 < before.remaining := by
  rw [expectedKind] at data
  cases hawaits : before.awaitsDictionary with
  | true =>
      rw [hawaits] at data
      cases data
  | false =>
      rw [hawaits] at unfinished
      exact Int.not_le.mp fun none_left => unfinished ⟨none_left, rfl⟩

/-- Counting a data page and its values overflows neither counter: every page has passed over a byte
of the chunk, and values were left before the page. -/
theorem countPage_answers (start : Within chunk before) (more : 0 < before.remaining)
    {numValues : Nat} (announced_lt : (numValues : Int) < pageLimit) (delivered : Option Page) :
    AnswersFrom (Behind chunk before)
      (do
        let p ← get
        let page ← addSizes p.page 1
        let remaining ← subCounts p.remaining numValues
        set { p with page, remaining }
        return delivered : Step (Option Page))
      (fun _ => Within chunk) (Within chunk) := by
  refine .get fun p passed => ?_
  have inside : ∀ s, s = p → Within chunk s := by
    rintro _ rfl
    exact passed.within start
  obtain ⟨bytes, whole, counted⟩ := passed.position
  have bytes_lt : p.page + 1 < UInt64.size := by
    have short := start.short
    rw [whole, List.length_append] at short
    omega
  refine .lift (addSizes_answers bytes_lt) ?_ inside
  rintro _ rfl
  have left := passed.remaining
  have limits := start.remaining_lt
  rw [pageLimit] at announced_lt
  refine .lift (subCounts_answers (by omega) (by omega)) ?_ inside
  rintro _ rfl
  refine .set (.done ?_)
  rintro _ rfl
  refine ⟨⟨bytes, whole, counted⟩, start.short, ?_, ?_⟩
  · dsimp only
    omega
  · dsimp only
    rw [pageLimit]
    omega

/-- The next page of any chunk is delivered or refused. -/
theorem next_answers : AnswersFrom (Within chunk) (next : Step (Option Page))
    (fun _ => Within chunk) (Within chunk) := by
  refine .get fun before start => ?_
  have kept : ∀ s, s = before → Within chunk s := by
    rintro _ rfl
    exact start
  have behind : ∀ s, Behind chunk before s → Within chunk s := fun s h => h.within start
  by_cases finished : before.remaining ≤ 0 ∧ (!before.awaitsDictionary) = true
  · rw [if_pos finished]
    exact .done kept
  rw [if_neg finished]
  refine .guard rfl kept fun _ => ?_
  refine .seq (readHeader_answers start) fun header => ?_
  refine .guard rfl behind fun expected => ?_
  refine .lift (natural_answers _) (fun length _ => ?_) behind
  refine .lift (natural_answers _) (fun numValues announced => ?_) behind
  refine .seq (takeBody_answers start length) fun stored => ?_
  refine .seq (openBody_answers start _ stored) fun body => ?_
  have kind : header.kind = before.expectedKind := Decidable.not_not.mp expected
  cases hkind : header.kind with
  | dictionary =>
      dsimp only
      refine .modify fun p passed => .done ?_
      rintro _ rfl
      exact { behind p passed with }
  | data =>
      have more := remaining_pos finished (hkind.symm.trans kind)
      have announced_lt : (numValues : Int) < pageLimit := by
        rw [announced]
        exact header.numValues.toInt_lt
      exact countPage_answers start more announced_lt _

end ChunkPages

namespace ColumnReader

variable {chunk : Bytes}

/-- The pages that are still to come stand inside the chunk. -/
def Within (chunk : Bytes) (reader : ColumnReader ChunkPages) : Prop :=
  reader.source.Within chunk

/-- The operation answers, and the reader stands inside the chunk again, whatever comes of it. -/
abbrev AnswersWithin {α : Type} (chunk : Bytes) (op : Step ChunkPages α) : Prop :=
  AnswersFrom (Within chunk) op (fun _ => Within chunk) (Within chunk)

theorem nextPage_answers : AnswersWithin chunk (nextPage : Step ChunkPages (Option Page)) := by
  intro reader start
  have ended := ChunkPages.next_answers reader.source start
  rw [nextPage]
  dsimp only [PageSource.next]
  generalize (ChunkPages.next : ChunkPages.Step (Option Page)) reader.source = outcome at ended ⊢
  rcases outcome with ⟨e | page, source⟩
  · exact ended
  · exact ended

theorem acceptDictionary_answers (page : Page) :
    AnswersWithin chunk (acceptDictionary page : Step ChunkPages Unit) := by
  refine .guard rfl (fun _ h => h) fun _ => .get fun reader start => ?_
  have kept : ∀ s, s = reader → Within chunk s := by
    rintro _ rfl
    exact start
  refine .guard rfl kept fun _ =>
    .lift (ColumnValues.decodePlain_answers _ _ _) (fun _ _ => ?_) kept
  intro _ _
  exact start

theorem readPageWithin_answers (n : Nat) :
    AnswersWithin chunk (readPageWithin n : Step ChunkPages (Option ColumnValues)) := by
  induction n with
  | zero => exact .done fun _ h => h
  | succ n ih =>
      refine .seq nextPage_answers fun page => ?_
      cases page with
      | none => exact .done fun _ h => h
      | some page =>
          dsimp only
          cases page.kind with
          | dictionary => exact .seq (acceptDictionary_answers page) fun _ => ih
          | data =>
              refine .get fun reader start => ?_
              have kept : ∀ s, s = reader → Within chunk s := by
                rintro _ rfl
                exact start
              exact .lift (decodePage_answers _ _ page) (fun _ _ => .done kept) kept

theorem readPage_answers :
    AnswersWithin chunk (readPage : Step ChunkPages (Option ColumnValues)) :=
  readPageWithin_answers 2

theorem readPages_answers (n : Nat) (values : ColumnValues) :
    AnswersWithin chunk (readPages n values : Step ChunkPages ColumnValues) := by
  induction n generalizing values with
  | zero => exact .done fun _ h => h
  | succ n ih =>
      refine .seq readPage_answers fun more => ?_
      cases more with
      | none => exact .done fun _ h => h
      | some more =>
          exact .lift (values.append_answers more) (fun _ _ => ih _) fun _ h => h

theorem readAll_answers : AnswersWithin chunk (readAll : Step ChunkPages ColumnValues) := by
  refine .get fun reader start => ?_
  refine (readPages_answers _ _).weaken ?_ (fun _ _ h => h) fun _ h => h
  rintro _ rfl
  exact start

end ColumnReader

end SealedColumns
