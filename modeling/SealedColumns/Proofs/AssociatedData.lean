import SealedColumns.Proofs.ModulePlaces

/-!
# What associated data tells, and how it is kept up to date

Associated data is put together without separators. Still it tells the file and the module: the data
of files has one length, and behind it the kind of the module says which ordinals follow. A module
has associated data unless an ordinal that counts for it is missing or too large.

The data of a page is not always put together anew. What is kept of the page before is
changed in place; whatever was asked for before, and whether it was granted, the data of a
page is the same either way.
-/

namespace SealedColumns

namespace ModulePlace

variable {fileAad fileAad' aad : Bytes} {q q' : ModulePlace}

/-! ### Which module it is -/

/-- Places are told apart by their associated data, also across files. -/
theorem file_and_place_of_aad (length : fileAad.length = fileAad'.length)
    (h : q.aad fileAad = .ok aad) (h' : q'.aad fileAad' = .ok aad) :
    fileAad = fileAad' ∧ q.Same q' := by
  obtain ⟨_, whole⟩ := aad_eq_ok h
  obtain ⟨_, whole'⟩ := aad_eq_ok h'
  obtain ⟨rfl, _⟩ := List.append_inj (whole.symm.trans whole') length
  exact ⟨rfl, same_of_aad h h'⟩

/-! ### Which modules have associated data -/

theorem checkOrdinal_of_le (kind : OrdinalKind) {n : Nat} (h : n ≤ maxOrdinal) :
    checkOrdinal kind n = .ok () :=
  if_pos h

/-- A place with possible ordinals has associated data. -/
theorem Valid.aad_eq (valid : q.Valid) (fileAad : Bytes) :
    q.aad fileAad = .ok (fileAad ++ q.suffix) := by
  obtain ⟨kind, rowGroup, column, page⟩ := q
  by_cases footer : kind = .footer
  · subst footer
    rfl
  · have rowGroupFits := checkOrdinal_of_le .rowGroup (valid.rowGroup footer)
    have columnFits := checkOrdinal_of_le .column (valid.column footer)
    rw [ModulePlace.aad, moduleAad, suffix]
    dsimp only at rowGroupFits columnFits ⊢
    rw [if_neg footer, if_neg footer, rowGroupFits, columnFits]
    split
    · next paged =>
      obtain ⟨n, fits, rfl⟩ := valid.page paged
      have pageFits := checkOrdinal_of_le .page fits
      simp [pageFits, pure, Except.pure]
    · next unpaged => simp [pure, Except.pure]

theorem exists_aad_iff (fileAad : Bytes) : (∃ aad, q.aad fileAad = .ok aad) ↔ q.Valid := by
  constructor
  · rintro ⟨aad, built⟩
    exact (aad_eq_ok built).1
  · intro valid
    exact ⟨_, valid.aad_eq fileAad⟩

theorem hasPage_iff {kind : ModuleKind} :
    kind.hasPage = true ↔ kind = .dataPage ∨ kind = .dataPageHeader := by
  cases kind <;> simp [ModuleKind.hasPage]

/-- A place has no associated data if an ordinal that counts for it is missing or too large. -/
theorem exists_aad_error_iff : (∃ e, q.aad fileAad = .error e) ↔
    q.kind ≠ .footer ∧ (32767 < q.rowGroup ∨ 32767 < q.column) ∨
      (q.kind = .dataPage ∨ q.kind = .dataPageHeader) ∧ ∀ n ∈ q.page, 32767 < n := by
  have refused : (∃ e, q.aad fileAad = .error e) ↔ ¬ q.Valid := by
    rw [← exists_aad_iff fileAad]
    cases q.aad fileAad <;> simp
  rw [refused, ← hasPage_iff]
  constructor
  · intro invalid
    apply Classical.byContradiction
    intro possible
    refine invalid ⟨?_, ?_, ?_⟩
    · intro other
      exact Nat.le_of_not_lt fun large => possible (.inl ⟨other, .inl large⟩)
    · intro other
      exact Nat.le_of_not_lt fun large => possible (.inl ⟨other, .inr large⟩)
    · intro paged
      cases page : q.page with
      | none =>
          have vacuous : ∀ n ∈ q.page, 32767 < n := by simp [page]
          exact absurd (.inr ⟨paged, vacuous⟩) possible
      | some n =>
          refine ⟨n, Nat.le_of_not_lt fun large => possible (.inr ⟨paged, ?_⟩), rfl⟩
          intro n' same
          rw [page] at same
          cases same
          exact large
  · rintro (⟨other, large⟩ | ⟨paged, large⟩) valid
    · have rowGroup := valid.rowGroup other
      have column := valid.column other
      rw [maxOrdinal] at rowGroup column
      omega
    · obtain ⟨n, fits, page⟩ := valid.page paged
      rw [maxOrdinal] at fits
      have := large n page
      omega

/-- Associated data tells the file and the module, and is there for every module whose
ordinals are possible ones. -/
theorem aad_identifies :
    (∀ {fileAad fileAad' aad : Bytes} {q q' : ModulePlace}, fileAad.length = fileAad'.length →
      q.aad fileAad = .ok aad → q'.aad fileAad' = .ok aad → fileAad = fileAad' ∧ q.Same q') ∧
    ∀ (fileAad : Bytes) (q : ModulePlace), (∃ e, q.aad fileAad = .error e) ↔
      q.kind ≠ .footer ∧ (32767 < q.rowGroup ∨ 32767 < q.column) ∨
        (q.kind = .dataPage ∨ q.kind = .dataPageHeader) ∧ ∀ n ∈ q.page, 32767 < n :=
  ⟨file_and_place_of_aad, fun _ _ => exists_aad_error_iff⟩

theorem aad_identifies_sample :
    ModulePlace.aad [9] ⟨.columnMetaData, 1, 258, some 3⟩ = .ok [9, 1, 1, 0, 2, 1] ∧
    ModulePlace.aad [9] ⟨.columnMetaData, 1, 258, none⟩ = .ok [9, 1, 1, 0, 2, 1] ∧
    Same ⟨.columnMetaData, 1, 258, some 3⟩ ⟨.columnMetaData, 1, 258, none⟩ ∧
    ∃ e, ModulePlace.aad [9] ⟨.dataPage, 0, 0, none⟩ = .error e := by
  have built : ModulePlace.aad [9] ⟨.columnMetaData, 1, 258, some 3⟩ = .ok [9, 1, 1, 0, 2, 1] := by
    rfl
  have built' : ModulePlace.aad [9] ⟨.columnMetaData, 1, 258, none⟩ = .ok [9, 1, 1, 0, 2, 1] := by
    rfl
  have missing : ∀ n ∈ (none : Option Nat), 32767 < n := by simp
  exact ⟨built, built', (aad_identifies.1 rfl built built').2,
    (aad_identifies.2 [9] _).mpr (.inr ⟨.inl rfl, missing⟩)⟩

end ModulePlace

/-! ### Keeping the associated data of pages up to date -/

theorem run_mapM_cons {σ α β : Type} (f : α → StateM σ β) (a : α) (rest : List α) (s : σ) :
    (a :: rest).mapM f s =
      ((f a s).1 :: (rest.mapM f (f a s).2).1, (rest.mapM f (f a s).2).2) := by
  rw [List.mapM_cons]
  rfl

/-- Replaces the page ordinal in a buffer; a failure leaves the buffer as it is. -/
def updatePage (page : Nat) : Operation Bytes PUnit := do
  set (← replacePage (← get) page)

/-- The last of the ordinals that a page can have, and if there is none the
ordinal of the page before. -/
def lastPage (first : Nat) (pages : List Nat) : Nat :=
  (pages.filter (· ≤ maxOrdinal)).getLastD first

section

variable {fileAad aad : Bytes} {part : PageModule} {rowGroup column first : Nat}

theorem lastPage_cons (first page : Nat) (pages : List Nat) : lastPage first (page :: pages) =
    lastPage (if page ≤ maxOrdinal then page else first) pages := by
  rw [lastPage, lastPage, List.filter_cons]
  split
  · next fits => rw [List.getLastD_cons, if_pos (of_decide_eq_true fits)]
  · next large => rw [if_neg (mt decide_eq_true large)]

/-- Where one page has associated data, another page has it as well, unless its
ordinal is too large. -/
theorem granted_of_built
    (built : moduleAad fileAad part.kind rowGroup column (some first) = .ok aad) (page : Nat) :
    (moduleAad fileAad part.kind rowGroup column (some page)).map (fun _ => ()) =
      checkOrdinal .page page := by
  have valid := (ModulePlace.aad_eq_ok (q := ⟨part.kind, rowGroup, column, some first⟩) built).1
  have other : part.kind ≠ .footer := by cases part <;> simp [PageModule.kind]
  rw [PageAad.moduleAad_page, ModulePlace.checkOrdinal_of_le _ (valid.rowGroup other),
    ModulePlace.checkOrdinal_of_le _ (valid.column other)]
  cases checkOrdinal .page page <;> rfl

/-- One update of the data of a page gives the data of the next one, or fails as building it
would. -/
theorem updatePage_run
    (built : moduleAad fileAad part.kind rowGroup column (some first) = .ok aad) (page : Nat) :
    (updatePage page).run aad =
      match moduleAad fileAad part.kind rowGroup column (some page) with
      | .ok updated => (.ok ⟨⟩, updated)
      | .error e => (.error e, aad) := by
  rw [ExceptT.run, updatePage, Operation.run_get_bind, PageAad.replacePage_moduleAad built,
    Operation.run_bind, Operation.run_lift]
  cases moduleAad fileAad part.kind rowGroup column (some page) <;> rfl

/-- Updates one after another: each is granted unless the ordinal is too large, and the buffer is
the data of the last page that was granted. -/
theorem updatePages_run
    (built : moduleAad fileAad part.kind rowGroup column (some first) = .ok aad)
    (pages : List Nat) :
    ∃ last, moduleAad fileAad part.kind rowGroup column (some (lastPage first pages)) = .ok last ∧
      (pages.mapM (m := StateM Bytes) fun page => (updatePage page).run) aad =
        (pages.map (checkOrdinal .page), last) := by
  induction pages generalizing first aad with
  | nil => exact ⟨aad, built, rfl⟩
  | cons page pages ih =>
    have step := updatePage_run built page
    have granted := granted_of_built built page
    rw [lastPage_cons, run_mapM_cons, List.map_cons, step, ← granted]
    cases result : moduleAad fileAad part.kind rowGroup column (some page) with
    | ok updated =>
      rw [result] at granted
      rw [if_pos (ModulePlace.checkOrdinal_eq_ok granted.symm)]
      obtain ⟨last, whole, run⟩ := ih result
      refine ⟨last, whole, ?_⟩
      dsimp only
      rw [run]
      rfl
    | error e =>
      have large : ¬ page ≤ maxOrdinal := by
        intro fits
        rw [result, ModulePlace.checkOrdinal_of_le _ fits] at granted
        cases granted
      rw [if_neg large]
      obtain ⟨last, whole, run⟩ := ih built
      refine ⟨last, whole, ?_⟩
      dsimp only
      rw [run]
      rfl

end

namespace PageAad

/-- Serving a page does not change what is served. -/
theorem forPage_snd (p : PageAad) (page : Nat) : (p.forPage page).2.fileAad = p.fileAad ∧
    (p.forPage page).2.part = p.part ∧ (p.forPage page).2.rowGroup = p.rowGroup ∧
    (p.forPage page).2.column = p.column := by
  rw [forPage]
  split <;> exact ⟨rfl, rfl, rfl, rfl⟩

/-- Pages served one after another are given what would be built for them. -/
theorem forPages_fst (p : PageAad) (pages : List Nat) :
    ((pages.mapM (m := StateM PageAad) fun page p => p.forPage page) p).1 =
      pages.map fun page => moduleAad p.fileAad p.part.kind p.rowGroup p.column (some page) := by
  induction pages generalizing p with
  | nil => rfl
  | cons page pages ih =>
    obtain ⟨fileAad, part, rowGroup, column⟩ := p.forPage_snd page
    rw [run_mapM_cons, List.map_cons]
    dsimp only
    rw [forPage_fst, ih, fileAad, part, rowGroup, column]

end PageAad

/-- Whatever pages are asked for, valid or not, their associated data is the data that
would be built for them: when it is served from what is kept of the page before, and when
it is updated in a buffer. -/
theorem pageAads_as_built (fileAad : Bytes) (part : PageModule) (rowGroup column : Nat)
    (pages : List Nat) :
    ((pages.mapM (m := StateM PageAad) fun page p => p.forPage page)
        (.start fileAad part rowGroup column)).1 =
      pages.map (fun page => moduleAad fileAad part.kind rowGroup column (some page)) ∧
    ∀ first aad, moduleAad fileAad part.kind rowGroup column (some first) = .ok aad →
      ∃ last, moduleAad fileAad part.kind rowGroup column (some (lastPage first pages)) = .ok last ∧
        (pages.mapM (m := StateM Bytes) fun page => (updatePage page).run) aad =
          (pages.map (checkOrdinal .page), last) :=
  ⟨PageAad.forPages_fst _ pages, fun _ _ built => updatePages_run built pages⟩

theorem pageAads_as_built_sample :
    moduleAad [9] .dataPageHeader 3 2 (some 0) = .ok [9, 4, 3, 0, 2, 0, 0, 0] ∧
    (([1, 40000, 255].mapM (m := StateM PageAad) fun page p => p.forPage page)
        (.start [9] .header 3 2)).1 =
      [.ok [9, 4, 3, 0, 2, 0, 1, 0], .error (.ordinalTooLarge .page 40000),
        .ok [9, 4, 3, 0, 2, 0, 255, 0]] ∧
    ([1, 40000, 255].mapM (m := StateM Bytes) fun page => (updatePage page).run)
        [9, 4, 3, 0, 2, 0, 0, 0] =
      ([.ok (), .error (.ordinalTooLarge .page 40000), .ok ()], [9, 4, 3, 0, 2, 0, 255, 0]) := by
  have built : moduleAad [9] .dataPageHeader 3 2 (some 0) = .ok [9, 4, 3, 0, 2, 0, 0, 0] := by rfl
  obtain ⟨served, updated⟩ := pageAads_as_built [9] .header 3 2 [1, 40000, 255]
  obtain ⟨last, whole, run⟩ := updated 0 _ built
  cases whole
  exact ⟨built, served, run⟩

end SealedColumns
