import SealedColumns.Proofs.Operation
import SealedColumns.Aad

/-!
# Associated data tells modules apart

Within one file, the associated data of a module determines its kind and, unless it is the footer,
the ordinals of its row group and column and, for the two modules of a data page, the ordinal of the
page.

The places of modules are ordered: by row group, by column, and within a column chunk from the
dictionary through the data pages to the offset index and the metadata. A `Mark` cuts this order in
two.
-/

namespace SealedColumns

/-- A module of a file. The page counts only for the modules of data pages, and only the kind does
for the footer. -/
structure ModulePlace where
  kind : ModuleKind
  rowGroup : Nat
  column : Nat
  page : Option Nat

namespace ModulePlace

/-- The associated data of a place. -/
def aad (fileAad : Bytes) (q : ModulePlace) : Except Error Bytes :=
  moduleAad fileAad q.kind q.rowGroup q.column q.page

/-- What stands behind the associated data of the file. -/
def suffix (q : ModulePlace) : Bytes :=
  q.kind.code ::
    if q.kind = .footer then []
    else (ordinalBytes q.rowGroup ++ ordinalBytes q.column) ++
      if q.kind.hasPage then ordinalBytes (q.page.getD 0) else []

/-- The ordinals that the place has are possible ones. -/
structure Valid (q : ModulePlace) : Prop where
  rowGroup : q.kind ≠ .footer → q.rowGroup ≤ maxOrdinal
  column : q.kind ≠ .footer → q.column ≤ maxOrdinal
  page : q.kind.hasPage = true → ∃ n ≤ maxOrdinal, q.page = some n

variable {fileAad aad : Bytes} {q q' : ModulePlace}

theorem checkOrdinal_eq_ok {kind : OrdinalKind} {n : Nat} {u : Unit}
    (h : checkOrdinal kind n = .ok u) : n ≤ maxOrdinal := by
  rw [checkOrdinal] at h
  split at h
  · assumption
  · cases h

theorem aad_eq_ok (h : q.aad fileAad = .ok aad) : q.Valid ∧ aad = fileAad ++ q.suffix := by
  obtain ⟨kind, rowGroup, column, page⟩ := q
  rw [ModulePlace.aad, moduleAad] at h
  dsimp only at h
  split at h
  · next footer =>
    subst footer
    cases h
    exact ⟨⟨absurd rfl, absurd rfl, fun h => (by cases h)⟩, rfl⟩
  · next other =>
    obtain ⟨_, rowGroupFits, h⟩ := Except.bind_eq_ok.mp h
    obtain ⟨_, columnFits, h⟩ := Except.bind_eq_ok.mp h
    have rowGroup_le := checkOrdinal_eq_ok rowGroupFits
    have column_le := checkOrdinal_eq_ok columnFits
    rw [suffix]
    dsimp only
    rw [if_neg other]
    split at h
    · next paged =>
      cases page with
      | none => cases h
      | some n =>
          obtain ⟨_, pageFits, h⟩ := Except.bind_eq_ok.mp h
          cases Except.pure_eq_ok.mp h
          refine ⟨⟨fun _ => rowGroup_le, fun _ => column_le,
            fun _ => ⟨n, checkOrdinal_eq_ok pageFits, rfl⟩⟩, ?_⟩
          rw [if_pos paged]
          simp
    · next unpaged =>
      cases Except.pure_eq_ok.mp h
      refine ⟨⟨fun _ => rowGroup_le, fun _ => column_le, fun paged => absurd paged unpaged⟩, ?_⟩
      rw [if_neg unpaged]
      simp

theorem ordinalBytes_inj {m n : Nat} (hm : m ≤ maxOrdinal) (hn : n ≤ maxOrdinal)
    (h : ordinalBytes m = ordinalBytes n) : m = n := by
  have small : maxOrdinal < Bytes.count 2 := by decide
  have same := congrArg Bytes.toNat h
  rwa [ordinalBytes, ordinalBytes, Bytes.toNat_ofNat 2 m (Nat.lt_of_le_of_lt hm small),
    Bytes.toNat_ofNat 2 n (Nat.lt_of_le_of_lt hn small)] at same

theorem code_injective {k k' : ModuleKind} (h : k.code = k'.code) : k = k' := by
  have first := k.all_code
  rw [h, k'.all_code] at first
  exact (Option.some.inj first).symm

/-- The modules of two places have the same associated data: they are the same module. -/
structure Same (q q' : ModulePlace) : Prop where
  kind : q.kind = q'.kind
  rowGroup : q.kind ≠ .footer → q.rowGroup = q'.rowGroup
  column : q.kind ≠ .footer → q.column = q'.column
  page : q.kind.hasPage = true → q.page = q'.page

/-- Places of one file are told apart by their associated data. -/
theorem same_of_aad (h : q.aad fileAad = .ok aad) (h' : q'.aad fileAad = .ok aad) : q.Same q' := by
  obtain ⟨valid, rfl⟩ := aad_eq_ok h
  obtain ⟨valid', same⟩ := aad_eq_ok h'
  have suffixes := List.append_cancel_left same
  rw [suffix] at suffixes
  injection suffixes with codes rest
  have kind := code_injective codes
  rw [← kind] at rest
  have widths : (ordinalBytes q.rowGroup ++ ordinalBytes q.column).length =
      (ordinalBytes q'.rowGroup ++ ordinalBytes q'.column).length := by
    simp [ordinalBytes]
  have ordinals : q.kind ≠ .footer → ordinalBytes q.rowGroup = ordinalBytes q'.rowGroup ∧
      ordinalBytes q.column = ordinalBytes q'.column ∧
      (q.kind.hasPage = true → ordinalBytes (q.page.getD 0) = ordinalBytes (q'.page.getD 0)) := by
    intro other
    rw [if_neg other, if_neg other] at rest
    obtain ⟨place, pages⟩ := List.append_inj rest widths
    obtain ⟨rowGroups, columns⟩ := List.append_inj place (by simp [ordinalBytes])
    refine ⟨rowGroups, columns, ?_⟩
    intro paged
    rwa [if_pos paged, if_pos paged] at pages
  refine ⟨kind, ?_, ?_, ?_⟩
  · intro other
    exact ordinalBytes_inj (valid.rowGroup other) (valid'.rowGroup (kind ▸ other))
      (ordinals other).1
  · intro other
    exact ordinalBytes_inj (valid.column other) (valid'.column (kind ▸ other)) (ordinals other).2.1
  · intro paged
    obtain ⟨n, hn, page⟩ := valid.page paged
    obtain ⟨n', hn', page'⟩ := valid'.page (kind ▸ paged)
    have other : q.kind ≠ .footer := by
      intro footer
      rw [footer] at paged
      cases paged
    have bytes := (ordinals other).2.2 paged
    rw [page, page'] at bytes
    rw [page, page', ordinalBytes_inj hn hn' bytes]

end ModulePlace

/-! ### The order of places -/

/-- The parts of a column chunk, in the order in which their modules are sealed. -/
def ModuleKind.part : ModuleKind → Nat
  | dictionaryPage | dictionaryPageHeader => 0
  | dataPage | dataPageHeader => 1
  | columnIndex | offsetIndex => 2
  | columnMetaData => 3
  | footer => 4

/-- A point in the order of places. -/
structure Mark where
  rowGroup : Nat
  column : Nat
  part : Nat
  step : Nat

namespace Mark

/-- The point does not come after another one. -/
def AtMost (s t : Mark) : Prop :=
  s.rowGroup < t.rowGroup ∨ s.rowGroup = t.rowGroup ∧
    (s.column < t.column ∨ s.column = t.column ∧
      (s.part < t.part ∨ s.part = t.part ∧ s.step ≤ t.step))

/-- The point right behind. -/
def next (t : Mark) : Mark :=
  { t with step := t.step + 1 }

variable {s t u : Mark}

theorem AtMost.refl (t : Mark) : t.AtMost t :=
  .inr ⟨rfl, .inr ⟨rfl, .inr ⟨rfl, Nat.le_refl _⟩⟩⟩

theorem AtMost.trans (first : s.AtMost t) (second : t.AtMost u) : s.AtMost u := by
  rw [AtMost] at *
  omega

theorem AtMost.next (t : Mark) : t.AtMost t.next :=
  .inr ⟨rfl, .inr ⟨rfl, .inr ⟨rfl, Nat.le_succ _⟩⟩⟩

theorem not_next_atMost (t : Mark) : ¬ t.next.AtMost t := by
  rw [AtMost, next]
  dsimp only
  omega

theorem atMost_part (rowGroup column : Nat) {part part' : Nat} (h : part < part')
    (step step' : Nat) :
    AtMost ⟨rowGroup, column, part, step⟩ ⟨rowGroup, column, part', step'⟩ :=
  .inr ⟨rfl, .inr ⟨rfl, .inl h⟩⟩

theorem atMost_column (rowGroup : Nat) {column column' : Nat} (h : column < column')
    (part part' step step' : Nat) :
    AtMost ⟨rowGroup, column, part, step⟩ ⟨rowGroup, column', part', step'⟩ :=
  .inr ⟨rfl, .inl h⟩

theorem atMost_rowGroup {rowGroup rowGroup' : Nat} (h : rowGroup < rowGroup')
    (column column' part part' step step' : Nat) :
    AtMost ⟨rowGroup, column, part, step⟩ ⟨rowGroup', column', part', step'⟩ :=
  .inl h

end Mark

namespace ModulePlace

/-- The number of modules that come before a module in its part. The body of a page comes first. -/
def step (q : ModulePlace) : Nat :=
  match q.kind with
  | .dictionaryPageHeader => 1
  | .dataPage => 2 * q.page.getD 0
  | .dataPageHeader => 2 * q.page.getD 0 + 1
  | _ => 0

/-- The point at which a module is sealed, unless it is the footer. -/
def mark (q : ModulePlace) : Mark :=
  ⟨q.rowGroup, q.column, q.kind.part, q.step⟩

/-- A module other than the footer that comes before a point. -/
structure Before (t : Mark) (q : ModulePlace) : Prop where
  kind : q.kind ≠ .footer
  mark : q.mark.next.AtMost t

theorem Before.mono {s t : Mark} {q : ModulePlace} (h : q.Before s)
    (le : s.AtMost t) : q.Before t :=
  ⟨h.kind, h.mark.trans le⟩

theorem Same.mark {q q' : ModulePlace} (h : q.Same q') (other : q.kind ≠ .footer) :
    q.mark = q'.mark := by
  obtain ⟨kind, rowGroup, column, page⟩ := q
  obtain ⟨kind', rowGroup', column', page'⟩ := q'
  obtain ⟨kinds, rowGroups, columns, pages⟩ := h
  dsimp only at kinds other
  subst kinds
  have first := rowGroups other
  have second := columns other
  dsimp only at first second pages
  subst first second
  unfold ModulePlace.mark step
  cases kind with
  | dataPage => rw [pages rfl]
  | dataPageHeader => rw [pages rfl]
  | _ => rfl

/-- A module is not the same as one that comes before it. -/
theorem not_same_of_before {t : Mark} {q q' : ModulePlace} (before : q'.Before t)
    (reached : t.AtMost q.mark) : ¬ q'.Same q := by
  intro same
  have late := before.mark.trans reached
  rw [same.mark before.kind] at late
  exact Mark.not_next_atMost _ late

end ModulePlace

end SealedColumns
