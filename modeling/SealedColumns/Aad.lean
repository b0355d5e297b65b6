import SealedColumns.Checked

/-!
# Associated data of modules

A sealed module is bound to its place by its associated data: the associated data of the file, the
kind of the module and, except for the footer, the ordinals of its row group and column in two
little-endian bytes each; the body and the header of a data page add the ordinal of the page.

`PageAad` serves the pages of one column chunk in turn. It keeps the data of the last
page and replaces the ordinal at its end; `forPage_fst` says that this gives what
building the data anew gives.
-/

namespace SealedColumns

/-- The kinds of sealed modules. -/
inductive ModuleKind where
  | footer
  | columnMetaData
  | dataPage
  | dictionaryPage
  | dataPageHeader
  | dictionaryPageHeader
  | columnIndex
  | offsetIndex
  deriving DecidableEq

namespace ModuleKind

/-- The byte that stands for a kind. -/
def code : ModuleKind → UInt8
  | footer => 0
  | columnMetaData => 1
  | dataPage => 2
  | dictionaryPage => 3
  | dataPageHeader => 4
  | dictionaryPageHeader => 5
  | columnIndex => 6
  | offsetIndex => 7

/-- All kinds, in the order of their bytes. -/
def all : List ModuleKind :=
  [footer, columnMetaData, dataPage, dictionaryPage, dataPageHeader, dictionaryPageHeader,
    columnIndex, offsetIndex]

theorem all_code (kind : ModuleKind) : all[kind.code.toNat]? = some kind := by
  cases kind <;> rfl

/-- Whether modules of a kind are told apart by a page ordinal. -/
def hasPage : ModuleKind → Bool
  | dataPage | dataPageHeader => true
  | _ => false

end ModuleKind

/-- Fails on an ordinal that no module can have. -/
def checkOrdinal (kind : OrdinalKind) (ordinal : Nat) : Except Error Unit :=
  if ordinal ≤ maxOrdinal then .ok () else .error (.ordinalTooLarge kind ordinal)

/-- The two bytes of an ordinal. -/
def ordinalBytes (ordinal : Nat) : Bytes :=
  Bytes.ofNat 2 ordinal

/-- The associated data of a module. A footer has no ordinals; a page ordinal is required for the
body and the header of a data page and ignored for all else. -/
def moduleAad (fileAad : Bytes) (kind : ModuleKind) (rowGroup column : Nat) (page : Option Nat) :
    Except Error Bytes :=
  if kind = .footer then .ok (fileAad ++ [kind.code])
  else do
    checkOrdinal .rowGroup rowGroup
    checkOrdinal .column column
    let place := fileAad ++ kind.code :: (ordinalBytes rowGroup ++ ordinalBytes column)
    if kind.hasPage then
      match page with
      | none => throw .pageOrdinalMissing
      | some page =>
        checkOrdinal .page page
        return place ++ ordinalBytes page
    else return place

/-- The associated data of the footer. -/
def footerAad (fileAad : Bytes) : Except Error Bytes :=
  moduleAad fileAad .footer 0 0 none

/-- Replaces the page ordinal at the end of associated data. -/
def replacePage (aad : Bytes) (page : Nat) : Except Error Bytes := do
  checkOrdinal .page page
  if aad.length < 7 then throw (.aadTooShort aad.length)
  let (place, _) ← aad.cut (← subSizes aad.length 2)
  return place ++ ordinalBytes page

/-- The two modules of a data page. -/
inductive PageModule where
  | body
  | header
  deriving DecidableEq

/-- The kind of a module of a data page. -/
def PageModule.kind : PageModule → ModuleKind
  | .body => .dataPage
  | .header => .dataPageHeader

/-- The associated data of the pages of one column chunk. -/
structure PageAad where
  fileAad : Bytes
  part : PageModule
  rowGroup : Nat
  column : Nat
  /-- The associated data of the last page served. -/
  current : Option Bytes
  /-- What is kept is the associated data of some page. -/
  current_eq : ∀ aad ∈ current, ∃ page,
    moduleAad fileAad part.kind rowGroup column (some page) = .ok aad

namespace PageAad

/-- No page was served yet. -/
def start (fileAad : Bytes) (part : PageModule) (rowGroup column : Nat) : PageAad :=
  ⟨fileAad, part, rowGroup, column, none, by simp⟩

/-- Replacing the ordinal keeps what stands before it. -/
theorem replacePage_append (place : Bytes) (page next : Nat) (h : 5 ≤ place.length) :
    replacePage (place ++ ordinalBytes page) next =
      (do checkOrdinal .page next; return place ++ ordinalBytes next) := by
  have hlength : (place ++ ordinalBytes page).length = place.length + 2 := by simp [ordinalBytes]
  have hlong : ¬ place.length + 2 < 7 := by omega
  have hstem : subSizes (place.length + 2) 2 = .ok place.length := if_pos (Nat.le_add_left 2 _)
  have hcut : (place ++ ordinalBytes page).cut place.length = .ok (place, ordinalBytes page) := by
    simp [Bytes.cut]
  simp only [replacePage, hlength, if_neg hlong, hstem, bind, Except.bind, hcut]

/-- The associated data of a module of a data page. -/
theorem moduleAad_page (fileAad : Bytes) (part : PageModule) (rowGroup column page : Nat) :
    moduleAad fileAad part.kind rowGroup column (some page) = (do
      checkOrdinal .rowGroup rowGroup
      checkOrdinal .column column
      checkOrdinal .page page
      return (fileAad ++ part.kind.code :: (ordinalBytes rowGroup ++ ordinalBytes column)) ++
        ordinalBytes page) := by
  cases part <;> rfl

/-- Associated data whose page ordinal is replaced is the associated data of that page. -/
theorem replacePage_moduleAad {fileAad : Bytes} {part : PageModule} {rowGroup column page : Nat}
    {aad : Bytes} (h : moduleAad fileAad part.kind rowGroup column (some page) = .ok aad)
    (next : Nat) :
    replacePage aad next = moduleAad fileAad part.kind rowGroup column (some next) := by
  rw [moduleAad_page] at h ⊢
  cases hr : checkOrdinal .rowGroup rowGroup with
  | error e => rw [hr] at h; cases h
  | ok _ =>
    cases hc : checkOrdinal .column column with
    | error e => rw [hr, hc] at h; cases h
    | ok _ =>
      cases hp : checkOrdinal .page page with
      | error e => rw [hr, hc, hp] at h; cases h
      | ok _ =>
        rw [hr, hc, hp] at h
        cases h
        exact replacePage_append _ page next (by simp [ordinalBytes])

/-- The associated data that serves a page, from the data kept or anew. -/
def serve (p : PageAad) (page : Nat) : Except Error Bytes :=
  match p.current with
  | some aad => replacePage aad page
  | none => moduleAad p.fileAad p.part.kind p.rowGroup p.column (some page)

theorem serve_eq (p : PageAad) (page : Nat) :
    p.serve page = moduleAad p.fileAad p.part.kind p.rowGroup p.column (some page) := by
  unfold serve
  split
  · next aad h =>
    obtain ⟨last, hlast⟩ := p.current_eq aad h
    exact replacePage_moduleAad hlast page
  · rfl

/-- Serves a page and keeps its associated data; a failure leaves nothing kept. -/
def forPage (p : PageAad) (page : Nat) : Except Error Bytes × PageAad :=
  match h : p.serve page with
  | .ok aad =>
    (.ok aad, { p with
      current := some aad
      current_eq := by
        intro a ha
        cases ha
        exact ⟨page, by rw [← h, serve_eq]⟩ })
  | .error e => (.error e, { p with current := none, current_eq := by simp })

/-- A page is served the associated data that would be built for it. -/
@[simp] theorem forPage_fst (p : PageAad) (page : Nat) :
    (p.forPage page).1 = moduleAad p.fileAad p.part.kind p.rowGroup p.column (some page) := by
  rw [← serve_eq]
  unfold forPage
  split <;> simp_all

end PageAad

end SealedColumns
