import SealedColumns.Proofs.Checked
import SealedColumns.Proofs.Engines
import SealedColumns.Proofs.PagePlan
import SealedColumns.Proofs.Sealing
import SealedColumns.Proofs.Wire
import SealedColumns.Reader.ChunkPages

/-!
# Stored pages are delivered again

A column chunk is stored as its pages one after the other, each with its header in front, and every
module of it is either in plain form or sealed for its place. The form is described without
reference to a writer or a reader: both sides take the algorithm, the key and the place from one
`ChunkSealing`.

Reading such a chunk delivers exactly its pages. The reader counts values down from the declared
number and page ordinals up from zero, so that its position in the chunk is known from what is left
of it.
-/

namespace SealedColumns

/-- What the modules of an encrypted column chunk are sealed with. -/
structure ChunkSealing where
  algorithm : Algorithm
  key : Key
  fileAad : Bytes
  rowGroup : Nat
  column : Nat

namespace ChunkSealing

/-- The associated data of a module of the chunk. -/
def aad (s : ChunkSealing) (kind : ModuleKind) (page : Option Nat) : Except Error Bytes :=
  moduleAad s.fileAad kind s.rowGroup s.column page

/-- The engine that seals a class of modules of the chunk. -/
def engine (s : ChunkSealing) (moduleClass : ModuleClass) : Engine :=
  s.key.engine s.algorithm moduleClass

/-- What seals a class of modules of the chunk. -/
def sealer (s : ChunkSealing) (moduleClass : ModuleClass) : ModuleSealer :=
  s.key.sealer s.algorithm moduleClass

end ChunkSealing

/-- The stored form of a module: its plain form, or what sealing it for its place gives. -/
def StoredModule (sealing : Option ChunkSealing) (moduleClass : ModuleClass) (kind : ModuleKind)
    (page : Option Nat) (plaintext stored : Bytes) : Prop :=
  match sealing with
  | none => stored = plaintext
  | some s => ∃ aad, s.aad kind page = .ok aad ∧
      SealRequest.Seals ⟨s.sealer moduleClass, aad, plaintext⟩ stored

theorem StoredModule.length_le {sealing : Option ChunkSealing} {moduleClass : ModuleClass}
    {kind : ModuleKind} {page : Option Nat} {plaintext stored : Bytes}
    (h : StoredModule sealing moduleClass kind page plaintext stored) :
    plaintext.length ≤ stored.length := by
  cases sealing with
  | none => exact Nat.le_of_eq (congrArg List.length h).symm
  | some s =>
      obtain ⟨aad, _, seals⟩ := h
      have length := seals.length
      dsimp only at length
      omega

namespace PageKind

/-- The kind of the module that holds the body of a page. -/
def bodyModule : PageKind → ModuleKind
  | .data => .dataPage
  | .dictionary => .dictionaryPage

/-- The kind of the module that holds the header of a page. -/
def headerModule : PageKind → ModuleKind
  | .data => .dataPageHeader
  | .dictionary => .dictionaryPageHeader

/-- The ordinal that a page has when `page` data pages stand before it. -/
def ordinal (page : Nat) : PageKind → Option Nat
  | .data => some page
  | .dictionary => none

/-- The number of data pages up to and including a page. -/
def nextOrdinal (page : Nat) : PageKind → Nat
  | .data => page + 1
  | .dictionary => page

end PageKind

namespace PlannedPage

/-- The header of a page whose stored body has the given length. -/
def header (p : PlannedPage) (storedLength : Nat) : PageHeader :=
  ⟨p.kind, Int32.ofNat p.body.length, Int32.ofNat storedLength, Int32.ofNat p.count, p.encoding⟩

/-- A header and a body are the stored form of a page behind `page` data pages. -/
structure StoredAs (sealing : Option ChunkSealing) (page : Nat) (p : PlannedPage)
    (header body : Bytes) : Prop where
  small : p.Small
  body_lt : body.length < 0x80000000
  header_stored : StoredModule sealing .metadata p.kind.headerModule (p.kind.ordinal page)
    (Wire.encode (p.header body.length)) header
  body_stored : StoredModule sealing .data p.kind.bodyModule (p.kind.ordinal page) p.body body

theorem length_encode_header (h : PageHeader) :
    (Wire.encode h).length = ChunkPages.headerLength := by
  change (Bytes.ofNat 4 _ ++ (Bytes.ofNat 4 _ ++ (Bytes.ofNat 4 _ ++ (Bytes.ofNat 4 _ ++
    Bytes.ofNat 4 _)))).length = 20
  simp only [List.length_append, Bytes.length_ofNat]

namespace StoredAs

variable {sealing : Option ChunkSealing} {page : Nat} {p : PlannedPage} {header body : Bytes}
variable (h : p.StoredAs sealing page header body)
include h

theorem length_header : ChunkPages.headerLength ≤ header.length := by
  have length := h.header_stored.length_le
  rwa [length_encode_header] at length

theorem header_ne_nil : header ≠ [] := by
  intro empty
  have length := h.length_header
  rw [empty] at length
  exact absurd length (by decide)

theorem compressedSize : natural (p.header body.length).compressedSize.toInt = .ok body.length := by
  rw [PlannedPage.header, toInt_int32 h.body_lt, natural_natCast]

theorem numValues : natural (p.header body.length).numValues.toInt = .ok p.count := by
  rw [PlannedPage.header, toInt_int32 h.small.count_lt, natural_natCast]

end StoredAs

end PlannedPage

/-- The stored form of pages that stand behind `page` data pages. -/
inductive StoredPages (sealing : Option ChunkSealing) :
    (page : Nat) → List PlannedPage → Bytes → Prop where
  | nil (page : Nat) : StoredPages sealing page [] []
  | cons {page : Nat} {p : PlannedPage} {pages : List PlannedPage} {header body bytes : Bytes}
      (first : p.StoredAs sealing page header body)
      (rest : StoredPages sealing (p.kind.nextOrdinal page) pages bytes) :
      StoredPages sealing page (p :: pages) (header ++ body ++ bytes)

/-! ### Opening single modules -/

namespace PageAad

/-- The data serves pages of the given chunk. -/
structure Serves (s : ChunkSealing) (part : PageModule) (a : PageAad) : Prop where
  fileAad : a.fileAad = s.fileAad
  part : a.part = part
  rowGroup : a.rowGroup = s.rowGroup
  column : a.column = s.column

variable {s : ChunkSealing} {part : PageModule} {a : PageAad}

theorem Serves.start (s : ChunkSealing) (part : PageModule) :
    Serves s part (PageAad.start s.fileAad part s.rowGroup s.column) :=
  ⟨rfl, rfl, rfl, rfl⟩

theorem Serves.forPage_fst (h : Serves s part a) (page : Nat) :
    (a.forPage page).1 = s.aad part.kind (some page) := by
  rw [PageAad.forPage_fst, h.fileAad, h.part, h.rowGroup, h.column, ChunkSealing.aad]

theorem Serves.forPage_snd (h : Serves s part a) (page : Nat) : Serves s part
    (a.forPage page).2 := by
  rw [forPage]
  split
  · exact ⟨h.fileAad, h.part, h.rowGroup, h.column⟩
  · exact ⟨h.fileAad, h.part, h.rowGroup, h.column⟩

end PageAad

namespace ColumnOpener

/-- The opener opens the modules of a chunk. -/
structure Opens (s : ChunkSealing) (o : ColumnOpener) : Prop where
  metadata : o.metadata = ⟨s.engine .metadata, s.key⟩
  data : o.data = ⟨s.engine .data, s.key⟩
  fileAad : o.fileAad = s.fileAad
  rowGroup : o.rowGroup = s.rowGroup
  column : o.column = s.column
  bodyAad : o.bodyAad.Serves s .body
  headerAad : o.headerAad.Serves s .header

/-- The opener of a chunk that is sealed in the given way. -/
def ofSealing (s : ChunkSealing) : ColumnOpener :=
  .start ⟨s.engine .metadata, s.key⟩ ⟨s.engine .data, s.key⟩ s.fileAad s.rowGroup s.column

theorem Opens.ofSealing (s : ChunkSealing) : Opens s (ofSealing s) :=
  ⟨rfl, rfl, rfl, rfl, rfl, .start s .body, .start s .header⟩

theorem opens_map_ofSealing (sealing : Option ChunkSealing) :
    Option.Rel Opens sealing (sealing.map ofSealing) := by
  cases sealing with
  | none => exact .none
  | some s => exact .some (.ofSealing s)

variable {s : ChunkSealing} {o : ColumnOpener}

theorem Opens.aad (h : Opens s o) (kind : ModuleKind) : o.aad kind = s.aad kind none := by
  rw [ColumnOpener.aad, ChunkSealing.aad, h.fileAad, h.rowGroup, h.column]

theorem Opens.openMetadata (h : Opens s o) (aad sealedModule : Bytes) :
    o.openMetadata aad sealedModule =
      (s.engine .metadata).decrypt sealedModule s.key.bytes aad := by
  rw [ColumnOpener.openMetadata, h.metadata, ModuleOpener.decrypt]

theorem Opens.openData (h : Opens s o) (aad sealedModule : Bytes) :
    o.openData aad sealedModule = (s.engine .data).decrypt sealedModule s.key.bytes aad := by
  rw [ColumnOpener.openData, h.data, ModuleOpener.decrypt]

/-- The header of a page is read from the front of what is left. -/
theorem Opens.readHeader (h : Opens s o) {kind : PageKind} {page : Nat} {plaintext stored : Bytes}
    (module : StoredModule (some s) .metadata kind.headerModule (kind.ordinal page) plaintext
      stored)
    (rest : Bytes) :
    ∃ after, o.readHeader kind page (stored ++ rest) = (.ok (plaintext, rest), after) ∧
      Opens s after := by
  obtain ⟨aad, place, seals⟩ := module
  have opened := seals.readSealed rest
  cases kind with
  | data =>
      have next : Opens s { o with headerAad := (o.headerAad.forPage page).2 } :=
        { h with headerAad := h.headerAad.forPage_snd page }
      have served : (o.headerAad.forPage page).1 = .ok aad :=
        (h.headerAad.forPage_fst page).trans place
      refine ⟨_, ?_, next⟩
      simp only [ColumnOpener.readHeader, served, Except.bind]
      rw [funext (next.openMetadata aad)]
      exact congrArg (·, _) opened
  | dictionary =>
      have served : o.aad .dictionaryPageHeader = .ok aad := (h.aad _).trans place
      refine ⟨o, ?_, h⟩
      simp only [ColumnOpener.readHeader, served, Except.bind]
      rw [funext (h.openMetadata aad)]
      exact congrArg (·, _) opened

/-- The body of a page is opened. -/
theorem Opens.openBody (h : Opens s o) {kind : PageKind} {page : Nat} {plaintext stored : Bytes}
    (module : StoredModule (some s) .data kind.bodyModule (kind.ordinal page) plaintext stored) :
    ∃ after, o.openBody kind page stored = (.ok plaintext, after) ∧ Opens s after := by
  obtain ⟨aad, place, seals⟩ := module
  have opened := seals.decrypt
  cases kind with
  | data =>
      have next : Opens s { o with bodyAad := (o.bodyAad.forPage page).2 } :=
        { h with bodyAad := h.bodyAad.forPage_snd page }
      have served : (o.bodyAad.forPage page).1 = .ok aad := (h.bodyAad.forPage_fst page).trans place
      refine ⟨_, ?_, next⟩
      simp only [ColumnOpener.openBody, served, Except.bind, next.openData]
      exact congrArg (·, _) opened
  | dictionary =>
      have served : o.aad .dictionaryPage = .ok aad := (h.aad _).trans place
      refine ⟨o, ?_, h⟩
      simp only [ColumnOpener.openBody, served, Except.bind, h.openData]
      exact congrArg (·, _) opened

end ColumnOpener

/-! ### Reading pages one by one -/

namespace ChunkPages

/-- The reader stands before the given bytes, with `page` data pages behind it and `values` of the
declared values to come. -/
structure Before (sealing : Option ChunkSealing) (awaitsDictionary : Bool) (page values : Nat)
    (rest : Bytes) (p : ChunkPages) : Prop where
  rest : p.rest = rest
  remaining : p.remaining = values
  awaitsDictionary : p.awaitsDictionary = awaitsDictionary
  page : p.page = page
  opener : Option.Rel ColumnOpener.Opens sealing p.opener

variable {sealing : Option ChunkSealing} {awaitsDictionary : Bool} {page values : Nat}
variable {rest : Bytes} {p : ChunkPages}

theorem readHeader_of_stored {header : PageHeader} {stored : Bytes}
    (before : Before sealing awaitsDictionary page values (stored ++ rest) p)
    (kind : p.expectedKind = header.kind)
    (module : StoredModule sealing .metadata header.kind.headerModule (header.kind.ordinal page)
      (Wire.encode header) stored) :
    ∃ after, (readHeader : Step PageHeader) p = (.ok header, after) ∧
      Before sealing awaitsDictionary page values rest after := by
  have fits : LawfulWire.Fits header := ⟨trivial, trivial, trivial, trivial, trivial⟩
  obtain ⟨_, _, _, _, opener⟩ := p
  obtain ⟨rfl, rfl, rfl, rfl, opens⟩ := before
  rw [readHeader]
  rw [kind]
  cases opens with
  | none =>
      cases (module : stored = _)
      refine ⟨⟨rest, _, _, _, _⟩, ?_, rfl, rfl, rfl, rfl, .none⟩
      simp only [decodeFront_encode fits rest]
  | @some s o opens =>
      obtain ⟨o, read, opens⟩ := opens.readHeader module rest
      have decoded := decodeFront_whole fits
      refine ⟨⟨rest, _, _, _, some o⟩, ?_, rfl, rfl, rfl, rfl, .some opens⟩
      simp only [read, decoded]

theorem openBody_of_stored {kind : PageKind} {plaintext stored : Bytes}
    (before : Before sealing awaitsDictionary page values rest p)
    (module : StoredModule sealing .data kind.bodyModule (kind.ordinal page) plaintext stored) :
    ∃ after, (openBody kind stored : Step Bytes) p = (.ok plaintext, after) ∧
      Before sealing awaitsDictionary page values rest after := by
  obtain ⟨_, _, _, _, opener⟩ := p
  obtain ⟨rfl, rfl, rfl, rfl, opens⟩ := before
  rw [openBody]
  cases opens with
  | none =>
      cases (module : stored = _)
      exact ⟨_, rfl, rfl, rfl, rfl, rfl, .none⟩
  | @some s o opens =>
      obtain ⟨o, opened, opens⟩ := opens.openBody module
      refine ⟨⟨_, _, _, _, some o⟩, ?_, rfl, rfl, rfl, rfl, .some opens⟩
      simp only [opened]

theorem takeBody_append {body : Bytes}
    (before : Before sealing awaitsDictionary page values (body ++ rest) p) :
    ∃ after, (takeBody body.length : Step Bytes) p = (.ok body, after) ∧
      Before sealing awaitsDictionary page values rest after := by
  refine ⟨{ p with rest }, ?_, { before with rest := rfl }⟩
  rw [takeBody, Operation.run_get_bind]
  simp only [before.rest, List.take_left, Nat.lt_irrefl, if_false, Bytes.cut_append]
  rfl

theorem expectedKind_of_before (before : Before sealing awaitsDictionary page values rest p) :
    p.expectedKind = if awaitsDictionary then .dictionary else .data := by
  rw [expectedKind, before.awaitsDictionary]

/-- The reader is done once it awaits neither a dictionary nor a value. -/
theorem Before.done_iff (before : Before sealing awaitsDictionary page values rest p) :
    p.remaining ≤ 0 ∧ (!p.awaitsDictionary) = true ↔ values = 0 ∧ awaitsDictionary = false := by
  rw [before.remaining, before.awaitsDictionary, Bool.not_eq_true', Int.natCast_nonpos_iff]

/-- At the end of the chunk all declared values were seen, and whatever follows is left alone. -/
theorem next_end (before : Before sealing false page 0 rest p) :
    (next : Step (Option Page)) p = (.ok none, p) := by
  rw [next, Operation.run_get_bind, if_pos (before.done_iff.mpr ⟨rfl, rfl⟩)]
  rfl

theorem Before.nextPage (before : Before sealing awaitsDictionary page values rest p)
    (bound : page + values < 0x8000000000000000) (more : 0 < values) :
    addSizes p.page 1 = .ok (page + 1) := by
  have wide : 0x8000000000000000 < UInt64.size := by decide
  rw [before.page]
  exact addSizes_of_lt (Nat.lt_trans (by omega) wide)

theorem Before.countDown (before : Before sealing awaitsDictionary page values rest p) {count : Nat}
    (declared : count ≤ values) (bound : page + values < 0x8000000000000000) :
    subCounts p.remaining count = .ok ((values - count : Nat) : Int) := by
  have cast : ((values - count : Nat) : Int) = (values : Int) - count := by omega
  rw [before.remaining, subCounts, if_pos (by omega), cast]

/-- One step of the reader: the next page is delivered if it is of the expected kind and the values
it holds were declared. -/
theorem next_of_stored {q : PlannedPage} {header body : Bytes}
    (stored : q.StoredAs sealing page header body)
    (before : Before sealing awaitsDictionary page values (header ++ body ++ rest) p)
    (kind : q.kind = if awaitsDictionary then .dictionary else .data)
    (declared : q.kind = .data → 0 < q.count ∧ q.count ≤ values)
    (bound : page + values < 0x8000000000000000) :
    ∃ after, (next : Step (Option Page)) p = (.ok (some q.page), after) ∧
      Before sealing false (q.kind.nextOrdinal page)
        (match q.kind with | .data => values - q.count | .dictionary => values) rest after := by
  have expected : p.expectedKind = q.kind := (expectedKind_of_before before).trans kind.symm
  have more : ¬ (p.remaining ≤ 0 ∧ (!p.awaitsDictionary) = true) := by
    rw [before.done_iff]
    rintro ⟨rfl, rfl⟩
    have := declared kind
    omega
  have nonempty : p.rest.isEmpty = false := by
    rw [before.rest, List.isEmpty_eq_false_iff]
    intro empty
    rw [List.append_assoc, List.append_eq_nil_iff] at empty
    exact stored.header_ne_nil empty.1
  rw [List.append_assoc] at before
  obtain ⟨p₁, read, before₁⟩ := readHeader_of_stored before expected stored.header_stored
  obtain ⟨p₂, took, before₂⟩ := takeBody_append before₁
  obtain ⟨p₃, opened, before₃⟩ := openBody_of_stored before₂ stored.body_stored
  have same : (q.header body.length).kind = q.kind := rfl
  rw [next, Operation.run_get_bind, if_neg more, nonempty, if_neg Bool.false_ne_true]
  dsimp only
  rw [Operation.run_bind_ok read, expected, if_neg (not_not_intro same),
    Operation.run_lift_bind stored.compressedSize, Operation.run_lift_bind stored.numValues,
    Operation.run_bind_ok took, same, Operation.run_bind_ok opened]
  cases hkind : q.kind with
  | dictionary =>
      refine ⟨{ p₃ with awaitsDictionary := false }, ?_, { before₃ with awaitsDictionary := rfl }⟩
      rw [PlannedPage.page, hkind]
      rfl
  | data =>
      obtain ⟨some_values, declared⟩ := declared hkind
      have plain : awaitsDictionary = false := by
        cases awaitsDictionary with
        | true => exact absurd (hkind.symm.trans kind) (by decide)
        | false => rfl
      refine ⟨{ p₃ with page := page + 1, remaining := (values - q.count : Nat) }, ?_,
        { before₃ with
          page := rfl
          remaining := rfl
          awaitsDictionary := before₃.awaitsDictionary.trans plain }⟩
      rw [PlannedPage.page, hkind]
      dsimp only
      rw [Operation.run_get_bind,
        Operation.run_lift_bind (before₃.nextPage bound (Nat.lt_of_lt_of_le some_values declared)),
        Operation.run_lift_bind (before₃.countDown declared bound)]
      rfl

open PagePlan

/-- Data pages are delivered to the end of the chunk. -/
theorem delivers_data {pages : List PlannedPage} {bytes : Bytes}
    (stored : StoredPages sealing page pages bytes) (covers : Covers pages values)
    (before : Before sealing false page values (bytes ++ rest) p)
    (bound : page + values < 0x8000000000000000) :
    PageSource.Delivers (pages.map PlannedPage.page) p := by
  induction stored generalizing p values with
  | nil page =>
      cases covers
      exact ⟨p, next_end before⟩
  | @cons page q pages header body bytes first _ ih =>
      cases covers with
      | @cons _ _ rows kind count others =>
          rw [List.append_assoc] at before
          obtain ⟨after, delivered, before⟩ := next_of_stored first before kind
            (fun _ => ⟨count, Nat.le_add_right _ _⟩) bound
          rw [kind] at before ih
          simp only [Nat.add_sub_cancel_left] at before
          refine ⟨after, delivered, ih others before ?_⟩
          change page + 1 + rows < _
          omega

/-- The pages of a chunk are delivered: the dictionary, if there is one, and the data pages. -/
theorem delivers_of_stored {dictionary : Option PlannedPage} {data : List PlannedPage}
    {bytes : Bytes}
    (kind : ∀ q ∈ dictionary, q.kind = .dictionary) (covers : Covers data values)
    (stored : StoredPages sealing 0 (dictionary.toList ++ data) bytes)
    (before : Before sealing dictionary.isSome 0 values (bytes ++ rest) p)
    (bound : values < 0x8000000000000000) :
    PageSource.Delivers ((dictionary.toList ++ data).map PlannedPage.page) p := by
  cases dictionary with
  | none => exact delivers_data stored covers before (by omega)
  | some q =>
      have kind : q.kind = .dictionary := kind q rfl
      cases stored with
      | @cons _ _ _ header body bytes first others =>
          rw [List.append_assoc] at before
          obtain ⟨after, delivered, before⟩ := next_of_stored first before kind
            (fun data => absurd (kind.symm.trans data) (by decide)) (by omega)
          rw [kind] at before others
          refine ⟨after, delivered, delivers_data others covers before ?_⟩
          rwa [PageKind.nextOrdinal, Nat.zero_add]

/-- A chunk has room for its pages. -/
theorem length_of_stored {pages : List PlannedPage} {bytes : Bytes}
    (stored : StoredPages sealing page pages bytes) :
    pages.length * headerLength ≤ bytes.length := by
  induction stored with
  | nil page => exact Nat.zero_le _
  | cons first _ ih =>
      have length := first.length_header
      rw [List.length_cons, Nat.succ_mul, List.length_append, List.length_append]
      omega

/-- Reading a stored column chunk to its end gives the values that its pages hold. -/
theorem readAll_of_stored {t : PhysicalType} {values : List t.Value}
    {dictionary : Option PlannedPage}
    {data : List PlannedPage} {rows : Nat} {bytes : Bytes}
    (holds : Holds t values rows dictionary data)
    (stored : StoredPages sealing 0 (dictionary.toList ++ data) bytes)
    (before : Before sealing dictionary.isSome 0 rows (bytes ++ rest) p)
    (bound : rows < 0x8000000000000000) :
    ((ColumnReader.readAll : ColumnReader.Step ChunkPages ColumnValues)
      { type := t, source := p }).1 = .ok ⟨t, values⟩ := by
  refine ColumnReader.readAll_of_delivers holds.column
    (delivers_of_stored holds.kind holds.covers stored before bound) ?_
  have room := length_of_stored stored
  have pos : 0 < headerLength := by decide
  have few : (dictionary.toList ++ data).length ≤ p.rest.length / headerLength := by
    rw [Nat.le_div_iff_mul_le pos, before.rest]
    exact Nat.le_trans room (List.sublist_append_left bytes rest).length_le
  rw [List.length_map]
  exact Nat.le_succ_of_le few

end ChunkPages

end SealedColumns
