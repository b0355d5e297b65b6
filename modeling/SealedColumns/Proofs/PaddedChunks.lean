import SealedColumns.Proofs.ColumnLengths
import SealedColumns.Proofs.WriterVersions

/-!
# Reading on behind a chunk does no harm

Chunks of certain applications are read with up to a hundred bytes more than their metadata say. The
pages of a chunk are counted, and each says how long it is, so that nothing is done with bytes
behind the last one: whatever is read from the bytes of a chunk is read from them with any bytes
behind them, and these are left over (`ChunkPages.next_followedBy`). Errors are another matter. A
chunk that ends too early goes on in the bytes behind it, which is what the extension is for.
-/

namespace SealedColumns

/-- A structure is read off the front of any continuation of the bytes that it is read from. -/
theorem decodeFront_append {α : Type} [Wire α] [LawfulWire α] [CanonicalWire α] {bs rest : Bytes}
    {a : α} (fits : LawfulWire.Fits a) (h : decodeFront bs = .ok (a, rest)) (extra : Bytes) :
    decodeFront (bs ++ extra) = .ok (a, rest ++ extra) := by
  rw [decodeFront_eq_ok h, List.append_assoc]
  exact decodeFront_encode fits (rest ++ extra)

theorem PageHeader.fits (header : PageHeader) : LawfulWire.Fits header :=
  ⟨trivial, trivial, trivial, trivial, trivial⟩

/-- A sealed module is read off the front of any continuation of the bytes that it is read from. -/
theorem readSealed_followed {openModule : Bytes → Except Error Bytes} {input plaintext rest : Bytes}
    (h : readSealed openModule input = .ok (plaintext, rest)) (extra : Bytes) :
    readSealed openModule (input ++ extra) = .ok (plaintext, rest ++ extra) := by
  have behind := (readSealed_eq_ok_iff.mp h).2.2
  have followed := readSealed_take_append h (rest ++ extra)
  rwa [← List.append_assoc, ← behind, List.take_append_drop, behind] at followed

theorem ColumnOpener.readHeader_followed {o o' : ColumnOpener} {kind : PageKind} {page : Nat}
    {input plain rest : Bytes} (h : o.readHeader kind page input = (.ok (plain, rest), o'))
    (extra : Bytes) :
    o.readHeader kind page (input ++ extra) = (.ok (plain, rest ++ extra), o') := by
  have opened {aad : Except Error Bytes}
      (h : aad.bind (fun aad => readSealed (o.openMetadata aad) input) = .ok (plain, rest)) :
      aad.bind (fun aad => readSealed (o.openMetadata aad) (input ++ extra)) =
        .ok (plain, rest ++ extra) := by
    obtain ⟨bs, named, read⟩ := Except.bind_eq_ok.mp h
    exact Except.bind_eq_ok.mpr ⟨bs, named, readSealed_followed read extra⟩
  have kept : (o.readHeader kind page (input ++ extra)).2 = o' := by
    have kept := congrArg Prod.snd h
    cases kind <;> exact kept
  cases kind with
  | data => exact Prod.ext (opened (congrArg Prod.fst h)) kept
  | dictionary => exact Prod.ext (opened (congrArg Prod.fst h)) kept

namespace ChunkPages

variable {p q : ChunkPages} {n : Nat}

/-- The pages of a chunk with further bytes behind it. -/
def followedBy (p : ChunkPages) (extra : Bytes) : ChunkPages :=
  { p with rest := p.rest ++ extra }

@[simp] theorem expectedKind_followedBy (extra : Bytes) :
    (p.followedBy extra).expectedKind = p.expectedKind := rfl

theorem readHeader_followedBy {header : PageHeader} (h : readHeader p = (.ok header, q))
    (extra : Bytes) : readHeader (p.followedBy extra) = (.ok header, q.followedBy extra) := by
  rw [readHeader] at h ⊢
  rw [expectedKind_followedBy]
  generalize p.expectedKind = kind at h ⊢
  obtain ⟨rest, remaining, awaitsDictionary, page, opener⟩ := p
  dsimp only [followedBy] at h ⊢
  cases opener with
  | none =>
      dsimp only at h ⊢
      split at h
      · next decoded =>
          cases h
          rw [decodeFront_append (PageHeader.fits _) decoded extra]
      · cases h
  | some o =>
      dsimp only at h ⊢
      generalize reading : o.readHeader kind page rest = outcome at h
      rcases outcome with ⟨e | ⟨plain, left⟩, o'⟩
      · cases h
      · rw [ColumnOpener.readHeader_followed reading extra]
        dsimp only at h ⊢
        split at h
        · next decoded =>
            cases h
            rfl
        · cases h

theorem takeBody_followedBy {body : Bytes} (h : takeBody n p = (.ok body, q)) (extra : Bytes) :
    takeBody n (p.followedBy extra) = (.ok body, q.followedBy extra) := by
  rw [takeBody, Operation.run_get_bind] at h ⊢
  obtain ⟨_, h⟩ := Operation.guard_eq_ok.mp h
  obtain ⟨⟨front, rest⟩, cut, h⟩ := Operation.lift_bind_eq_ok.mp h
  cases h
  obtain ⟨rfl, split⟩ := Bytes.cut_eq_ok cut
  have whole : (p.followedBy extra).rest = body ++ (rest ++ extra) := by
    rw [followedBy, split, List.append_assoc]
  refine Operation.guard_eq_ok.mpr ⟨?_, ?_⟩
  · rw [whole, List.take_left]
    exact Nat.lt_irrefl _
  · rw [whole]
    exact Operation.lift_bind_eq_ok.mpr ⟨_, Bytes.cut_append body (rest ++ extra), rfl⟩

theorem openBody_followedBy {kind : PageKind} {stored body : Bytes}
    (h : openBody kind stored p = (.ok body, q)) (extra : Bytes) :
    openBody kind stored (p.followedBy extra) = (.ok body, q.followedBy extra) := by
  obtain ⟨rest, remaining, awaitsDictionary, page, opener⟩ := p
  cases opener with
  | none =>
      cases h
      rfl
  | some o =>
      rw [openBody] at h ⊢
      dsimp only [followedBy] at h ⊢
      generalize o.openBody kind page stored = outcome at h ⊢
      obtain ⟨result, o'⟩ := outcome
      cases h
      rfl

/-- The next page is the same, and the bytes behind it are followed by the same bytes. -/
theorem next_followedBy {result : Option Page} (h : next p = (.ok result, q)) (extra : Bytes) :
    next (p.followedBy extra) = (.ok result, q.followedBy extra) := by
  rw [next, Operation.run_get_bind] at h ⊢
  by_cases finished : p.remaining ≤ 0 ∧ (!p.awaitsDictionary) = true
  · rw [if_pos finished] at h
    cases h
    exact congrFun (if_pos finished) (p.followedBy extra)
  rw [if_neg finished] at h
  refine (congrFun (if_neg finished) (p.followedBy extra)).trans ?_
  obtain ⟨some, h⟩ := Operation.guard_eq_ok.mp h
  obtain ⟨header, behind, reading, h⟩ := Operation.bind_eq_ok.mp h
  obtain ⟨expected, h⟩ := Operation.guard_eq_ok.mp h
  obtain ⟨length, told, h⟩ := Operation.lift_bind_eq_ok.mp h
  obtain ⟨numValues, announced, h⟩ := Operation.lift_bind_eq_ok.mp h
  obtain ⟨stored, taken, taking, h⟩ := Operation.bind_eq_ok.mp h
  obtain ⟨body, opened, opening, h⟩ := Operation.bind_eq_ok.mp h
  refine Operation.guard_eq_ok.mpr ⟨?_, ?_⟩
  · intro empty
    have parts := List.append_eq_nil_iff.mp (List.isEmpty_iff.mp empty)
    exact some (List.isEmpty_iff.mpr parts.1)
  refine Operation.bind_eq_ok.mpr ⟨header, _, readHeader_followedBy reading extra, ?_⟩
  refine Operation.guard_eq_ok.mpr ⟨expected, ?_⟩
  refine Operation.lift_bind_eq_ok.mpr ⟨length, told, ?_⟩
  refine Operation.lift_bind_eq_ok.mpr ⟨numValues, announced, ?_⟩
  refine Operation.bind_eq_ok.mpr ⟨stored, _, takeBody_followedBy taking extra, ?_⟩
  refine Operation.bind_eq_ok.mpr ⟨body, _, openBody_followedBy opening extra, ?_⟩
  -- What is left only counts.
  cases kind : header.kind with
  | dictionary =>
      rw [kind] at h
      cases h
      rfl
  | data =>
      rw [kind] at h
      dsimp only at h ⊢
      rw [Operation.run_get_bind] at h ⊢
      obtain ⟨page, counted, h⟩ := Operation.lift_bind_eq_ok.mp h
      obtain ⟨remaining, left, h⟩ := Operation.lift_bind_eq_ok.mp h
      refine Operation.lift_bind_eq_ok.mpr ⟨page, counted, ?_⟩
      refine Operation.lift_bind_eq_ok.mpr ⟨remaining, left, ?_⟩
      cases h
      rfl

/-- All pages are the same, and the bytes behind the last one are followed by the same bytes. -/
theorem drainFrom_followedBy {m : Nat} {delivered pages : List Page}
    (h : PageSource.drainFrom n delivered p = (pages, none, q)) (enough : PageSource.bound p < n)
    (extra : Bytes) (enough' : PageSource.bound (p.followedBy extra) < m) :
    PageSource.drainFrom m delivered (p.followedBy extra) = (pages, none, q.followedBy extra) := by
  induction n generalizing m delivered p with
  | zero => exact absurd enough (Nat.not_lt_zero _)
  | succ n ih =>
      obtain ⟨m, rfl⟩ := Nat.exists_eq_add_one_of_ne_zero (Nat.ne_zero_of_lt enough')
      rw [PageSource.drainFrom] at h ⊢
      generalize stepped : (PageSource.next : Step (Option Page)) p = outcome at h
      rcases outcome with ⟨e | page, after⟩
      · cases h
      have followed : (PageSource.next : Step (Option Page)) (p.followedBy extra) =
          (.ok page, after.followedBy extra) := next_followedBy stepped extra
      rw [followed]
      cases page with
      | none =>
          cases h
          rfl
      | some page =>
          have less := shrinks _ _ _ stepped
          have less' := shrinks _ _ _ followed
          exact ih h (by omega) (by omega)

theorem drain_followedBy {pages : List Page} (h : PageSource.drain p = (pages, none, q))
    (extra : Bytes) :
    PageSource.drain (p.followedBy extra) = (pages, none, q.followedBy extra) :=
  drainFrom_followedBy h (Nat.lt_succ_self _) extra (Nat.lt_succ_self _)

theorem delivers_followedBy {pages : List Page} (h : PageSource.Delivers pages p) (extra : Bytes) :
    PageSource.Delivers pages (p.followedBy extra) := by
  induction pages generalizing p with
  | nil =>
      obtain ⟨after, ended⟩ := h
      exact ⟨_, next_followedBy ended extra⟩
  | cons page pages ih =>
      obtain ⟨after, delivered, others⟩ := h
      exact ⟨_, next_followedBy delivered extra, ih others⟩

/-- A column that is read from the bytes of a chunk is read from them with any bytes behind them. -/
theorem readAll_followedBy {t : PhysicalType} {values : ColumnValues}
    {reader : ColumnReader ChunkPages}
    (h : (ColumnReader.readAll : ColumnReader.Step ChunkPages ColumnValues) ⟨t, p, none⟩ =
      (.ok values, reader)) (extra : Bytes) :
    ((ColumnReader.readAll : ColumnReader.Step ChunkPages ColumnValues)
      ⟨t, p.followedBy extra, none⟩).1 = .ok values := by
  obtain ⟨pages, found, delivers, accepted, rfl⟩ := ColumnReader.readAll_eq_ok shrinks h
  obtain ⟨runs, taken, rfl⟩ := accepted.exists_runs
  have followed := delivers_followedBy delivers extra
  exact ColumnReader.readAll_of_accepted taken followed (followed.length_le shrinks)

end ChunkPages

theorem ChunkInfo.byteRange_lt {chunk : ChunkInfo} {start length : Nat}
    (h : chunk.byteRange = .ok (start, length)) :
    start < 0x8000000000000000 ∧ length < 0x8000000000000000 := by
  have start_lt := (chunk.dictionaryPageOffset.getD chunk.dataPageOffset).toInt_lt
  have length_lt := chunk.compressedSize.toInt_lt
  rw [byteRange] at h
  split at h
  · cases h
  · cases h
    omega

/-- What is read for a chunk of a source of the given size that is taken to be too short. -/
structure PaddedRange (size start length padded : Nat) : Prop where
  longer : length ≤ padded
  little : padded ≤ length + 100
  inside : start + length ≤ size → start + padded ≤ size
  outside : size < start + length → padded = length

namespace OpenFile

variable {f : OpenFile} {createdBy : Option String} {i j : Nat} {s t : ReadState}

/-- The file with another name of the application that wrote it. -/
def writtenBy (f : OpenFile) (createdBy : Option String) : OpenFile :=
  { f with info := { f.info with createdBy } }

theorem paddedLength_writtenBy (omits : (f.writtenBy createdBy).omitsHeaders = true)
    {chunk : ChunkInfo} {start length : Nat} (h : chunk.byteRange = .ok (start, length)) :
    ∃ padded, (f.writtenBy createdBy).paddedLength start length = .ok padded ∧
      PaddedRange f.source.size start length padded := by
  obtain ⟨start_lt, length_lt⟩ := ChunkInfo.byteRange_lt h
  refine ⟨_, paddedLength_eq start_lt length_lt, ?_⟩
  rw [if_pos omits, maxDictionaryHeader]
  change PaddedRange _ _ _ (length + min (f.source.size - (start + length)) 100)
  constructor <;> omega

/-- What is read for a chunk is the beginning of what is read when headers are
taken to be left out. -/
theorem get_writtenBy (omits : (f.writtenBy createdBy).omitsHeaders = true) {chunk : ChunkInfo}
    {start length short : Nat} (h : chunk.byteRange = .ok (start, length)) {part : Bytes}
    (asked : f.paddedLength start length = .ok short) (got : f.source.get start short = .ok part) :
    ∃ long extra, (f.writtenBy createdBy).paddedLength start length = .ok long ∧
      f.source.get start long = .ok (part ++ extra) := by
  obtain ⟨start_lt, length_lt⟩ := ChunkInfo.byteRange_lt h
  obtain ⟨long, padded, range⟩ := paddedLength_writtenBy omits h
  have grown : short ≤ long ∧ (long = short ∨ start + long ≤ f.source.size) := by
    rw [paddedLength_eq start_lt length_lt] at asked
    split at asked
    · -- Headers are taken to be left out anyway.
      rw [paddedLength_eq start_lt length_lt, if_pos omits] at padded
      obtain rfl := Except.ok.inj (asked.symm.trans padded)
      exact ⟨Nat.le_refl _, .inl rfl⟩
    · cases asked
      have outside := range.outside
      have inside := range.inside
      exact ⟨range.longer, by omega⟩
  obtain ⟨extra, part⟩ := ByteSource.get_extended got grown.1 grown.2
  exact ⟨long, extra, padded, part⟩

theorem columnPages_writtenBy (omits : (f.writtenBy createdBy).omitsHeaders = true)
    {pages : ChunkPages} (h : f.columnPages i j s = (.ok pages, t)) :
    ∃ extra u, (f.writtenBy createdBy).columnPages i j s = (.ok (pages.followedBy extra), u) := by
  rw [columnPages] at h ⊢
  obtain ⟨chunk, known, knowing, h⟩ := Operation.bind_eq_ok.mp h
  obtain ⟨⟨start, length⟩, range, h⟩ := Operation.lift_bind_eq_ok.mp h
  obtain ⟨short, asked, h⟩ := Operation.lift_bind_eq_ok.mp h
  obtain ⟨opener, opened, opening, h⟩ := Operation.bind_eq_ok.mp h
  obtain ⟨part, read, reading, h⟩ := Operation.bind_eq_ok.mp h
  have got : f.source.get start short = .ok part := congrArg Prod.fst reading
  obtain ⟨long, extra, padded, got⟩ := get_writtenBy omits range asked got
  obtain ⟨u, longer⟩ : ∃ u, Session.read f.source start long opened = (.ok (part ++ extra), u) :=
    ⟨_, Prod.ext got rfl⟩
  refine ⟨extra, u, Operation.bind_eq_ok.mpr ⟨chunk, known, knowing, ?_⟩⟩
  refine Operation.lift_bind_eq_ok.mpr ⟨(start, length), range, ?_⟩
  refine Operation.lift_bind_eq_ok.mpr ⟨long, padded, ?_⟩
  refine Operation.bind_eq_ok.mpr ⟨opener, opened, opening, ?_⟩
  refine Operation.bind_eq_ok.mpr ⟨part ++ extra, u, longer, ?_⟩
  cases h
  rfl

theorem readColumn_writtenBy (omits : (f.writtenBy createdBy).omitsHeaders = true)
    {values : ColumnValues} (h : (f.readColumn i j s).1 = .ok values) :
    ((f.writtenBy createdBy).readColumn i j s).1 = .ok values := by
  generalize run : f.readColumn i j s = outcome at h
  obtain ⟨_, t⟩ := outcome
  cases h
  obtain ⟨reader, u, started, run⟩ := Operation.bind_eq_ok.mp run
  obtain ⟨c, found, started⟩ := Operation.lift_bind_eq_ok.mp started
  obtain ⟨pages, v, opened, started⟩ := Operation.bind_eq_ok.mp started
  cases started
  obtain ⟨read, _⟩ := Operation.lift_eq_ok.mp run
  obtain ⟨extra, w, followed⟩ := columnPages_writtenBy omits opened
  have all := ChunkPages.readAll_followedBy (Prod.ext read rfl) extra
  have started : (f.writtenBy createdBy).columnReader i j s =
      (.ok { type := c.type, source := pages.followedBy extra }, w) :=
    Operation.lift_bind_eq_ok.mpr ⟨c, found, Operation.bind_eq_ok.mpr ⟨_, w, followed, rfl⟩⟩
  rw [readColumn, Operation.run_bind_ok started]
  exact all

/-- Reading on behind a chunk is harmless. All pages that are read from the bytes of a chunk are
read from them with any bytes behind them. A column that is read from a file is read with the
same values if the file is taken to leave headers out. Then each chunk is read with at most a
hundred bytes more, and the range ends in the file if the range of the chunk does, and otherwise
is the range of the chunk. -/
theorem padding_harmless :
    (∀ (p q : ChunkPages) (pages : List Page) (extra : Bytes),
      PageSource.drain p = (pages, none, q) →
        PageSource.drain (p.followedBy extra) = (pages, none, q.followedBy extra)) ∧
    ∀ (f : OpenFile) (createdBy : Option String), (f.writtenBy createdBy).omitsHeaders = true →
      (∀ (i j : Nat) (s : ReadState) (values : ColumnValues),
        (f.readColumn i j s).1 = .ok values →
          ((f.writtenBy createdBy).readColumn i j s).1 = .ok values) ∧
      ∀ (chunk : ChunkInfo) (start length : Nat), chunk.byteRange = .ok (start, length) →
        (f.omitsHeaders = false → f.paddedLength start length = .ok length) ∧
        ∃ padded, (f.writtenBy createdBy).paddedLength start length = .ok padded ∧
          PaddedRange f.source.size start length padded := by
  refine ⟨fun p q pages extra drained => ChunkPages.drain_followedBy drained extra, ?_⟩
  intro f createdBy omits
  refine ⟨fun i j s values => readColumn_writtenBy omits, fun chunk start length range => ?_⟩
  refine ⟨fun complete => ?_, paddedLength_writtenBy omits range⟩
  obtain ⟨start_lt, length_lt⟩ := ChunkInfo.byteRange_lt range
  rw [paddedLength_eq start_lt length_lt, complete]
  rfl

end OpenFile

namespace Sample

/-- The pages of the only chunk. -/
def overfullPages : ChunkPages where
  rest := overfullPage
  remaining := 1
  awaitsDictionary := false
  opener := none

end Sample

set_option maxRecDepth 4096 in
/-- A file with one column, and the bytes of its chunk with others behind them. -/
theorem OpenFile.padding_harmless_overfull :
    PageSource.drain (Sample.overfullPages.followedBy (List.replicate 100 0xff)) =
      ([⟨.data, ColumnValues.encodePlain ⟨.int32, [7, 8]⟩, 2, .plain⟩], none,
        ⟨List.replicate 100 0xff, -1, false, 1, none⟩) ∧
    ((Sample.overfullOpen.writtenBy (some "parquet-mr version 1.2.8")).readColumn 0 0 {}).1 =
      .ok ⟨.int32, [7, 8]⟩ ∧
    ∃ padded, (Sample.overfullOpen.writtenBy (some "parquet-mr version 1.2.8")).paddedLength 4 28 =
        .ok padded ∧
      PaddedRange Sample.overfullOpen.source.size 4 28 padded := by
  have unbroken : ∀ x ∈ "parquet-mr".toList, Text.isBlank x = false :=
    List.all_iff_forall_prop.mp (by decide)
  have ends : ∀ x ∈ "".toList.head?, x.isDigit = false := by simp
  have lowered : "parquet-mr".toLower = "parquet-mr" := by
    rw [← String.toList_inj, Text.toList_toLower]
    rfl
  have omits : (Sample.overfullOpen.writtenBy (some "parquet-mr version 1.2.8")).omitsHeaders =
      true :=
    (ApplicationVersion.omits_described_iff unbroken (numeral_repr 1) (numeral_repr 2)
      (numeral_repr 8) ends).mpr ⟨lowered, by decide⟩
  obtain ⟨drains, padded⟩ := padding_harmless
  obtain ⟨reads, ranges⟩ := padded Sample.overfullOpen _ omits
  refine ⟨?_, reads 0 0 {} _ rfl, (ranges Sample.overfullInfo 4 28 rfl).2⟩
  exact drains _ ⟨[], -1, false, 1, none⟩ _ _ rfl

end SealedColumns
