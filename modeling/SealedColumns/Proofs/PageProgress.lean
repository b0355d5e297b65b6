import SealedColumns.Proofs.BoundedPages
import SealedColumns.Proofs.ColumnLengths
import SealedColumns.Proofs.CountedPages
import SealedColumns.Proofs.DrainedPages
import SealedColumns.Proofs.Sessions
import SealedColumns.Reader.OpenFile

/-!
# Reading pages makes progress

The number of values that are left does not have to fall: a page may announce none, and the declared
number may never be reached. What falls is the number of bytes, since every page that is delivered
has passed over its header, which is never empty, sealed or not. So a page reader ends, and a column
reader on top of it, after as many calls as pages of the least size fit in the chunk, and one.

A call that fails may have passed over bytes too. The reader can be asked again: it stands inside
the chunk after any number of calls, and the modules of the chunk are opened as before.
-/

namespace SealedColumns

namespace ColumnOpener

variable {o : ColumnOpener}

/-- The opener is one that open files make for their column chunks. -/
def Issued (o : ColumnOpener) : Prop :=
  ∃ (f : OpenFile) (rowGroup column : Nat) (chunk : ChunkInfo) (s t : ReadState),
    f.columnOpener rowGroup column chunk s = (.ok (some o), t)

/-- Page headers are opened with GCM, under either algorithm. -/
theorem Issued.mode (h : o.Issued) : o.metadata.engine.mode = .gcm := by
  obtain ⟨f, rowGroup, column, chunk, s, t, h⟩ := h
  rw [OpenFile.columnOpener] at h
  cases hcrypto : chunk.crypto with
  | none =>
      rw [hcrypto] at h
      cases h
  | some crypto =>
      rw [hcrypto] at h
      cases hdecryption : f.info.decryption with
      | none =>
          rw [hdecryption] at h
          cases h
      | some d =>
          rw [hdecryption] at h
          obtain ⟨metadata, u, opened, h⟩ := Operation.bind_eq_ok.mp h
          obtain ⟨data, v, _, h⟩ := Operation.bind_eq_ok.mp h
          cases h
          obtain ⟨key, w, _, opened⟩ := Operation.bind_eq_ok.mp opened
          have made := (d.opener_yields (P := fun _ => True) (fun _ _ _ => trivial) key .metadata w
            trivial).1
          rw [opened] at made
          cases made
          cases d.algorithm <;> rfl

end ColumnOpener

namespace ChunkPages

variable {chunk : Bytes} {openers : Option (ModuleOpener × ModuleOpener)} {p q : ChunkPages}
variable {I : ChunkPages → Prop}

/-! ### What every call keeps -/

/-- What holds on while bytes are passed over, associated data change and pages are counted. -/
structure Steady (I : ChunkPages → Prop) : Prop where
  pass : ∀ p rest opener, I p → rest <:+ p.rest →
    opener.map (fun o : ColumnOpener => (o.metadata, o.data)) = p.moduleOpeners →
    I { p with rest, opener }
  count : ∀ p page remaining, I p → I { p with page, remaining }
  dictionary : ∀ p, I p → I { p with awaitsDictionary := false }

theorem Steady.readHeader (steady : Steady I) : Preserves I readHeader := by
  intro p hp
  rw [ChunkPages.readHeader]
  cases opener : p.opener with
  | none =>
      dsimp only
      split
      · next decoded =>
          have behind := steady.pass p _ p.opener hp ⟨_, (decodeFront_eq_ok decoded).symm⟩ rfl
          rw [opener] at behind
          exact ⟨trivial, behind⟩
      · exact ⟨trivial, hp⟩
  | some o =>
      dsimp only
      have openers : (some (o.readHeader p.expectedKind p.page p.rest).2).map
          (fun o => (o.metadata, o.data)) = p.moduleOpeners := by
        obtain ⟨metadata, data⟩ := o.readHeader_openers p.expectedKind p.page p.rest
        rw [moduleOpeners, opener, Option.map_some, Option.map_some, metadata, data]
      have answer := o.readHeader_answers p.expectedKind p.page p.rest
      generalize o.readHeader p.expectedKind p.page p.rest = outcome at openers answer
      rcases outcome with ⟨e | ⟨plain, rest⟩, o'⟩
      · exact ⟨trivial, steady.pass p p.rest (some o') hp (List.suffix_refl _) openers⟩
      · dsimp only
        split
        · obtain ⟨passed, split, _⟩ := answer
          exact ⟨trivial, steady.pass p rest (some o') hp ⟨passed, split.symm⟩ openers⟩
        · exact ⟨trivial, steady.pass p p.rest (some o') hp (List.suffix_refl _) openers⟩

theorem Steady.takeBody (steady : Steady I) (n : Nat) : Preserves I (takeBody n) := by
  refine .get_bind fun p hp => ?_
  split
  · exact ⟨trivial, hp⟩
  · dsimp only
    rw [Operation.run_bind, Operation.run_lift]
    cases taken : p.rest.cut n with
    | error e => exact ⟨trivial, hp⟩
    | ok parts =>
        refine ⟨trivial, steady.pass p parts.2 p.opener hp ⟨parts.1, ?_⟩ rfl⟩
        exact (Bytes.cut_eq_ok taken).2.symm

theorem Steady.openBody (steady : Steady I) (kind : PageKind) (stored : Bytes) :
    Preserves I (openBody kind stored) := by
  intro p hp
  rw [ChunkPages.openBody]
  cases opener : p.opener with
  | none => exact ⟨trivial, hp⟩
  | some o =>
      have openers : (some (o.openBody kind p.page stored).2).map
          (fun o => (o.metadata, o.data)) = p.moduleOpeners := by
        obtain ⟨metadata, data⟩ := o.openBody_openers kind p.page stored
        rw [moduleOpeners, opener, Option.map_some, Option.map_some, metadata, data]
      exact ⟨trivial, steady.pass p p.rest _ hp (List.suffix_refl _) openers⟩

/-- Every call keeps it, whatever comes of the call. -/
theorem Steady.next (steady : Steady I) : Preserves I next := by
  refine .get_bind fun p hp => ?_
  split
  · exact ⟨trivial, hp⟩
  refine Preserves.guard ?_ p hp
  refine .seq steady.readHeader fun header => .guard ?_
  refine .seq .lift fun length => .seq .lift fun numValues => ?_
  refine .seq (steady.takeBody length) fun stored => .seq (steady.openBody _ stored) fun body => ?_
  cases header.kind with
  | dictionary => exact .seq (.of_yields (.modify steady.dictionary)) fun _ => .pure
  | data =>
      refine .get_bind fun p hp => ?_
      refine Preserves.seq .lift (fun page => .seq .lift fun remaining => ?_) p hp
      exact fun _ _ => ⟨trivial, steady.count p page remaining hp⟩

theorem Steady.stateAfter (steady : Steady I) (hp : I p) (n : Nat) :
    I (PageSource.stateAfter n p) := by
  induction n generalizing p with
  | zero => exact hp
  | succ n ih => exact ih (steady.next p hp).2

/-- The reader stands inside the chunk, whose modules are opened by the given openers. -/
structure Stands (chunk : Bytes) (openers : Option (ModuleOpener × ModuleOpener)) (p : ChunkPages) :
    Prop where
  suffix : p.rest <:+ chunk
  moduleOpeners : p.moduleOpeners = openers

theorem steady_stands : Steady (Stands chunk openers) where
  pass _ _ _ h passed same := ⟨passed.trans h.suffix, same.trans h.moduleOpeners⟩
  count _ _ _ h := ⟨h.suffix, h.moduleOpeners⟩
  dictionary _ h := ⟨h.suffix, h.moduleOpeners⟩

theorem steady_awaitsDictionary : Steady fun p => p.awaitsDictionary = false where
  pass _ _ _ h _ _ := h
  count _ _ _ h := h
  dictionary _ _ := rfl

/-! ### Pages pass over bytes -/

/-- The number of bytes of the chunk that were passed over. -/
def offset (chunk : Bytes) (p : ChunkPages) : Nat :=
  chunk.length - p.rest.length

theorem Stands.rest_eq (h : Stands chunk openers p) : p.rest = chunk.drop (p.offset chunk) :=
  List.suffix_iff_eq_drop.mp h.suffix

theorem Stands.length_le (h : Stands chunk openers p) : p.rest.length ≤ chunk.length :=
  h.suffix.length_le

/-- The least size of a stored page: its header and, in an encrypted chunk, the length field, nonce
and tag around the header and the length field and nonce in front of the body. -/
def leastStored (encrypted : Bool) : Nat :=
  if encrypted then 68 else 20

theorem leastStored_le (issued : ∀ o ∈ p.opener, o.Issued) :
    leastStored p.opener.isSome ≤ p.leastPage := by
  rw [leastPage, leastHeader, leastBody, moduleOpeners]
  cases opener : p.opener with
  | none => exact Nat.le_refl 20
  | some o =>
      have header : o.metadata.overhead = 32 := by
        rw [ModuleOpener.overhead, Engine.sizeDelta, (issued o opener).mode]
        rfl
      have body : 16 ≤ o.data.overhead := by
        rw [ModuleOpener.overhead, Engine.sizeDelta, lengthWidth, nonceLength]
        omega
      dsimp only [Option.map_some, Option.elim_some, Option.isSome_some]
      rw [leastStored, if_pos rfl, header, headerLength]
      omega

/-- A page that is delivered has passed over its bytes, and they were there. -/
theorem Advanced.offset_le {page : Page} (h : Advanced p page q) (start : Stands chunk openers p) :
    p.offset chunk + p.leastPage ≤ q.offset chunk := by
  have passed := h.length
  have inside := start.length_le
  rw [offset, offset]
  omega

/-! ### The dictionary page comes first -/

theorem kind_of_returned (began : p.awaitsDictionary = false) (n : Nat) :
    ∀ page ∈ PageSource.returned n p, page.kind = .data := by
  induction n generalizing p with
  | zero => exact fun _ none => absurd none List.not_mem_nil
  | succ n ih =>
      have kept : (PageSource.next p : _ × ChunkPages).2.awaitsDictionary = false :=
        (steady_awaitsDictionary.next p began).2
      rw [PageSource.returned]
      generalize called : (PageSource.next : Step (Option Page)) p = outcome at kept ⊢
      rcases outcome with ⟨e | _ | page, after⟩
      · exact ih kept
      · exact ih kept
      · refine List.forall_mem_cons.mpr ⟨?_, ih kept⟩
        obtain ⟨⟨⟩, _⟩ | ⟨_, ⟨⟩, advanced⟩ := next_eq_ok called
        rw [advanced.kind, expectedKind, began]
        rfl

/-- Behind the first page that is returned there are only data pages, also if
calls fail in between. -/
theorem kind_of_returned_tail (p : ChunkPages) (n : Nat) :
    ∀ page ∈ (PageSource.returned n p).tail, page.kind = .data := by
  induction n generalizing p with
  | zero => exact fun _ none => absurd none List.not_mem_nil
  | succ n ih =>
      rw [PageSource.returned]
      generalize called : (PageSource.next : Step (Option Page)) p = outcome
      rcases outcome with ⟨e | _ | page, after⟩
      · exact ih after
      · exact ih after
      · obtain ⟨⟨⟩, _⟩ | ⟨_, ⟨⟩, advanced⟩ := next_eq_ok called
        exact kind_of_returned advanced.awaitsDictionary n

/-! ### The pages end -/

/-- There are no more pages than fit in the bytes, whatever the pages announce. -/
theorem exists_drains (p : ChunkPages) : ∃ pages fault last,
    PageSource.Drains pages fault p last ∧ pages.length ≤ p.rest.length / 20 := by
  induction size : p.rest.length using Nat.strong_induction_on generalizing p with
  | h size ih =>
      subst size
      generalize called : (PageSource.next : Step (Option Page)) p = outcome
      rcases outcome with ⟨e | _ | page, after⟩
      · exact ⟨[], some e, after, called, Nat.zero_le _⟩
      · exact ⟨[], none, after, called, Nat.zero_le _⟩
      · obtain ⟨⟨⟩, _⟩ | ⟨_, ⟨⟩, advanced⟩ := next_eq_ok called
        have passed := advanced.length
        have least : 20 ≤ p.leastPage := p.headerLength_le_leastPage
        obtain ⟨pages, fault, last, drains, few⟩ := ih after.rest.length (by omega) after rfl
        refine ⟨page :: pages, fault, last, ⟨after, called, drains⟩, ?_⟩
        rw [List.length_cons]
        omega

/-- What comes of reading the pages of a chunk, and its values, to the end: after the given pages
the end or the first failure, within the given number of calls. -/
structure Ends (limit : Nat) (first : ChunkPages) (pages : List Page) (fault : Option Error)
    (last : ChunkPages) : Prop where
  drains : PageSource.Drains pages fault first last
  drain : PageSource.drain first = (pages, fault, last)
  calls : ∃ calls ≤ limit,
    PageSource.drain (⟨first, 0⟩ : PageSource.Counted ChunkPages) = (pages, fault, ⟨last, calls⟩)
  /-- A column reader gets what the pages hold, or the first failure. -/
  readAll : ∀ t,
    ((ColumnReader.readAll : ColumnReader.Step ChunkPages ColumnValues) ⟨t, first, none⟩).1 =
      ColumnReader.collected t none (.empty t) pages fault
  readAll_calls : ∀ t, ∃ reader, reader.source.calls ≤ limit ∧
    (ColumnReader.readAll : ColumnReader.Step (PageSource.Counted ChunkPages) ColumnValues)
      ⟨t, ⟨first, 0⟩, none⟩ = (ColumnReader.collected t none (.empty t) pages fault, reader)

theorem exists_ends (p : ChunkPages) :
    ∃ pages fault last, Ends (p.rest.length / 20 + 1) p pages fault last := by
  obtain ⟨pages, fault, last, drains, few⟩ := p.exists_drains
  have bounded : pages.length ≤ PageSource.bound p := Nat.le_succ_of_le few
  refine ⟨pages, fault, last, drains, ?_, ⟨0 + (pages.length + 1), by omega, ?_⟩, ?_, ?_⟩
  · exact PageSource.drainFrom_of_drains drains (Nat.lt_succ_of_le bounded) []
  · exact PageSource.drainFrom_of_drains (drains.counted 0) (Nat.lt_succ_of_le bounded) []
  · intro t
    obtain ⟨reader, _, run, _⟩ := @ColumnReader.readAll_of_drains _ _ t none _ _ _ _ drains bounded
    exact congrArg Prod.fst run
  · intro t
    obtain ⟨reader, calls, run, reached, most⟩ :=
      @ColumnReader.readAll_of_drains _ _ t none _ _ _ _ (drains.counted 0) bounded
    refine ⟨reader, ?_, run⟩
    rw [reached, PageSource.calls_stateAfter]
    dsimp only
    omega

/-- Reading pages goes through the chunk from the front to the end of the pages. -/
structure Progress (chunk : Bytes) (encrypted : Bool) (first : ChunkPages) : Prop where
  /-- What is left is what stands behind the bytes that were passed over, after any number of
  calls. -/
  inside : ∀ n, (PageSource.stateAfter n first).offset chunk ≤ chunk.length ∧
    (PageSource.stateAfter n first).rest =
      chunk.drop ((PageSource.stateAfter n first).offset chunk)
  advances : ∀ n page, (ChunkPages.next (PageSource.stateAfter n first)).1 = .ok (some page) →
    (PageSource.stateAfter n first).offset chunk + leastStored encrypted ≤
      (PageSource.stateAfter (n + 1) first).offset chunk
  /-- Only the first page that is returned may be a dictionary page. -/
  dictionaryFirst : ∀ n, ∀ page ∈ (PageSource.returned n first).tail, page.kind = .data
  ends : ∃ pages fault last, Ends (chunk.length / 20 + 1) first pages fault last

/-- Whatever the bytes are, whatever is declared and however the chunk is encrypted, its pages are
read with progress and to an end. -/
theorem progress_of_issued (chunk : Bytes) (declared : Int64) (hasDictionary : Bool)
    (opener : Option ColumnOpener) (issued : ∀ o ∈ opener, o.Issued) :
    Progress chunk opener.isSome (start chunk declared hasDictionary opener) := by
  generalize begun : start chunk declared hasDictionary opener = first
  have entire : first.rest = chunk := by
    rw [← begun]
    rfl
  have floor : leastStored opener.isSome ≤ first.leastPage := by
    subst begun
    exact leastStored_le (p := start chunk declared hasDictionary opener) issued
  have stands (n : Nat) : Stands chunk first.moduleOpeners (PageSource.stateAfter n first) :=
    steady_stands.stateAfter ⟨entire ▸ List.suffix_refl _, rfl⟩ n
  refine ⟨fun n => ⟨Nat.sub_le _ _, (stands n).rest_eq⟩, ?_, kind_of_returned_tail first, ?_⟩
  · intro n page delivered
    have moved : PageSource.stateAfter (n + 1) first =
        (ChunkPages.next (PageSource.stateAfter n first)).2 := PageSource.stateAfter_succ n first
    generalize called : ChunkPages.next (PageSource.stateAfter n first) = outcome at delivered moved
    obtain ⟨result, after⟩ := outcome
    obtain rfl : result = .ok (some page) := delivered
    obtain ⟨⟨⟩, _⟩ | ⟨_, ⟨⟩, advanced⟩ := next_eq_ok called
    have passed := advanced.offset_le (stands n)
    rw [moved]
    dsimp only
    have same : (PageSource.stateAfter n first).leastPage = first.leastPage := by
      rw [leastPage, leastPage, leastHeader, leastHeader, leastBody, leastBody,
        (stands n).moduleOpeners]
    omega
  · rw [← entire]
    exact exists_ends first

end ChunkPages

namespace Sample

/-- How a chunk is sealed in an encrypted file. -/
def chunkSealing : ChunkSealing :=
  ⟨.gcmCtr, footerKey, [9, 7], 0, 0⟩

/-- A file that is open with the key of its footer. -/
def sealedOpen : OpenFile :=
  { overfullOpen with
    info := { overfullOpen.info with
      decryption := some ⟨reader fun _ => .ok ownKey.bytes, .gcmCtr, [9, 7], none⟩ } }

theorem issued : (ColumnOpener.ofSealing chunkSealing).Issued :=
  ⟨sealedOpen, 0, 0, { overfullInfo with crypto := some .footerKey }, {}, _, rfl⟩

/-- A page with one value. -/
def onePage : PlannedPage :=
  ⟨.data, ColumnValues.encodePlain ⟨.int32, [7]⟩, 1, .plain, 0⟩

end Sample

/-- There are the bytes of an encrypted chunk whose only page is delivered, while five values are
declared. -/
theorem ChunkPages.progress_of_issued_sample : ∃ chunk,
    (∃ after, next (start chunk 5 false (some (.ofSealing Sample.chunkSealing))) =
      (.ok (some Sample.onePage.page), after)) ∧
    (ColumnOpener.ofSealing Sample.chunkSealing).Issued ∧
    Progress chunk true (start chunk 5 false (some (.ofSealing Sample.chunkSealing))) := by
  obtain ⟨body, bodySeals⟩ := @SealRequest.exists_seals
    ⟨Sample.chunkSealing.sealer .data, [9, 7, 2, 0, 0, 0, 0, 0, 0], Sample.onePage.body⟩
    rfl (by decide)
  obtain ⟨header, headerSeals⟩ := @SealRequest.exists_seals
    ⟨Sample.chunkSealing.sealer .metadata, [9, 7, 4, 0, 0, 0, 0, 0, 0],
      Wire.encode (Sample.onePage.header body.length)⟩ rfl (by
        rw [PlannedPage.length_encode_header]
        exact (by decide : 20 + 28 < UInt32.size))
  have stored : Sample.onePage.StoredAs (some Sample.chunkSealing) 0 header body :=
    ⟨⟨by decide, by decide⟩, by rw [bodySeals.length]; decide, ⟨_, rfl, headerSeals⟩,
      ⟨_, rfl, bodySeals⟩⟩
  have before : Before (some Sample.chunkSealing) false 0 5 (header ++ body ++ [])
      (start (header ++ body ++ []) 5 false (some (.ofSealing Sample.chunkSealing))) :=
    ⟨rfl, rfl, rfl, rfl, .some (.ofSealing _)⟩
  obtain ⟨after, delivered, _⟩ := next_of_stored stored before rfl
    (fun _ => ⟨by decide, by decide⟩) (by decide)
  have issued := Sample.issued
  refine ⟨_, ⟨after, delivered⟩, issued, progress_of_issued _ 5 false (some (.ofSealing _)) ?_⟩
  rintro _ ⟨⟩
  exact issued

/-- Pages without values do not use up what is declared, but they use up the bytes. -/
example :
    let page := Wire.encode (⟨.data, 0, 0, 0, .plain⟩ : PageHeader)
    let (pages, fault, last) :=
      PageSource.drain (ChunkPages.start (page ++ page ++ page) 5 false none)
    pages.length = 3 ∧ fault.map Error.kind = some .endOfFile ∧ last.remaining = 5 := by
  decide

end SealedColumns
