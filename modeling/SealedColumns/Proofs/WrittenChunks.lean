import SealedColumns.Proofs.ColumnSealers
import SealedColumns.Proofs.PlacedChunks
import SealedColumns.Proofs.Sink
import SealedColumns.Writer.FileWriter

/-!
# What a writer stores of a column chunk

While it writes pages a writer changes its sink, its source of random bytes, its record of seals
and its engines, and nothing else. `Wrote` says so together with the bytes that were added;
consecutive operations add up.

A column chunk that was written is its pages in stored form. The metadata and the offset index
say where they start and how long they are, and the entry of the chunk in the footer shows the
metadata in plain form, in sealed form or both.
-/

namespace SealedColumns

namespace FileWriter

variable {w w₁ w₂ : FileWriter} {bs cs : Bytes}

/-- All bytes accepted by the sink. -/
def contents (w : FileWriter) : Bytes :=
  w.sink.contents

/-- The writer counts its bytes correctly. -/
def Positioned (w : FileWriter) : Prop :=
  w.bytesWritten = w.contents.length

/-- Bytes were added at the end, and otherwise at most random bytes were used, seals
recorded and engines made. -/
structure Wrote (bs : Bytes) (w w₁ : FileWriter) : Prop where
  grew : Sink.Grew bs w.sink w₁.sink
  frame : w₁ = { w with
    random := w₁.random, sink := w₁.sink, seals := w₁.seals, engines := w₁.engines }

namespace Wrote

theorem contents (h : Wrote bs w w₁) : w₁.contents = w.contents ++ bs :=
  h.grew.contents

theorem bytesWritten (h : Wrote bs w w₁) : w₁.bytesWritten = w.bytesWritten + bs.length :=
  h.grew.bytesWritten

theorem refl (w : FileWriter) : Wrote [] w w :=
  ⟨.refl w.sink, rfl⟩

theorem trans (first : Wrote bs w w₁) (second : Wrote cs w₁ w₂) : Wrote (bs ++ cs) w w₂ where
  grew := first.grew.trans second.grew
  frame := by
    rw [second.frame, first.frame]

/-- Nothing is added after the bytes, or nothing in front of them. -/
theorem append_nil (first : Wrote bs w w₁) (second : Wrote [] w₁ w₂) : Wrote bs w w₂ := by
  have whole := first.trans second
  rwa [List.append_nil] at whole

theorem nil_append (first : Wrote [] w w₁) (second : Wrote bs w₁ w₂) : Wrote bs w w₂ :=
  first.trans second

theorem positioned (h : Wrote bs w w₁) (start : w.Positioned) : w₁.Positioned := by
  rw [Positioned, h.bytesWritten, h.contents, List.length_append, start]

theorem properties (h : Wrote bs w w₁) : w₁.properties = w.properties := by
  rw [h.frame]

theorem encryption (h : Wrote bs w w₁) : w₁.encryption = w.encryption := by
  rw [h.frame]

theorem schema (h : Wrote bs w w₁) : w₁.schema = w.schema := by
  rw [h.frame]

theorem phase (h : Wrote bs w w₁) : w₁.phase = w.phase := by
  rw [h.frame]

theorem rowGroups (h : Wrote bs w w₁) : w₁.rowGroups = w.rowGroups := by
  rw [h.frame]

theorem offsetIndexes (h : Wrote bs w w₁) : w₁.offsetIndexes = w.offsetIndexes := by
  rw [h.frame]

end Wrote

/-! ### Single modules -/

theorem position_eq_ok {n : Nat} (h : position w = (.ok n, w₁)) : n = w.bytesWritten ∧ w = w₁ := by
  cases h
  exact ⟨rfl, rfl⟩

theorem onRandom_eq_ok {α : Type} {op : ExceptT Error (StateM RandomSource) α} {a : α}
    (h : onRandom op w = (.ok a, w₁)) :
    op w.random = (.ok a, w₁.random) ∧ w₁ = { w with random := w₁.random } := by
  rw [onRandom] at h
  generalize op w.random = outcome at h ⊢
  obtain ⟨result, after⟩ := outcome
  cases h
  exact ⟨rfl, rfl⟩

theorem onSink_eq_ok {α : Type} {op : Sink.Step α} {a : α} (h : onSink op w = (.ok a, w₁)) :
    op w.sink = (.ok a, w₁.sink) ∧ w₁ = { w with sink := w₁.sink } := by
  rw [onSink] at h
  generalize op w.sink = outcome at h ⊢
  obtain ⟨result, after⟩ := outcome
  cases h
  exact ⟨rfl, rfl⟩

theorem put_eq_ok {u : Unit} (h : put bs w = (.ok u, w₁)) : Wrote bs w w₁ := by
  obtain ⟨accepted, frame⟩ := onSink_eq_ok h
  exact ⟨Sink.writeAll_eq_ok accepted, by rw [frame]⟩

/-- Engines that are found or made in any case change nothing but the pool. -/
theorem onEngines_run {α : Type} {op : EnginePool.Step α} {a : α}
    (h : Yields (fun _ => True) op (· = .ok a)) (w : FileWriter) :
    ∃ engines, onEngines op w = (.ok a, { w with engines }) := by
  have result := (h w.engines trivial).1
  rw [onEngines]
  generalize op w.engines = outcome at result ⊢
  obtain ⟨_, engines⟩ := outcome
  cases result
  exact ⟨engines, rfl⟩

theorem onEngines_eq_ok {α : Type} {op : EnginePool.Step α} {a b : α}
    (yields : Yields (fun _ => True) op (· = .ok a)) (h : onEngines op w = (.ok b, w₁)) :
    b = a ∧ Wrote [] w w₁ := by
  obtain ⟨engines, run⟩ := onEngines_run yields w
  rw [run] at h
  cases h
  exact ⟨rfl, .refl w.sink, rfl⟩

/-- What seals a chunk does not depend on the chunks before it. -/
theorem chunkSealer_run (rowGroup ordinal : Nat) (path : ColumnPath) (w : FileWriter) :
    ∃ engines, chunkSealer rowGroup ordinal path w =
      (.ok (w.encryption.bind fun e => e.chunkSealer? rowGroup ordinal path),
        { w with engines }) := by
  rw [chunkSealer, Operation.run_get_bind]
  obtain ⟨_, _, _ | e, _⟩ := w
  · exact ⟨_, rfl⟩
  · exact onEngines_run (ColumnSealer.ofColumn?_yields e rowGroup ordinal path) _

theorem draw_eq_ok {n : Nat} {source after : RandomSource} {bytes : Bytes}
    (h : RandomSource.draw n source = (.ok bytes, after)) :
    bytes = source.upcoming n ∧ after = { source with position := source.position + n } := by
  rw [RandomSource.draw] at h
  split at h
  · cases h
    exact ⟨rfl, rfl⟩
  · cases h

/-- Sealing writes nothing and gives a module that meets the request. -/
theorem sealModule_eq_ok {request : SealRequest} {stored : Bytes}
    (h : sealModule request w = (.ok stored, w₁)) : request.Seals stored ∧ Wrote [] w w₁ := by
  rw [sealModule] at h
  obtain ⟨sealedModule, middle, sealing, h⟩ := Operation.bind_eq_ok.mp h
  obtain ⟨_, after, recorded, h⟩ := Operation.bind_eq_ok.mp h
  cases Operation.modify_eq_ok.mp recorded
  obtain ⟨rfl, rfl⟩ := Operation.pure_eq_ok.mp h
  obtain ⟨encrypted, frame⟩ := onRandom_eq_ok sealing
  obtain ⟨nonce, source, drawn, encrypted⟩ := Operation.bind_eq_ok.mp encrypted
  obtain ⟨rfl, _⟩ := draw_eq_ok drawn
  obtain ⟨encrypted, _⟩ := Operation.lift_eq_ok.mp encrypted
  refine ⟨⟨_, ?_, encrypted⟩, ?_⟩
  · simp [RandomSource.upcoming]
  · rw [frame]
    exact ⟨.refl w.sink, rfl⟩

end FileWriter

namespace ColumnSealer

/-- The sealer seals the modules of a chunk, of which `page` data pages are done. -/
structure Serves (s : ChunkSealing) (page : Nat) (c : ColumnSealer) : Prop where
  metadata : c.metadata = s.sealer .metadata
  data : c.data = s.sealer .data
  fileAad : c.fileAad = s.fileAad
  rowGroup : c.rowGroup = s.rowGroup
  column : c.column = s.column
  page : c.page = page
  bodyAad : c.bodyAad.Serves s .body
  headerAad : c.headerAad.Serves s .header

variable {s : ChunkSealing} {page : Nat} {c : ColumnSealer}

theorem Serves.aad (h : c.Serves s page) (kind : ModuleKind) : c.aad kind = s.aad kind none := by
  rw [ColumnSealer.aad, ChunkSealing.aad, h.fileAad, h.rowGroup, h.column]

/-- A sealer asks for the module that the place of the page calls for. -/
theorem Serves.sealBody (h : c.Serves s page) (kind : PageKind) (body : Bytes) :
    (c.sealBody kind body).1 = (s.aad kind.bodyModule (kind.ordinal page)).map
        (fun aad => ⟨s.sealer .data, aad, body⟩) ∧
      (c.sealBody kind body).2.Serves s page := by
  cases kind with
  | data =>
      refine ⟨?_, { h with bodyAad := h.bodyAad.forPage_snd c.page }⟩
      simp only [ColumnSealer.sealBody, h.bodyAad.forPage_fst, h.data, h.page]
      rfl
  | dictionary =>
      refine ⟨?_, h⟩
      simp only [ColumnSealer.sealBody, h.aad, h.data]
      rfl

theorem Serves.sealHeader (h : c.Serves s page) (header : PageHeader) :
    (c.sealHeader header).1 = (s.aad header.kind.headerModule (header.kind.ordinal page)).map
        (fun aad => ⟨s.sealer .metadata, aad, Wire.encode header⟩) ∧
      (c.sealHeader header).2.Serves s page := by
  rw [ColumnSealer.sealHeader]
  cases header.kind with
  | data =>
      refine ⟨?_, { h with headerAad := h.headerAad.forPage_snd c.page }⟩
      simp only [metadataRequest, h.headerAad.forPage_fst, h.metadata, h.page]
      rfl
  | dictionary =>
      refine ⟨?_, h⟩
      simp only [metadataRequest, h.aad, h.metadata]
      rfl

/-- A sealer asks for a metadata module for its place in the chunk. -/
theorem Serves.sealMetaData (h : c.Serves s page) (m : ColumnMetaData) :
    c.sealMetaData m = (s.aad .columnMetaData none).map
      (fun aad => ⟨s.sealer .metadata, aad, Wire.encode m⟩) := by
  unfold ColumnSealer.sealMetaData metadataRequest
  rw [h.aad, h.metadata]
  cases s.aad .columnMetaData none <;> rfl

theorem Serves.sealOffsetIndex (h : c.Serves s page) (index : OffsetIndex) :
    c.sealOffsetIndex index = (s.aad .offsetIndex none).map
      (fun aad => ⟨s.sealer .metadata, aad, Wire.encode index⟩) := by
  unfold ColumnSealer.sealOffsetIndex metadataRequest
  rw [h.aad, h.metadata]
  cases s.aad .offsetIndex none <;> rfl

theorem Serves.nextPage (h : c.Serves s page) : c.nextPage.Serves s (page + 1) :=
  { h with page := by rw [ColumnSealer.nextPage, h.page] }

end ColumnSealer

namespace FileWriter

variable {w w₁ : FileWriter} {sealing : Option ChunkSealing} {page : Nat}
variable {p p₁ : ChunkProgress} {stored : Bytes}

/-- The progress seals for the chunk, if the chunk is encrypted. -/
def ChunkProgress.Serves (sealing : Option ChunkSealing) (page : Nat) (p : ChunkProgress) : Prop :=
  Option.Rel (ColumnSealer.Serves · page ·) sealing p.sealer

/-- A module that is asked for its place is stored as a module of that place, and the rest of the
program goes on with it. -/
theorem sealAsked_eq_ok {α : Type} {s : ChunkSealing} {moduleClass : ModuleClass}
    {kind : ModuleKind}
    {ordinal : Option Nat} {plaintext : Bytes} {answer : Except Error SealRequest}
    {rest : Bytes → Step α} {a : α}
    (asked : answer = (s.aad kind ordinal).map (⟨s.sealer moduleClass, ·, plaintext⟩))
    (h : (do
      let request ← liftM answer
      let module ← sealModule request
      rest module : Step α) w = (.ok a, w₁)) :
    ∃ module w₂, StoredModule (some s) moduleClass kind ordinal plaintext module ∧ Wrote [] w w₂ ∧
      rest module w₂ = (.ok a, w₁) := by
  obtain ⟨request, granted, h⟩ := Operation.lift_bind_eq_ok.mp h
  obtain ⟨aad, place, rfl⟩ := Except.map_eq_ok.mp (asked.symm.trans granted)
  obtain ⟨module, w₂, sealing, h⟩ := Operation.bind_eq_ok.mp h
  obtain ⟨seals, wrote⟩ := sealModule_eq_ok sealing
  exact ⟨module, w₂, ⟨aad, place, seals⟩, wrote, h⟩

theorem storedBody_eq_ok {kind : PageKind} {body : Bytes} (serves : p.Serves sealing page)
    (h : storedBody p kind body w = (.ok (stored, p₁), w₁)) :
    StoredModule sealing .data kind.bodyModule (kind.ordinal page) body stored ∧
      Wrote [] w w₁ ∧ p₁.Serves sealing page ∧ p₁ = { p with sealer := p₁.sealer } := by
  rw [storedBody] at h
  have sealer := serves
  rw [ChunkProgress.Serves] at sealer
  generalize p.sealer = current at sealer h
  cases sealer with
  | none =>
      cases h
      exact ⟨rfl, .refl w, serves, rfl⟩
  | some current =>
      obtain ⟨asked, serves⟩ := current.sealBody kind body
      obtain ⟨module, _, form, wrote, h⟩ := sealAsked_eq_ok asked h
      cases h
      exact ⟨form, wrote, .some serves, rfl⟩

theorem storedHeader_eq_ok {header : PageHeader} (serves : p.Serves sealing page)
    (h : storedHeader p header w = (.ok (stored, p₁), w₁)) :
    StoredModule sealing .metadata header.kind.headerModule (header.kind.ordinal page)
        (Wire.encode header) stored ∧
      Wrote [] w w₁ ∧ p₁.Serves sealing page ∧ p₁ = { p with sealer := p₁.sealer } := by
  rw [storedHeader] at h
  have sealer := serves
  rw [ChunkProgress.Serves] at sealer
  generalize p.sealer = current at sealer h
  cases sealer with
  | none =>
      cases h
      exact ⟨rfl, .refl w, serves, rfl⟩
  | some current =>
      obtain ⟨asked, serves⟩ := current.sealHeader header
      obtain ⟨module, _, form, wrote, h⟩ := sealAsked_eq_ok asked h
      cases h
      exact ⟨form, wrote, .some serves, rfl⟩

/-! ### Pages -/

/-- What the progress of a chunk takes in of a page written at an offset, given its length before
its body was sealed and its length as written. -/
structure ChunkProgress.Recorded (q : PlannedPage) (offset plainLength length : Nat)
    (p p₁ : ChunkProgress) : Prop where
  unsealed : p.unsealed.record q offset plainLength length = .ok p₁.unsealed
  uncompressedSize : p₁.uncompressedSize = p.uncompressedSize + plainLength
  compressedSize : p₁.compressedSize = p.compressedSize + length
  dictionary : q.kind = .dictionary → p₁.dictionaryOffset = some offset ∧
    p₁.dataOffset = p.dataOffset ∧ p₁.locations = p.locations
  data : q.kind = .data → p₁.dictionaryOffset = p.dictionaryOffset ∧
    p₁.dataOffset = (p.dataOffset <|> some offset) ∧
    ∃ location : PageLocation, p₁.locations = location :: p.locations ∧
      location.Locates offset length q.firstRow

theorem record_eq_ok {q : PlannedPage} {offset uncompressedSize compressedSize : Nat}
    (serves : p.Serves sealing page)
    (h : p.record q offset uncompressedSize compressedSize = .ok p₁) :
    p₁.Serves sealing (q.kind.nextOrdinal page) ∧
      p.Recorded q offset uncompressedSize compressedSize p₁ := by
  have unsealed := ChunkProgress.record_unsealed h
  rw [ChunkProgress.record] at h
  cases hkind : q.kind with
  | dictionary =>
      simp only [hkind] at h
      cases h
      exact ⟨serves, unsealed, rfl, rfl, fun _ => ⟨rfl, rfl, rfl⟩,
        fun data => absurd (hkind.symm.trans data) (by decide)⟩
  | data =>
      simp only [hkind] at h
      obtain ⟨start, hstart, h⟩ := Except.bind_eq_ok.mp h
      obtain ⟨size, hsize, h⟩ := Except.bind_eq_ok.mp h
      obtain ⟨row, hrow, h⟩ := Except.bind_eq_ok.mp h
      cases h
      obtain ⟨start_lt, rfl⟩ := int64_eq_ok.mp hstart
      obtain ⟨size_lt, rfl⟩ := int32_eq_ok.mp hsize
      obtain ⟨row_lt, rfl⟩ := int64_eq_ok.mp hrow
      refine ⟨?_, unsealed, rfl, rfl,
        fun dictionary => absurd (hkind.symm.trans dictionary) (by decide),
        fun _ => ⟨rfl, rfl, _, rfl, toInt_int64 start_lt, toInt_int32 size_lt, toInt_int64 row_lt⟩⟩
      rw [ChunkProgress.Serves] at serves ⊢
      dsimp only
      generalize p.sealer = sealer at serves ⊢
      cases serves with
      | none => exact .none
      | some serves => exact .some serves.nextPage

/-- A page is written in its stored form, and the progress says where. -/
theorem writePage_eq_ok {q : PlannedPage} (serves : p.Serves sealing page)
    (h : writePage p q w = (.ok p₁, w₁)) :
    ∃ header body, q.StoredAs sealing page header body ∧ Wrote (header ++ body) w w₁ ∧
      p₁.Serves sealing (q.kind.nextOrdinal page) ∧
      p.Recorded q w.bytesWritten (header.length + q.body.length) (header ++ body).length p₁ := by
  rw [writePage] at h
  obtain ⟨numValues, counted, h⟩ := Operation.lift_bind_eq_ok.mp h
  obtain ⟨offset, _, positioned, h⟩ := Operation.bind_eq_ok.mp h
  obtain ⟨rfl, rfl⟩ := position_eq_ok positioned
  obtain ⟨⟨body, p₂⟩, w₂, bodyStored, h⟩ := Operation.bind_eq_ok.mp h
  obtain ⟨uncompressed, uncompressedFits, h⟩ := Operation.lift_bind_eq_ok.mp h
  obtain ⟨compressed, compressedFits, h⟩ := Operation.lift_bind_eq_ok.mp h
  obtain ⟨values, valuesFit, h⟩ := Operation.lift_bind_eq_ok.mp h
  obtain ⟨⟨header, p₃⟩, w₃, headerStored, h⟩ := Operation.bind_eq_ok.mp h
  obtain ⟨_, w₄, headerPut, h⟩ := Operation.bind_eq_ok.mp h
  obtain ⟨_, w₅, bodyPut, h⟩ := Operation.bind_eq_ok.mp h
  obtain ⟨recorded, rfl⟩ := Operation.lift_eq_ok.mp h
  obtain ⟨count_lt, rfl⟩ := uint32_eq_ok.mp counted
  obtain ⟨uncompressed_lt, rfl⟩ := int32_eq_ok.mp uncompressedFits
  obtain ⟨compressed_lt, rfl⟩ := int32_eq_ok.mp compressedFits
  obtain ⟨values_lt, rfl⟩ := int32_eq_ok.mp valuesFit
  obtain ⟨bodyModule, sealedBody, serves, frame₂⟩ := storedBody_eq_ok serves bodyStored
  obtain ⟨headerModule, sealedHeader, serves, frame₃⟩ := storedHeader_eq_ok serves headerStored
  obtain ⟨serves, recorded⟩ := record_eq_ok serves recorded
  have count : (UInt32.ofNat q.count).toNat = q.count := Nat.mod_eq_of_lt count_lt
  rw [count] at values_lt headerModule
  refine ⟨header, body, ⟨⟨uncompressed_lt, values_lt⟩, compressed_lt, headerModule, bodyModule⟩, ?_,
    serves, ?_⟩
  · exact (sealedBody.nil_append sealedHeader).nil_append
      ((put_eq_ok headerPut).trans (put_eq_ok bodyPut))
  · rw [frame₃, frame₂] at recorded
    rw [List.length_append]
    exact ⟨recorded.unsealed, recorded.uncompressedSize, recorded.compressedSize,
      recorded.dictionary, recorded.data⟩

/-- What is known of a chunk after its pages could have been forecast. -/
theorem writePages_forecast {pages : List PlannedPage} (serves : p.Serves sealing page)
    (h : writePages p pages w = (.ok p₁, w₁)) :
    p.unsealed.forecast (sealingOverhead sealing) w.bytesWritten pages = .ok p₁.unsealed := by
  induction pages generalizing p w page with
  | nil =>
      cases h
      rfl
  | cons q pages ih =>
      obtain ⟨p₂, w₂, first, rest⟩ := Operation.bind_eq_ok.mp h
      obtain ⟨header, body, stored, wrote, serves, recorded⟩ := writePage_eq_ok serves first
      have unsealed := recorded.unsealed
      have later := ih serves rest
      rw [stored.plainLength_eq, stored.length_eq] at unsealed
      rw [wrote.bytesWritten, stored.length_eq] at later
      rw [ChunkProgress.forecast, unsealed]
      exact later

theorem small_of_writePages {pages : List PlannedPage} (serves : p.Serves sealing page)
    (h : writePages p pages w = (.ok p₁, w₁)) : ∀ q ∈ pages, q.Small := by
  induction pages generalizing p w page with
  | nil =>
      intro q hq
      cases hq
  | cons q pages ih =>
      obtain ⟨p₂, w₂, first, rest⟩ := Operation.bind_eq_ok.mp h
      obtain ⟨_, _, stored, _, serves, _⟩ := writePage_eq_ok serves first
      exact List.forall_mem_cons.mpr ⟨stored.small, ih serves rest⟩

/-- Sealing makes pages longer, if anything. -/
theorem writePages_sizes {pages : List PlannedPage} (serves : p.Serves sealing page)
    (h : writePages p pages w = (.ok p₁, w₁)) :
    ∃ plain written, p₁.uncompressedSize = p.uncompressedSize + plain ∧
      p₁.compressedSize = p.compressedSize + written ∧ plain ≤ written ∧
      (plain = 0 ↔ pages = []) := by
  induction pages generalizing p w page with
  | nil =>
      cases h
      exact ⟨0, 0, rfl, rfl, Nat.le_refl 0, iff_of_true rfl rfl⟩
  | cons q pages ih =>
      obtain ⟨p₂, w₂, first, rest⟩ := Operation.bind_eq_ok.mp h
      obtain ⟨header, body, stored, _, serves, recorded⟩ := writePage_eq_ok serves first
      obtain ⟨plain, written, uncompressed, compressed, le, _⟩ := ih serves rest
      have body_le := stored.body_stored.length_le
      have header_pos : 0 < header.length :=
        Nat.lt_of_lt_of_le (LawfulWire.encode_pos _) stored.header_stored.length_le
      refine ⟨header.length + q.body.length + plain, (header ++ body).length + written, ?_, ?_, ?_,
        iff_of_false ?_ (List.cons_ne_nil _ _)⟩
      · rw [uncompressed, recorded.uncompressedSize, Nat.add_assoc]
      · rw [compressed, recorded.compressedSize, Nat.add_assoc]
      · rw [List.length_append]
        omega
      · omega

/-- Data pages are written one after the other, and their locations are kept, latest first.
They leave the offset of the dictionary alone, and the first of them is the first data page if
there was none before. -/
theorem writeDataPages_eq_ok {pages : List PlannedPage} (kind : ∀ q ∈ pages, q.kind = .data)
    (serves : p.Serves sealing page) (h : writePages p pages w = (.ok p₁, w₁)) :
    ∃ locations bytes last,
      Laid (PageAt sealing) page w.bytesWritten pages locations bytes ∧ Wrote bytes w w₁ ∧
      p₁.Serves sealing last ∧ p₁.compressedSize = p.compressedSize + bytes.length ∧
      p₁.locations = locations.reverse ++ p.locations ∧
      p₁.dictionaryOffset = p.dictionaryOffset ∧
      p₁.dataOffset = (p.dataOffset <|> pages.head?.map fun _ => w.bytesWritten) := by
  induction pages generalizing p w page with
  | nil =>
      cases h
      exact ⟨[], [], page, .nil, .refl _, serves, rfl, rfl, rfl, by simp⟩
  | cons q pages ih =>
      obtain ⟨p₂, w₂, first, rest⟩ := Operation.bind_eq_ok.mp h
      obtain ⟨ofData, others⟩ := List.forall_mem_cons.mp kind
      obtain ⟨header, body, stored, wrote, serves, recorded⟩ := writePage_eq_ok serves first
      obtain ⟨kept, dataOffset, location, located, locates⟩ := recorded.data ofData
      rw [ofData] at serves
      obtain ⟨locations, bytes, last, laid, wroteRest, serves, size, locationsRest, keptRest,
        dataOffsetRest⟩ := ih others serves rest
      rw [wrote.bytesWritten] at laid
      refine ⟨location :: locations, header ++ body ++ bytes, last,
        .cons ⟨ofData, ⟨header, body, rfl, stored⟩, locates⟩ laid, wrote.trans wroteRest, serves,
        ?_, ?_, keptRest.trans kept, ?_⟩
      · rw [size, recorded.compressedSize, Nat.add_assoc, ← List.length_append]
      · rw [locationsRest, located, List.reverse_cons, List.append_assoc]
        rfl
      · rw [dataOffsetRest, dataOffset]
        cases p.dataOffset <;> rfl

/-- The pages of a whole chunk, which starts at the present position. -/
theorem writePages_start {dictionary : Option PlannedPage} {data : List PlannedPage}
    (kind : ∀ q ∈ dictionary, q.kind = .dictionary) (dataKind : ∀ q ∈ data, q.kind = .data)
    (refers : dictionary.isSome → data ≠ [])
    {sealer : Option ColumnSealer} (serves : ChunkProgress.Serves sealing 0 { sealer })
    (h : writePages { sealer } (dictionary.toList ++ data) w = (.ok p₁, w₁)) :
    ∃ front pages last, DictionaryAt sealing dictionary front ∧
      Laid (PageAt sealing) 0 (w.bytesWritten + front.length) data p₁.locations.reverse pages ∧
      Wrote (front ++ pages) w w₁ ∧ p₁.Serves sealing last ∧
      p₁.compressedSize = (front ++ pages).length ∧
      p₁.dictionaryOffset = dictionary.map (fun _ => w.bytesWritten) ∧
      p₁.dataOffset.getD w.bytesWritten = w.bytesWritten + front.length := by
  cases dictionary with
  | none =>
      obtain ⟨locations, pages, last, laid, wrote, serves, size, located, dictionaryOffset,
        dataOffset⟩ := writeDataPages_eq_ok dataKind serves h
      rw [List.append_nil] at located
      refine ⟨[], pages, last, rfl, ?_, wrote, serves, size.trans (Nat.zero_add _),
        dictionaryOffset, ?_⟩
      · rw [located, List.reverse_reverse]
        exact laid
      · rw [dataOffset]
        cases data <;> rfl
  | some q =>
      obtain ⟨p₂, w₂, first, rest⟩ := Operation.bind_eq_ok.mp h
      have ofDictionary : q.kind = .dictionary := kind q rfl
      obtain ⟨header, body, stored, wroteFirst, serves, recorded⟩ := writePage_eq_ok serves first
      obtain ⟨entered, none_yet, no_locations⟩ := recorded.dictionary ofDictionary
      rw [ofDictionary] at serves
      obtain ⟨locations, pages, last, laid, wrote, serves, size, located, dictionaryOffset,
        dataOffset⟩ := writeDataPages_eq_ok dataKind serves rest
      rw [no_locations, List.append_nil] at located
      rw [wroteFirst.bytesWritten] at laid dataOffset
      refine ⟨header ++ body, pages, last, ⟨header, body, rfl, stored⟩, ?_, wroteFirst.trans wrote,
        serves, ?_, dictionaryOffset.trans entered, ?_⟩
      · rw [located, List.reverse_reverse]
        exact laid
      · rw [size, recorded.compressedSize, Nat.zero_add, ← List.length_append]
      · rw [dataOffset, none_yet]
        cases data with
        | nil => exact absurd rfl (refers rfl)
        | cons q data => rfl

/-! ### Chunks -/

theorem metaData_eq_ok {column : Column} {rows start : Nat} {m : ColumnMetaData}
    (h : p.metaData column rows start = .ok m) :
    m.Describes column rows ∧ m.totalUncompressedSize.toInt = p.uncompressedSize ∧
      m.totalCompressedSize.toInt = p.compressedSize ∧
      m.dataPageOffset.toInt = p.dataOffset.getD start ∧
      m.dictionaryPageOffset.map Int64.toInt = p.dictionaryOffset.map Nat.cast := by
  rw [ChunkProgress.metaData] at h
  obtain ⟨numValues, hnum, h⟩ := Except.bind_eq_ok.mp h
  obtain ⟨uncompressed, huncompressed, h⟩ := Except.bind_eq_ok.mp h
  obtain ⟨compressed, hcompressed, h⟩ := Except.bind_eq_ok.mp h
  obtain ⟨data, hdata, h⟩ := Except.bind_eq_ok.mp h
  obtain ⟨dictionary, hdictionary, h⟩ := Except.bind_eq_ok.mp h
  cases Except.pure_eq_ok.mp h
  obtain ⟨num_lt, rfl⟩ := int64_eq_ok.mp hnum
  obtain ⟨uncompressed_lt, rfl⟩ := int64_eq_ok.mp huncompressed
  obtain ⟨compressed_lt, rfl⟩ := int64_eq_ok.mp hcompressed
  obtain ⟨data_lt, rfl⟩ := int64_eq_ok.mp hdata
  refine ⟨⟨rfl, rfl, toInt_int64 num_lt⟩, toInt_int64 uncompressed_lt, toInt_int64 compressed_lt,
    toInt_int64 data_lt, ?_⟩
  generalize p.dictionaryOffset = offset at hdictionary ⊢
  cases offset with
  | none =>
      cases hdictionary
      rfl
  | some offset =>
      obtain ⟨word, hword, hdictionary⟩ := Except.bind_eq_ok.mp hdictionary
      cases Except.pure_eq_ok.mp hdictionary
      obtain ⟨offset_lt, rfl⟩ := int64_eq_ok.mp hword
      exact congrArg some (toInt_int64 offset_lt)

/-- The metadata of a whole chunk states the size of its pages before sealing. -/
theorem sized_of_pages {column : Column} {rows start : Nat} {m : ColumnMetaData}
    {dictionary : Option PlannedPage} {data : List PlannedPage} {sealer : Option ColumnSealer}
    (serves : ChunkProgress.Serves sealing page { sealer }) (covers : PagePlan.Covers data rows)
    (refers : dictionary.isSome → data ≠ [])
    (pagesRun : writePages { sealer } (dictionary.toList ++ data) w = (.ok p, w₁))
    (metaData : p.metaData column rows start = .ok m) : m.Sized rows := by
  obtain ⟨plain, written, uncompressed, compressed, le, empty⟩ := writePages_sizes serves pagesRun
  obtain ⟨_, plainTotal, total, _⟩ := metaData_eq_ok metaData
  rw [uncompressed, Nat.zero_add] at plainTotal
  rw [compressed, Nat.zero_add] at total
  have no_pages : dictionary.toList ++ data = [] ↔ rows = 0 := by
    rw [List.append_eq_nil_iff, ← covers.eq_nil_iff]
    refine ⟨And.right, fun none => ⟨?_, none⟩⟩
    cases dictionary with
    | none => rfl
    | some q => exact absurd none (refers rfl)
  refine ⟨?_, ?_, ?_⟩
  · rw [plainTotal]
    exact Int.natCast_nonneg _
  · rw [plainTotal, total]
    exact Int.ofNat_le.mpr le
  · rw [plainTotal, ← no_pages, ← empty]
    exact Int.natCast_eq_zero

/-- The sealer of a chunk seals for the place of the chunk. -/
theorem serves_chunkSealer (encryption : Option FileEncryption) (rowGroup ordinal : Nat)
    (path : ColumnPath) :
    ChunkProgress.Serves (chunkSealing encryption rowGroup ordinal path) 0
      { sealer := encryption.bind fun e => e.chunkSealer? rowGroup ordinal path } := by
  rw [ChunkProgress.Serves, chunkSealing]
  dsimp only
  cases encryption with
  | none => exact .none
  | some e =>
      simp only [Option.bind_some, FileEncryption.chunkSealer?]
      cases e.properties.columnKey path with
      | none => exact .none
      | some key =>
          exact .some ⟨rfl, rfl, rfl, rfl, rfl, rfl,
            .start ⟨e.properties.algorithm, key, e.fileAad, rowGroup, ordinal⟩ .body,
            .start ⟨e.properties.algorithm, key, e.fileAad, rowGroup, ordinal⟩ .header⟩

/-- An entry that shows the metadata in sealed form is made by sealing the metadata for its place.
-/
theorem sealedEntry_eq_ok {rowGroup ordinal : Nat} {path : ColumnPath} {m : ColumnMetaData}
    {s : ChunkSealing} {c : ColumnSealer} {entryOf : Bytes → ColumnChunk} {entry : ColumnChunk}
    (place : chunkSealing w.encryption rowGroup ordinal path = some s) (serves : c.Serves s page)
    (shown : ∀ module, (entryOf module).crypto = chunkCrypto w.encryption path ∧
      (∀ other ∈ (entryOf module).metaData, other = m) ∧ (entryOf module).crypto.isSome ∧
      (entryOf module).encryptedMetaData = some module)
    (h : (do
      let encrypted ← sealModule (← liftM (c.sealMetaData m))
      pure (entryOf encrypted) : Step ColumnChunk) w = (.ok entry, w₁)) :
    (∃ module, entry = entryOf module) ∧ ChunkEntry w.encryption rowGroup ordinal path m entry ∧
      Wrote [] w w₁ := by
  obtain ⟨module, _, stored, wrote, h⟩ := sealAsked_eq_ok (serves.sealMetaData m) h
  cases h
  obtain ⟨crypto, plain, named, form⟩ := shown module
  rw [← place] at stored
  exact ⟨⟨module, rfl⟩, .of_sealed crypto plain form named stored, wrote⟩

theorem chunkEntry_eq_ok {rowGroup ordinal : Nat} {column : Column} {m : ColumnMetaData}
    {sealer : Option ColumnSealer} {entry : ColumnChunk}
    (serves : Option.Rel (ColumnSealer.Serves · page ·)
      (chunkSealing w.encryption rowGroup ordinal column.path) sealer)
    (h : chunkEntry column m sealer w = (.ok entry, w₁)) :
    ChunkEntry w.encryption rowGroup ordinal column.path m entry ∧
      EntryForms w.encryption column.path entry ∧
      entry.fileOffset = m.dictionaryPageOffset.getD m.dataPageOffset ∧ Wrote [] w w₁ := by
  rw [chunkEntry, Operation.run_get_bind] at h
  dsimp only at h
  generalize hcrypto : (w.encryption.bind fun e => e.properties.columnCrypto column.path) = crypto
    at h
  have forms (plain : entry.metaData = none ↔
        (w.encryption.any fun e => e.properties.encryptedFooter) = true ∧
          ∃ info, crypto = some (.columnKey info))
      (inSealedForm : entry.encryptedMetaData ≠ none ↔ crypto ≠ none ∧
        ((w.encryption.any fun e => e.properties.encryptedFooter) = true →
          ∃ info, crypto = some (.columnKey info))) :
      EntryForms w.encryption column.path entry := by
    rw [← hcrypto] at plain inSealedForm
    exact ⟨plain, inSealedForm⟩
  generalize (w.encryption.any fun e => e.properties.encryptedFooter) = encryptedFooter
    at h forms
  have named : chunkCrypto w.encryption column.path = crypto := hcrypto
  have keyless : chunkSealing w.encryption rowGroup ordinal column.path = none ↔
      chunkCrypto w.encryption column.path = none := chunkSealing_eq_none_iff
  rw [named] at keyless
  generalize hplace : chunkSealing w.encryption rowGroup ordinal column.path = place
    at serves keyless
  cases serves with
  | none =>
      -- Without a sealer the column has no key, and the metadata appears in plain form.
      cases keyless.mp rfl
      cases h
      exact ⟨.of_plain named.symm rfl rfl (by simp), forms (by simp) (by simp), rfl, .refl _⟩
  | @some s c serves =>
      cases crypto with
      | none => cases keyless.mpr rfl
      | some crypto =>
          cases crypto with
          | columnKey info =>
              have plain : ∀ other ∈ (if encryptedFooter then none else some m), other = m := by
                intro other ho
                split at ho
                · cases ho
                · exact (Option.mem_some.mp ho).symm
              obtain ⟨⟨_, rfl⟩, entryForm, wrote⟩ :=
                sealedEntry_eq_ok hplace serves (fun _ => ⟨named.symm, plain, rfl, rfl⟩) h
              exact ⟨entryForm, forms (by simp) (by simp), rfl, wrote⟩
          | footerKey =>
              dsimp only at h
              split at h
              · next inSealedForm =>
                cases h
                exact ⟨.of_plain named.symm rfl rfl (by simp),
                  forms (by simp) (by simp [inSealedForm]), rfl, .refl _⟩
              · next inPlainForm =>
                obtain ⟨⟨_, rfl⟩, entryForm, wrote⟩ := sealedEntry_eq_ok hplace serves
                  (fun _ => ⟨named.symm, fun _ ho => (Option.mem_some.mp ho).symm, rfl, rfl⟩) h
                exact ⟨entryForm, forms (by simp) (by simp [inPlainForm]), rfl, wrote⟩

/-- The stored form of an offset index is made before anything else and is not written yet. -/
theorem storedIndex_eq_ok {α : Type} {sealer : Option ColumnSealer} {index : OffsetIndex}
    {rest : Bytes → Step α} {a : α}
    (h : (match sealer with
      | none => do
        let storedIndex ← pure (Wire.encode index)
        rest storedIndex
      | some s => do
        let request ← liftM (s.sealOffsetIndex index)
        let storedIndex ← sealModule request
        rest storedIndex : Step α) w = (.ok a, w₁))
    (serves : Option.Rel (ColumnSealer.Serves · page ·) sealing sealer) :
    ∃ storedIndex w₂,
      StoredModule sealing .metadata .offsetIndex none (Wire.encode index) storedIndex ∧
      Wrote [] w w₂ ∧ rest storedIndex w₂ = (.ok a, w₁) := by
  cases serves with
  | none => exact ⟨_, w, rfl, .refl w, h⟩
  | some serves => exact sealAsked_eq_ok (serves.sealOffsetIndex index) h

/-- A chunk that was written is at its place, and its metadata and its offset index tell where. -/
theorem writeChunk_eq_ok {rowGroup ordinal : Nat} {column : Column} {values : ColumnValues}
    {chunk : ColumnChunk × Bytes}
    (h : writeChunk rowGroup ordinal column values w = (.ok chunk, w₁)) :
    ∃ bytes, Wrote bytes w w₁ ∧ ChunkAt w.properties w.encryption rowGroup ordinal w.bytesWritten
      (column, values) chunk bytes := by
  obtain ⟨engines, sealerRun⟩ := chunkSealer_run rowGroup ordinal column.path w
  have engined : Wrote [] w { w with engines } := ⟨.refl w.sink, rfl⟩
  rw [writeChunk, Operation.run_bind_ok sealerRun, Operation.run_get_bind] at h
  obtain ⟨sameType, afterType⟩ := Operation.guard_eq_ok.mp h
  obtain ⟨start, _, positionRun, afterPosition⟩ := Operation.bind_eq_ok.mp afterType
  obtain ⟨rfl, rfl⟩ := position_eq_ok positionRun
  obtain ⟨planned, plan, afterPlan⟩ := Operation.lift_bind_eq_ok.mp afterPosition
  obtain ⟨p, w₂, pagesRun, afterPages⟩ := Operation.bind_eq_ok.mp afterPlan
  obtain ⟨m, metaData, afterMetaData⟩ := Operation.lift_bind_eq_ok.mp afterPages
  have serves := serves_chunkSealer w.encryption rowGroup ordinal column.path
  obtain ⟨dictionary, entries, data, rfl, holds, division⟩ :=
    PagePlan.ofValues_eq_ok w.properties.pageRowLimit_pos plan (small_of_writePages serves pagesRun)
  obtain ⟨front, pages, last, dictionary_at, data_at, wrote, sealer, size, dictionaryOffset,
    dataOffset⟩ := writePages_start holds.kind holds.covers.data division.refers serves pagesRun
  obtain ⟨storedIndex, w₃, indexForm, indexed, afterIndex⟩ :=
    storedIndex_eq_ok afterMetaData sealer
  obtain ⟨entry, w₄, entryRun, done⟩ := Operation.bind_eq_ok.mp afterIndex
  obtain ⟨rfl, rfl⟩ := Operation.pure_eq_ok.mp done
  have ready := (engined.nil_append wrote).append_nil indexed
  rw [ChunkProgress.Serves, ← ready.encryption] at sealer
  obtain ⟨entryForm, forms, fileOffset, entered⟩ := chunkEntry_eq_ok sealer entryRun
  rw [ready.encryption] at entryForm forms
  obtain ⟨describes, _, total, dataPage, dictionaryPage⟩ := metaData_eq_ok metaData
  rw [dictionaryOffset, Option.map_map] at dictionaryPage
  rw [size] at total
  rw [dataOffset] at dataPage
  have placed : PlacedChunk (chunkSealing w.encryption rowGroup ordinal column.path)
      w.properties.pageRowLimit (w.properties.usesDictionary column.path) values m
      ⟨p.locations.reverse⟩ w.bytesWritten (front ++ pages) :=
    .intro rfl holds division dictionary_at data_at total dataPage dictionaryPage
  have forecast := writePages_forecast serves pagesRun
  have foretold : w.properties.forecast
      (sealingOverhead (chunkSealing w.encryption rowGroup ordinal column.path)) (column, values)
      w.bytesWritten = .ok (m, ⟨p.locations.reverse⟩) :=
    WriterProperties.forecast_of_progress plan forecast metaData
  exact ⟨front ++ pages, ready.append_nil entered, Decidable.not_not.mp sameType,
    (congrArg Int64.toInt fileOffset).trans placed.starts, forms, m, _, entryForm, describes,
    placed, indexForm, sized_of_pages serves holds.covers division.refers pagesRun metaData,
    foretold⟩

end FileWriter

end SealedColumns
