import SealedColumns.Proofs.ColumnSealers
import SealedColumns.Proofs.ErrorKinds
import SealedColumns.Proofs.SealLog

/-!
# Writers do not find fault with their configuration

An engine refuses keys of a length other than its own, each time it is used, and no engine is made
for a length that no key has. Both would be errors about the configuration of encryption, met in the
middle of a file. They do not occur: whatever seals a module is an engine of the pool together with
the key that it was taken for. Behind the engine the block cipher is left with the three lengths of
keys, and no other to refuse. All other errors of a writer are about the data, the sink, the source
of random bytes or the writer's own state.

`Configured` is about results, `Unblamed` about operations. What is carried from step to step is
that the sealers hold keys that their engines take (`ModuleSealer.Keyed`).
-/

namespace SealedColumns

/-- The computation ends in a value that meets `Good`, or in an error that is not about the
configuration of encryption. -/
abbrev Configured {α : Type} (Good : α → Prop) : Except Error α → Prop :=
  Avoids .encryptionConfig Good

/-- The computation does not blame the configuration, and no more is said of its value. -/
abbrev Configured.Plainly {α : Type} : Except Error α → Prop :=
  Configured fun _ => True

/-- Wherever the operation is started, its result does not blame the configuration. -/
abbrev Unblamed {σ α : Type} (Good : α → Prop) (op : Operation σ α) : Prop :=
  Yields (fun _ => True) op (Configured Good)

namespace Unblamed

variable {σ α β : Type} {Good : α → Prop} {Good' : β → Prop} {op : Operation σ α}

theorem seq {f : α → Operation σ β} (first : Unblamed Good op)
    (rest : ∀ a, Good a → Unblamed Good' (f a)) : Unblamed Good' (op >>= f) :=
  Yields.seq first rest fun _ h => h

theorem get {f : σ → Operation σ β} (rest : ∀ s, Unblamed Good' (f s)) :
    Unblamed Good' (MonadState.get >>= f) :=
  Yields.get_bind fun s hs => rest s s hs

theorem guard {c : Prop} [Decidable c] {e : Error} {f : α → Operation σ β} {rest : Operation σ β}
    (refusal : (e.kind == .encryptionConfig) = false) (h : Unblamed Good' rest) :
    Unblamed Good' (if c then throw e >>= f else rest) := by
  by_cases hc : c
  · rw [if_pos hc]
    exact fun _ _ => ⟨Avoids.error refusal, trivial⟩
  · rwa [if_neg hc]

end Unblamed

/-! ### Words, dictionaries and associated data -/

theorem int32_configured (n : Nat) : Configured.Plainly (int32 n) :=
  .ite (fun _ => .ok trivial) fun _ => .error rfl

theorem int64_configured (n : Nat) : Configured.Plainly (int64 n) :=
  .ite (fun _ => .ok trivial) fun _ => .error rfl

theorem uint32_configured (n : Nat) : Configured.Plainly (uint32 n) :=
  .ite (fun _ => .ok trivial) fun _ => .error rfl

theorem Dictionary.run_configured (p : Progress) (position : Nat) (keys : List Bytes) :
    Configured.Plainly (run p position keys) := by
  induction keys generalizing p position with
  | nil => exact .ok trivial
  | cons key keys ih =>
      have step : Configured.Plainly (step p position key) := by
        refine (uint32_configured _).bind fun next _ => ?_
        cases p.keys.idxOf? key with
        | some i => exact .ok trivial
        | none => exact .ok trivial
      exact step.bind fun p _ => ih p (position + 1)

theorem ColumnValues.take_configured (c : ColumnValues) (indices : List UInt32) :
    Configured.Plainly (c.take indices) := by
  have values (indices : List UInt32) :
      Configured.Plainly (indices.mapM fun i => valueAt c.values.toArray i.toNat) := by
    induction indices with
    | nil => exact .ok trivial
    | cons i indices ih =>
        have value : Configured.Plainly (valueAt c.values.toArray i.toNat) := by
          rw [valueAt]
          split
          · exact .ok trivial
          · exact .error rfl
        rw [List.mapM_cons]
        exact value.bind fun v _ => ih.bind fun _ _ => .ok trivial
  rw [take]
  dsimp only
  split
  · exact .error rfl
  · exact (values indices).bind fun _ _ => .ok trivial

theorem PagePlan.ofValues_configured (c : ColumnValues) (rowLimit : Nat) (useDictionary : Bool) :
    Configured.Plainly (ofValues c rowLimit useDictionary) := by
  rw [ofValues]
  refine .ite (fun _ => .ok trivial) fun _ => .ite (fun _ => ?_) fun _ => .ok trivial
  have encode : Configured.Plainly (Dictionary.encode c) :=
    (Dictionary.run_configured _ _ _).bind fun p _ =>
      (c.take_configured _).bind fun _ _ => .ok trivial
  exact encode.bind fun _ _ => .ok trivial

theorem moduleAad_configured (fileAad : Bytes) (kind : ModuleKind) (rowGroup column : Nat)
    (page : Option Nat) : Configured.Plainly (moduleAad fileAad kind rowGroup column page) :=
  moduleAad_avoids rfl _ _ _ _ _

theorem PageAad.forPage_configured (p : PageAad) (page : Nat) :
    Configured.Plainly (p.forPage page).1 :=
  p.forPage_avoids rfl page

/-! ### Sealers with keys that their engines take -/

/-- The engine takes the key. -/
def ModuleSealer.Keyed (s : ModuleSealer) : Prop :=
  s.key.bytes.length = s.engine.keyLength

/-- What seals the modules under a key takes it. -/
theorem Key.sealer_keyed (key : Key) (algorithm : Algorithm) (moduleClass : ModuleClass) :
    (key.sealer algorithm moduleClass).Keyed := rfl

/-- The request is for an engine that takes the key. -/
def SealRequest.Keyed (r : SealRequest) : Prop :=
  r.sealer.Keyed

/-- Once there are associated data, a request is for the sealer that makes it. -/
theorem ModuleSealer.Keyed.request {s : ModuleSealer} (keyed : s.Keyed) (plaintext : Bytes)
    {aad : Except Error Bytes} (h : Configured.Plainly aad) :
    Configured SealRequest.Keyed (aad.map fun aad => ⟨s, aad, plaintext⟩) := by
  cases aad with
  | error e => exact h
  | ok aad => exact keyed

/-- The sealers of a column chunk take their keys. -/
structure ColumnSealer.Keyed (s : ColumnSealer) : Prop where
  metadata : s.metadata.Keyed
  data : s.data.Keyed

/-- With a key that the engine takes, sealing can only fail on what is sealed. -/
theorem Engine.encryptWithNonce_configured {engine : Engine} {plaintext key aad nonce : Bytes}
    (keyed : key.length = engine.keyLength) :
    Configured.Plainly (engine.encryptWithNonce plaintext key aad nonce) := by
  rw [encryptWithNonce, checkKey, if_pos keyed]
  have added : Configured.Plainly (addSizes plaintext.length engine.sizeDelta) :=
    .ite (fun _ => .ok trivial) fun _ => .error rfl
  exact added.bind fun _ _ => .guard rfl fun _ => .ok trivial

theorem SealRequest.Keyed.encrypt {r : SealRequest} (keyed : r.Keyed) :
    Unblamed (fun _ => True) (r.sealer.encrypt r.aad r.plaintext) := by
  have drawn : Unblamed (fun _ => True) (RandomSource.draw nonceLength) := by
    intro random _
    rw [RandomSource.draw]
    split
    · exact ⟨trivial, trivial⟩
    · exact ⟨Avoids.error rfl, trivial⟩
  exact drawn.seq fun nonce _ => .lift (Engine.encryptWithNonce_configured keyed)

namespace ColumnSealer.Keyed

variable {s : ColumnSealer} (keyed : s.Keyed)
include keyed

theorem sealBody (kind : PageKind) (body : Bytes) :
    Configured SealRequest.Keyed (s.sealBody kind body).1 ∧ (s.sealBody kind body).2.Keyed := by
  cases kind with
  | data =>
      have aad := s.bodyAad.forPage_configured s.page
      exact ⟨keyed.data.request body aad, ⟨keyed.metadata, keyed.data⟩⟩
  | dictionary => exact ⟨keyed.data.request body (moduleAad_configured _ _ _ _ _), keyed⟩

theorem sealHeader (header : PageHeader) :
    Configured SealRequest.Keyed (s.sealHeader header).1 ∧ (s.sealHeader header).2.Keyed := by
  rw [ColumnSealer.sealHeader]
  cases header.kind with
  | data =>
      have aad := s.headerAad.forPage_configured s.page
      exact ⟨keyed.metadata.request _ aad, ⟨keyed.metadata, keyed.data⟩⟩
  | dictionary => exact ⟨keyed.metadata.request _ (moduleAad_configured _ _ _ _ _), keyed⟩

theorem sealMetaData (m : ColumnMetaData) : Configured SealRequest.Keyed (s.sealMetaData m) :=
  (moduleAad_configured _ _ _ _ _).bind fun _ _ => keyed.metadata

theorem sealOffsetIndex (index : OffsetIndex) :
    Configured SealRequest.Keyed (s.sealOffsetIndex index) :=
  (moduleAad_configured _ _ _ _ _).bind fun _ _ => keyed.metadata

end ColumnSealer.Keyed

namespace FileWriter

/-! ### Single effects -/

/-- A sink fails only because its destination is full. -/
theorem accepted_configured {x : Except Error Unit} (h : x = .ok () ∨ x = .error .sinkFull) :
    Configured.Plainly x := by
  obtain rfl | rfl := h
  · exact .ok trivial
  · exact .error rfl

theorem put_unblamed (bs : Bytes) : Unblamed (fun _ => True) (put bs) :=
  fun w _ => ⟨accepted_configured (Sink.writeAll_accepts bs w.sink rfl).1, trivial⟩

theorem position_unblamed : Unblamed (fun _ => True) position :=
  fun _ _ => ⟨trivial, trivial⟩

theorem onEngines_unblamed {α : Type} {op : EnginePool.Step α} {a : α}
    (yields : Yields (fun _ => True) op (· = .ok a)) : Unblamed (· = a) (onEngines op) := by
  intro w _
  obtain ⟨engines, run⟩ := onEngines_run yields w
  rw [run]
  exact ⟨rfl, trivial⟩

/-- Modules are sealed with keys that the engines take. -/
theorem sealModule_unblamed {r : SealRequest} (keyed : r.Keyed) :
    Unblamed (fun _ => True) (sealModule r) := by
  have encrypts : Unblamed (fun _ => True) (onRandom (r.sealer.encrypt r.aad r.plaintext)) :=
    fun w _ => ⟨(keyed.encrypt w.random trivial).1, trivial⟩
  exact encrypts.seq fun _ _ _ _ => ⟨trivial, trivial⟩

/-- A module that is asked for and sealed, and what is done with it. -/
theorem sealAsked_unblamed {α : Type} {Good : α → Prop} {answer : Except Error SealRequest}
    {rest : Bytes → Step α} (asked : Configured SealRequest.Keyed answer)
    (others : ∀ module, Unblamed Good (rest module)) :
    Unblamed Good (do
      let request ← liftM answer
      let module ← sealModule request
      rest module) :=
  .seq (.lift asked) fun _ keyed => .seq (sealModule_unblamed keyed) fun module _ => others module

/-! ### Column chunks -/

/-- The sealer of the chunk, if it has one, takes its keys. -/
def ChunkProgress.Keyed (p : ChunkProgress) : Prop :=
  ∀ s ∈ p.sealer, s.Keyed

variable {p : ChunkProgress}

theorem chunkSealer_unblamed (rowGroup ordinal : Nat) (path : ColumnPath) :
    Unblamed (fun sealer => ∀ s ∈ sealer, s.Keyed) (chunkSealer rowGroup ordinal path) := by
  rw [chunkSealer]
  refine .get fun w => ?_
  cases w.encryption with
  | none =>
      refine .pure (Avoids.ok ?_)
      rintro _ ⟨⟩
  | some e =>
      refine (onEngines_unblamed (ColumnSealer.ofColumn?_yields e rowGroup ordinal path)).mono ?_
      rintro (_ | _) h
      · exact h
      · obtain rfl := h
        intro s hs
        obtain ⟨key, _, rfl⟩ := Option.map_eq_some_iff.mp hs
        exact ⟨key.sealer_keyed _ _, key.sealer_keyed _ _⟩

theorem storedBody_unblamed (keyed : p.Keyed) (kind : PageKind) (body : Bytes) :
    Unblamed (fun stored => stored.2.Keyed) (storedBody p kind body) := by
  rw [storedBody]
  cases sealer : p.sealer with
  | none => exact .pure keyed
  | some s =>
      obtain ⟨asked, next⟩ := (keyed s sealer).sealBody kind body
      refine sealAsked_unblamed asked fun module => .pure ?_
      rintro _ ⟨⟩
      exact next

theorem storedHeader_unblamed (keyed : p.Keyed) (header : PageHeader) :
    Unblamed (fun stored => stored.2.Keyed) (storedHeader p header) := by
  rw [storedHeader]
  cases sealer : p.sealer with
  | none => exact .pure keyed
  | some s =>
      obtain ⟨asked, next⟩ := (keyed s sealer).sealHeader header
      refine sealAsked_unblamed asked fun module => .pure ?_
      rintro _ ⟨⟩
      exact next

theorem ChunkProgress.Keyed.record (keyed : p.Keyed) (page : PlannedPage)
    (offset uncompressedSize compressedSize : Nat) :
    Configured ChunkProgress.Keyed (p.record page offset uncompressedSize compressedSize) := by
  rw [ChunkProgress.record]
  dsimp only
  cases page.kind with
  | dictionary => exact .ok keyed
  | data =>
      refine (int64_configured _).bind fun _ _ => (int32_configured _).bind fun _ _ => ?_
      refine (int64_configured _).bind fun _ _ => .ok ?_
      intro s hs
      obtain ⟨s', hs', rfl⟩ := Option.map_eq_some_iff.mp hs
      exact ⟨(keyed s' hs').metadata, (keyed s' hs').data⟩

theorem writePage_unblamed (keyed : p.Keyed) (page : PlannedPage) :
    Unblamed ChunkProgress.Keyed (writePage p page) := by
  rw [writePage]
  refine .seq (.lift (uint32_configured _)) fun _ _ => .seq position_unblamed fun _ _ => ?_
  refine .seq (storedBody_unblamed keyed page.kind page.body) fun body keyed => ?_
  refine .seq (.lift (int32_configured _)) fun _ _ =>
    .seq (.lift (int32_configured _)) fun _ _ => ?_
  refine .seq (.lift (int32_configured _)) fun _ _ => ?_
  refine .seq (storedHeader_unblamed keyed _) fun header keyed => ?_
  refine .seq (put_unblamed _) fun _ _ => .seq (put_unblamed _) fun _ _ => ?_
  exact .lift (keyed.record page _ _ _)

theorem writePages_unblamed (keyed : p.Keyed) (pages : List PlannedPage) :
    Unblamed ChunkProgress.Keyed (writePages p pages) := by
  induction pages generalizing p with
  | nil => exact .pure keyed
  | cons page pages ih => exact .seq (writePage_unblamed keyed page) fun _ keyed => ih keyed

theorem metaData_configured (p : ChunkProgress) (column : Column) (numValues start : Nat) :
    Configured.Plainly (p.metaData column numValues start) := by
  have dictionary : Configured.Plainly (p.dictionaryOffset.mapM int64) := by
    cases p.dictionaryOffset with
    | none => exact .ok trivial
    | some offset => exact (int64_configured offset).bind fun _ _ => .ok trivial
  refine (int64_configured _).bind fun _ _ => (int64_configured _).bind fun _ _ => ?_
  refine (int64_configured _).bind fun _ _ => (int64_configured _).bind fun _ _ => ?_
  exact dictionary.bind fun _ _ => .ok trivial

theorem chunkEntry_unblamed (column : Column) (m : ColumnMetaData) {sealer : Option ColumnSealer}
    (keyed : ∀ s ∈ sealer, s.Keyed) :
    Unblamed (fun _ => True) (chunkEntry column m sealer) := by
  rw [chunkEntry]
  refine .get fun w => ?_
  dsimp only
  generalize (w.encryption.bind fun e => e.properties.columnCrypto column.path) = crypto
  cases sealer with
  | none =>
      rcases crypto with _ | _ | _
      · exact .pure trivial
      · exact .pure trivial
      · exact .pure trivial
  | some s =>
      have asked := (keyed s rfl).sealMetaData m
      rcases crypto with _ | _ | info
      · exact .pure trivial
      · dsimp only
        split
        · exact .pure trivial
        · exact sealAsked_unblamed asked fun _ => .pure trivial
      · exact sealAsked_unblamed asked fun _ => .pure trivial

theorem writeChunk_unblamed (rowGroup ordinal : Nat) (column : Column) (values : ColumnValues) :
    Unblamed (fun _ => True) (writeChunk rowGroup ordinal column values) := by
  rw [writeChunk]
  refine .seq (chunkSealer_unblamed rowGroup ordinal column.path) fun sealer keyed => ?_
  refine .get fun w => .guard rfl (.seq position_unblamed fun start _ => ?_)
  refine .seq (.lift (PagePlan.ofValues_configured _ _ _)) fun pages _ => ?_
  refine .seq (writePages_unblamed (p := { sealer }) keyed pages) fun p keyed => ?_
  refine .seq (.lift (metaData_configured p column _ _)) fun m _ => ?_
  have entry : ∀ storedIndex : Bytes, Unblamed (fun _ => True) (do
      let c ← chunkEntry column m p.sealer
      return (c, storedIndex) : Step (ColumnChunk × Bytes)) :=
    fun _ => .seq (chunkEntry_unblamed column m keyed) fun _ _ => .pure trivial
  split
  · exact Yields.seq (R := Configured.Plainly) (.pure trivial) (fun index _ => entry index)
      fun _ h => h
  · next s sealer => exact sealAsked_unblamed ((keyed s sealer).sealOffsetIndex _) entry

theorem writeChunks_unblamed (rowGroup ordinal : Nat) (acc : List (ColumnChunk × Bytes))
    (columns : List (Column × ColumnValues)) :
    Unblamed (fun _ => True) (writeChunks rowGroup ordinal acc columns) := by
  induction columns generalizing ordinal acc with
  | nil => exact .pure trivial
  | cons first columns ih =>
      exact .seq (writeChunk_unblamed rowGroup ordinal first.1 first.2) fun chunk _ =>
        ih (ordinal + 1) (chunk :: acc)

/-! ### Calls -/

theorem checkUsable_unblamed : Unblamed (fun _ => True) checkUsable := by
  refine .get fun w => ?_
  cases w.phase with
  | usable => exact .pure trivial
  | failed => exact .throw (Avoids.error rfl)
  | finished => exact .throw (Avoids.error rfl)

theorem checkRows_configured (rows : Nat) (columns : List (Column × ColumnValues)) :
    Configured.Plainly (checkRows rows columns) := by
  induction columns with
  | nil => exact .ok trivial
  | cons first columns ih => exact .ite (fun _ => .error rfl) fun _ => ih

theorem writeColumns_unblamed (index : Nat) (ordinal : Option Int16) (rows : Nat)
    (columns : List (Column × ColumnValues)) :
    Unblamed (fun _ => True) (writeColumns index ordinal rows columns) := by
  rw [writeColumns]
  refine .seq position_unblamed fun _ _ =>
    .seq (writeChunks_unblamed index 0 [] columns) fun _ _ => ?_
  refine .seq position_unblamed fun _ _ => .seq (.lift (int64_configured _)) fun _ _ => ?_
  refine .seq (.lift (int64_configured _)) fun _ _ =>
    .seq (.lift (int64_configured _)) fun _ _ => ?_
  exact fun _ _ => ⟨trivial, trivial⟩

theorem failingFor_unblamed {α : Type} {Good : α → Prop} {op : Step α} (h : Unblamed Good op) :
    Unblamed Good (failingFor op) := by
  intro w _
  have result := (h w trivial).1
  rw [failingFor]
  generalize op w = outcome at result ⊢
  rcases outcome with ⟨e | a, after⟩
  · exact ⟨result, trivial⟩
  · exact ⟨result, trivial⟩

theorem writeRowGroup_unblamed (columns : List ColumnValues) :
    Unblamed (fun _ => True) (writeRowGroup columns) := by
  rw [writeRowGroup]
  refine .seq checkUsable_unblamed fun _ _ => .get fun w => .guard rfl ?_
  refine .seq (.lift (checkRows_configured _ _)) fun _ _ => .guard rfl ?_
  exact failingFor_unblamed (writeColumns_unblamed _ _ _ _)

/-- Positions and lengths of offset indexes may be too large, and the sink may be full. -/
theorem placeChunkIndexes_configured (done chunks : List ColumnChunk) (indexes : List Bytes)
    (sink : Sink) : Configured.Plainly (placeChunkIndexes done chunks indexes sink).2.1 := by
  induction chunks generalizing done indexes sink with
  | nil => exact .ok trivial
  | cons c chunks ih =>
      cases indexes with
      | nil => exact .ok trivial
      | cons index indexes =>
          have written := accepted_configured (Sink.writeAll_accepts index sink rfl).1
          rw [placeChunkIndexes]
          dsimp only
          generalize (Sink.writeAll index : Sink.Step Unit) sink = outcome at written ⊢
          rcases outcome with ⟨e | _, sink'⟩
          · exact written
          have offset := int64_configured sink.bytesWritten
          dsimp only
          generalize int64 sink.bytesWritten = start at offset ⊢
          cases start with
          | error e => exact offset
          | ok start =>
              have length := int32_configured index.length
              dsimp only
              generalize int32 index.length = length' at length ⊢
              cases length' with
              | error e => exact length
              | ok length' => exact ih _ _ _

theorem placeIndexes_configured (done : Array RowGroup) (groups : List RowGroup)
    (indexes : List (List Bytes)) (sink : Sink) :
    Configured.Plainly (placeIndexes done groups indexes sink).2.1 := by
  induction groups generalizing done indexes sink with
  | nil => exact .ok trivial
  | cons g groups ih =>
      cases indexes with
      | nil => exact .ok trivial
      | cons first indexes =>
          have placed := placeChunkIndexes_configured [] g.columns first sink
          rw [placeIndexes]
          generalize placeChunkIndexes [] g.columns first sink = outcome at placed ⊢
          rcases outcome with ⟨columns, e | _, sink'⟩
          · exact placed
          · exact ih _ _ _

theorem writeIndexes_unblamed : Unblamed (fun _ => True) writeIndexes :=
  fun w _ => ⟨placeIndexes_configured _ _ _ w.sink, trivial⟩

theorem writeMetadataSection_unblamed (m : FileMetaData) :
    Unblamed (fun _ => True) (writeMetadataSection m) := by
  rw [writeMetadataSection]
  refine .get fun w => ?_
  cases w.encryption with
  | none => exact put_unblamed _
  | some e =>
      have sealer := onEngines_unblamed e.footerSealer_yields
      have asked : Configured SealRequest.Keyed (e.sealFooter
          (e.properties.footerKey.sealer e.properties.algorithm .metadata) (Wire.encode m)) :=
        (moduleAad_configured _ _ _ _ _).bind fun _ _ => e.properties.footerKey.sealer_keyed _ _
      dsimp only
      split
      · refine .seq (put_unblamed _) fun _ _ => .seq sealer ?_
        rintro _ rfl
        exact sealAsked_unblamed asked put_unblamed
      · refine .seq sealer ?_
        rintro _ rfl
        refine .seq (put_unblamed _) fun _ _ => sealAsked_unblamed asked fun module => ?_
        exact .seq (put_unblamed _) fun _ _ => put_unblamed _

theorem finish_unblamed : Unblamed (fun _ => True) finish := by
  have footer (m : FileMetaData) : Unblamed (fun _ => True) (writeFooter m) := by
    rw [writeFooter]
    refine .seq position_unblamed fun _ _ => .seq (writeMetadataSection_unblamed m) fun _ _ => ?_
    refine .seq position_unblamed fun _ _ => .seq (.lift (uint32_configured _)) fun _ _ => ?_
    exact .seq (put_unblamed _) fun _ _ => .get fun w => put_unblamed _
  have flushed : Unblamed (fun _ => True) (onSink Sink.flush) :=
    fun w _ => ⟨accepted_configured (Sink.empty_accepts w.sink rfl).1, trivial⟩
  have marked (f : FileWriter → FileWriter) : Unblamed (fun _ => True) (modify f : Step PUnit) :=
    fun _ _ => ⟨trivial, trivial⟩
  rw [finish]
  refine .seq checkUsable_unblamed fun _ _ => .seq (marked _) fun _ _ => ?_
  refine .seq writeIndexes_unblamed fun _ _ => .get fun w => ?_
  refine .seq (footer _) fun _ _ => .seq flushed fun _ _ => .seq (marked _) fun _ _ => ?_
  exact .pure trivial

theorem release_unblamed : Unblamed (fun _ => True) release := by
  have released : Unblamed (fun _ => True) (onSink Sink.release) := by
    intro w _
    rw [onSink, Sink.release]
    generalize (Sink.empty : Sink.Step Unit) w.sink = outcome
    rcases outcome with ⟨e | _, sink⟩
    · exact ⟨Avoids.error rfl, trivial⟩
    · exact ⟨trivial, trivial⟩
  rw [release]
  refine .get fun w => ?_
  split
  · exact .seq finish_unblamed fun _ _ => released
  · exact released

/-- Whatever is asked of a writer, and in whatever state it is, it does not blame the
configuration of encryption. -/
theorem call_unblamed (c : Call) : Unblamed (fun _ => True) (call c) := by
  cases c with
  | writeRowGroup columns => exact writeRowGroup_unblamed columns
  | finish => exact .seq finish_unblamed fun _ _ => .pure trivial
  | release => exact .seq release_unblamed fun _ _ => .pure trivial

end FileWriter

end SealedColumns
