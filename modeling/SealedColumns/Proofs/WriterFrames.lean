import SealedColumns.Proofs.SealLog

/-!
# What a writer leaves alone, also when it fails

An operation of a writer may fail between any two of its effects. Until a row group is complete,
only the sink, the source of random bytes, the record of seals and the engines have changed, so that
a failure leaves the row groups before it as they were. An attempt to finish may enter the places of
offset indexes, and changes nothing else about the row groups, wherever it fails.

A property of writers that sealing and writing bytes cannot break is `Robust`. The property itself
may be about the sink, as long as writing keeps it.
-/

namespace SealedColumns.FileWriter

variable {K : FileWriter → Prop} {w : FileWriter}

/-- What holds again after modules were sealed, with engines made for them, and bytes written. -/
structure Robust (K : FileWriter → Prop) : Prop where
  sealed : ∀ w random seals engines, K w → K { w with random, seals, engines }
  put : ∀ bs, Preserves K (put bs)

theorem Steady.robust (steady : Steady K) : Robust K where
  sealed w random seals engines kept := steady w random w.sink seals engines kept
  put _ w kept := ⟨trivial, steady w w.random _ w.seals w.engines kept⟩

/-! ### Row groups -/

section

variable (robust : Robust K)
include robust

theorem sealModule_preserves (request : SealRequest) : Preserves K (sealModule request) := by
  intro w kept
  refine ⟨trivial, ?_⟩
  obtain ⟨record, run, _⟩ | ⟨e, random, run⟩ := sealModule_cases request w
  · rw [run]
    exact robust.sealed w _ _ w.engines kept
  · rw [run]
    exact robust.sealed w random w.seals w.engines kept

theorem onEngines_preserves {α : Type} (op : EnginePool.Step α) : Preserves K (onEngines op) :=
  fun w kept => ⟨trivial, robust.sealed w w.random w.seals _ kept⟩

theorem chunkSealer_preserves (rowGroup ordinal : Nat) (path : ColumnPath) :
    Preserves K (chunkSealer rowGroup ordinal path) := by
  rw [chunkSealer]
  refine .get_bind fun w kept => ?_
  cases w.encryption with
  | none => exact ⟨trivial, kept⟩
  | some e => exact onEngines_preserves robust _ w kept

/-- A module that is asked for and sealed, and what is done with it. -/
theorem sealAsked_preserves {α : Type} (answer : Except Error SealRequest) {rest : Bytes → Step α}
    (others : ∀ module, Preserves K (rest module)) :
    Preserves K (do
      let request ← liftM answer
      let module ← sealModule request
      rest module) :=
  .seq .lift fun request => .seq (sealModule_preserves robust request) others

theorem storedBody_preserves (p : ChunkProgress) (kind : PageKind) (body : Bytes) :
    Preserves K (storedBody p kind body) := by
  rw [storedBody]
  cases p.sealer with
  | none => exact .pure
  | some s => exact sealAsked_preserves robust _ fun _ => .pure

theorem storedHeader_preserves (p : ChunkProgress) (header : PageHeader) :
    Preserves K (storedHeader p header) := by
  rw [storedHeader]
  cases p.sealer with
  | none => exact .pure
  | some s => exact sealAsked_preserves robust _ fun _ => .pure

omit robust in
theorem position_preserves : Preserves K position :=
  fun _ kept => ⟨trivial, kept⟩

theorem writePage_preserves (p : ChunkProgress) (page : PlannedPage) :
    Preserves K (writePage p page) := by
  rw [writePage]
  refine .seq .lift fun _ => .seq position_preserves fun _ => ?_
  refine .seq (storedBody_preserves robust p page.kind page.body) fun body => ?_
  refine .seq .lift fun _ => .seq .lift fun _ => .seq .lift fun _ => ?_
  refine .seq (storedHeader_preserves robust body.2 _) fun header => ?_
  exact .seq (robust.put _) fun _ => .seq (robust.put _) fun _ => .lift

theorem writePages_preserves (p : ChunkProgress) (pages : List PlannedPage) :
    Preserves K (writePages p pages) := by
  induction pages generalizing p with
  | nil => exact .pure
  | cons page pages ih => exact .seq (writePage_preserves robust p page) ih

theorem chunkEntry_preserves (column : Column) (m : ColumnMetaData) (sealer : Option ColumnSealer) :
    Preserves K (chunkEntry column m sealer) := by
  rw [chunkEntry]
  refine .get_bind fun w kept => ?_
  dsimp only
  generalize (w.encryption.bind fun e => e.properties.columnCrypto column.path) = crypto
  cases sealer with
  | none =>
      rcases crypto with _ | _ | _
      · exact ⟨trivial, kept⟩
      · exact ⟨trivial, kept⟩
      · exact ⟨trivial, kept⟩
  | some s =>
      rcases crypto with _ | _ | info
      · exact ⟨trivial, kept⟩
      · dsimp only
        split
        · exact ⟨trivial, kept⟩
        · exact sealAsked_preserves robust _ (fun _ => .pure) w kept
      · exact sealAsked_preserves robust _ (fun _ => .pure) w kept

theorem writeChunk_preserves (rowGroup ordinal : Nat) (column : Column) (values : ColumnValues) :
    Preserves K (writeChunk rowGroup ordinal column values) := by
  rw [writeChunk]
  refine .seq (chunkSealer_preserves robust rowGroup ordinal column.path) fun sealer => ?_
  refine .get_bind fun w kept => ?_
  split
  · exact ⟨trivial, kept⟩
  · refine Preserves.seq position_preserves (fun start => ?_) w kept
    refine .seq .lift fun pages => .seq (writePages_preserves robust _ pages) fun p => ?_
    refine .seq .lift fun m => ?_
    have entry : ∀ storedIndex : Bytes, Preserves K (do
        let c ← chunkEntry column m p.sealer
        return (c, storedIndex)) :=
      fun _ => .seq (chunkEntry_preserves robust column m p.sealer) fun _ => .pure
    split
    · exact .seq .pure entry
    · exact sealAsked_preserves robust _ entry

theorem writeChunks_preserves (rowGroup ordinal : Nat) (acc : List (ColumnChunk × Bytes))
    (columns : List (Column × ColumnValues)) :
    Preserves K (writeChunks rowGroup ordinal acc columns) := by
  induction columns generalizing ordinal acc with
  | nil => exact .pure
  | cons first columns ih =>
      exact .seq (writeChunk_preserves robust rowGroup ordinal first.1 first.2) fun chunk =>
        ih (ordinal + 1) (chunk :: acc)

/-- Nothing is entered into the list of row groups before the columns are written, and then one row
group is. -/
theorem writeColumns_frame (index rows : Nat) (ordinal : Option Int16)
    (columns : List (Column × ColumnValues)) :
    Contract K (writeColumns index ordinal rows columns)
      (fun _ w₁ => ∃ w₂ g indexes, K w₂ ∧ w₁ = { w₂ with
        rowGroups := w₂.rowGroups.push g
        offsetIndexes := w₂.offsetIndexes.push indexes }) K := by
  rw [writeColumns]
  refine .seq position_preserves.contract fun start => ?_
  refine .seq (writeChunks_preserves robust index 0 [] columns).contract fun chunks => ?_
  refine .seq position_preserves.contract fun stop => ?_
  have failed : ∀ w, K w → K w := fun _ kept => kept
  refine .lift (fun _ _ => .lift (fun _ _ => .lift (fun _ _ => ?_) failed) failed) failed
  exact fun w kept => ⟨w, _, _, kept, rfl⟩

end

/-! ### Finishing -/

theorem steady_entered (w : FileWriter) : Steady (Entered w) :=
  fun _ _ _ _ _ entered =>
    ⟨entered.settings.trans ⟨rfl, rfl, rfl⟩, entered.phase, entered.rowGroups⟩

section

variable (robust : Robust K)
include robust

theorem writeMetadataSection_preserves (m : FileMetaData) : Preserves K
    (writeMetadataSection m) := by
  rw [writeMetadataSection]
  refine .get_bind fun w kept => ?_
  cases w.encryption with
  | none => exact robust.put _ w kept
  | some e =>
      dsimp only
      split
      · refine Preserves.seq (robust.put _) (fun _ => ?_) w kept
        exact .seq (onEngines_preserves robust _) fun _ => sealAsked_preserves robust _ robust.put
      · refine Preserves.seq (onEngines_preserves robust _) (fun _ => ?_) w kept
        exact .seq (robust.put _) fun _ => sealAsked_preserves robust _ fun _ =>
          .seq (robust.put _) fun _ => robust.put _

theorem writeFooter_preserves (m : FileMetaData) : Preserves K (writeFooter m) := by
  rw [writeFooter]
  refine .seq position_preserves fun start => ?_
  refine .seq (writeMetadataSection_preserves robust m) fun _ => ?_
  refine .seq position_preserves fun stop => .seq .lift fun length => ?_
  exact .seq (robust.put _) fun _ => .get_bind fun w kept => robust.put _ w kept

/-- What finishing does behind the offset indexes. -/
theorem complete_preserves (flush : Preserves K (onSink Sink.flush)) (w : FileWriter)
    (kept : K (writeIndexes w).2) : K (complete w).2 := by
  have rest : ∀ u : Unit, Preserves K (do
      let metaData := (← get).fileMetaData
      writeFooter metaData
      onSink Sink.flush
      modify fun w => { w with engines := {} }
      return metaData : Step FileMetaData) := by
    intro _
    refine .get_bind fun w₁ kept₁ => ?_
    refine Preserves.seq (writeFooter_preserves robust _) (fun _ => ?_) w₁ kept₁
    refine .seq flush fun _ => .seq (.of_yields (.modify fun w kept => ?_)) fun _ => .pure
    exact robust.sealed w w.random w.seals {} kept
  -- Offset indexes are entered on the way, so that they are left to the caller.
  rw [complete, Operation.run_bind]
  generalize writeIndexes w = outcome at kept ⊢
  obtain ⟨_ | u, w₁⟩ := outcome
  · exact kept
  · exact (rest u w₁ kept).2

end

/-- However an attempt to finish ends, the row groups have at most been told where their offset
indexes are. -/
theorem complete_entered (w : FileWriter) : Entered w (complete w).2 :=
  complete_preserves (steady_entered w).robust
    (fun w₁ entered => ⟨trivial, steady_entered w w₁ w₁.random _ w₁.seals w₁.engines entered⟩) w
    (writeIndexes_entered w)

end SealedColumns.FileWriter
