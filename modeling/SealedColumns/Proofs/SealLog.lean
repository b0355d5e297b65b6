import SealedColumns.Proofs.ModulePlaces
import SealedColumns.Proofs.WrittenFile

/-!
# Modules are sealed once, in order, each under the next nonce

While a writer is usable, its record of seals holds the modules of the row groups that it has taken
in, in the order of their places, and nothing was drawn from the source but their nonces. The
operations of the writer are followed through with `Logs`: each starts at a point that all sealed
modules come before, seals modules behind it, and goes on to another point if it succeeds.

A failure may waste a nonce, and leaves modules of a row group that was not taken in. It also ends
the use of the writer, so neither can lead to a place being used again. The footer comes last, since
an attempt to finish ends the use of the writer too.
-/

namespace SealedColumns

/-- The nonce that is drawn from a source after `k` others. -/
def RandomSource.nonce (source : RandomSource) (k : Nat) : Bytes :=
  { source with position := source.position + nonceLength * k }.upcoming nonceLength

/-- Encrypting draws a nonce and uses it, or fails. -/
theorem Engine.encrypt_cases (engine : Engine) (plaintext key aad : Bytes) (source : RandomSource) :
    (∃ stored, engine.encrypt plaintext key aad source =
        (.ok stored, { source with position := source.position + nonceLength }) ∧
      engine.encryptWithNonce plaintext key aad (source.upcoming nonceLength) = .ok stored) ∨
      ∃ e after, engine.encrypt plaintext key aad source = (.error e, after) := by
  rw [Engine.encrypt_run]
  by_cases enough : source.has nonceLength = true
  · rw [if_pos enough]
    cases engine.encryptWithNonce plaintext key aad (source.upcoming nonceLength) with
    | error e => exact .inr ⟨e, _, rfl⟩
    | ok stored => exact .inl ⟨stored, rfl, rfl⟩
  · rw [if_neg enough]
    exact .inr ⟨_, _, rfl⟩

/-- The recorded module is what the cipher makes of the recorded request under the recorded
nonce. -/
def SealRecord.Genuine (record : SealRecord) : Prop :=
  record.request.sealer.engine.encryptWithNonce record.request.plaintext
    record.request.sealer.key.bytes record.aad record.nonce = .ok record.sealedModule

namespace FileWriter

/-- Sealing draws a nonce and records the module with it, or fails without a record. -/
theorem sealModule_cases (request : SealRequest) (w : FileWriter) :
    (∃ record : SealRecord, sealModule request w = (.ok record.sealedModule, { w with
        random := { w.random with position := w.random.position + nonceLength }
        seals := w.seals.push record }) ∧
      record.request = request ∧ record.nonce = w.random.upcoming nonceLength ∧
      record.Genuine) ∨
      ∃ e random, sealModule request w = (.error e, { w with random }) := by
  rw [sealModule, ModuleSealer.encrypt, Operation.run_bind, onRandom]
  obtain ⟨stored, run, sealing⟩ | ⟨e, after, run⟩ := Engine.encrypt_cases
    request.sealer.engine request.plaintext request.sealer.key.bytes request.aad w.random
  · have length : (w.random.upcoming nonceLength).length = nonceLength := by
      simp [RandomSource.upcoming]
    obtain ⟨_, _, form⟩ := Engine.encryptWithNonce_eq_ok.mp sealing
    have nonce : (stored.drop lengthWidth).take nonceLength = w.random.upcoming nonceLength := by
      rw [form, List.drop_left' (Bytes.length_ofNat _ _), List.take_left' length]
    refine .inl ⟨⟨request, w.random.upcoming nonceLength, stored⟩, ?_, rfl, rfl, sealing⟩
    rw [run]
    dsimp only
    rw [Operation.run_modify_bind, nonce]
    rfl
  · refine .inr ⟨e, after, ?_⟩
    rw [run]

/-! ### The record of seals -/

/-- The record of seals holds what the cipher made, under one nonce after the other from the source,
and no module twice. -/
structure SealLog (K : FileWriter → Prop) (e : FileEncryption) (source : RandomSource)
    (w : FileWriter) : Prop where
  kept : K w
  encryption : w.encryption = some e
  nonces : w.seals.toList.map SealRecord.nonce = (List.range w.seals.size).map source.nonce
  distinct : (w.seals.toList.map SealRecord.aad).Nodup
  genuine : ∀ record ∈ w.seals, record.Genuine

/-- In addition, no nonce was drawn without being used, and all modules come before a point. -/
structure SealedUpTo (K : FileWriter → Prop) (e : FileEncryption) (source : RandomSource) (t : Mark)
    (w : FileWriter) : Prop extends SealLog K e source w where
  random : w.random = { source with position := source.position + nonceLength * w.seals.size }
  before : ∀ record ∈ w.seals.toList, ∃ q : ModulePlace,
    q.Before t ∧ q.aad e.fileAad = .ok record.aad

/-- What is kept does not depend on the sink, the source of random bytes, the record of
seals and the engines. -/
def Steady (K : FileWriter → Prop) : Prop :=
  ∀ w random sink seals engines, K w → K { w with random, sink, seals, engines }

variable {K : FileWriter → Prop} {e : FileEncryption} {source : RandomSource} {t u : Mark}
variable {w : FileWriter}

/-- The record is the same after changes elsewhere. -/
theorem SealLog.carry {L : FileWriter → Prop} {w' : FileWriter} (h : SealLog K e source w)
    (kept : L w') (encryption : w'.encryption = w.encryption) (seals : w'.seals = w.seals) :
    SealLog L e source w' where
  kept := kept
  encryption := encryption.trans h.encryption
  nonces := by
    rw [seals]
    exact h.nonces
  distinct := by
    rw [seals]
    exact h.distinct
  genuine := by
    rw [seals]
    exact h.genuine

theorem SealedUpTo.carry {L : FileWriter → Prop} {w' : FileWriter} (h : SealedUpTo K e source t w)
    (kept : L w') (encryption : w'.encryption = w.encryption) (seals : w'.seals = w.seals)
    (random : w'.random = w.random) : SealedUpTo L e source t w' where
  toSealLog := h.toSealLog.carry kept encryption seals
  random := by
    rw [random, seals]
    exact h.random
  before := by
    rw [seals]
    exact h.before

theorem SealedUpTo.mono (h : SealedUpTo K e source t w) (le : t.AtMost u) :
    SealedUpTo K e source u w where
  toSealLog := h.toSealLog
  random := h.random
  before record hrecord := by
    obtain ⟨q, before, aad⟩ := h.before record hrecord
    exact ⟨q, before.mono le, aad⟩

/-- A new module is recorded under the next nonce. -/
theorem SealedUpTo.log_record {q : ModulePlace} {record : SealRecord} (steady : Steady K)
    (h : SealedUpTo K e source t w) (place : q.aad e.fileAad = .ok record.aad)
    (nonce : record.nonce = w.random.upcoming nonceLength) (genuine : record.Genuine)
    (fresh : ∀ q' : ModulePlace, q'.Before t → ¬ q'.Same q) :
    SealLog K e source { w with
      random := { w.random with position := w.random.position + nonceLength }
      seals := w.seals.push record } where
  kept := steady w _ w.sink _ w.engines h.kept
  encryption := h.encryption
  nonces := by
    have drawn : record.nonce = source.nonce w.seals.size := by
      rw [nonce, h.random]
      rfl
    simp [List.range_succ, h.nonces, drawn]
  distinct := by
    rw [Array.toList_push, List.map_append, List.map_singleton, List.nodup_append]
    refine ⟨h.distinct, by simp, ?_⟩
    intro old hold new hnew same
    obtain ⟨record, hrecord, rfl⟩ := List.mem_map.mp hold
    obtain ⟨q', before, aad'⟩ := h.before record hrecord
    rw [same, List.mem_singleton.mp hnew] at aad'
    exact fresh q' before (ModulePlace.same_of_aad aad' place)
  genuine new hnew := by
    obtain old | rfl := Array.mem_push.mp hnew
    · exact h.genuine new old
    · exact genuine

theorem SealedUpTo.record {q : ModulePlace} {record : SealRecord} (steady : Steady K)
    (h : SealedUpTo K e source t w) (place : q.aad e.fileAad = .ok record.aad)
    (nonce : record.nonce = w.random.upcoming nonceLength) (genuine : record.Genuine)
    (other : q.kind ≠ .footer) (reached : t.AtMost q.mark) :
    SealedUpTo K e source q.mark.next { w with
      random := { w.random with position := w.random.position + nonceLength }
      seals := w.seals.push record } where
  toSealLog := h.log_record steady place nonce genuine fun _ before =>
    ModulePlace.not_same_of_before before reached
  random := by
    rw [h.random, Array.size_push, Nat.mul_succ, Nat.add_assoc]
  before sealed hsealed := by
    rw [Array.toList_push, List.mem_append, List.mem_singleton] at hsealed
    obtain old | rfl := hsealed
    · obtain ⟨q', before, aad'⟩ := h.before sealed old
      exact ⟨q', (before.mono reached).mono (.next _), aad'⟩
    · exact ⟨q, ⟨other, .refl _⟩, place⟩

/-- An operation that starts with all modules before a point seals only modules behind it, and goes
on to another point if it succeeds. -/
def Logs {α : Type} (K : FileWriter → Prop) (e : FileEncryption) (source : RandomSource) (t : Mark)
    (op : Step α) (Q : α → Mark → Prop) : Prop :=
  Contract (SealedUpTo K e source t) op (fun a w => ∃ u, Q a u ∧ SealedUpTo K e source u w)
    (SealLog K e source)

namespace Logs

variable {α β : Type} {op : Step α} {Q : α → Mark → Prop} {R : β → Mark → Prop}

/-- What follows may lead to states of any kind. -/
theorem andThen {f : α → Step β} {S : β → FileWriter → Prop} (first : Logs K e source t op Q)
    (rest : ∀ a u, Q a u → Contract (SealedUpTo K e source u) (f a) S (SealLog K e source)) :
    Contract (SealedUpTo K e source t) (op >>= f) S (SealLog K e source) := by
  apply Contract.seq first
  intro a w h
  obtain ⟨u, hu, sealed⟩ := h
  exact rest a u hu w sealed

theorem seq {f : α → Step β} (first : Logs K e source t op Q)
    (rest : ∀ a u, Q a u → Logs K e source u (f a) R) : Logs K e source t (op >>= f) R :=
  first.andThen rest

theorem pure {a : α} (h : Q a t) : Logs K e source t (Pure.pure a) Q :=
  .done fun _ sealed => ⟨t, h, sealed⟩

theorem throw {error : Error} : Logs K e source t (MonadExcept.throw error) Q :=
  .fails fun _ sealed => sealed.toSealLog

theorem lift {x : Except Error α} {f : α → Step β}
    (rest : ∀ a, x = .ok a → Logs K e source t (f a) R) :
    Logs K e source t (liftM x >>= f) R :=
  Contract.lift rest fun _ sealed => sealed.toSealLog

/-- A computation of a value at the end. -/
theorem lifted {x : Except Error α} (h : ∀ a, x = .ok a → Q a t) : Logs K e source t
    (liftM x) Q := by
  cases x with
  | error error => exact throw
  | ok a => exact pure (h a rfl)

theorem get {f : FileWriter → Step β}
    (rest : ∀ w, K w → w.encryption = some e → Logs K e source t (f w) R) :
    Logs K e source t (MonadState.get >>= f) R :=
  Contract.get fun w sealed => rest w sealed.kept sealed.encryption

theorem guard {c : Prop} [Decidable c] {error : Error} {f : α → Step β} {rest : Step β}
    (h : ¬ c → Logs K e source t rest R) :
    Logs K e source t (if c then MonadExcept.throw error >>= f else rest) R := by
  split
  · exact .fails fun _ sealed => sealed.toSealLog
  · next passed => exact h passed

end Logs

section

variable (steady : Steady K)
include steady

/-- Sealing the module of a place that was not reached before. -/
theorem sealModule_logs {q : ModulePlace} {request : SealRequest}
    (place : q.aad e.fileAad = .ok request.aad) (other : q.kind ≠ .footer)
    (reached : t.AtMost q.mark) :
    Logs K e source t (sealModule request) fun _ u => u = q.mark.next := by
  intro w sealed
  obtain ⟨record, run, rfl, nonce, genuine⟩ | ⟨error, random, run⟩ := sealModule_cases request w
  · rw [run]
    exact ⟨_, rfl, sealed.record steady place nonce genuine other reached⟩
  · rw [run]
    exact sealed.toSealLog.carry (steady w random w.sink w.seals w.engines sealed.kept) rfl rfl

/-- The sink is not the record's business. -/
theorem onSink_logs {α : Type} (op : Sink.Step α) :
    Logs K e source t (onSink op) fun _ u => u = t := by
  intro w sealed
  have kept : ∀ sink, SealedUpTo K e source t { w with sink } := fun sink =>
    sealed.carry (steady w w.random sink w.seals w.engines sealed.kept) rfl rfl rfl
  rw [onSink]
  cases op w.sink with
  | mk result sink =>
      cases result with
      | error error => exact (kept sink).toSealLog
      | ok a => exact ⟨t, rfl, kept sink⟩

theorem put_logs (bs : Bytes) : Logs K e source t (put bs) fun _ u => u = t :=
  onSink_logs steady _

/-- Neither are the engines. -/
theorem onEngines_logs {α : Type} {op : EnginePool.Step α} {a : α}
    (yields : Yields (fun _ => True) op (· = .ok a)) :
    Logs K e source t (onEngines op) fun b u => b = a ∧ u = t := by
  intro w sealed
  obtain ⟨engines, run⟩ := onEngines_run yields w
  rw [run]
  exact ⟨t, ⟨rfl, rfl⟩,
    sealed.carry (steady w w.random w.sink w.seals engines sealed.kept) rfl rfl rfl⟩

omit steady in
theorem position_logs : Logs K e source t position fun _ u => u = t :=
  .get fun _ _ _ => .pure rfl

/-! ### Column chunks -/

variable {rowGroup column page : Nat} {path : ColumnPath} {p : ChunkProgress}

/-- The module of a place in a chunk, as the sealer of the chunk asks for it. -/
theorem sealAsked_logs {α : Type} {s : ChunkSealing} {moduleClass : ModuleClass} {kind : ModuleKind}
    {ordinal : Option Nat} {plaintext : Bytes} {answer : Except Error SealRequest}
    {rest : Bytes → Step α} {Q : α → Mark → Prop}
    (sealing : chunkSealing (some e) rowGroup column path = some s)
    (asked : answer = (s.aad kind ordinal).map (⟨s.sealer moduleClass, ·, plaintext⟩))
    (other : kind ≠ .footer)
    (reached : t.AtMost (ModulePlace.mark ⟨kind, rowGroup, column, ordinal⟩))
    (h : ∀ module, Logs K e source (ModulePlace.mark ⟨kind, rowGroup, column, ordinal⟩).next
      (rest module) Q) :
    Logs K e source t (do
      let request ← liftM answer
      let module ← sealModule request
      rest module) Q := by
  refine .lift ?_
  intro request granted
  obtain ⟨aad, place, rfl⟩ := Except.map_eq_ok.mp (asked.symm.trans granted)
  obtain ⟨_, form⟩ := eq_of_chunkSealing sealing
  rw [form] at place
  refine .seq (sealModule_logs steady (q := ⟨kind, rowGroup, column, ordinal⟩) place other reached)
    ?_
  rintro module _ rfl
  exact h module

omit steady in
/-- The header of a page is sealed right behind the body. -/
theorem mark_header (kind : PageKind) (rowGroup column page : Nat) :
    ModulePlace.mark ⟨kind.headerModule, rowGroup, column, kind.ordinal page⟩ =
      (ModulePlace.mark ⟨kind.bodyModule, rowGroup, column, kind.ordinal page⟩).next := by
  cases kind <;> rfl

theorem storedBody_logs {kind : PageKind} {body : Bytes}
    (serves : p.Serves (chunkSealing (some e) rowGroup column path) page)
    (reached : t.AtMost (ModulePlace.mark ⟨kind.bodyModule, rowGroup, column, kind.ordinal page⟩)) :
    Logs K e source t (storedBody p kind body) fun a u =>
      a.2.Serves (chunkSealing (some e) rowGroup column path) page ∧
        u.AtMost (ModulePlace.mark ⟨kind.headerModule, rowGroup, column, kind.ordinal page⟩) := by
  rw [storedBody]
  have sealer := serves
  unfold ChunkProgress.Serves at sealer ⊢
  rw [mark_header]
  generalize p.sealer = current at sealer ⊢
  generalize hplace : chunkSealing (some e) rowGroup column path = sealing at sealer ⊢
  cases sealer with
  | none => exact .pure ⟨hplace ▸ serves, reached.trans (.next _)⟩
  | some current =>
      obtain ⟨asked, serves⟩ := current.sealBody kind body
      exact sealAsked_logs steady hplace asked (by cases kind <;> decide) reached
        fun module => .pure ⟨.some serves, .refl _⟩

theorem storedHeader_logs {header : PageHeader}
    (serves : p.Serves (chunkSealing (some e) rowGroup column path) page)
    (reached : t.AtMost
      (ModulePlace.mark ⟨header.kind.headerModule, rowGroup, column, header.kind.ordinal page⟩)) :
    Logs K e source t (storedHeader p header) fun a u =>
      a.2.Serves (chunkSealing (some e) rowGroup column path) page ∧
        u.AtMost (ModulePlace.mark
          ⟨header.kind.headerModule, rowGroup, column, header.kind.ordinal page⟩).next := by
  rw [storedHeader]
  have sealer := serves
  unfold ChunkProgress.Serves at sealer ⊢
  generalize p.sealer = current at sealer ⊢
  generalize hplace : chunkSealing (some e) rowGroup column path = sealing at sealer ⊢
  cases sealer with
  | none => exact .pure ⟨hplace ▸ serves, reached.trans (.next _)⟩
  | some current =>
      obtain ⟨asked, serves⟩ := current.sealHeader header
      exact sealAsked_logs steady hplace asked (by cases header.kind <;> decide) reached
        fun module => .pure ⟨.some serves, .refl _⟩

theorem writePage_logs {q : PlannedPage}
    (serves : p.Serves (chunkSealing (some e) rowGroup column path) page)
    (reached : t.AtMost
      (ModulePlace.mark ⟨q.kind.bodyModule, rowGroup, column, q.kind.ordinal page⟩)) :
    Logs K e source t (writePage p q) fun p' u =>
      p'.Serves (chunkSealing (some e) rowGroup column path) (q.kind.nextOrdinal page) ∧
        u.AtMost (ModulePlace.mark
          ⟨q.kind.headerModule, rowGroup, column, q.kind.ordinal page⟩).next := by
  rw [writePage]
  refine .lift ?_
  intro numValues _
  refine .seq position_logs ?_
  rintro offset _ rfl
  refine .seq (storedBody_logs steady serves reached) ?_
  rintro ⟨body, p₁⟩ u ⟨serves, reached⟩
  -- Three sizes are checked, which seals nothing.
  refine .lift fun _ _ => .lift fun _ _ => .lift fun _ _ => ?_
  refine .seq (storedHeader_logs steady serves reached) ?_
  rintro ⟨header, p₂⟩ u ⟨serves, reached⟩
  refine .seq (put_logs steady _) ?_
  rintro _ _ rfl
  refine .seq (put_logs steady _) ?_
  rintro _ _ rfl
  exact .lifted fun p₃ recorded => ⟨(record_eq_ok serves recorded).1, reached⟩

/-- Data pages are sealed in the order of their ordinals. -/
theorem writePages_logs {pages : List PlannedPage} (data : ∀ q ∈ pages, q.kind = .data)
    (serves : p.Serves (chunkSealing (some e) rowGroup column path) page)
    (reached : t.AtMost ⟨rowGroup, column, 1, 2 * page⟩) :
    Logs K e source t (writePages p pages) fun p' u => ∃ last,
      p'.Serves (chunkSealing (some e) rowGroup column path) last ∧
        u.AtMost ⟨rowGroup, column, 1, 2 * last⟩ := by
  induction pages generalizing p page t with
  | nil => exact .pure ⟨page, serves, reached⟩
  | cons q pages ih =>
      obtain ⟨kind, others⟩ := List.forall_mem_cons.mp data
      refine .seq (writePage_logs steady serves ?_) ?_
      · rw [kind]
        exact reached
      · intro p' u hu
        rw [kind] at hu
        exact ih others hu.1 hu.2

/-- The pages of a chunk are sealed in order, the dictionary first. -/
theorem writeChunkPages_logs {sealer : Option ColumnSealer} {dictionary : Option PlannedPage}
    {data : List PlannedPage} (kind : ∀ q ∈ dictionary, q.kind = .dictionary)
    (dataKind : ∀ q ∈ data, q.kind = .data)
    (serves : ChunkProgress.Serves (chunkSealing (some e) rowGroup column path) 0 { sealer })
    (reached : t.AtMost ⟨rowGroup, column, 0, 0⟩) :
    Logs K e source t (writePages { sealer } (dictionary.toList ++ data)) fun p' u => ∃ last,
      p'.Serves (chunkSealing (some e) rowGroup column path) last ∧
        u.AtMost ⟨rowGroup, column, 1, 2 * last⟩ := by
  cases dictionary with
  | none =>
      exact writePages_logs steady dataKind serves
        (reached.trans (Mark.atMost_part _ _ Nat.zero_lt_one _ _))
  | some q =>
      refine .seq (writePage_logs steady serves ?_) ?_
      · rw [kind q rfl]
        exact reached
      · intro p' u hu
        rw [kind q rfl] at hu
        exact writePages_logs steady dataKind hu.1
          (hu.2.trans (Mark.atMost_part _ _ Nat.zero_lt_one _ _))

/-- The one module that the entry of a chunk may need. -/
theorem sealedEntry_logs {s : ChunkSealing} {c : ColumnSealer} {m : ColumnMetaData}
    (entryOf : Bytes → ColumnChunk) (sealing : chunkSealing (some e) rowGroup column path = some s)
    (serves : c.Serves s page) (reached : t.AtMost ⟨rowGroup, column, 3, 0⟩) :
    Logs K e source t (do
      let encrypted ← sealModule (← liftM (c.sealMetaData m))
      Pure.pure (entryOf encrypted)) fun _ u => u.AtMost ⟨rowGroup, column + 1, 0, 0⟩ :=
  sealAsked_logs steady sealing (serves.sealMetaData m) (by decide) reached
    fun module => .pure (Mark.atMost_column _ (Nat.lt_succ_self _) _ _ _ _)

/-- The entry of a chunk seals the metadata, if it seals anything. -/
theorem chunkEntry_logs {column' : Column} {m : ColumnMetaData} {sealer : Option ColumnSealer}
    (serves : ChunkProgress.Serves (chunkSealing (some e) rowGroup column path) page { sealer })
    (reached : t.AtMost ⟨rowGroup, column, 3, 0⟩) :
    Logs K e source t (chunkEntry column' m sealer)
      fun _ u => u.AtMost ⟨rowGroup, column + 1, 0, 0⟩ := by
  have done : t.AtMost ⟨rowGroup, column + 1, 0, 0⟩ :=
    reached.trans (Mark.atMost_column _ (Nat.lt_succ_self _) _ _ _ _)
  rw [ChunkProgress.Serves] at serves
  generalize hplace : chunkSealing (some e) rowGroup column path = sealing at serves
  rw [chunkEntry]
  refine .get ?_
  intro w _ _
  dsimp only
  generalize (w.encryption.bind fun e => e.properties.columnCrypto column'.path) = crypto
  cases serves with
  | none =>
      rcases crypto with _ | _ | _
      · exact .pure done
      · exact .pure done
      · exact .pure done
  | some serves =>
      rcases crypto with _ | _ | info
      · exact .pure done
      · dsimp only
        split
        · exact .pure done
        · exact sealedEntry_logs steady _ hplace serves reached
      · exact sealedEntry_logs steady _ hplace serves reached

/-- The offset index is sealed behind the pages. -/
theorem storedIndex_logs {α : Type} {sealer : Option ColumnSealer} {index : OffsetIndex}
    {rest : Bytes → Step α} {Q : α → Mark → Prop}
    (serves : ChunkProgress.Serves (chunkSealing (some e) rowGroup column path) page { sealer })
    (reached : t.AtMost ⟨rowGroup, column, 2, 0⟩)
    (h : ∀ storedIndex u, u.AtMost ⟨rowGroup, column, 3, 0⟩ →
      Logs K e source u (rest storedIndex) Q) :
    Logs K e source t (match sealer with
      | none => do
        let storedIndex ← Pure.pure (Wire.encode index)
        rest storedIndex
      | some s => do
        let request ← liftM (s.sealOffsetIndex index)
        let storedIndex ← sealModule request
        rest storedIndex : Step α) Q := by
  rw [ChunkProgress.Serves] at serves
  generalize hplace : chunkSealing (some e) rowGroup column path = sealing at serves
  cases serves with
  | none => exact h _ _ (reached.trans (Mark.atMost_part _ _ (Nat.lt_succ_self _) _ _))
  | some serves =>
      exact sealAsked_logs steady hplace (serves.sealOffsetIndex index) (by decide) reached
        fun module => h _ _ (Mark.atMost_part _ _ (Nat.lt_succ_self 2) _ _)

theorem chunkSealer_logs (rowGroup column : Nat) (path : ColumnPath) :
    Logs K e source t (chunkSealer rowGroup column path) fun sealer u =>
      ChunkProgress.Serves (chunkSealing (some e) rowGroup column path) 0 { sealer } ∧ u = t := by
  rw [chunkSealer]
  refine .get ?_
  intro w _ encryption
  have serves := serves_chunkSealer (some e) rowGroup column path
  rw [encryption]
  have found : Logs K e source t (onEngines _) _ :=
    onEngines_logs steady (ColumnSealer.ofColumn?_yields e rowGroup column path)
  refine Contract.consequence found (fun _ sealed => sealed) ?_ fun _ log => log
  rintro _ _ ⟨u, ⟨rfl, rfl⟩, sealed⟩
  exact ⟨u, ⟨serves, rfl⟩, sealed⟩

/-- A chunk is sealed behind the chunks before it. -/
theorem writeChunk_logs {column' : Column} {values : ColumnValues}
    (reached : t.AtMost ⟨rowGroup, column, 0, 0⟩) :
    Logs K e source t (writeChunk rowGroup column column' values) fun _ u =>
      u.AtMost ⟨rowGroup, column + 1, 0, 0⟩ := by
  rw [writeChunk]
  refine .seq (chunkSealer_logs steady rowGroup column column'.path) ?_
  rintro sealer _ ⟨serves, rfl⟩
  refine .get fun w _ _ => ?_
  refine .guard fun _ => .seq position_logs ?_
  rintro start _ rfl
  refine .lift ?_
  intro planned plan
  obtain ⟨dictionary, data, rfl, kind, dataKind⟩ :=
    PagePlan.exists_pages w.properties.pageRowLimit_pos plan
  refine .seq (writeChunkPages_logs steady kind dataKind serves reached) ?_
  rintro p u ⟨last, serves, reached⟩
  refine .lift fun m _ => storedIndex_logs steady serves
    (reached.trans (Mark.atMost_part _ _ (Nat.lt_succ_self _) _ _)) fun storedIndex u reached => ?_
  exact .seq (chunkEntry_logs steady serves reached) fun _ _ done => .pure done

theorem writeChunks_logs {acc : List (ColumnChunk × Bytes)} {columns : List (Column × ColumnValues)}
    (reached : t.AtMost ⟨rowGroup, column, 0, 0⟩) :
    Logs K e source t (writeChunks rowGroup column acc columns) fun _ u => ∃ last,
      u.AtMost ⟨rowGroup, last, 0, 0⟩ := by
  induction columns generalizing column acc t with
  | nil => exact .pure ⟨column, reached⟩
  | cons first columns ih =>
      exact .seq (writeChunk_logs steady reached) fun _ _ reached => ih reached

end

/-! ### Row groups -/

/-- Between calls the record is in order. While the writer is usable no nonce was wasted, and all
modules belong to row groups that were taken in. -/
structure InOrder (e : FileEncryption) (source : RandomSource) (w : FileWriter) : Prop where
  log : SealLog (fun _ => True) e source w
  usable : w.phase = .usable → SealedUpTo (fun _ => True) e source ⟨w.rowGroups.size, 0, 0, 0⟩ w

theorem SealLog.inOrder (h : SealLog K e source w) (stopped : w.phase ≠ .usable) :
    InOrder e source w :=
  ⟨h.carry trivial rfl rfl, fun usable => absurd usable stopped⟩

/-- A row group is taken in once all of its modules are sealed. -/
theorem SealedUpTo.takeIn {index : Nat}
    (h : SealedUpTo (fun w => w.rowGroups.size = index) e source ⟨index + 1, 0, 0, 0⟩ w)
    (g : RowGroup) (indexes : Array (List Bytes)) :
    InOrder e source { w with rowGroups := w.rowGroups.push g, offsetIndexes := indexes } where
  log := h.toSealLog.carry trivial rfl rfl
  usable _ := by
    change SealedUpTo _ e source ⟨(w.rowGroups.push g).size, 0, 0, 0⟩ _
    rw [Array.size_push, h.kept]
    exact h.carry trivial rfl rfl rfl

/-- A row group is sealed behind the row groups before it. -/
theorem writeColumns_contract (index rows : Nat) (ordinal : Option Int16)
    (columns : List (Column × ColumnValues)) :
    Contract (SealedUpTo (fun w => w.rowGroups.size = index) e source ⟨index, 0, 0, 0⟩)
      (writeColumns index ordinal rows columns) (fun _ => InOrder e source)
      (SealLog (fun w => w.rowGroups.size = index) e source) := by
  have steady : Steady fun w => w.rowGroups.size = index := fun _ _ _ _ _ h => h
  rw [writeColumns]
  apply Logs.andThen position_logs
  rintro start _ rfl
  apply Logs.andThen (writeChunks_logs steady (.refl _))
  rintro chunks _ ⟨last, reached⟩
  apply Logs.andThen position_logs
  rintro stop u rfl
  have failed : ∀ w, SealedUpTo (fun w => w.rowGroups.size = index) e source u w →
      SealLog (fun w => w.rowGroups.size = index) e source w := fun _ sealed => sealed.toSealLog
  refine .lift (fun _ _ => .lift (fun _ _ => .lift (fun _ _ => ?_) failed) failed) failed
  intro w sealed
  exact (sealed.mono (reached.trans
    (Mark.atMost_rowGroup (Nat.lt_succ_self index) last 0 0 0 0 0))).takeIn _ _

/-- The writer is refused as it is, or was not used up. -/
theorem checkUsable_cases (w : FileWriter) :
    (∃ error, checkUsable w = (.error error, w)) ∨
      w.phase = .usable ∧ checkUsable w = (.ok (), w) := by
  rw [checkUsable, Operation.run_get_bind]
  cases w.phase with
  | failed => exact .inl ⟨_, rfl⟩
  | finished => exact .inl ⟨_, rfl⟩
  | usable => exact .inr ⟨rfl, rfl⟩

/-- A row group is refused, or its columns are written. -/
theorem writeRowGroup_cases (columns : List ColumnValues) (w : FileWriter) :
    (∃ error, writeRowGroup columns w = (.error error, w)) ∨
      w.phase = .usable ∧ ∃ ordinal rows columns', writeRowGroup columns w =
        failingFor (writeColumns w.rowGroups.size ordinal rows columns') w := by
  rw [writeRowGroup]
  obtain ⟨error, refused⟩ | ⟨usable, passed⟩ := checkUsable_cases w
  · exact .inl ⟨error, Operation.run_bind_error refused⟩
  · rw [Operation.run_bind_ok passed, Operation.run_get_bind]
    dsimp only
    split
    · exact .inl ⟨_, rfl⟩
    · cases checkRows ((columns.head?.map ColumnValues.length).getD 0)
          (w.schema.columns.zip columns) with
      | error error => exact .inl ⟨error, rfl⟩
      | ok _ =>
          rw [Operation.run_lift_bind rfl]
          split
          · exact .inl ⟨_, rfl⟩
          · exact .inr ⟨usable, _, _, _, rfl⟩

theorem writeRowGroup_inOrder (columns : List ColumnValues) :
    Preserves (InOrder e source) (writeRowGroup columns) := by
  intro w inOrder
  refine ⟨trivial, ?_⟩
  obtain ⟨error, refused⟩ | ⟨usable, ordinal, rows, columns', run⟩ := writeRowGroup_cases columns w
  · rw [refused]
    exact inOrder
  · have written := writeColumns_contract w.rowGroups.size rows ordinal columns' w
      ((inOrder.usable usable).carry rfl rfl rfl rfl)
    rw [run, failingFor]
    generalize writeColumns w.rowGroups.size ordinal rows columns' w = outcome at written ⊢
    obtain ⟨error | _, w₁⟩ := outcome
    · exact ⟨written.carry trivial rfl rfl, fun usable => by cases usable⟩
    · exact written

/-! ### Finishing -/

section

variable (steady : Steady K)
include steady

/-- Once the footer is sealed, nothing else is. -/
theorem onSink_keepsLog {α : Type} (op : Sink.Step α) : Preserves (SealLog K e source)
    (onSink op) :=
  fun w log => ⟨trivial, log.carry (steady w w.random _ w.seals w.engines log.kept) rfl rfl⟩

/-- Sealing the footer, which no module before is. -/
theorem sealFooter_contract (plaintext : Bytes) :
    Contract (SealedUpTo K e source t) (sealModule (e.footerRequest plaintext))
      (fun _ => SealLog K e source) (SealLog K e source) := by
  intro w sealed
  obtain ⟨record, run, asked, nonce, genuine⟩ | ⟨error, random, run⟩ :=
    sealModule_cases (e.footerRequest plaintext) w
  · have place : ModulePlace.aad e.fileAad ⟨.footer, 0, 0, none⟩ = .ok record.aad := by
      rw [SealRecord.aad, asked]
      rfl
    rw [run]
    exact sealed.log_record steady place nonce genuine fun _ before same => before.kind same.kind
  · rw [run]
    exact sealed.toSealLog.carry (steady w random w.sink w.seals w.engines sealed.kept) rfl rfl

theorem writeMetadataSection_contract (m : FileMetaData) :
    Contract (SealedUpTo K e source t) (writeMetadataSection m)
      (fun _ => SealLog K e source) (SealLog K e source) := by
  have put_keeps : ∀ bs, Contract (SealLog K e source) (put bs) (fun _ => SealLog K e source)
      (SealLog K e source) := fun bs => (onSink_keepsLog steady _).contract
  have failed : ∀ w, SealedUpTo K e source t w → SealLog K e source w :=
    fun _ sealed => sealed.toSealLog
  rw [writeMetadataSection]
  refine .get ?_
  intro w sealed
  rw [sealed.encryption]
  dsimp only
  split
  · apply Logs.andThen (put_logs steady _)
    rintro _ _ rfl
    apply Logs.andThen (onEngines_logs steady e.footerSealer_yields)
    rintro _ _ ⟨rfl, rfl⟩
    refine .lift ?_ failed
    rintro _ ⟨⟩
    exact .seq (sealFooter_contract steady _) fun _ => put_keeps _
  · apply Logs.andThen (onEngines_logs steady e.footerSealer_yields)
    rintro _ _ ⟨rfl, rfl⟩
    apply Logs.andThen (put_logs steady _)
    rintro _ _ rfl
    refine .lift ?_ failed
    rintro _ ⟨⟩
    exact .seq (sealFooter_contract steady _) fun _ => .seq (put_keeps _) fun _ => put_keeps _

theorem writeFooter_contract (m : FileMetaData) :
    Contract (SealedUpTo K e source t) (writeFooter m)
      (fun _ => SealLog K e source) (SealLog K e source) := by
  have put_keeps : ∀ bs, Preserves (SealLog K e source) (put bs) :=
    fun bs => onSink_keepsLog steady _
  rw [writeFooter]
  apply Logs.andThen position_logs
  rintro start _ rfl
  refine .seq (writeMetadataSection_contract steady m) fun _ => Preserves.contract ?_
  refine .seq (.get_bind fun _ log => ⟨trivial, log⟩) fun _ => .seq .lift fun _ =>
    .seq (put_keeps _) fun _ => .get_bind fun w log => put_keeps _ w log

end

theorem writeIndexes_contract :
    Contract (SealedUpTo (fun w => w.phase = .finished) e source t) writeIndexes
      (fun _ => SealedUpTo (fun w => w.phase = .finished) e source t)
      (SealLog (fun w => w.phase = .finished) e source) := by
  intro w sealed
  rw [writeIndexes]
  obtain ⟨rowGroups, result, sink⟩ :=
    placeIndexes #[] w.rowGroups.toList w.offsetIndexes.toList w.sink
  cases result with
  | error error => exact sealed.toSealLog.carry sealed.kept rfl rfl
  | ok _ => exact sealed.carry sealed.kept rfl rfl rfl

/-- What finishing does once the writer is marked as finished. -/
def complete : Step FileMetaData := do
  writeIndexes
  let metaData := (← get).fileMetaData
  writeFooter metaData
  onSink Sink.flush
  modify fun w => { w with engines := {} }
  return metaData

theorem complete_contract :
    Contract (SealedUpTo (fun w => w.phase = .finished) e source t) complete
      (fun _ => SealLog (fun w => w.phase = .finished) e source)
      (SealLog (fun w => w.phase = .finished) e source) := by
  have steady : Steady fun w => w.phase = .finished := fun _ _ _ _ _ h => h
  refine .seq writeIndexes_contract fun _ => .get fun w _ => ?_
  refine .seq (writeFooter_contract steady _) fun _ => Preserves.contract ?_
  refine .seq (onSink_keepsLog steady _) fun _ => .seq (.of_yields (.modify ?_)) fun _ => .pure
  exact fun w log => log.carry log.kept rfl rfl

/-- An attempt to finish is refused, or marks the writer as finished first. -/
theorem finish_cases (w : FileWriter) :
    (∃ error, finish w = (.error error, w)) ∨
      w.phase = .usable ∧ finish w = complete { w with phase := .finished } := by
  rw [finish]
  obtain ⟨error, refused⟩ | ⟨usable, passed⟩ := checkUsable_cases w
  · exact .inl ⟨error, Operation.run_bind_error refused⟩
  · rw [Operation.run_bind_ok passed, Operation.run_modify_bind]
    exact .inr ⟨usable, rfl⟩

/-- An attempt to finish ends the use of the writer, and seals the footer at most once. -/
theorem finish_inOrder : Preserves (InOrder e source) finish := by
  intro w inOrder
  refine ⟨trivial, ?_⟩
  obtain ⟨error, refused⟩ | ⟨usable, run⟩ := finish_cases w
  · rw [refused]
    exact inOrder
  · have finished := complete_contract { w with phase := .finished }
      ((inOrder.usable usable).carry rfl rfl rfl rfl)
    rw [run]
    generalize complete { w with phase := .finished } = outcome at finished ⊢
    obtain ⟨error | _, w₁⟩ := outcome
    · exact SealLog.inOrder finished (by rw [finished.kept]; decide)
    · exact SealLog.inOrder finished (by rw [finished.kept]; decide)

theorem onSink_inOrder {α : Type} (op : Sink.Step α) : Preserves (InOrder e source)
    (onSink op) := by
  intro w inOrder
  exact ⟨trivial, inOrder.log.carry trivial rfl rfl,
    fun usable => (inOrder.usable usable).carry trivial rfl rfl rfl⟩

theorem release_inOrder : Preserves (InOrder e source) release := by
  rw [release]
  refine .get_bind ?_
  intro w inOrder
  dsimp only
  split
  · exact Preserves.seq finish_inOrder (fun _ => onSink_inOrder _) w inOrder
  · exact onSink_inOrder _ w inOrder

/-! ### Whole runs -/

/-- What can be asked of a writer. -/
inductive Call where
  | writeRowGroup (columns : List ColumnValues)
  | finish
  | release

/-- A call, whose result is dropped. -/
def call : Call → Step Unit
  | .writeRowGroup columns => writeRowGroup columns
  | .finish => discard finish
  | .release => discard release

/-- The writer after a sequence of calls, some of which may have failed. -/
def afterCalls (w : FileWriter) (calls : List Call) : FileWriter :=
  calls.foldl (fun w c => (call c w).2) w

theorem afterCalls_cons (w : FileWriter) (c : Call) (calls : List Call) :
    w.afterCalls (c :: calls) = (call c w).2.afterCalls calls :=
  rfl

/-- What every call keeps is kept by a sequence of calls. -/
theorem afterCalls_keeps (step : ∀ c w, K w → K (call c w).2) (calls : List Call) (kept : K w) :
    K (w.afterCalls calls) := by
  induction calls generalizing w with
  | nil => exact kept
  | cons c calls ih =>
      rw [afterCalls_cons]
      exact ih (step c w kept)

/-- One call keeps the record in order, whatever comes of it. -/
theorem call_inOrder (c : Call) : Preserves (InOrder e source) (call c) := by
  cases c with
  | writeRowGroup columns => exact writeRowGroup_inOrder columns
  | finish => exact .seq finish_inOrder fun _ => .pure
  | release => exact .seq release_inOrder fun _ => .pure

/-- So does any sequence of calls. -/
theorem afterCalls_inOrder (calls : List Call) (h : InOrder e source w) :
    InOrder e source (w.afterCalls calls) :=
  afterCalls_keeps (fun c w inOrder => (call_inOrder c w inOrder).2) calls h

/-- A new writer has sealed nothing. Its source starts behind the identifier of the file. -/
theorem create_inOrder {schema : Schema} {properties : WriterProperties} {random : RandomSource}
    {limit : Option Nat} {p : EncryptionProperties}
    (created : create schema properties random { limit } = .ok w)
    (encrypted : properties.encryption = some p) :
    ∃ e, w.encryption = some e ∧ e.properties = p ∧
      e.fileUnique = random.upcoming FileEncryption.fileUniqueLength ∧
      InOrder e { random with position := random.position + FileEncryption.fileUniqueLength }
        w := by
  obtain ⟨encryption, source, sink, rfl, _, _, drawn⟩ := create_eq_ok created
  rw [encrypted] at drawn
  cases drawn with
  | @some p fileUnique source draw =>
      obtain ⟨rfl, rfl⟩ := draw_eq_ok draw
      have empty : ∀ record ∈ (#[] : Array SealRecord), record.Genuine := by simp
      refine ⟨_, rfl, rfl, rfl, ⟨trivial, rfl, rfl, .nil, empty⟩,
        fun _ => ⟨⟨trivial, rfl, rfl, .nil, empty⟩, rfl, ?_⟩⟩
      intro record hrecord
      cases hrecord

end FileWriter

/-- A row group is refused and a second attempt to finish fails. -/
def Sample.calls : List FileWriter.Call :=
  [.writeRowGroup Sample.columns, .writeRowGroup [], .finish, .finish]

namespace FileWriter

variable {w : FileWriter}

/-- However a writer is used, no two modules have the same associated data, and each module is what
the cipher makes of its request under the recorded nonce, which is the next draw behind the
identifier of the file. -/
theorem afterCalls_seals {schema : Schema} {properties : WriterProperties} {random : RandomSource}
    {limit : Option Nat} {p : EncryptionProperties}
    (created : create schema properties random { limit } = .ok w)
    (encrypted : properties.encryption = some p) (calls : List Call) :
    (∃ e, w.encryption = some e ∧ e.fileUnique = random.upcoming FileEncryption.fileUniqueLength) ∧
      ((w.afterCalls calls).seals.toList.map SealRecord.aad).Nodup ∧
      ∀ k record, (w.afterCalls calls).seals[k]? = some record →
        record.Genuine ∧
        record.nonce = (List.range nonceLength).map fun i =>
          random.byteAt
            (random.position + FileEncryption.fileUniqueLength + nonceLength * k + i) := by
  obtain ⟨e, encryption, _, identifier, start⟩ := create_inOrder created encrypted
  have log := (afterCalls_inOrder calls start).log
  refine ⟨⟨e, encryption, identifier⟩, log.distinct, fun k record hrecord => ?_⟩
  have nonces := congrArg (fun nonces : List Bytes => nonces[k]?) log.nonces
  obtain ⟨inside, _⟩ := Array.getElem?_eq_some_iff.mp hrecord
  rw [List.getElem?_map, List.getElem?_map, Array.getElem?_toList, hrecord,
    List.getElem?_range inside] at nonces
  exact ⟨log.genuine record (Array.mem_of_getElem? hrecord), Option.some.inj nonces⟩

theorem afterCalls_seals_sample : ∃ w,
    create Sample.schema (Sample.properties (some Sample.encryption)) Sample.random = .ok w ∧
      (w.afterCalls Sample.calls).seals.size = 17 ∧
      ((w.afterCalls Sample.calls).seals.toList.map SealRecord.aad).Nodup ∧
      ∀ record, (w.afterCalls Sample.calls).seals[16]? = some record →
        record.Genuine ∧
        record.nonce = (List.range 12).map fun i => Sample.random.byteAt (0 + 8 + 12 * 16 + i) := by
  have runs : ((create Sample.schema (Sample.properties (some Sample.encryption))
      Sample.random).toOption.any fun w => (w.afterCalls Sample.calls).seals.size = 17) = true := by
    decide +kernel
  obtain ⟨w, created, count⟩ := Except.exists_of_any runs
  obtain ⟨_, distinct, nonces⟩ := afterCalls_seals created rfl Sample.calls
  exact ⟨w, created, of_decide_eq_true count, distinct, nonces 16⟩

end FileWriter

end SealedColumns
