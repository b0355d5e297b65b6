import SealedColumns.Proofs.Engines
import SealedColumns.Reader.Session

/-!
# Keys in a reading session

A session remembers the footer key once it was found, and no other key. As long as the file is open
and what is remembered is the right key, asking for a key gives the same answer however often and in
whatever order keys were asked for before, also if some of them could not be found.

A session shares engines. What its pool gives for a kind is the engine that would be made
anew, and keys have lengths that engines are made for, so what opens the modules under a key
does not depend on the pool.
-/

namespace SealedColumns

namespace DecryptionProperties

/-- The key that the reader brought along for the footer or for a column. -/
def explicitKey (p : DecryptionProperties) : KeySubject → Option Key
  | .footer => p.footerKey
  | .column path => p.columnKey path

/-- A reader finds a key: it brought the key along, or else its retriever maps the stored metadata
to the key. -/
inductive Finds (p : DecryptionProperties) (explicit : Option Key) (keyMetadata : Option Bytes)
    (key : Key) : Prop where
  | brought (h : explicit = some key)
  | retrieved {retriever : KeyRetriever} {stored : Bytes} (absent : explicit = none)
      (present : p.keyRetriever = some retriever) (metadata : keyMetadata = some stored)
      (answer : retriever stored = .ok key.bytes)

/-- A reader does not find a key: it did not bring it along, and it has no retriever, or there is no
metadata to ask the retriever with, or the retriever fails on the metadata. -/
def Lacks (p : DecryptionProperties) (explicit : Option Key) (keyMetadata : Option Bytes) : Prop :=
  explicit = none ∧ ∀ retriever ∈ p.keyRetriever, ∀ stored ∈ keyMetadata,
    ∃ e, retriever stored = .error e

/-- The reader finds the key of a column, if the column has a key of its own. -/
def FindsColumn (r : DecryptionProperties) (p : EncryptionProperties) (path : ColumnPath) : Prop :=
  ∀ c key, p.columns.get? path = some c → c.key = some key →
    r.Finds (r.columnKey path) c.keyMetadata key

/-- The column has a key of its own, and the reader does not find it. -/
def LacksColumn (r : DecryptionProperties) (p : EncryptionProperties) (path : ColumnPath) : Prop :=
  ∃ c key, p.columns.get? path = some c ∧ c.key = some key ∧
    r.Lacks (r.columnKey path) c.keyMetadata

end DecryptionProperties

theorem Key.bytes_of_ofBytes {bs : Bytes} {key : Key} (h : Key.ofBytes bs = .ok key) :
    key.bytes = bs := by
  rw [Key.ofBytes] at h
  split at h
  · cases h
    rfl
  · cases h

theorem Key.ofBytes_bytes (key : Key) : Key.ofBytes key.bytes = .ok key :=
  dif_pos key.valid

/-- What opens the modules of a class that are sealed under a key. -/
def Key.opener (key : Key) (algorithm : Algorithm) (moduleClass : ModuleClass) : ModuleOpener :=
  ⟨key.engine algorithm moduleClass, key⟩

/-- The file is open, and the footer key that the session remembers, if any, is the expected one. -/
structure ReadState.Keeps (footerKey : Option Key) (s : ReadState) : Prop where
  opened : s.closed = false
  remembered : ∀ key ∈ s.footerKey, footerKey = some key

theorem ReadState.Keeps.withEngines {footerKey : Option Key} {s : ReadState}
    (h : ReadState.Keeps footerKey s) (engines : EnginePool) :
    ReadState.Keeps footerKey { s with engines } :=
  ⟨h.opened, h.remembered⟩

/-- A session starts without a remembered key. -/
theorem ReadState.Keeps.start (footerKey : Option Key) : ReadState.Keeps footerKey {} where
  opened := rfl
  remembered := by
    rintro _ ⟨⟩

namespace Session

variable {expected : Option Key}

theorem note_keeps (event : SessionEvent) :
    Yields (ReadState.Keeps expected) (note event) (· = .ok ⟨⟩) :=
  .modify fun _ hs => ⟨hs.opened, hs.remembered⟩

/-- Reading and asking others changes nothing but the record of calls. -/
theorem read_yields (source : ByteSource) (start length : Nat) :
    Yields (ReadState.Keeps expected) (read source start length) (· = source.get start length) :=
  .seq_ok (note_keeps _) (.lift rfl)

theorem verify_yields (verifier : AadPrefixVerifier) (aadPrefix : Bytes) :
    Yields (ReadState.Keeps expected) (verify verifier aadPrefix) (· = verifier aadPrefix) :=
  .seq_ok (note_keeps _) (.lift rfl)

theorem retrieve_yields (retriever : KeyRetriever) (subject : KeySubject) (keyMetadata : Bytes) :
    Yields (ReadState.Keeps expected) (retrieve retriever subject keyMetadata)
      (· = retriever keyMetadata) :=
  .seq_ok (note_keeps _) (.lift rfl)

/-- Pooled or not, the engine of a kind is the one that is made for it. -/
theorem engine_yields {P : ReadState → Prop}
    (pooling : ∀ s, P s → ∀ engines, P { s with engines }) (kind : EngineKind) :
    Yields P (engine kind)
      (· = Engine.create kind.algorithm kind.keyLength kind.moduleClass) := by
  intro s hs
  exact ⟨(EnginePool.engine_yields kind s.engines trivial).1, pooling s hs _⟩

/-- What a party outside the library answers is all that is learned from it. -/
theorem note_bind_eq_ok {α : Type} {event : SessionEvent} {x : Except Error α} {a : α}
    {s t : ReadState} (h : (note event >>= fun _ => liftM x : Session α) s = (.ok a, t)) :
    x = .ok a ∧ t.footerKey = s.footerKey := by
  obtain ⟨_, u, noted, answered⟩ := Operation.bind_eq_ok.mp h
  obtain rfl := Operation.modify_eq_ok.mp noted
  obtain ⟨answer, rfl⟩ := Operation.lift_eq_ok.mp answered
  exact ⟨answer, rfl⟩

theorem checkKeysHeld_eq_ok {s t : ReadState} {u : Unit} (h : checkKeysHeld s = (.ok u, t)) :
    s.closed = false ∧ t = s := by
  rw [checkKeysHeld, Operation.run_get_bind] at h
  split at h
  · cases h
  · next opened =>
      cases h
      exact ⟨Bool.eq_false_iff.mpr opened, rfl⟩

theorem checkKeysHeld_of_opened {s : ReadState} (opened : s.closed = false) :
    checkKeysHeld s = (.ok ⟨⟩, s) := by
  rw [checkKeysHeld, Operation.run_get_bind, opened]
  rfl

/-- Whether the file is closed is found out without changing anything. -/
theorem checkKeysHeld_preserves {I : ReadState → Prop} : Preserves I checkKeysHeld := by
  refine .get_bind ?_
  intro s hs
  split
  · exact ⟨trivial, hs⟩
  · exact ⟨trivial, hs⟩

theorem checkKeysHeld_yields : Yields (ReadState.Keeps expected) checkKeysHeld (· = .ok ⟨⟩) := by
  refine .get_bind ?_
  intro s hs
  rw [hs.opened]
  exact ⟨rfl, hs⟩

end Session

/-- The result is the failure to find a key. -/
def KeyNotFound {α : Type} (x : Except Error α) : Prop :=
  ∃ e, x = .error e ∧ e.kind = .keyNotFound

/-- Nothing is done after a key was not found. -/
theorem Yields.keyNotFound_seq {σ α β : Type} {P : σ → Prop} {op : Operation σ α}
    (h : Yields P op KeyNotFound) (f : α → Operation σ β) : Yields P (op >>= f) KeyNotFound := by
  refine h.seq ?_ ?_
  · rintro a ⟨e, impossible, _⟩
    cases impossible
  · rintro e ⟨_, same, kind⟩
    cases same
    exact ⟨e, rfl, kind⟩

namespace FileDecryption

variable {d : FileDecryption} {expected : Option Key} {subject : KeySubject} {key : Key}
variable {keyMetadata : Option Bytes}

theorem kind_retrievalError (subject : KeySubject) (e : Error) :
    (retrievalError subject e).kind = .keyNotFound := by
  rw [retrievalError]
  split
  · assumption
  · rfl

variable {I : ReadState → Prop}

/-- Asking a retriever changes nothing but the record, whatever comes of it. -/
theorem retrieveKey_preserves (noted : d.properties.keyRetriever.isSome = true → ∀ stored,
    Preserves I (Session.note (.retrieval subject stored))) :
    Preserves I (d.retrieveKey subject keyMetadata) := by
  rw [retrieveKey]
  cases present : d.properties.keyRetriever with
  | none => exact .throw
  | some retriever =>
      rw [present, Option.isSome_some] at noted
      dsimp only
      cases keyMetadata.filter (!·.isEmpty) with
      | none => exact .throw
      | some stored =>
          have asked : Preserves I (Session.retrieve retriever subject stored) :=
            .seq (noted rfl stored) fun _ => .lift
          exact .seq (asked.adapt fun _ _ => trivial) fun _ => .lift

/-- Looking for the footer key changes nothing but the record, and the key may be remembered. -/
theorem footerKey_preserves
    (retrieval : d.properties.footerKey = none →
      Preserves I (d.retrieveKey .footer d.footerKeyMetadata))
    (remember : ∀ s key, I s → I { s with footerKey := some key }) : Preserves I d.footerKey := by
  rw [footerKey]
  refine .seq Session.checkKeysHeld_preserves fun _ => .get_bind ?_
  intro s hs
  cases s.footerKey with
  | some key => exact ⟨trivial, hs⟩
  | none =>
      have keep (key : Key) : Preserves I (do
          modify fun s => { s with footerKey := some key }
          return key : Session Key) :=
        .seq (.of_yields (.modify fun s hs => remember s key hs)) fun _ => .pure
      cases brought : d.properties.footerKey with
      | some key => exact keep key s hs
      | none => exact Preserves.seq (retrieval brought) keep s hs

/-- Looking for the key of a column is looking for the footer key or for the column's own key. -/
theorem columnKey_preserves {path : ColumnPath} {crypto : ColumnCrypto}
    (footer : Preserves I d.footerKey)
    (retrieval : d.properties.columnKey path = none → ∀ keyMetadata,
      Preserves I (d.retrieveKey (.column path) keyMetadata)) :
    Preserves I (d.columnKey path crypto) := by
  refine .seq Session.checkKeysHeld_preserves fun _ => ?_
  cases crypto with
  | footerKey => exact footer
  | columnKey info =>
      dsimp only
      cases brought : d.properties.columnKey path with
      | some key => exact .pure
      | none => exact retrieval brought _

theorem retrieveKey_of_finds {retriever : KeyRetriever} {stored : Bytes}
    (present : d.properties.keyRetriever = some retriever) (nonempty : stored ≠ [])
    (answer : retriever stored = .ok key.bytes) :
    Yields (ReadState.Keeps expected) (d.retrieveKey subject (some stored)) (· = .ok key) := by
  have kept : (some stored).filter (fun bs : Bytes => !bs.isEmpty) = some stored := by
    simpa using nonempty
  rw [retrieveKey]
  rw [present, kept]
  refine .seq_ok (a := key.bytes) ((Session.retrieve_yields retriever subject stored).adapt ?_)
    (.lift key.ofBytes_bytes)
  rintro _ rfl
  rw [answer]
  rfl

theorem retrieveKey_of_lacks {explicit : Option Key}
    (lacks : d.properties.Lacks explicit keyMetadata) :
    Yields (ReadState.Keeps expected) (d.retrieveKey subject keyMetadata) KeyNotFound := by
  rw [retrieveKey]
  cases hretriever : d.properties.keyRetriever with
  | none => exact .throw ⟨_, rfl, rfl⟩
  | some retriever =>
      dsimp only
      cases hstored : keyMetadata.filter (!·.isEmpty) with
      | none => exact .throw ⟨_, rfl, rfl⟩
      | some stored =>
          obtain ⟨metadata, _⟩ := Option.filter_eq_some_iff.mp hstored
          obtain ⟨e, failed⟩ := lacks.2 retriever hretriever stored metadata
          refine Yields.keyNotFound_seq
            ((Session.retrieve_yields retriever subject stored).adapt ?_) _
          rintro _ rfl
          rw [failed]
          exact ⟨_, rfl, kind_retrievalError subject e⟩

/-- The footer key is found, from the session or anew, and it is remembered. -/
theorem footerKey_of_finds {key : Key}
    (finds : d.properties.Finds d.properties.footerKey d.footerKeyMetadata key)
    (nonempty : d.properties.footerKey = none → ∀ stored ∈ d.footerKeyMetadata, stored ≠ []) :
    Yields (ReadState.Keeps (some key)) d.footerKey (· = .ok key) := by
  rw [footerKey]
  refine .seq_ok Session.checkKeysHeld_yields (.get_bind fun s hs => ?_)
  cases hkey : s.footerKey with
  | some remembered =>
      cases hs.remembered remembered hkey
      exact ⟨rfl, hs⟩
  | none =>
      let keep (key : Key) : Session Key := do
        modify fun s => { s with footerKey := some key }
        return key
      have remember : Yields (ReadState.Keeps (some key)) (keep key) (· = .ok key) :=
        .seq_ok (.modify fun s hs => ⟨hs.opened, fun _ h => h⟩) (.pure rfl)
      cases finds with
      | brought brought =>
          rw [brought]
          exact remember s hs
      | retrieved absent present metadata answer =>
          have found : Yields (ReadState.Keeps (some key)) (d.retrieveKey .footer (some _))
              (· = .ok key) :=
            retrieveKey_of_finds present (nonempty absent _ metadata) answer
          rw [absent, metadata]
          exact Yields.seq_ok (f := keep) found remember s hs

/-- The key of a column that is sealed with the footer key. -/
theorem columnKey_footerKey {path : ColumnPath} {x : Except Error Key → Prop}
    (h : Yields (ReadState.Keeps expected) d.footerKey x) :
    Yields (ReadState.Keeps expected) (d.columnKey path .footerKey) x :=
  .seq_ok Session.checkKeysHeld_yields h

/-- A key leads to what opens the modules under it. -/
theorem opener_yields {P : ReadState → Prop}
    (pooling : ∀ s, P s → ∀ engines, P { s with engines }) (key : Key) (moduleClass : ModuleClass) :
    Yields P (d.opener key moduleClass) (· = .ok (key.opener d.algorithm moduleClass)) := by
  refine .seq_ok ?_ (.pure rfl)
  rw [← key.create_engine]
  exact Session.engine_yields pooling _

/-- A column's own key is found. -/
theorem columnKey_of_finds {path : ColumnPath} {info : ColumnKeyInfo}
    (finds : d.properties.Finds (d.properties.columnKey path) info.keyMetadata key)
    (nonempty : ∀ stored ∈ info.keyMetadata, stored ≠ []) :
    Yields (ReadState.Keeps expected) (d.columnKey path (.columnKey info)) (· = .ok key) := by
  refine .seq_ok Session.checkKeysHeld_yields ?_
  cases finds with
  | brought brought =>
      rw [brought]
      exact .pure rfl
  | retrieved absent present metadata answer =>
      dsimp only
      rw [absent, metadata]
      exact retrieveKey_of_finds present (nonempty _ metadata) answer

/-- With the key of a column its modules can be opened. -/
theorem columnOpener_of_key {path : ColumnPath} {crypto : ColumnCrypto}
    (h : Yields (ReadState.Keeps expected) (d.columnKey path crypto) (· = .ok key))
    (moduleClass : ModuleClass) :
    Yields (ReadState.Keeps expected) (d.columnOpener path crypto moduleClass)
      (· = .ok (key.opener d.algorithm moduleClass)) :=
  .seq_ok h (opener_yields (fun _ hs => hs.withEngines) key moduleClass)

/-- A column's own key is missed, whatever the retriever says. -/
theorem columnKey_of_lacks {path : ColumnPath} {info : ColumnKeyInfo}
    (lacks : d.properties.Lacks (d.properties.columnKey path) info.keyMetadata) :
    Yields (ReadState.Keeps expected) (d.columnKey path (.columnKey info)) KeyNotFound := by
  refine .seq_ok Session.checkKeysHeld_yields ?_
  rw [lacks.1]
  exact retrieveKey_of_lacks lacks

/-! ### Keys that were found -/

/-- A key that was retrieved is the answer of the retriever to the stored metadata. -/
theorem retrieveKey_eq_ok {s t : ReadState}
    (h : d.retrieveKey subject keyMetadata s = (.ok key, t)) :
    ∃ retriever stored, d.properties.keyRetriever = some retriever ∧ keyMetadata = some stored ∧
      retriever stored = .ok key.bytes := by
  rw [retrieveKey] at h
  cases hretriever : d.properties.keyRetriever with
  | none =>
      rw [hretriever] at h
      cases h
  | some retriever =>
      rw [hretriever] at h
      dsimp only at h
      cases hstored : keyMetadata.filter (!·.isEmpty) with
      | none =>
          rw [hstored] at h
          cases h
      | some stored =>
          rw [hstored] at h
          obtain ⟨bs, u, asked, made⟩ := Operation.bind_eq_ok.mp h
          obtain ⟨answer, _⟩ := Session.note_bind_eq_ok (Operation.adapt_eq_ok.mp asked)
          obtain ⟨valid, _⟩ := Operation.lift_eq_ok.mp made
          obtain ⟨metadata, _⟩ := Option.filter_eq_some_iff.mp hstored
          rw [← Key.bytes_of_ofBytes valid] at answer
          exact ⟨retriever, stored, rfl, metadata, answer⟩

/-- What opens the modules under a key was found without looking for keys. -/
theorem opener_eq_ok {moduleClass : ModuleClass} {o : ModuleOpener} {s t : ReadState}
    (h : d.opener key moduleClass s = (.ok o, t)) :
    o = key.opener d.algorithm moduleClass ∧ t.footerKey = s.footerKey := by
  have yields : Yields (fun u => u.footerKey = s.footerKey) (d.opener key moduleClass) _ :=
    opener_yields (fun _ same _ => same) key moduleClass
  obtain ⟨value, same⟩ := yields s rfl
  rw [h] at value same
  exact ⟨Except.ok.inj value, same⟩

/-- A footer key that the session did not remember was brought along or retrieved. -/
theorem finds_of_footerKey {s t : ReadState} (fresh : s.footerKey = none)
    (h : d.footerKey s = (.ok key, t)) :
    d.properties.Finds d.properties.footerKey d.footerKeyMetadata key := by
  rw [footerKey] at h
  obtain ⟨_, u, held, looked⟩ := Operation.bind_eq_ok.mp h
  obtain ⟨_, rfl⟩ := Session.checkKeysHeld_eq_ok held
  rw [Operation.run_get_bind, fresh] at looked
  cases hbrought : d.properties.footerKey with
  | some brought =>
      rw [hbrought] at looked
      obtain ⟨found, v, finding, kept⟩ := Operation.bind_eq_ok.mp looked
      obtain ⟨_, _, _, done⟩ := Operation.bind_eq_ok.mp kept
      obtain ⟨rfl, _⟩ := Operation.pure_eq_ok.mp done
      obtain ⟨rfl, _⟩ := Operation.pure_eq_ok.mp finding
      exact .brought rfl
  | none =>
      rw [hbrought] at looked
      obtain ⟨found, v, finding, kept⟩ := Operation.bind_eq_ok.mp looked
      obtain ⟨_, _, _, done⟩ := Operation.bind_eq_ok.mp kept
      obtain ⟨rfl, _⟩ := Operation.pure_eq_ok.mp done
      obtain ⟨retriever, stored, present, metadata, answer⟩ := retrieveKey_eq_ok finding
      exact .retrieved rfl present metadata answer

end FileDecryption

end SealedColumns
