import SealedColumns.Proofs.RelatedRuns

/-!
# Reads of an open file are independent of each other

What an access to an open file leads to does not depend on the accesses before it, whether they
succeeded or failed: it is what the access would have led to right after the file was opened. A
session remembers a footer key and engines, but the key is the one that would be found again, and
the engines are the ones that would be made again. A retriever is a function of the stored metadata.

Once the footer key was found, the session remembers it, and nobody is asked for it again.
-/

namespace SealedColumns

/-- The stored metadata that was sent to the retriever, if the call was for the footer key. -/
def SessionEvent.footerRetrieval? : SessionEvent → Option Bytes
  | .retrieval .footer keyMetadata => some keyMetadata
  | _ => none

/-- The calls of the retriever for the footer key so far, in order. -/
def ReadState.footerRetrievals (s : ReadState) : List Bytes :=
  s.events.toList.filterMap SessionEvent.footerRetrieval?

open ReadState (Keeps Lasts)

namespace FileDecryption

variable {d : FileDecryption} {expected : Option Key}

/-- The key that the retriever finds, where no session is involved. -/
def retrieved (d : FileDecryption) (subject : KeySubject) (keyMetadata : Option Bytes) :
    Except Error Key := do
  let some retriever := d.properties.keyRetriever | throw (.noKeySource subject)
  let some keyMetadata := keyMetadata.filter (!·.isEmpty) | throw (.noKeyMetadata subject)
  let key ← (retriever keyMetadata).mapError (retrievalError subject)
  Key.ofBytes key

/-- The key that is found afresh: the explicit one, or one from the retriever. -/
def found (d : FileDecryption) (subject : KeySubject) (keyMetadata : Option Bytes) :
    Except Error Key :=
  match d.properties.explicitKey subject with
  | some key => .ok key
  | none => d.retrieved subject keyMetadata

/-- The footer key that is found afresh. -/
def foundFooterKey (d : FileDecryption) : Except Error Key :=
  d.found .footer d.footerKeyMetadata

/-- The footer key that a session with this decryption may remember. -/
def expectedKey (d : Option FileDecryption) : Option Key :=
  d.bind fun d => d.foundFooterKey.toOption

theorem expectedKey_eq_some_iff {key : Key} :
    expectedKey (some d) = some key ↔ d.foundFooterKey = .ok key := by
  rw [expectedKey, Option.bind_some]
  cases d.foundFooterKey with
  | error e => simp [Except.toOption]
  | ok found => simp [Except.toOption]

/-- The retriever gives one answer in all sessions. -/
theorem retrieveKey_yields (subject : KeySubject) (keyMetadata : Option Bytes) :
    Yields (Keeps expected) (d.retrieveKey subject keyMetadata)
      (· = d.retrieved subject keyMetadata) := by
  rw [retrieveKey, retrieved]
  cases d.properties.keyRetriever with
  | none => exact .throw rfl
  | some retriever =>
      dsimp only
      cases keyMetadata.filter (!·.isEmpty) with
      | none => exact .throw rfl
      | some stored =>
          have asked : Yields (Keeps expected) (ExceptT.adapt (retrievalError subject)
              (Session.retrieve retriever subject stored))
              (· = (retriever stored).mapError (retrievalError subject)) := by
            refine (Session.retrieve_yields retriever subject stored).adapt ?_
            rintro _ rfl
            rfl
          dsimp only
          cases answer : (retriever stored).mapError (retrievalError subject) with
          | error e =>
              rw [answer] at asked
              exact asked.seq_error _
          | ok bs =>
              rw [answer] at asked
              exact .seq_ok asked (.lift rfl)

/-- The footer key is the same in all sessions that remember no other, and it is remembered. -/
theorem footerKey_yields :
    Yields (Keeps (expectedKey (some d))) d.footerKey (· = d.foundFooterKey) := by
  rw [footerKey]
  refine .seq_ok Session.checkKeysHeld_yields (.get_bind ?_)
  intro s hs
  cases hkey : s.footerKey with
  | some remembered =>
      have right := expectedKey_eq_some_iff.mp (hs.remembered remembered hkey)
      exact ⟨right.symm, hs⟩
  | none =>
      let keep (key : Key) : Session Key := do
        modify fun s => { s with footerKey := some key }
        return key
      have remember (key : Key) (right : d.foundFooterKey = .ok key) :
          Yields (Keeps (expectedKey (some d))) (keep key) (· = d.foundFooterKey) := by
        rw [right]
        refine .seq_ok (.modify ?_) (.pure rfl)
        intro s hs
        refine ⟨hs.opened, ?_⟩
        rintro _ ⟨⟩
        exact expectedKey_eq_some_iff.mpr right
      cases brought : d.properties.footerKey with
      | some key =>
          have right : d.foundFooterKey = .ok key := by
            rw [foundFooterKey, found, DecryptionProperties.explicitKey, brought]
          exact remember key right s hs
      | none =>
          have right : d.foundFooterKey = d.retrieved .footer d.footerKeyMetadata := by
            rw [foundFooterKey, found, DecryptionProperties.explicitKey, brought]
          have again : Yields (Keeps (expectedKey (some d)))
              (d.retrieveKey .footer d.footerKeyMetadata >>= keep) (· = d.foundFooterKey) := by
            refine (retrieveKey_yields .footer d.footerKeyMetadata).seq ?_ ?_
            · intro key hfound
              exact remember key (right.trans hfound.symm)
            · intro e failed
              exact failed.trans right.symm
          exact again s hs

/-- The key of a column is the same in all sessions that remember no other footer key. -/
theorem exists_columnKey_yields (d : FileDecryption) (path : ColumnPath) (crypto : ColumnCrypto) :
    ∃ key, Yields (Keeps (expectedKey (some d))) (d.columnKey path crypto) (· = key) := by
  cases crypto with
  | footerKey => exact ⟨_, .seq_ok Session.checkKeysHeld_yields footerKey_yields⟩
  | columnKey info =>
      refine ⟨d.found (.column path) info.keyMetadata, .seq_ok Session.checkKeysHeld_yields ?_⟩
      rw [found, DecryptionProperties.explicitKey]
      cases d.properties.columnKey path with
      | some key => exact .pure rfl
      | none => exact retrieveKey_yields _ _

end FileDecryption

/-! ### Opening -/

open FileDecryption (expectedKey)

/-- A session that remembers no footer key remembers no wrong one. -/
theorem ReadState.Keeps.of_none {s : ReadState} (h : Keeps none s) (expected : Option Key) :
    Keeps expected s := by
  refine ⟨h.opened, ?_⟩
  intro key hkey
  cases h.remembered key hkey

namespace Opening

variable {d : FileDecryption} {p : DecryptionProperties}

/-- A session without a footer key, in which a file is opened, remembers the right key or none. -/
abbrev Settles (op : Session FileInfo) : Prop :=
  Contract (Keeps none) op (fun f => Keeps (expectedKey f.decryption)) fun _ => True

theorem fileInfo_settles (m : FileMetaData) (d : Option FileDecryption) :
    Contract (Keeps (expectedKey d)) (liftM (fileInfo m d) : Session FileInfo)
      (fun f => Keeps (expectedKey f.decryption)) fun _ => True := by
  refine .value ?_ fun _ _ => trivial
  intro f taken s hs
  rwa [(fileInfo_eq_ok taken).decryption]

/-- Once nothing is left but to take over the metadata, it does not matter whether the
footer key was looked for. -/
theorem fileInfo_settles_of_none (m : FileMetaData) (d : Option FileDecryption) :
    Settles (liftM (fileInfo m d) : Session FileInfo) :=
  (fileInfo_settles m d).consequence (fun _ hs => hs.of_none _) (fun _ _ h => h) fun _ h => h

theorem fileDecryption_contract (description : EncryptionAlgorithm) (keyMetadata : Option Bytes) :
    Contract (Keeps none) (fileDecryption description keyMetadata p) (fun _ => Keeps none)
      fun _ => True := by
  have copies : SideBySide (fun s t => s = t ∧ Keeps none s) (SameDecryption p p.keyRetriever)
      (fileDecryption description keyMetadata p) (fileDecryption description keyMetadata p) :=
    fileDecryption_beside Keeps.lasts.copies description keyMetadata
  exact copies.preserves.reaches fun _ hs => hs

theorem verifySignature_preserves (d : FileDecryption) (footer signature : Bytes) :
    Preserves (Keeps (expectedKey (some d))) (verifySignature d footer signature) := by
  refine .seq (.of_yields FileDecryption.footerKey_yields) fun key => ?_
  refine .seq .lift fun aad => .seq .lift fun parts => .seq .lift fun sealedFooter => .guard ?_
  refine .seq .lift fun start => .seq .lift fun expected => ?_
  split
  · exact .throw
  · exact .pure

theorem plaintextSection_settles (decryption : Option DecryptionProperties) (bs : Bytes) :
    Settles (plaintextSection decryption bs) := by
  refine .lift ?_ fun _ _ => trivial
  rintro ⟨m, consumed⟩ _
  dsimp only
  cases m.encryptionAlgorithm with
  | none =>
      dsimp only
      split
      · exact .lift (fun _ _ => .fails fun _ _ => trivial) fun _ _ => trivial
      · exact fileInfo_settles_of_none m none
  | some description =>
      cases decryption with
      | none => exact fileInfo_settles_of_none m none
      | some p =>
          refine .seq (fileDecryption_contract _ _) fun d => ?_
          split
          · refine .lift (fun signature _ => .guard ?_ fun _ _ => trivial) fun _ _ => trivial
            refine .lift (fun footer _ => ?_) fun _ _ => trivial
            have verified := verifySignature_preserves d footer signature
            exact .seq (verified.reaches fun _ hs => hs.of_none _) fun _ =>
              fileInfo_settles m (some d)
          · exact fileInfo_settles_of_none m (some d)

theorem encryptedSection_settles (decryption : Option DecryptionProperties) (bs : Bytes) :
    Settles (encryptedSection decryption bs) := by
  unfold encryptedSection
  cases decryption with
  | none => exact .fails fun _ _ => trivial
  | some p =>
      refine .lift (fun decoded _ => ?_) fun _ _ => trivial
      refine .seq (fileDecryption_contract _ _) fun d => ?_
      have opener : Preserves (Keeps (expectedKey (some d))) d.footerOpener :=
        .seq (.of_yields FileDecryption.footerKey_yields) fun key =>
          .of_yields (FileDecryption.opener_yields (fun _ hs => hs.withEngines) key _)
      refine .seq (opener.reaches fun _ hs => hs.of_none _) fun opener => ?_
      refine .lift (fun aad _ => .lift (fun input _ => ?_) fun _ _ => trivial) fun _ _ => trivial
      have read : Preserves (Keeps (expectedKey (some d))) (ExceptT.adapt sealedFooterError
          (liftM (readSealed (opener.decrypt aad) input)) : Session (Bytes × Bytes)) :=
        Preserves.lift.adapt fun _ _ => trivial
      refine .seq (read.reaches fun _ hs => hs) fun parts => .guard ?_ fun _ _ => trivial
      exact .lift (fun decoded _ => fileInfo_settles decoded.1 (some d)) fun _ _ => trivial

theorem readFooter_settles (properties : ReaderProperties) (source : ByteSource) :
    Settles (readFooter properties source) := by
  have read (start length : Nat) : Contract (Keeps none) (Session.read source start length)
      (fun _ => Keeps none) fun _ => True :=
    (Preserves.of_yields (Session.read_yields source start length)).reaches fun _ hs => hs
  have any {s : ReadState} : Keeps none s → True := fun _ => trivial
  have windowed : Contract (Keeps none) (readWindow properties source) (fun _ => Keeps none)
      fun _ => True := by
    refine .guard (.lift (fun start _ => ?_) fun _ => any) fun _ => any
    refine .seq (read _ _) fun window => .lift (fun stop _ => ?_) fun _ => any
    exact .lift (fun last _ => .lift (fun trailer _ => .done fun _ hs => hs) fun _ => any)
      fun _ => any
  have found (window : Window) : Contract (Keeps none) (readSection source window)
      (fun _ => Keeps none) fun _ => True := by
    refine .lift (fun footerSize _ => .guard ?_ fun _ => any) fun _ => any
    dsimp only
    split
    · exact .lift (fun start _ => read _ _) fun _ => any
    · refine .lift (fun start _ => .lift (fun stop _ => ?_) fun _ => any) fun _ => any
      exact .value (fun _ _ _ hs => hs) fun _ => any
  refine .seq windowed fun window => .seq (found window) fun bs => ?_
  cases window.trailer.mode with
  | plaintext => exact plaintextSection_settles _ bs
  | encrypted => exact encryptedSection_settles _ bs

end Opening

/-- Opening a file leaves a session that remembers the right footer key or none. -/
theorem OpenFile.openSource_settles {properties : ReaderProperties} {source : ByteSource}
    {f : OpenFile} {s : ReadState} (opened : openSource properties source {} = (.ok f, s)) :
    Keeps (expectedKey f.info.decryption) s := by
  have settled := Opening.readFooter_settles properties source {} (.start none)
  rw [openSource_run] at opened
  generalize Opening.readFooter properties source {} = outcome at settled opened
  rcases outcome with ⟨e | info, t⟩
  · cases opened
  · cases opened
    exact settled

/-! ### The footer key is found once -/

/-- The session is open and remembers the footer key, and these are all the retrievals of it. -/
structure ReadState.Settled (key : Key) (retrievals : List Bytes) (s : ReadState) : Prop where
  opened : s.closed = false
  footerKey : s.footerKey = some key
  retrievals : s.footerRetrievals = retrievals

namespace ReadState

variable {key : Key} {retrievals : List Bytes}

/-- Calls for anything else are not retrievals of the footer key. -/
theorem Settled.note {event : SessionEvent} (other : event.footerRetrieval? = none) :
    Preserves (Settled key retrievals) (Session.note event) := by
  refine .of_yields (.modify ?_)
  intro s hs
  refine ⟨hs.opened, hs.footerKey, ?_⟩
  rw [← hs.retrievals]
  simp [footerRetrievals, other]

theorem Settled.lasts : Lasts (Settled key retrievals) where
  read _ _ := Settled.note rfl
  verification _ := Settled.note rfl
  engines _ hs _ := ⟨hs.opened, hs.footerKey, hs.retrievals⟩

end ReadState

open ReadState (Settled)

namespace FileDecryption

variable {d : FileDecryption} {key : Key} {retrievals : List Bytes} {s : ReadState}

/-- A footer key that is remembered is not looked for. -/
theorem footerKey_of_settled (opened : s.closed = false) (remembered : s.footerKey = some key) :
    d.footerKey s = (.ok key, s) := by
  rw [footerKey, Operation.run_bind_ok (Session.checkKeysHeld_of_opened opened),
    Operation.run_get_bind, remembered]
  rfl

/-- Looking for keys adds no retrieval of a footer key that is remembered. -/
theorem columnKey_settled (path : ColumnPath) (crypto : ColumnCrypto) :
    Preserves (Settled key retrievals) (d.columnKey path crypto) := by
  refine columnKey_preserves ?_ fun _ keyMetadata => ?_
  · intro s hs
    rw [footerKey_of_settled hs.opened hs.footerKey]
    exact ⟨trivial, hs⟩
  · exact retrieveKey_preserves fun _ _ => ReadState.Settled.note rfl

/-- A footer key that was found is remembered. -/
theorem remembers_of_footerKey {t : ReadState} (h : d.footerKey s = (.ok key, t)) :
    t.footerKey = some key := by
  rw [footerKey] at h
  obtain ⟨_, u, held, looked⟩ := Operation.bind_eq_ok.mp h
  rw [Operation.run_get_bind] at looked
  cases hkey : u.footerKey with
  | some remembered =>
      rw [hkey] at looked
      cases looked
      exact hkey
  | none =>
      rw [hkey] at looked
      cases brought : d.properties.footerKey with
      | some explicit =>
          rw [brought] at looked
          cases looked
          rfl
      | none =>
          rw [brought] at looked
          obtain ⟨found, _, _, kept⟩ := Operation.bind_eq_ok.mp looked
          cases kept
          rfl

end FileDecryption

namespace Reading

variable {properties : ReaderProperties} {source : ByteSource} {f : OpenFile} {s : ReadState}

theorem keys_yield (f : OpenFile) : ∀ d ∈ f.info.decryption, ∀ path crypto,
    ∃ key, Yields (Keeps (expectedKey f.info.decryption)) (d.columnKey path crypto) (· = key) := by
  intro d hd path crypto
  rw [hd]
  exact FileDecryption.exists_columnKey_yields d path crypto

/-- Requests that leave the file open leave a session that remembers the right footer key or
none. -/
theorem keeps_of_served (opening : OpenFile.openSource properties source {} = (.ok f, s))
    {requests : List ReadRequest} (stay : ∀ request ∈ requests, request.staysOpen = true) :
    ((opened f s).serve properties source requests).2.file = some f ∧
      Keeps (expectedKey f.info.decryption)
        ((opened f s).serve properties source requests).2.session :=
  serve_preserves properties source Keeps.lasts
    (fun d hd path crypto => .of_yields (keys_yield f d hd path crypto).choose_spec) stay
    rfl (OpenFile.openSource_settles opening)

/-- A request about an open file leads to the same in all sessions that remember the
right footer key or none. -/
theorem onFile_of_keeps (f : OpenFile) (request : ReadRequest) {t : ReadState}
    (hs : Keeps (expectedKey f.info.decryption) s) (ht : Keeps (expectedKey f.info.decryption) t) :
    (request.onFile f s).1 = (request.onFile f t).1 := by
  have both := (f.onFile_reads request).pairs Keeps.lasts (fun _ hs => hs.opened) (keys_yield f)
  exact (both _ _ ⟨hs, ht⟩).1.eq

/-- After requests that leave the file open, a request about the file has the reply that it would
have had right after the file was opened. -/
theorem reply_of_served (opening : OpenFile.openSource properties source {} = (.ok f, s))
    {requests : List ReadRequest} (stay : ∀ request ∈ requests, request.staysOpen = true)
    {request : ReadRequest} (asks : request.asksFile = true) :
    (((opened f s).serve properties source requests).2.reply properties source request).1 =
      (request.onFile f s).1 := by
  obtain ⟨file, kept⟩ := keeps_of_served opening stay
  rw [reply_of_asksFile asks file, (perform_eq _ _).1]
  exact onFile_of_keeps f request kept (OpenFile.openSource_settles opening)

/-- Right after a file was opened, a request about it has the reply that it has in a new session. -/
theorem reply_of_opened (opening : OpenFile.openSource properties source {} = (.ok f, s))
    {request : ReadRequest} (asks : request.asksFile = true) :
    ((opened f s).reply properties source request).1 = (request.onFile f {}).1 := by
  rw [reply_of_asksFile asks rfl, (perform_eq _ _).1]
  exact onFile_of_keeps f request (OpenFile.openSource_settles opening) (.start _)

/-- After a file was opened, requests that leave it open do not influence each other: a request
about the file has the reply that it would have had right after the file was opened. Whenever the
footer key is found the session remembers it, and a session that remembers it does not ask for it
again, neither when the key is looked for nor in any later request. -/
theorem reads_independent (opening : OpenFile.openSource properties source {} = (.ok f, s))
    {requests : List ReadRequest} (stay : ∀ request ∈ requests, request.staysOpen = true)
    {r : Reading} (after : ((opened f s).serve properties source requests).2 = r) :
    (∀ request, request.asksFile = true →
      (r.reply properties source request).1 =
        ((opened f s).reply properties source request).1) ∧
    (∀ d ∈ f.info.decryption, ∀ key t,
      d.footerKey r.session = (.ok key, t) → t.footerKey = some key) ∧
    ∀ key, r.session.footerKey = some key →
      (∀ d ∈ f.info.decryption, ∀ path, d.footerKey r.session = (.ok key, r.session) ∧
        d.columnKey path .footerKey r.session = (.ok key, r.session)) ∧
      ∀ more, (∀ request ∈ more, request.staysOpen = true) →
        (r.serve properties source more).2.session.footerKey = some key ∧
        (r.serve properties source more).2.session.footerRetrievals =
          r.session.footerRetrievals := by
  obtain ⟨file, kept⟩ := keeps_of_served opening stay
  rw [after] at file kept
  refine ⟨?_, ?_, ?_⟩
  · intro request asks
    rw [← after, reply_of_served opening stay asks, reply_of_asksFile asks rfl, (perform_eq _ _).1]
    rfl
  · intro d _ key t found
    exact FileDecryption.remembers_of_footerKey found
  · intro key remembered
    refine ⟨?_, ?_⟩
    · intro d _ path
      have found : d.footerKey r.session = (.ok key, r.session) :=
        FileDecryption.footerKey_of_settled kept.opened remembered
      refine ⟨found, ?_⟩
      rw [FileDecryption.columnKey,
        Operation.run_bind_ok (Session.checkKeysHeld_of_opened kept.opened)]
      exact found
    · intro more stay
      have settled : Settled key r.session.footerRetrievals r.session :=
        ⟨kept.opened, remembered, rfl⟩
      obtain ⟨_, later⟩ := serve_preserves properties source Settled.lasts
        (fun d _ path crypto => FileDecryption.columnKey_settled path crypto) stay file settled
      exact ⟨later.footerKey, later.retrievals⟩

end Reading

namespace Sample

/-- The footer is sealed, and its key is to be retrieved with the metadata `[4]`. -/
def retrievable : EncryptionProperties :=
  { encryption with encryptedFooter := true, footerKeyMetadata := some [4] }

theorem retrievable_finished :
    ∃ m w, FileWriter.Finished schema (properties (some retrievable)) [columns] m w :=
  FileWriter.exists_finished random wellFormed (by decide +kernel)

/-- A retriever that knows both keys. -/
def bothKeys : KeyRetriever := fun keyMetadata =>
  if keyMetadata = [4] then .ok footerKey.bytes
  else if keyMetadata = [5] then .ok ownKey.bytes
  else .error .footerMagic

/-- A reader that has all keys retrieved. -/
def retrieving : DecryptionProperties :=
  { reader bothKeys with footerKey := none }

theorem retrieving_opens : retrieving.OpensFooter retrievable where
  footerKey := .retrieved rfl rfl rfl rfl
  aadPrefix := knowsPrefix bothKeys
  metadata := {
    footer := by
      rintro _ ⟨⟩ ⟨⟩
    column := built.metadataNonempty.column }

theorem retrieving_findsColumn (path : ColumnPath) : retrieving.FindsColumn retrievable path := by
  intro c key found hkey
  obtain ⟨_, metadata, rfl⟩ := own_of_get? found hkey
  exact .retrieved rfl rfl metadata rfl

def retrievingReader : ReaderProperties :=
  { decryption := some retrieving }

/-- Two accesses: there is no such row group, and a column. -/
def accesses : List ReadRequest :=
  [.offsetIndex 7 0, .readColumn 0 1]

end Sample

theorem Reading.reads_independent_sample : ∃ m w file f s,
    FileWriter.Finished Sample.schema (Sample.properties (some Sample.retrievable))
        [Sample.columns] m w ∧
      FileWriter.release w = (.ok file, w) ∧
      OpenFile.openSource Sample.retrievingReader ⟨.memory, file⟩ {} = (.ok f, s) ∧
      (((opened f s).serve Sample.retrievingReader ⟨.memory, file⟩ Sample.accesses).2.reply
        Sample.retrievingReader ⟨.memory, file⟩ (.readColumn 0 0)).1 =
          .ok (.values ⟨.int32, [7, 8, 7]⟩) := by
  obtain ⟨m, w, finished⟩ := Sample.retrievable_finished
  have decrypting : Sample.retrievingReader.decryption = some Sample.retrieving := rfl
  obtain ⟨e, file, f, s, same, released, opening, openFile, kept⟩ :=
    OpenFile.openSource_of_finished finished rfl decrypting Sample.retrieving_opens
  have stay : ∀ request ∈ Sample.accesses, request.staysOpen = true := by decide
  have independent := (reads_independent opening stay rfl).1 (.readColumn 0 0) rfl
  have finds : Sample.retrieving.FindsColumn e.properties Sample.own.path := by
    rw [same]
    exact Sample.retrieving_findsColumn _
  refine ⟨m, w, file, f, s, finished, released, opening, ?_⟩
  rw [independent, Sample.reply_readColumn openFile kept finds]

end SealedColumns
