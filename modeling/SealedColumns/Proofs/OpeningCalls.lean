import SealedColumns.Proofs.FooterWindow

/-!
# The calls of an attempt to open a file

While a reader tries to open a file it may call on others four times, in this order: it reads
the end of the file, it reads the metadata section, it has the prefix that the file stores verified,
and it has the footer key retrieved. Each of these calls is made for at most one value, and it is
said for which and when.

In particular no retriever is asked for a key of a file whose prefix was not agreed on, or whose
signature is not as long as signatures are, and nothing outside the file is read. What the retriever
or the verifier answer is not assumed to make sense.
-/

namespace SealedColumns

/-- The calls of one kind: a single one, for the value with the property, or
none if no value has it. -/
inductive CallsFor {α : Type} (Q : α → Prop) (event : α → SessionEvent) : List SessionEvent → Prop
  | made {a : α} (due : Q a) : CallsFor Q event [event a]
  | absent (undue : ∀ a, ¬ Q a) : CallsFor Q event []

theorem CallsFor.congr {α : Type} {Q Q' : α → Prop} {event : α → SessionEvent}
    {calls : List SessionEvent} (h : CallsFor Q event calls) (same : ∀ a, Q a ↔ Q' a) :
    CallsFor Q' event calls := by
  cases h with
  | made due => exact .made ((same _).mp due)
  | absent undue => exact .absent fun a due => undue a ((same a).mpr due)

theorem CallsFor.eq_nil {α : Type} {Q : α → Prop} {event : α → SessionEvent}
    {calls : List SessionEvent} (h : CallsFor Q event calls) (undue : ∀ a, ¬ Q a) : calls = [] := by
  cases h with
  | made due => exact absurd due (undue _)
  | absent => rfl

theorem CallsFor.exists_of_mem {α : Type} {Q : α → Prop} {event : α → SessionEvent}
    {calls : List SessionEvent} (h : CallsFor Q event calls) {call : SessionEvent}
    (recorded : call ∈ calls) : ∃ a, Q a ∧ call = event a := by
  cases h with
  | made due => exact ⟨_, due, List.mem_singleton.mp recorded⟩
  | absent => cases recorded

namespace Opening

/-! ### When calls are due -/

/-- What a metadata section tells in plain form about the encryption of the file: how it is
encrypted, what to ask a retriever for the footer key with, and the bytes behind that, which are the
signature or the sealed metadata. -/
inductive DescribesEncryption (bs : Bytes) (description : EncryptionAlgorithm)
    (keyMetadata : Option Bytes) (behind : Bytes) : FooterMode → Prop
  | plaintext {m : FileMetaData} (whole : bs = Wire.encode m ++ behind)
      (described : m.encryptionAlgorithm = some description)
      (named : m.footerSigningKeyMetadata = keyMetadata) :
      DescribesEncryption bs description keyMetadata behind .plaintext
  | encrypted {crypto : FileCryptoMetaData} (whole : bs = Wire.encode crypto ++ behind)
      (described : crypto.encryptionAlgorithm = description)
      (named : crypto.keyMetadata = keyMetadata) :
      DescribesEncryption bs description keyMetadata behind .encrypted

/-- The prefix is to be verified: the file stores it, the reader supplies no
other, and has a verifier. -/
structure VerificationDue (stored : AadParameters) (p : DecryptionProperties) (aadPrefix : Bytes) :
    Prop where
  stored : stored.aadPrefix = some aadPrefix
  agreed : ∀ supplied ∈ p.aadPrefix, supplied = aadPrefix
  verifier : p.aadPrefixVerifier.isSome = true

/-- The key is to be retrieved: the reader did not bring it along, and has
somebody to ask about it. -/
structure RetrievalDue (p : DecryptionProperties) (stored : Option Bytes) (keyMetadata : Bytes) :
    Prop where
  unsupplied : p.footerKey = none
  retriever : p.keyRetriever.isSome = true
  stored : stored = some keyMetadata
  nonempty : keyMetadata ≠ []

/-- Opening a section has the given prefix verified. -/
inductive VerifiesPrefix (decryption : Option DecryptionProperties) (mode : FooterMode) (bs : Bytes)
    (aadPrefix : Bytes) : Prop
  | intro {p : DecryptionProperties} {description : EncryptionAlgorithm}
      {keyMetadata : Option Bytes} {behind : Bytes} (present : decryption = some p)
      (described : DescribesEncryption bs description keyMetadata behind mode)
      (identified : description.parameters.fileUnique.isSome = true)
      (due : VerificationDue description.parameters p aadPrefix)

/-- A footer is opened with the footer key: it is sealed, or it is to be
verified and has a signature. -/
def NeedsKey (p : DecryptionProperties) (mode : FooterMode) (behind : Bytes) : Prop :=
  mode = .plaintext → p.checkFooterSignature = true ∧ behind.length = signatureSize

/-- Opening a section has the footer key retrieved. This is after the prefix was agreed on and
verified, which is part of resolving the decryption. -/
inductive RetrievesKey (decryption : Option DecryptionProperties) (mode : FooterMode) (bs : Bytes)
    (keyMetadata : Bytes) : Prop
  | intro {p : DecryptionProperties} {description : EncryptionAlgorithm} {stored : Option Bytes}
      {behind : Bytes} {d : FileDecryption} (present : decryption = some p)
      (described : DescribesEncryption bs description stored behind mode)
      (resolved : Resolves p description stored d) (needed : NeedsKey p mode behind)
      (due : RetrievalDue p stored keyMetadata)

/-- A file ends with a metadata section, and a trailer that tells its length and mode. -/
structure EndsWith (file front bs : Bytes) (mode : FooterMode) : Prop where
  whole : file = front ++ (bs ++ Trailer.encode ⟨bs.length, mode⟩)
  short : bs.length < UInt32.size

/-- A file ends with a metadata section that has a property. -/
def OfSection (file : Bytes) (Q : FooterMode → Bytes → Prop) : Prop :=
  ∃ front bs mode, EndsWith file front bs mode ∧ Q mode bs

/-- The end of a file is read, as far as the settings say, if there is room for a trailer. -/
def ReadsWindow (properties : ReaderProperties) (file : Bytes) (width : Nat) : Prop :=
  Trailer.size ≤ file.length ∧ width = windowSize properties file

/-- The section at the end of a file is read if it is not in what was read of the end. -/
def ReadsSection (properties : ReaderProperties) (file front bs : Bytes) : Prop :=
  (∃ mode, EndsWith file front bs mode) ∧
    windowSize properties file < Trailer.size + bs.length

/-! ### Finding the section -/

theorem EndsWith.length {file front bs : Bytes} {mode : FooterMode}
    (ends : EndsWith file front bs mode) :
    file.length = front.length + bs.length + Trailer.size := by
  rw [ends.whole]
  simp only [List.length_append, Trailer.length_encode]
  omega

/-- The section is found where the trailer says that it is. -/
theorem EndsWith.locate {file front bs : Bytes} {mode : FooterMode}
    (ends : EndsWith file front bs mode) : Opening.locate file = .ok (mode, bs) := by
  have size := ends.length
  have decoded : Trailer.decode (Trailer.encode ⟨bs.length, mode⟩) = .ok ⟨bs.length, mode⟩ :=
    Trailer.decode_encode ends.short
  have last : file.drop (file.length - Trailer.size) = Trailer.encode ⟨bs.length, mode⟩ := by
    have place : file.length - Trailer.size = (front ++ bs).length := by
      rw [List.length_append]
      omega
    rw [place, ends.whole, ← List.append_assoc, List.drop_left]
  have found : (file.drop (file.length - (Trailer.size + bs.length))).take bs.length = bs := by
    have place : file.length - (Trailer.size + bs.length) = front.length := by omega
    rw [place, ends.whole, List.drop_left, List.take_left]
  have large : ¬ file.length < Trailer.size := by omega
  have fits : ¬ file.length < Trailer.size + bs.length := by omega
  rw [Opening.locate, if_neg large, last, decoded, Except.ok_bind]
  dsimp only
  rw [if_neg fits, found]
  rfl

/-- What is found as the section is the part of the file in front of the trailer. -/
theorem locate_eq_ok {file bs : Bytes} {mode : FooterMode} :
    locate file = .ok (mode, bs) ↔ ∃ front, EndsWith file front bs mode := by
  constructor
  · intro found
    rw [locate] at found
    obtain ⟨large, afterSize⟩ := Except.guard_eq_ok.mp found
    obtain ⟨trailer, decoded, afterTrailer⟩ := Except.bind_eq_ok.mp afterSize
    obtain ⟨fits, done⟩ := Except.guard_eq_ok.mp afterTrailer
    obtain ⟨rfl, hsection⟩ := Prod.mk.inj (Except.pure_eq_ok.mp done)
    have last := Bytes.length_last (Nat.le_of_not_lt large)
    obtain ⟨encoded, bound⟩ := Trailer.decode_eq_ok last decoded
    obtain ⟨length, whole⟩ := split_at_section (Nat.le_of_not_lt fits) encoded hsection.symm
    exact ⟨_, whole, length ▸ bound⟩
  · rintro ⟨front, ends⟩
    exact ends.locate

/-- A file has one section at most. -/
theorem EndsWith.ofSection_iff {file front bs : Bytes} {mode : FooterMode}
    (ends : EndsWith file front bs mode) (Q : FooterMode → Bytes → Prop) :
    OfSection file Q ↔ Q mode bs := by
  constructor
  · rintro ⟨front', bs', mode', ends', holds⟩
    cases ends'.locate.symm.trans ends.locate
    exact holds
  · intro holds
    exact ⟨front, bs, mode, ends, holds⟩

theorem not_ofSection {file : Bytes} (nowhere : ∀ front bs mode, ¬ EndsWith file front bs mode)
    {Q : FooterMode → Bytes → Prop} : ¬ OfSection file Q := by
  rintro ⟨front, bs, mode, ends, _⟩
  exact nowhere front bs mode ends

/-! ### Agreeing on the prefix -/

section

variable {stored : AadParameters} {p : DecryptionProperties}

theorem supplies_other_iff (own : Bytes) :
    p.aadPrefix.any (· ≠ own) = true ↔ ¬ ∀ supplied ∈ p.aadPrefix, supplied = own := by
  cases p.aadPrefix <;> simp

/-- The verifier is called for the stored prefix, once the reader is known to supply no other. -/
theorem reconcilePrefix_run (stored : AadParameters) (p : DecryptionProperties) :
    ∃ calls result, CallsFor (VerificationDue stored p) .verification calls ∧
      ∀ s, reconcilePrefix stored p s = (result, s.noted calls) := by
  unfold reconcilePrefix
  cases hstored : stored.aadPrefix with
  | none =>
      have undue : ∀ aadPrefix, ¬ VerificationDue stored p aadPrefix := by
        intro aadPrefix due
        cases hstored.symm.trans due.stored
      cases p.aadPrefix with
      | some supplied =>
          refine ⟨[], .ok supplied, .absent undue, ?_⟩
          simp
      | none =>
          by_cases asked : stored.supplyAadPrefix.getD false = true
          · refine ⟨[], .error .aadPrefixMissing, .absent undue, ?_⟩
            simp only [if_pos asked, ReadState.noted_nil]
            exact fun s => rfl
          · refine ⟨[], .ok [], .absent undue, ?_⟩
            simp [asked]
  | some own =>
      dsimp only
      by_cases unlike : p.aadPrefix.any (· ≠ own) = true
      · refine ⟨[], .error .aadPrefixMismatch, .absent ?_, ?_⟩
        · intro aadPrefix due
          cases hstored.symm.trans due.stored
          exact (supplies_other_iff own).mp unlike due.agreed
        · simp only [if_pos unlike, ReadState.noted_nil]
          exact fun s => rfl
      · have agreed := Decidable.not_not.mp (mt (supplies_other_iff own).mpr unlike)
        simp only [if_neg unlike]
        cases hverifier : p.aadPrefixVerifier with
        | none =>
            refine ⟨[], .ok own, .absent ?_, ?_⟩
            · intro aadPrefix due
              have present := due.verifier
              simp [hverifier] at present
            · simp
        | some verifier =>
            refine ⟨[.verification own], (verifier own).map fun _ => own,
              .made ⟨hstored, agreed, ?_⟩, ?_⟩
            · simp [hverifier]
            · intro s
              dsimp only
              rw [Operation.run_bind, Session.verify_run]
              cases verifier own with
              | error e => rfl
              | ok answer => rfl

/-- A prefix that may be agreed on is agreed on. -/
theorem reconcilePrefix_of_reconciled {aadPrefix : Bytes} (h : ReconciledPrefix stored p aadPrefix)
    (s : ReadState) : (reconcilePrefix stored p s).1 = .ok aadPrefix := by
  rw [reconcilePrefix]
  cases h with
  | stored present agreed verified =>
      have like : ¬ p.aadPrefix.any (· ≠ aadPrefix) = true := by
        rw [supplies_other_iff]
        exact not_not_intro agreed
      rw [present]
      dsimp only
      rw [if_neg like]
      cases hverifier : p.aadPrefixVerifier with
      | none => rfl
      | some verifier =>
          dsimp only
          rw [Operation.run_bind, Session.verify_run, verified verifier hverifier]
          rfl
  | supplied absent brought =>
      rw [absent, brought]
      rfl
  | empty absent missing optional =>
      have unasked : ¬ stored.supplyAadPrefix.getD false = true := by
        cases hask : stored.supplyAadPrefix <;> simp_all
      rw [absent, missing]
      dsimp only
      rw [if_neg unasked]
      rfl

end

section

variable {p : DecryptionProperties} {description : EncryptionAlgorithm} {keyMetadata : Option Bytes}

/-- The decryption of a file is resolved or not, and the verifier is called on the way to that. -/
theorem fileDecryption_run (description : EncryptionAlgorithm) (keyMetadata : Option Bytes)
    (p : DecryptionProperties) :
    ∃ calls result,
      CallsFor (fun aadPrefix => description.parameters.fileUnique.isSome = true ∧
        VerificationDue description.parameters p aadPrefix) .verification calls ∧
      ∀ s, fileDecryption description keyMetadata p s = (result, s.noted calls) := by
  unfold fileDecryption
  cases hunique : description.parameters.fileUnique with
  | none =>
      refine ⟨[], .error .fileUniqueMissing, .absent ?_, ?_⟩
      · rintro aadPrefix ⟨identified, _⟩
        cases identified
      · simp only [ReadState.noted_nil]
        exact fun s => rfl
  | some fileUnique =>
      obtain ⟨calls, result, called, run⟩ := reconcilePrefix_run description.parameters p
      refine ⟨calls, result.map fun aadPrefix =>
        ⟨p, description.algorithm, aadPrefix ++ fileUnique, keyMetadata⟩, ?_, ?_⟩
      · exact called.congr fun aadPrefix => ⟨fun due => ⟨rfl, due⟩, fun due => due.2⟩
      · intro s
        dsimp only
        rw [Operation.run_bind, run s]
        cases result with
        | error e => rfl
        | ok aadPrefix => rfl

/-- The decryption that a reader should arrive at is the one that it arrives at. -/
theorem fileDecryption_of_resolves {d : FileDecryption} (h : Resolves p description keyMetadata d)
    (s : ReadState) : (fileDecryption description keyMetadata p s).1 = .ok d := by
  obtain ⟨aadPrefix, fileUnique, reconciled, present, _⟩ := h.fileAad
  have agreed := reconcilePrefix_of_reconciled reconciled s
  have arrived : ∃ d', (fileDecryption description keyMetadata p s).1 = .ok d' := by
    rw [fileDecryption, present]
    dsimp only
    rw [Operation.run_bind]
    generalize reconcilePrefix description.parameters p s = outcome at agreed ⊢
    rcases outcome with ⟨_, t⟩
    cases agreed
    exact ⟨_, rfl⟩
  obtain ⟨d', arrived⟩ := arrived
  have run : fileDecryption description keyMetadata p s = (.ok d', _) := Prod.ext arrived rfl
  rw [arrived, (fileDecryption_eq_ok run).1.unique h]

end

/-! ### Asking for the footer key -/

theorem events_bind {α β : Type} {x : Session α} {f : α → Session β}
    (quiet : ∀ a events, Preserves (fun s : ReadState => s.events = events) (f a)) (s : ReadState) :
    ((x >>= f) s).2.events = (x s).2.events := by
  rw [Operation.run_bind]
  rcases x s with ⟨e | a, t⟩
  · rfl
  · exact (quiet a _ t rfl).2

/-- The retriever is called if there is one and the file says what to ask it about. -/
theorem retrieveKey_run (d : FileDecryption) (subject : KeySubject) (stored : Option Bytes) :
    ∃ calls, CallsFor (fun keyMetadata => d.properties.keyRetriever.isSome = true ∧
        stored = some keyMetadata ∧ keyMetadata ≠ []) (.retrieval subject) calls ∧
      ∀ s, (d.retrieveKey subject stored s).2 = s.noted calls := by
  unfold FileDecryption.retrieveKey
  cases d.properties.keyRetriever with
  | none =>
      refine ⟨[], .absent ?_, ?_⟩
      · rintro keyMetadata ⟨present, _⟩
        cases present
      · simp only [ReadState.noted_nil]
        exact fun s => rfl
  | some retriever =>
      dsimp only
      cases hasked : stored.filter (!·.isEmpty) with
      | none =>
          refine ⟨[], .absent ?_, ?_⟩
          · rintro keyMetadata ⟨_, rfl, nonempty⟩
            simp [nonempty] at hasked
          · simp only [ReadState.noted_nil]
            exact fun s => rfl
      | some keyMetadata =>
          obtain ⟨rfl, nonempty⟩ := Option.filter_eq_some_iff.mp hasked
          refine ⟨[.retrieval subject keyMetadata], .made ⟨rfl, rfl, ?_⟩, ?_⟩
          · simpa using nonempty
          · intro s
            dsimp only
            rw [Operation.run_bind, Operation.run_adapt, Session.retrieve_run]
            cases (retriever keyMetadata).mapError (FileDecryption.retrievalError subject) with
            | error e => rfl
            | ok bytes => rfl

/-- A session that does not know the footer key yet asks the retriever for it, if that is due. -/
theorem footerKey_run (d : FileDecryption) :
    ∃ calls, CallsFor (RetrievalDue d.properties d.footerKeyMetadata) (.retrieval .footer) calls ∧
      ∀ s : ReadState, s.footerKey = none → s.closed = false →
        (d.footerKey s).2.events = (s.noted calls).events := by
  have remembers (key : Key) (events : Array SessionEvent) :
      Preserves (fun s : ReadState => s.events = events)
        (do modify fun s => { s with footerKey := some key }; return key : Session Key) :=
    .seq (.of_yields (.modify fun s kept => kept)) fun _ => .pure
  cases hbrought : d.properties.footerKey with
  | some key =>
      refine ⟨[], .absent ?_, ?_⟩
      · intro keyMetadata due
        cases hbrought.symm.trans due.unsupplied
      · intro s fresh opened
        rw [FileDecryption.footerKey,
          Operation.run_bind_ok (Session.checkKeysHeld_of_opened opened),
          Operation.run_get_bind, fresh, hbrought, ReadState.noted_nil]
        rfl
  | none =>
      obtain ⟨calls, called, run⟩ := retrieveKey_run d .footer d.footerKeyMetadata
      refine ⟨calls, called.congr ?_, ?_⟩
      · intro keyMetadata
        constructor
        · rintro ⟨present, stored, nonempty⟩
          exact ⟨hbrought, present, stored, nonempty⟩
        · intro due
          exact ⟨due.retriever, due.stored, due.nonempty⟩
      · intro s fresh opened
        rw [FileDecryption.footerKey,
          Operation.run_bind_ok (Session.checkKeysHeld_of_opened opened),
          Operation.run_get_bind, fresh, hbrought, ← run s]
        exact events_bind remembers s

/-! ### Opening a section -/

variable {decryption : Option DecryptionProperties} {mode : FooterMode} {bs : Bytes}

/-- What stands at the front of a section is understood. -/
theorem decodePart_of_whole {α : Type} [Wire α] [LawfulWire α] {a : α} {behind : Bytes}
    (short : bs.length < UInt32.size) (whole : bs = Wire.encode a ++ behind) :
    decodePart bs = .ok (a, (Wire.encode a).length) := by
  subst whole
  apply decodePart_encode
  apply fits_of_short
  rw [List.length_append] at short
  omega

/-- A section tells one thing only. -/
theorem DescribesEncryption.unique (short : bs.length < UInt32.size)
    {description description' : EncryptionAlgorithm} {keyMetadata keyMetadata' : Option Bytes}
    {behind behind' : Bytes} (h : DescribesEncryption bs description keyMetadata behind mode)
    (h' : DescribesEncryption bs description' keyMetadata' behind' mode) :
    description = description' ∧ keyMetadata = keyMetadata' ∧ behind = behind' := by
  cases h with
  | plaintext whole described named =>
      cases h' with
      | plaintext whole' described' named' =>
          obtain ⟨rfl, rfl⟩ := eq_of_encode_append (whole ▸ short) (whole.symm.trans whole')
          cases described.symm.trans described'
          exact ⟨rfl, named.symm.trans named', rfl⟩
  | encrypted whole described named =>
      cases h' with
      | encrypted whole' described' named' =>
          obtain ⟨rfl, rfl⟩ := eq_of_encode_append (whole ▸ short) (whole.symm.trans whole')
          exact ⟨described.symm.trans described', named.symm.trans named', rfl⟩

/-- From a session that does not know the footer key yet the operation makes the calls that
opening the section takes. -/
def MakesDueCalls (decryption : Option DecryptionProperties) (mode : FooterMode) (bs : Bytes)
    (op : Session FileInfo) : Prop :=
  ∃ verification retrieval,
    CallsFor (VerifiesPrefix decryption mode bs) .verification verification ∧
    CallsFor (RetrievesKey decryption mode bs) (.retrieval .footer) retrieval ∧
    ∀ s : ReadState, s.footerKey = none → s.closed = false →
      (op s).2.events = (s.noted (verification ++ retrieval)).events

/-- Nobody is called for a section that describes no encryption, or by a reader without
properties. -/
theorem MakesDueCalls.quiet {op : Session FileInfo}
    (undescribed : ∀ p description keyMetadata behind, decryption = some p →
      ¬ DescribesEncryption bs description keyMetadata behind mode)
    (quiet : ∀ events, Preserves (fun s : ReadState => s.events = events) op) :
    MakesDueCalls decryption mode bs op := by
  refine ⟨[], [], .absent ?_, .absent ?_, ?_⟩
  · rintro aadPrefix ⟨present, described⟩
    exact undescribed _ _ _ _ present described
  · rintro keyMetadata ⟨present, described⟩
    exact undescribed _ _ _ _ present described
  · intro s _ _
    rw [List.append_nil, ReadState.noted_nil]
    exact (quiet _ s rfl).2

/-- The prefix is agreed on first, and verified on the way; then the key is
asked for if it is needed. -/
theorem MakesDueCalls.described {p : DecryptionProperties} {description : EncryptionAlgorithm}
    {keyMetadata : Option Bytes} {behind : Bytes} (short : bs.length < UInt32.size)
    (described : DescribesEncryption bs description keyMetadata behind mode)
    {rest : FileDecryption → Session FileInfo}
    (unneeded : ¬ NeedsKey p mode behind → ∀ d events,
      Preserves (fun s : ReadState => s.events = events) (rest d))
    (needed : NeedsKey p mode behind → ∀ d, d.properties = p → ∀ s,
      (rest d s).2.events = (d.footerKey s).2.events) :
    MakesDueCalls (some p) mode bs (fileDecryption description keyMetadata p >>= rest) := by
  obtain ⟨verification, result, called, run⟩ := fileDecryption_run description keyMetadata p
  have verified : CallsFor (VerifiesPrefix (some p) mode bs) .verification verification := by
    refine called.congr fun aadPrefix => ⟨?_, ?_⟩
    · rintro ⟨identified, due⟩
      exact ⟨rfl, described, identified, due⟩
    · rintro ⟨present, described', identified, due⟩
      cases present
      obtain ⟨rfl, _, _⟩ := described.unique short described'
      exact ⟨identified, due⟩
  cases result with
  | error e =>
      refine ⟨verification, [], verified, .absent ?_, ?_⟩
      · rintro asked ⟨present, described', resolved⟩
        cases present
        obtain ⟨rfl, rfl, _⟩ := described.unique short described'
        have arrived := fileDecryption_of_resolves resolved {}
        rw [run] at arrived
        cases arrived
      · intro s _ _
        rw [Operation.run_bind, run, List.append_nil]
  | ok d =>
      obtain ⟨resolved, _⟩ := fileDecryption_eq_ok (run {})
      by_cases needs : NeedsKey p mode behind
      · obtain ⟨retrieval, asked, keyRun⟩ := footerKey_run d
        refine ⟨verification, retrieval, verified, asked.congr ?_, ?_⟩
        · rw [resolved.properties, resolved.footerKeyMetadata]
          refine fun asked => ⟨fun due => ⟨rfl, described, resolved, needs, due⟩, ?_⟩
          rintro ⟨present, described', _, _, due⟩
          cases present
          obtain ⟨_, rfl, _⟩ := described.unique short described'
          exact due
        · intro s fresh opened
          rw [Operation.run_bind, run]
          dsimp only
          rw [needed needs d resolved.properties, keyRun (s.noted verification) fresh opened,
            ReadState.noted_noted]
      · refine ⟨verification, [], verified, .absent ?_, ?_⟩
        · rintro asked ⟨present, described', _, needs', _⟩
          cases present
          obtain ⟨_, _, rfl⟩ := described.unique short described'
          exact needs needs'
        · intro s _ _
          rw [Operation.run_bind, run, List.append_nil]
          exact (unneeded needs d _ _ rfl).2

theorem MakesDueCalls.lift {α : Type} {x : Except Error α} {a : α} (h : x = .ok a)
    {f : α → Session FileInfo} (rest : MakesDueCalls decryption mode bs (f a)) :
    MakesDueCalls decryption mode bs (liftM x >>= f) := by
  subst h
  exact rest

/-- Verifying a signature calls nobody but for the key. -/
theorem verifySignature_events (d : FileDecryption) (footer signature : Bytes) (s : ReadState) :
    (verifySignature d footer signature s).2.events = (d.footerKey s).2.events := by
  refine events_bind (fun key events => ?_) s
  refine .seq .lift fun aad => .seq .lift fun parts => .seq .lift fun sealedFooter => .guard ?_
  refine .seq .lift fun start => .seq .lift fun expected => ?_
  split
  · exact .throw
  · exact .pure

/-- Making an engine calls nobody. -/
theorem footerOpener_events (d : FileDecryption) (s : ReadState) :
    (d.footerOpener s).2.events = (d.footerKey s).2.events := by
  refine events_bind (fun key events => ?_) s
  refine .seq (.of_yields (Session.engine_yields ?_ _)) fun engine => .pure
  intro s kept engines
  exact kept

theorem plaintextSection_calls (decryption : Option DecryptionProperties)
    (short : bs.length < UInt32.size) :
    MakesDueCalls decryption .plaintext bs (plaintextSection decryption bs) := by
  rw [plaintextSection]
  cases decoded : (decodePart bs : Except Error (FileMetaData × Nat)) with
  | error e =>
      refine .quiet ?_ fun events s kept => ⟨trivial, kept⟩
      rintro p description keyMetadata behind _ ⟨whole, _⟩
      rw [decodePart_of_whole short whole] at decoded
      cases decoded
  | ok found =>
      obtain ⟨m, consumed⟩ := found
      obtain ⟨rfl, behind, whole⟩ := decodePart_eq_ok decoded
      refine .lift rfl ?_
      dsimp only
      cases hdescription : m.encryptionAlgorithm with
      | none =>
          refine .quiet ?_ fun events => ?_
          · rintro p description keyMetadata behind' _ ⟨whole', described, _⟩
            obtain ⟨rfl, _⟩ := eq_of_encode_append (whole ▸ short) (whole.symm.trans whole')
            cases hdescription.symm.trans described
          · dsimp only
            split
            · exact .seq .lift fun _ => .throw
            · exact .lift
      | some description =>
          cases decryption with
          | none =>
              refine .quiet ?_ fun events => .lift
              rintro _ _ _ _ ⟨⟩
          | some p =>
              have signature : Bytes.sliceFrom bs (Wire.encode m).length = .ok behind := by
                rw [whole]
                exact Bytes.sliceFrom_append _ _
              have footer : Bytes.slice bs 0 (Wire.encode m).length = .ok (Wire.encode m) := by
                rw [whole, Bytes.slice, if_pos (by simp)]
                simp
              refine .described short (.plaintext whole hdescription rfl) ?_ ?_
              · intro unneeded d events
                split
                · next checked =>
                  have length : behind.length ≠ signatureSize := by
                    intro length
                    exact unneeded fun _ => ⟨checked, length⟩
                  intro s kept
                  refine ⟨trivial, ?_⟩
                  rw [Operation.run_lift_bind signature, if_pos length]
                  exact kept
                · exact .lift
              · intro needed d _ s
                obtain ⟨checked, length⟩ := needed rfl
                rw [if_pos checked, Operation.run_lift_bind signature,
                  if_neg (not_not_intro length), Operation.run_lift_bind footer,
                  ← verifySignature_events d (Wire.encode m) behind]
                exact events_bind (fun _ events => .lift) s

theorem encryptedSection_calls (decryption : Option DecryptionProperties)
    (short : bs.length < UInt32.size) :
    MakesDueCalls decryption .encrypted bs (encryptedSection decryption bs) := by
  unfold encryptedSection
  cases decryption with
  | none =>
      refine .quiet ?_ fun events => .throw
      rintro _ _ _ _ ⟨⟩
  | some p =>
      dsimp only
      cases decoded : (decodePart bs : Except Error (FileCryptoMetaData × Nat)) with
      | error e =>
          refine .quiet ?_ fun events s kept => ⟨trivial, kept⟩
          intro p description keyMetadata behind _ described
          cases described with
          | encrypted whole =>
              rw [decodePart_of_whole short whole] at decoded
              cases decoded
      | ok found =>
          obtain ⟨crypto, consumed⟩ := found
          obtain ⟨rfl, behind, whole⟩ := decodePart_eq_ok decoded
          refine .lift rfl ?_
          refine .described short (.encrypted whole rfl rfl) ?_ ?_
          · intro unneeded
            exact absurd (fun plain => by cases plain) unneeded
          · intro _ d _ s
            rw [← footerOpener_events]
            refine events_bind (fun opener events => ?_) s
            refine .seq .lift fun aad => .seq .lift fun input => ?_
            refine .seq (Yields.adapt Preserves.lift fun _ _ => trivial) fun opened => .guard ?_
            exact .seq .lift fun found => .lift

theorem understand_calls (decryption : Option DecryptionProperties) (mode : FooterMode)
    (short : bs.length < UInt32.size) :
    MakesDueCalls decryption mode bs (understand decryption (mode, bs)) := by
  cases mode with
  | plaintext => exact plaintextSection_calls decryption short
  | encrypted => exact encryptedSection_calls decryption short

/-! ### Opening a file -/

/-- The calls of an attempt to open a file, in their order. -/
inductive OpeningCalls (properties : ReaderProperties) (bytes : Bytes) : List SessionEvent → Prop
  | intro {window metadataSection verification retrieval : List SessionEvent}
      (first : CallsFor (ReadsWindow properties bytes)
        (fun width => .read (bytes.length - width) width) window)
      (second : CallsFor
        (fun parts : Bytes × Bytes => ReadsSection properties bytes parts.1 parts.2)
        (fun parts => .read parts.1.length parts.2.length) metadataSection)
      (third : CallsFor (fun aadPrefix => OfSection bytes fun mode bs =>
        VerifiesPrefix properties.decryption mode bs aadPrefix) .verification verification)
      (fourth : CallsFor (fun keyMetadata => OfSection bytes fun mode bs =>
        RetrievesKey properties.decryption mode bs keyMetadata) (.retrieval .footer) retrieval) :
      OpeningCalls properties bytes (window ++ metadataSection ++ verification ++ retrieval)

/-- What is read of a file is its end, and then its section. -/
theorem fileReads_calls (properties : ReaderProperties) (bytes : Bytes) :
    ∃ window metadataSection, fileReads properties bytes = window ++ metadataSection ∧
      CallsFor (ReadsWindow properties bytes)
        (fun width => .read (bytes.length - width) width) window ∧
      CallsFor (fun parts : Bytes × Bytes => ReadsSection properties bytes parts.1 parts.2)
        (fun parts => .read parts.1.length parts.2.length) metadataSection := by
  rw [fileReads]
  by_cases small : bytes.length < Trailer.size
  · refine ⟨[], [], if_pos small, .absent ?_, .absent ?_⟩
    · rintro width ⟨large, _⟩
      omega
    · rintro parts ⟨⟨mode, ends⟩, _⟩
      have length := ends.length
      omega
  · rw [if_neg small]
    have large : ReadsWindow properties bytes (windowSize properties bytes) :=
      ⟨Nat.le_of_not_lt small, rfl⟩
    refine ⟨_, _, rfl, .made large, ?_⟩
    cases located : locate bytes with
    | error e =>
        refine .absent ?_
        rintro parts ⟨⟨mode, ends⟩, _⟩
        cases ends.locate.symm.trans located
    | ok found =>
        obtain ⟨mode, bs⟩ := found
        obtain ⟨front, ends⟩ := locate_eq_ok.mp located
        have place : bytes.length - (Trailer.size + bs.length) = front.length := by
          have length := ends.length
          omega
        dsimp only
        rw [place]
        split
        · next outside => exact .made (a := (front, bs)) ⟨⟨mode, ends⟩, outside⟩
        · next inside =>
          refine .absent ?_
          rintro ⟨front', bs'⟩ ⟨⟨mode', ends'⟩, outside⟩
          cases ends'.locate.symm.trans located
          exact inside outside

/-- The section is understood after it was read, so the calls for that follow the reads. -/
theorem readFooter_calls (properties : ReaderProperties) (bytes : Bytes) :
    OpeningCalls properties bytes (readFooter properties ⟨.memory, bytes⟩ {}).2.events.toList := by
  obtain ⟨window, metadataSection, reads, first, second⟩ := fileReads_calls properties bytes
  rw [readFooter_run, Operation.run_bind, Operation.run_lift, reads]
  cases located : locate bytes with
  | error e =>
      have nowhere : ∀ front bs mode, ¬ EndsWith bytes front bs mode := by
        intro front bs mode ends
        cases ends.locate.symm.trans located
      have calls : OpeningCalls properties bytes (window ++ metadataSection ++ [] ++ []) :=
        .intro first second (.absent fun _ => not_ofSection nowhere)
          (.absent fun _ => not_ofSection nowhere)
      simpa [ReadState.noted] using calls
  | ok found =>
      obtain ⟨mode, bs⟩ := found
      obtain ⟨front, ends⟩ := locate_eq_ok.mp located
      obtain ⟨verification, retrieval, third, fourth, run⟩ :=
        understand_calls properties.decryption mode ends.short
      have calls : OpeningCalls properties bytes
          (window ++ metadataSection ++ verification ++ retrieval) := by
        refine .intro first second (third.congr ?_) (fourth.congr ?_)
        · intro aadPrefix
          exact (ends.ofSection_iff fun mode bs =>
            VerifiesPrefix properties.decryption mode bs aadPrefix).symm
        · intro keyMetadata
          exact (ends.ofSection_iff fun mode bs =>
            RetrievesKey properties.decryption mode bs keyMetadata).symm
      dsimp only
      rw [run _ rfl rfl]
      simpa [ReadState.noted] using calls

section

variable {properties : ReaderProperties} {bytes : Bytes} {events : List SessionEvent}

/-- A file without room for a trailer is not touched. -/
theorem OpeningCalls.of_small (calls : OpeningCalls properties bytes events)
    (small : bytes.length < Trailer.size) : events = [] := by
  have nowhere : ∀ front bs mode, ¬ EndsWith bytes front bs mode := by
    intro front bs mode ends
    have length := ends.length
    omega
  cases calls with
  | intro first second third fourth =>
      rw [first.eq_nil, second.eq_nil, third.eq_nil, fourth.eq_nil]
      · rfl
      · exact fun _ => not_ofSection nowhere
      · exact fun _ => not_ofSection nowhere
      · rintro parts ⟨⟨mode, ends⟩, _⟩
        exact nowhere _ _ mode ends
      · rintro width ⟨large, _⟩
        omega

/-- Nothing is read outside the file. -/
theorem OpeningCalls.inside (calls : OpeningCalls properties bytes events) {start length : Nat}
    (read : .read start length ∈ events) : start + length ≤ bytes.length := by
  cases calls with
  | intro first second third fourth =>
      simp only [List.mem_append] at read
      obtain ((read | read) | read) | read := read
      · obtain ⟨width, ⟨_, rfl⟩, same⟩ := first.exists_of_mem read
        cases same
        have within := windowSize_le properties bytes
        omega
      · obtain ⟨parts, ⟨⟨mode, ends⟩, _⟩, same⟩ := second.exists_of_mem read
        cases same
        have size := ends.length
        omega
      · obtain ⟨aadPrefix, _, same⟩ := third.exists_of_mem read
        cases same
      · obtain ⟨keyMetadata, _, same⟩ := fourth.exists_of_mem read
        cases same

end

end Opening

/-- Whatever bytes a reader is given and whatever its settings are, an attempt to parse them calls
on others in this order: for the end of the file, for its section, for the stored prefix and for the
footer key, each at most once and only as described. Nothing is read outside the file, and nobody is
called for a file without room for a trailer. -/
theorem FooterReader.tryParse_calls (properties : ReaderProperties) (bytes : Bytes) :
    let calls := (tryParse { properties } ⟨.memory, bytes⟩ {}).2.events.toList
    Opening.OpeningCalls properties bytes calls ∧
      (bytes.length < Trailer.size → calls = []) ∧
      ∀ start length, .read start length ∈ calls → start + length ≤ bytes.length := by
  have fresh : (⟨properties, .unopened, none⟩ : FooterReader).state = .unopened := rfl
  have calls := Opening.readFooter_calls properties bytes
  rw [tryParse_unopened fresh]
  exact ⟨calls, calls.of_small, fun start length => calls.inside⟩

end SealedColumns
