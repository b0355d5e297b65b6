import SealedColumns.Proofs.OpeningCalls
import SealedColumns.Proofs.RoundTrip

/-!
# Reader and writer agree on the prefix

The associated data of a file begins with a prefix that the writer chooses. It stores the prefix in
the file or leaves it out, in which case the file asks the reader to supply it. The reader may
supply a prefix, and may have a stored one verified. `SettlesPrefix` says what comes of every
combination for a file that a writer finished: an error, or a decryption that the metadata section
is opened with. Nothing is assumed of the reader's keys, so opening the section need not succeed;
the decryption is settled before any key is looked for.

Builders ignore empty prefixes. Without this, a reader that supplies an empty prefix would arrive at
the associated data of a file that has none.
-/

namespace SealedColumns

/-- The prefix that an entry in the record of a session had verified. -/
def SessionEvent.verified? : SessionEvent → Option Bytes
  | .verification aadPrefix => some aadPrefix
  | .read .. | .retrieval .. => none

/-- The prefixes that were verified in a session, in order. -/
def ReadState.verifications (s : ReadState) : List Bytes :=
  s.events.toList.filterMap SessionEvent.verified?

/-- Calls for other reasons have nothing verified. -/
theorem CallsFor.unverified {α : Type} {Q : α → Prop} {event : α → SessionEvent}
    {calls : List SessionEvent} (h : CallsFor Q event calls)
    (other : ∀ a, (event a).verified? = none) : calls.filterMap SessionEvent.verified? = [] := by
  cases h with
  | made due => rw [List.filterMap_cons_none (other _), List.filterMap_nil]
  | absent undue => rfl

namespace Opening

/-- Opens a metadata section whose decryption is known. -/
def openSection (d : FileDecryption) : FooterMode × Bytes → Session FileInfo
  | (.plaintext, bs) => do
    let ((metaData : FileMetaData), consumed) ← decodePart bs
    if d.properties.checkFooterSignature then
      let signature ← bs.sliceFrom consumed
      if signature.length ≠ signatureSize then throw (.signatureLength signature.length)
      verifySignature d (← bs.slice 0 consumed) signature
    fileInfo metaData (some d)
  | (.encrypted, bs) => do
    let ((_ : FileCryptoMetaData), consumed) ← decodePart bs
    let opener ← d.footerOpener
    let aad ← footerAad d.fileAad
    let input ← bs.sliceFrom consumed
    let (plain, rest) ← ExceptT.adapt sealedFooterError
      (readSealed (opener.decrypt aad) input : Except Error (Bytes × Bytes))
    if !rest.isEmpty then throw (.encryptedFooterTrailingBytes rest.length)
    let ((metaData : FileMetaData), _) ← decodeFront plain
    fileInfo metaData (some d)

/-- An attempt to open a file comes, after some calls, to open its metadata section with the given
decryption. -/
inductive OpensWith (d : FileDecryption) (file : Bytes) : Except Error OpenFile × ReadState → Prop
  | intro {front bs : Bytes} {mode : FooterMode} (ends : EndsWith file front bs mode)
      (calls : List SessionEvent) :
      OpensWith d file
        ((openSection d (mode, bs) (ReadState.noted {} calls)).1.map (OpenFile.mk ⟨.memory, file⟩),
          (openSection d (mode, bs) (ReadState.noted {} calls)).2)

/-- What comes of opening a file, given the writer's encryption and the reader's properties. -/
structure SettlesPrefix (e : FileEncryption) (r : DecryptionProperties) (file : Bytes)
    (opening : Except Error OpenFile × ReadState) : Prop where
  /-- A reader with another prefix than the stored one is refused, and the
  verifier is not called. -/
  mismatch {own other : Bytes} (stores : e.properties.storesAadPrefix = true)
    (chosen : e.properties.aadPrefix = some own) (supplied : r.aadPrefix = some other)
    (unlike : other ≠ own) :
    opening.1 = .error .aadPrefixMismatch ∧ opening.2.verifications = []
  /-- The verifier is called once, for the stored prefix, and decides. -/
  verified {own : Bytes} {verifier : AadPrefixVerifier}
    (stores : e.properties.storesAadPrefix = true)
    (chosen : e.properties.aadPrefix = some own) (agreed : ∀ other ∈ r.aadPrefix, other = own)
    (asked : r.aadPrefixVerifier = some verifier) :
    opening.2.verifications = [own] ∧
      (∀ err, verifier own = .error err → opening.1 = .error err) ∧
      (verifier own = .ok () → OpensWith (e.decryption r) file opening)
  /-- Without a verifier the stored prefix is taken over. -/
  unverified {own : Bytes} (stores : e.properties.storesAadPrefix = true)
    (chosen : e.properties.aadPrefix = some own) (agreed : ∀ other ∈ r.aadPrefix, other = own)
    (unasked : r.aadPrefixVerifier = none) :
    opening.2.verifications = [] ∧ OpensWith (e.decryption r) file opening
  /-- A prefix that was left out has to be supplied. -/
  missing {own : Bytes} (left : e.properties.storesAadPrefix = false)
    (chosen : e.properties.aadPrefix = some own) (unsupplied : r.aadPrefix = none) :
    opening.1 = .error .aadPrefixMissing ∧ opening.2.verifications = []
  /-- The reader goes by its own prefix, or by none where there is none on either side. -/
  supplied (left : e.properties.storesAadPrefix = false)
    (possible : e.properties.aadPrefix = none ∨ r.aadPrefix.isSome = true) :
    opening.2.verifications = [] ∧
      OpensWith { e.decryption r with fileAad := r.aadPrefix.getD [] ++ e.fileUnique } file
        opening ∧
      (r.aadPrefix.getD [] ++ e.fileUnique = e.fileAad ↔ r.aadPrefix = e.properties.aadPrefix)

/-! ### Refusing a prefix -/

/-- The reasons for not arriving at a prefix: the reader supplies another one than the file stores,
its verifier objects to the stored one, or the file asks for one and the reader has none. -/
inductive RefusedPrefix (stored : AadParameters) (r : DecryptionProperties) : Error → Prop where
  | mismatch {own other : Bytes} (present : stored.aadPrefix = some own)
      (supplied : r.aadPrefix = some other) (unlike : other ≠ own) :
      RefusedPrefix stored r .aadPrefixMismatch
  | objection {own : Bytes} {verifier : AadPrefixVerifier} {err : Error}
      (present : stored.aadPrefix = some own) (agreed : ∀ other ∈ r.aadPrefix, other = own)
      (asked : r.aadPrefixVerifier = some verifier) (answer : verifier own = .error err) :
      RefusedPrefix stored r err
  | missing (absent : stored.aadPrefix = none) (unsupplied : r.aadPrefix = none)
      (demanded : stored.supplyAadPrefix = some true) : RefusedPrefix stored r .aadPrefixMissing

section

variable {stored : AadParameters} {description : EncryptionAlgorithm} {r : DecryptionProperties}
variable {err : Error}

theorem reconcilePrefix_of_refused (h : RefusedPrefix stored r err) (s : ReadState) :
    (reconcilePrefix stored r s).1 = .error err := by
  rw [reconcilePrefix]
  cases h with
  | @mismatch own other present supplied unlike =>
      have differs : r.aadPrefix.any (· ≠ own) = true := by simpa [supplied] using unlike
      rw [present]
      dsimp only
      rw [if_pos differs]
      rfl
  | @objection own verifier _ present agreed asked answer =>
      have same : ¬ r.aadPrefix.any (· ≠ own) = true := by
        rw [supplies_other_iff]
        exact not_not_intro agreed
      rw [present]
      dsimp only
      rw [if_neg same, asked]
      dsimp only
      rw [Operation.run_bind, Session.verify_run, answer]
  | missing absent unsupplied demanded =>
      rw [absent, unsupplied]
      dsimp only
      rw [demanded]
      rfl

theorem fileDecryption_of_refused (keyMetadata : Option Bytes)
    (identified : description.parameters.fileUnique.isSome = true)
    (h : RefusedPrefix description.parameters r err) (s : ReadState) :
    (fileDecryption description keyMetadata r s).1 = .error err := by
  obtain ⟨fileUnique, present⟩ := Option.isSome_iff_exists.mp identified
  have refused := reconcilePrefix_of_refused h s
  rw [fileDecryption, present]
  dsimp only
  rw [Operation.run_bind]
  generalize reconcilePrefix description.parameters r s = outcome at refused ⊢
  rcases outcome with ⟨_, t⟩
  cases refused
  rfl

end

/-! ### After the decryption is settled -/

section

variable {r : DecryptionProperties} {description : EncryptionAlgorithm} {keyMetadata : Option Bytes}
variable {mode : FooterMode} {file front bs behind : Bytes} {d : FileDecryption} {s t : ReadState}

/-- What is known of a file that was opened with a decryption includes this decryption. -/
theorem openSection_decryption {info : FileInfo}
    (opened : openSection d (mode, bs) s = (.ok info, t)) : info.decryption = some d := by
  cases mode with
  | plaintext =>
      rw [openSection] at opened
      obtain ⟨⟨m, consumed⟩, _, checking⟩ := Operation.lift_bind_eq_ok.mp opened
      dsimp only at checking
      split at checking
      · obtain ⟨signature, _, measuring⟩ := Operation.lift_bind_eq_ok.mp checking
        obtain ⟨_, cutting⟩ := Operation.guard_eq_ok.mp measuring
        obtain ⟨footer, _, verifying⟩ := Operation.lift_bind_eq_ok.mp cutting
        obtain ⟨_, u, _, taking⟩ := Operation.bind_eq_ok.mp verifying
        exact (fileInfo_eq_ok (Operation.lift_eq_ok.mp taking).1).decryption
      · exact (fileInfo_eq_ok (Operation.lift_eq_ok.mp checking).1).decryption
  | encrypted =>
      rw [openSection] at opened
      obtain ⟨_, _, keying⟩ := Operation.lift_bind_eq_ok.mp opened
      obtain ⟨opener, u, _, sealing⟩ := Operation.bind_eq_ok.mp keying
      obtain ⟨aad, _, cutting⟩ := Operation.lift_bind_eq_ok.mp sealing
      obtain ⟨input, _, reading⟩ := Operation.lift_bind_eq_ok.mp cutting
      obtain ⟨⟨plain, rest⟩, v, _, ending⟩ := Operation.bind_eq_ok.mp reading
      obtain ⟨_, decoding⟩ := Operation.guard_eq_ok.mp ending
      obtain ⟨_, _, taking⟩ := Operation.lift_bind_eq_ok.mp decoding
      exact (fileInfo_eq_ok (Operation.lift_eq_ok.mp taking).1).decryption

/-- A file that is opened with a decryption is decrypted with it from then on. -/
theorem OpensWith.decryption {opening : Except Error OpenFile × ReadState} {f : OpenFile}
    (opens : OpensWith d file opening) (opened : opening.1 = .ok f) :
    f.info.decryption = some d := by
  obtain ⟨ends, calls⟩ := opens
  dsimp only at opened
  generalize hrun : openSection d _ _ = outcome at opened
  rcases outcome with ⟨_ | info, t⟩
  · cases opened
  · cases opened
    exact openSection_decryption hrun

/-- An encrypted section is understood by settling the decryption and opening the section with
it. -/
theorem understand_run (short : bs.length < UInt32.size)
    (described : DescribesEncryption bs description keyMetadata behind mode) (s : ReadState) :
    understand (some r) (mode, bs) s =
      (fileDecryption description keyMetadata r >>= fun d => openSection d (mode, bs)) s := by
  cases described with
  | @plaintext m whole present named =>
      subst named
      have decoded := decodePart_of_whole short whole
      rw [understand, plaintextSection, Operation.run_lift_bind decoded]
      dsimp only
      rw [present]
      dsimp only
      rw [Operation.run_bind, Operation.run_bind]
      cases settling : fileDecryption description m.footerSigningKeyMetadata r s with
      | mk result t =>
          cases result with
          | error err => rfl
          | ok d =>
              obtain ⟨resolved, _⟩ := fileDecryption_eq_ok settling
              dsimp only
              rw [openSection, Operation.run_lift_bind decoded, resolved.properties]
  | @encrypted crypto whole present named =>
      subst present named
      have decoded := decodePart_of_whole short whole
      rw [understand, encryptedSection]
      dsimp only
      rw [Operation.run_lift_bind decoded, Operation.run_bind, Operation.run_bind]
      dsimp only
      cases fileDecryption crypto.encryptionAlgorithm crypto.keyMetadata r s with
      | mk result t =>
          cases result with
          | error err => rfl
          | ok d =>
              dsimp only
              rw [openSection, Operation.run_lift_bind decoded]

variable {readerProperties : ReaderProperties} {err : Error}
variable (ends : EndsWith file front bs mode)
variable (described : DescribesEncryption bs description keyMetadata behind mode)
variable (decrypting : readerProperties.decryption = some r)
include ends described decrypting

/-- To open a file is to read its section, to settle the decryption and to open the section with
it. -/
theorem openSource_of_described :
    OpenFile.openSource readerProperties ⟨.memory, file⟩ {} =
      (fun outcome : Except Error FileInfo × ReadState =>
          (outcome.1.map (OpenFile.mk ⟨.memory, file⟩), outcome.2))
        ((fileDecryption description keyMetadata r >>= fun d => openSection d (mode, bs))
          (ReadState.noted {} (fileReads readerProperties file))) := by
  rw [OpenFile.openSource_run, readFooter_run, ends.locate, decrypting,
    ← understand_run ends.short described]
  rfl

theorem opensWith_of_resolves (resolved : Resolves r description keyMetadata d) :
    OpensWith d file (OpenFile.openSource readerProperties ⟨.memory, file⟩ {}) := by
  obtain ⟨calls, result, _, run⟩ := fileDecryption_run description keyMetadata r
  have arrived := fileDecryption_of_resolves resolved {}
  rw [run] at arrived
  cases arrived
  rw [openSource_of_described ends described decrypting, Operation.run_bind, run,
    ReadState.noted_noted]
  exact .intro ends _

theorem openSource_of_refused (identified : description.parameters.fileUnique.isSome = true)
    (refused : RefusedPrefix description.parameters r err) :
    (OpenFile.openSource readerProperties ⟨.memory, file⟩ {}).1 = .error err := by
  obtain ⟨calls, result, _, run⟩ := fileDecryption_run description keyMetadata r
  have arrived := fileDecryption_of_refused keyMetadata identified refused {}
  rw [run] at arrived
  cases arrived
  rw [openSource_of_described ends described decrypting, Operation.run_bind, run]
  rfl

/-- Opening a file has the prefix verified for which this is due, and no other. -/
theorem verifications_of_described (identified : description.parameters.fileUnique.isSome = true) :
    ∃ calls, CallsFor (VerificationDue description.parameters r) .verification calls ∧
      (OpenFile.openSource readerProperties ⟨.memory, file⟩ {}).2.verifications =
        calls.filterMap SessionEvent.verified? := by
  have calls := readFooter_calls readerProperties file
  rw [OpenFile.openSource_run, ReadState.verifications]
  generalize (readFooter readerProperties ⟨.memory, file⟩ {}).2.events.toList = events at calls ⊢
  obtain ⟨first, second, third, fourth⟩ := calls
  refine ⟨_, third.congr fun aadPrefix => ?_, ?_⟩
  · rw [ends.ofSection_iff fun mode bs =>
      VerifiesPrefix readerProperties.decryption mode bs aadPrefix]
    constructor
    · rintro ⟨present, described', _, due⟩
      cases decrypting.symm.trans present
      obtain ⟨rfl, _, _⟩ := described.unique ends.short described'
      exact due
    · intro due
      exact ⟨decrypting, described, identified, due⟩
  · rw [List.filterMap_append, List.filterMap_append, List.filterMap_append,
      first.unverified fun _ => rfl, second.unverified fun _ => rfl, fourth.unverified fun _ => rfl,
      List.append_nil, List.nil_append, List.nil_append]

end

/-! ### Finished files -/

/-- A finished encrypted file ends with a section that describes its encryption. -/
theorem describes_of_stored {schema : Schema} {properties : WriterProperties} {e : FileEncryption}
    {groups : List (List ColumnValues)} {m : FileMetaData} {file : Bytes}
    (stored : StoredFile schema properties (some e) groups m file) :
    ∃ front bs mode behind, EndsWith file front bs mode ∧
      DescribesEncryption bs e.description e.properties.footerKeyMetadata behind mode := by
  obtain ⟨front, bs, whole, short, form⟩ := stored.layout
  have described := stored.encryptionAlgorithm
  have signingKey := stored.signingKey
  rw [signing] at described signingKey
  refine ⟨front, bs, FileWriter.footerMode (some e), ?_⟩
  cases form with
  | @signed e signature inPlainForm _ =>
      rw [Option.filter_some, inPlainForm] at described signingKey
      have shown := footerSigningKeyMetadata_of_signed inPlainForm
      have mode : FileWriter.footerMode (some e) = .plaintext := by
        rw [FileWriter.footerMode, Option.any_some, inPlainForm]
        rfl
      refine ⟨signature, ⟨whole, short⟩, ?_⟩
      rw [mode]
      exact .plaintext rfl described (signingKey.trans shown)
  | @inSealedForm e sealedFooter encrypted _ =>
      have mode : FileWriter.footerMode (some e) = .encrypted := by
        rw [FileWriter.footerMode, Option.any_some, encrypted]
        rfl
      refine ⟨sealedFooter, ⟨whole, short⟩, ?_⟩
      rw [mode]
      exact .encrypted rfl rfl rfl

section

variable {e : FileEncryption} {r : DecryptionProperties} {own aadPrefix : Bytes}

/-- What a writer stores of its prefix is the prefix if it is to be stored. -/
theorem aadPrefix_of_stores (stores : e.properties.storesAadPrefix = true) :
    e.description.parameters.aadPrefix = e.properties.aadPrefix :=
  if_pos stores

theorem aadPrefix_of_left (left : e.properties.storesAadPrefix = false) :
    e.description.parameters.aadPrefix = none := by
  have unstored : ¬ e.properties.storesAadPrefix = true := by simp [left]
  exact if_neg unstored

/-- A prefix that is left out is asked for. -/
theorem supplyAadPrefix_of_left (left : e.properties.storesAadPrefix = false) :
    e.description.parameters.supplyAadPrefix = e.properties.aadPrefix.map fun _ => true := by
  show (e.properties.aadPrefix.map fun _ => !e.properties.storesAadPrefix) = _
  rw [left, Bool.not_false]

/-- The decryption of a reader that goes by some prefix. -/
theorem resolves_of_reconciled
    (reconciled : ReconciledPrefix e.description.parameters r aadPrefix) :
    Resolves r e.description e.properties.footerKeyMetadata
      { e.decryption r with fileAad := aadPrefix ++ e.fileUnique } :=
  ⟨rfl, rfl, rfl, aadPrefix, e.fileUnique, reconciled, rfl, rfl⟩

/-- Agreeing on the prefix that the writer used is undoing its encryption. -/
theorem decryption_of_chosen (chosen : e.properties.aadPrefix = some own)
    (r : DecryptionProperties) :
    { e.decryption r with fileAad := own ++ e.fileUnique } = e.decryption r := by
  rw [FileEncryption.decryption, FileEncryption.fileAad, chosen, Option.getD_some]

/-- Without empty prefixes, prefixes that lead to the same associated data are the same. -/
theorem fileAad_eq_iff (written : ∀ bs ∈ e.properties.aadPrefix, bs ≠ [])
    (supplied : ∀ bs ∈ r.aadPrefix, bs ≠ []) :
    r.aadPrefix.getD [] ++ e.fileUnique = e.fileAad ↔ r.aadPrefix = e.properties.aadPrefix := by
  rw [FileEncryption.fileAad, List.append_cancel_right_eq]
  cases hown : e.properties.aadPrefix with
  | none =>
      cases hother : r.aadPrefix with
      | none => simp
      | some other => simpa using supplied other hother
  | some own =>
      have nonempty := written own hown
      cases hother : r.aadPrefix with
      | none => simpa using nonempty.symm
      | some other => simp

end

section

variable {schema : Schema} {properties : WriterProperties} {e : FileEncryption}
variable {groups : List (List ColumnValues)} {m : FileMetaData} {file : Bytes}
variable {readerProperties : ReaderProperties} {r : DecryptionProperties}
variable (stored : StoredFile schema properties (some e) groups m file)
variable (decrypting : readerProperties.decryption = some r)
include stored decrypting

theorem opensWith_of_reconciled {aadPrefix : Bytes}
    (reconciled : ReconciledPrefix e.description.parameters r aadPrefix) :
    OpensWith { e.decryption r with fileAad := aadPrefix ++ e.fileUnique } file
      (OpenFile.openSource readerProperties ⟨.memory, file⟩ {}) := by
  obtain ⟨front, bs, mode, behind, ends, described⟩ := describes_of_stored stored
  exact opensWith_of_resolves ends described decrypting (resolves_of_reconciled reconciled)

theorem openSource_of_refusedPrefix {err : Error}
    (refused : RefusedPrefix e.description.parameters r err) :
    (OpenFile.openSource readerProperties ⟨.memory, file⟩ {}).1 = .error err := by
  obtain ⟨front, bs, mode, behind, ends, described⟩ := describes_of_stored stored
  exact openSource_of_refused ends described decrypting rfl refused

theorem verifications_of_due {own : Bytes} (due : VerificationDue e.description.parameters r own) :
    (OpenFile.openSource readerProperties ⟨.memory, file⟩ {}).2.verifications = [own] := by
  obtain ⟨front, bs, mode, behind, ends, described⟩ := describes_of_stored stored
  obtain ⟨calls, called, verifications⟩ := verifications_of_described ends described decrypting rfl
  rw [verifications]
  cases called with
  | made due' =>
      cases due.stored.symm.trans due'.stored
      rfl
  | absent undue => exact absurd due (undue own)

theorem verifications_of_undue (undue : ∀ own, ¬ VerificationDue e.description.parameters r own) :
    (OpenFile.openSource readerProperties ⟨.memory, file⟩ {}).2.verifications = [] := by
  obtain ⟨front, bs, mode, behind, ends, described⟩ := describes_of_stored stored
  obtain ⟨calls, called, verifications⟩ := verifications_of_described ends described decrypting rfl
  rw [verifications, called.eq_nil undue, List.filterMap_nil]

/-- The prefix is settled for a finished file, in either form of its section. -/
theorem settlesPrefix_of_stored (written : ∀ bs ∈ e.properties.aadPrefix, bs ≠ [])
    (supplied : ∀ bs ∈ r.aadPrefix, bs ≠ []) :
    SettlesPrefix e r file (OpenFile.openSource readerProperties ⟨.memory, file⟩ {}) := by
  have unstored (left : e.properties.storesAadPrefix = false) (own : Bytes) :
      ¬ VerificationDue e.description.parameters r own := by
    intro due
    cases (aadPrefix_of_left left).symm.trans due.stored
  constructor
  case mismatch =>
    intro own other stores chosen brought unlike
    have present := (aadPrefix_of_stores stores).trans chosen
    refine ⟨openSource_of_refusedPrefix stored decrypting (.mismatch present brought unlike),
      verifications_of_undue stored decrypting fun aadPrefix due => ?_⟩
    cases present.symm.trans due.stored
    exact unlike (due.agreed other brought)
  case verified =>
    intro own verifier stores chosen agreed asked
    have present := (aadPrefix_of_stores stores).trans chosen
    have due : VerificationDue e.description.parameters r own :=
      ⟨present, agreed, Option.isSome_iff_exists.mpr ⟨verifier, asked⟩⟩
    refine ⟨verifications_of_due stored decrypting due, fun err answer =>
      openSource_of_refusedPrefix stored decrypting (.objection present agreed asked answer), ?_⟩
    intro answer
    have accepted : ∀ verifier ∈ r.aadPrefixVerifier, verifier own = .ok () := by
      intro verifier' asked'
      cases asked.symm.trans asked'
      exact answer
    have opened := opensWith_of_reconciled stored decrypting (.stored present agreed accepted)
    rwa [decryption_of_chosen chosen] at opened
  case unverified =>
    intro own stores chosen agreed unasked
    have present := (aadPrefix_of_stores stores).trans chosen
    have accepted : ∀ verifier ∈ r.aadPrefixVerifier, verifier own = .ok () := by
      rw [unasked]
      rintro _ ⟨⟩
    have opened := opensWith_of_reconciled stored decrypting (.stored present agreed accepted)
    rw [decryption_of_chosen chosen] at opened
    refine ⟨verifications_of_undue stored decrypting fun aadPrefix due => ?_, opened⟩
    have verifier := due.verifier
    rw [unasked] at verifier
    cases verifier
  case missing =>
    intro own left chosen unsupplied
    have demanded : e.description.parameters.supplyAadPrefix = some true := by
      rw [supplyAadPrefix_of_left left, chosen, Option.map_some]
    exact ⟨openSource_of_refusedPrefix stored decrypting
        (.missing (aadPrefix_of_left left) unsupplied demanded),
      verifications_of_undue stored decrypting (unstored left)⟩
  case supplied =>
    intro left possible
    have reconciled : ReconciledPrefix e.description.parameters r (r.aadPrefix.getD []) := by
      cases brought : r.aadPrefix with
      | some other => exact .supplied (aadPrefix_of_left left) brought
      | none =>
          have chosen : e.properties.aadPrefix = none := by simpa [brought] using possible
          refine .empty (aadPrefix_of_left left) brought ?_
          rw [supplyAadPrefix_of_left left, chosen]
          rintro ⟨⟩
    exact ⟨verifications_of_undue stored decrypting (unstored left),
      opensWith_of_reconciled stored decrypting reconciled, fileAad_eq_iff written supplied⟩

end

end Opening

namespace Sample

/-- A reader with the footer key that accepts the prefix `[9]` only. -/
def verifyingReader : DecryptionProperties where
  footerKey := some footerKey
  columns := {}
  keyRetriever := none
  checkFooterSignature := true
  aadPrefix := none
  aadPrefixVerifier := some fun aadPrefix =>
    if aadPrefix = [9] then .ok () else .error .aadPrefixMismatch

theorem verifyingReader_built : verifyingReader.Built :=
  ⟨_, .withAadPrefixVerifier (.withFooterKey .start footerKey.bytes) _, rfl⟩

theorem verifyingReader_knowsPrefix : verifyingReader.KnowsPrefix encryption := by
  refine ⟨?_, ?_⟩
  · rintro _ ⟨⟩
  · rintro _ ⟨⟩ _ ⟨⟩
    rfl

end Sample

namespace OpenFile

open Opening (SettlesPrefix OpensWith)

/-- For every file that a writer finished and every reader, whatever its keys, the prefix is
settled as described: by refusing the file, or by a decryption whose associated data is the
writer's exactly if reader and writer agree on the prefix. The writer's encryption is the one that
`StoredFile` says the file has. -/
theorem openSource_settlesPrefix {schema : Schema} {properties : WriterProperties}
    {groups : List (List ColumnValues)} {m : FileMetaData} {w : FileWriter}
    {readerProperties : ReaderProperties} {p : EncryptionProperties} {r : DecryptionProperties}
    (finished : FileWriter.Finished schema properties groups m w)
    (encrypted : properties.encryption = some p) (built : p.Built)
    (decrypting : readerProperties.decryption = some r) (readerBuilt : r.Built) :
    ∃ e file, e.properties = p ∧ FileWriter.release w = (.ok file, w) ∧
      StoredFile schema properties (some e) groups m file ∧
      SettlesPrefix e r file (openSource readerProperties ⟨.memory, file⟩ {}) := by
  obtain ⟨encryption, file, same, stored, released⟩ := finished.storedFile
  rw [encrypted, Option.map_eq_some_iff] at same
  obtain ⟨e, rfl, rfl⟩ := same
  exact ⟨e, file, rfl, released, stored, Opening.settlesPrefix_of_stored stored decrypting
    built.aadPrefix_nonempty readerBuilt.aadPrefix_nonempty⟩

theorem openSource_settlesPrefix_sample :
    ∃ (m : FileMetaData) (w : FileWriter) (e : FileEncryption) (file : Bytes) (f : OpenFile)
        (s : ReadState),
      FileWriter.Finished Sample.schema (Sample.properties (some Sample.encryption))
        [Sample.columns] m w ∧
      FileWriter.release w = (.ok file, w) ∧ e.properties = Sample.encryption ∧
      openSource { decryption := some Sample.verifyingReader } ⟨.memory, file⟩ {} = (.ok f, s) ∧
      s.verifications = [[9]] ∧ f.info.decryption = some (e.decryption Sample.verifyingReader) := by
  obtain ⟨m, w, finished⟩ := Sample.finished
  have reading : ({ decryption := some Sample.verifyingReader } : ReaderProperties).decryption =
      some Sample.verifyingReader := rfl
  obtain ⟨e, file, same, released, _, settles⟩ := openSource_settlesPrefix finished rfl Sample.built
    reading Sample.verifyingReader_built
  have stores : e.properties.storesAadPrefix = true := by
    rw [same]
    rfl
  have chosen : e.properties.aadPrefix = some [9] := by
    rw [same]
    rfl
  have agreed : ∀ other ∈ Sample.verifyingReader.aadPrefix, other = [9] := by
    rintro _ ⟨⟩
  obtain ⟨verifications, _, accepted⟩ := settles.verified stores chosen agreed rfl
  have opensFooter : Sample.verifyingReader.OpensFooter Sample.encryption :=
    ⟨.brought rfl, Sample.verifyingReader_knowsPrefix, Sample.built.metadataNonempty⟩
  obtain ⟨_, _, f, s, _, released', opening, _⟩ :=
    openSource_of_finished finished rfl reading opensFooter
  cases released.symm.trans released'
  have opened := (accepted rfl).decryption (congrArg Prod.fst opening)
  rw [opening] at verifications
  exact ⟨m, w, e, file, f, s, finished, released, same, opening, verifications, opened⟩

end OpenFile

end SealedColumns
