import SealedColumns.Proofs.RelatedOpening

/-!
# How much of a file is read first does not matter

A reader reads as many bytes from the end of a file as it is set to, and the metadata section
anew if these bytes do not hold it. The section that it goes on with is the same in either
case: the part of the file in front of the trailer (`Opening.locate`). So opening is reading
some ranges of the file and understanding the section (`Opening.readFooter_run`), and only the
ranges depend on the setting.

Nothing is assumed of the file. A trailer that announces too much, or that is none, is found out in
the same way by all readers.
-/

namespace SealedColumns

theorem Bytes.length_last {bs : Bytes} {n : Nat} (there : n ≤ bs.length) :
    (bs.drop (bs.length - n)).length = n := by
  simp only [List.length_drop]
  omega

/-- In memory a range inside the file is read as it is. -/
theorem ByteSource.get_of_inside {bytes : Bytes} {start length : Nat}
    (inside : start + length ≤ bytes.length) :
    (ByteSource.mk .memory bytes).get start length = .ok ((bytes.drop start).take length) :=
  get_memory_eq_ok.mpr ⟨inside, rfl⟩

/-- A session after further calls. -/
def ReadState.noted (s : ReadState) (calls : List SessionEvent) : ReadState :=
  { s with events := s.events ++ calls.toArray }

@[simp] theorem ReadState.noted_nil (s : ReadState) : s.noted [] = s := by
  simp [noted]

@[simp] theorem ReadState.noted_noted (s : ReadState) (calls more : List SessionEvent) :
    (s.noted calls).noted more = s.noted (calls ++ more) := by
  simp [noted]

namespace Opening

/-- The number of bytes that are read to begin with. -/
def windowSize (properties : ReaderProperties) (bytes : Bytes) : Nat :=
  min bytes.length (max properties.footerReadSize Trailer.size)

/-- The metadata section of a file, and its mode. -/
def locate (bytes : Bytes) : Except Error (FooterMode × Bytes) := do
  if bytes.length < Trailer.size then throw (.fileTooSmall bytes.length)
  let trailer ← Trailer.decode (bytes.drop (bytes.length - Trailer.size))
  let footerSize := Trailer.size + trailer.metadataLength
  if bytes.length < footerSize then throw (.metadataLength trailer.metadataLength bytes.length)
  return (trailer.mode, (bytes.drop (bytes.length - footerSize)).take trailer.metadataLength)

/-- Takes over the metadata in a section. -/
def understand (decryption : Option DecryptionProperties) :
    FooterMode × Bytes → Session FileInfo
  | (.plaintext, bs) => plaintextSection decryption bs
  | (.encrypted, bs) => encryptedSection decryption bs

/-- The ranges that are read of a file: the window, unless the file is too short, and the section,
if it is longer than the window. -/
def fileReads (properties : ReaderProperties) (bytes : Bytes) : List SessionEvent :=
  let width := windowSize properties bytes
  if bytes.length < Trailer.size then []
  else .read (bytes.length - width) width ::
    match locate bytes with
    | .error _ => []
    | .ok (_, bs) =>
      if width < Trailer.size + bs.length then
        [.read (bytes.length - (Trailer.size + bs.length)) bs.length]
      else []

theorem size_le_windowSize (properties : ReaderProperties) {bytes : Bytes}
    (large : Trailer.size ≤ bytes.length) : Trailer.size ≤ windowSize properties bytes := by
  rw [windowSize]
  omega

theorem windowSize_le (properties : ReaderProperties) (bytes : Bytes) :
    windowSize properties bytes ≤ bytes.length :=
  Nat.min_le_left _ _

end Opening

namespace Session

/-- A call leaves its entry, and its answer is all that comes of it. -/
theorem note_bind_run {α : Type} (event : SessionEvent) (x : Except Error α) (s : ReadState) :
    (note event >>= fun _ => liftM x : Session α) s = (x, s.noted [event]) := by
  rw [note, Operation.run_modify_bind, Operation.run_lift, ReadState.noted]
  simp

theorem read_run (source : ByteSource) (start length : Nat) (s : ReadState) :
    read source start length s = (source.get start length, s.noted [.read start length]) :=
  note_bind_run _ _ s

theorem verify_run (verifier : AadPrefixVerifier) (aadPrefix : Bytes) (s : ReadState) :
    verify verifier aadPrefix s = (verifier aadPrefix, s.noted [.verification aadPrefix]) :=
  note_bind_run _ _ s

theorem retrieve_run (retriever : KeyRetriever) (subject : KeySubject) (keyMetadata : Bytes)
    (s : ReadState) :
    retrieve retriever subject keyMetadata s =
      (retriever keyMetadata, s.noted [.retrieval subject keyMetadata]) :=
  note_bind_run _ _ s

end Session

namespace Opening

variable {properties : ReaderProperties} {bytes : Bytes} {s : ReadState}

/-- The window is the end of the file, and the trailer in it is that of the file. -/
theorem readWindow_run (large : Trailer.size ≤ bytes.length) :
    readWindow properties ⟨.memory, bytes⟩ s =
      ((Trailer.decode (bytes.drop (bytes.length - Trailer.size))).map
          (Window.mk (bytes.drop (bytes.length - windowSize properties bytes))),
        s.noted [.read (bytes.length - windowSize properties bytes)
          (windowSize properties bytes)]) := by
  have within := windowSize_le properties bytes
  have enough := size_le_windowSize properties large
  have sized : (ByteSource.mk .memory bytes).size = bytes.length := rfl
  have long : ¬ (ByteSource.mk .memory bytes).size < Trailer.size := Nat.not_lt.mpr large
  rw [readWindow]
  dsimp only
  rw [if_neg long, sized, ← windowSize]
  generalize windowSize properties bytes = width at within enough ⊢
  have length := Bytes.length_last within
  have got : (ByteSource.mk .memory bytes).get (bytes.length - width) width =
      .ok (bytes.drop (bytes.length - width)) := by
    rw [ByteSource.get_of_inside (by omega)]
    congr 1
    apply List.take_of_length_le
    exact Nat.le_of_eq length
  have last : Bytes.sliceFrom (bytes.drop (bytes.length - width)) (width - Trailer.size) =
      .ok (bytes.drop (bytes.length - Trailer.size)) := by
    rw [Bytes.sliceFrom_of_le (by omega), List.drop_drop]
    congr 2
    omega
  rw [Operation.run_lift_bind (subSizes_of_le within), Operation.run_bind, Session.read_run, got]
  dsimp only
  rw [length, Operation.run_lift_bind (subSizes_of_le enough), Operation.run_lift_bind last,
    Operation.run_bind, Operation.run_lift]
  cases Trailer.decode (bytes.drop (bytes.length - Trailer.size)) with
  | error e => rfl
  | ok trailer => rfl

/-- The section is the same, whether it lies in the window or is read anew. -/
theorem readSection_run (large : Trailer.size ≤ bytes.length) {trailer : Trailer}
    (bound : trailer.metadataLength < UInt32.size) :
    readSection ⟨.memory, bytes⟩
        ⟨bytes.drop (bytes.length - windowSize properties bytes), trailer⟩ s =
      if bytes.length < Trailer.size + trailer.metadataLength then
        (.error (.metadataLength trailer.metadataLength bytes.length), s)
      else
        (.ok ((bytes.drop (bytes.length - (Trailer.size + trailer.metadataLength))).take
            trailer.metadataLength),
          if windowSize properties bytes < Trailer.size + trailer.metadataLength then
            s.noted [.read (bytes.length - (Trailer.size + trailer.metadataLength))
              trailer.metadataLength]
          else s) := by
  have within := windowSize_le properties bytes
  have enough := size_le_windowSize properties large
  have sized : (ByteSource.mk .memory bytes).size = bytes.length := rfl
  have added : addSizes Trailer.size trailer.metadataLength =
      .ok (Trailer.size + trailer.metadataLength) :=
    addSizes_of_lt (Nat.lt_trans (Nat.add_lt_add_left bound Trailer.size) (by decide))
  rw [readSection]
  dsimp only
  rw [Operation.run_lift_bind added]
  by_cases long : bytes.length < Trailer.size + trailer.metadataLength
  · have long' : (ByteSource.mk .memory bytes).size < Trailer.size + trailer.metadataLength := long
    rw [if_pos long', if_pos long]
    rfl
  · have long' : ¬ (ByteSource.mk .memory bytes).size < Trailer.size + trailer.metadataLength :=
      long
    have length := Bytes.length_last within
    rw [if_neg long', if_neg long, length, sized]
    generalize windowSize properties bytes = width at within enough length ⊢
    have fits : Trailer.size + trailer.metadataLength ≤ bytes.length := Nat.le_of_not_lt long
    split
    · rw [Operation.run_lift_bind (subSizes_of_le fits), Session.read_run,
        ByteSource.get_of_inside (by omega)]
    · next held =>
      have inside : Trailer.size + trailer.metadataLength ≤ width := Nat.le_of_not_lt held
      -- Positions in the window are positions in the file, both counted from the end.
      have cut : Bytes.slice (bytes.drop (bytes.length - width))
          (width - (Trailer.size + trailer.metadataLength)) (width - Trailer.size) =
            .ok ((bytes.drop (bytes.length - (Trailer.size + trailer.metadataLength))).take
              trailer.metadataLength) := by
        rw [Bytes.slice, if_pos (by omega), List.drop_drop]
        congr 3 <;> omega
      rw [Operation.run_lift_bind (subSizes_of_le inside),
        Operation.run_lift_bind (subSizes_of_le enough), cut]
      rfl

theorem readWindow_of_small (small : bytes.length < Trailer.size) :
    readWindow properties ⟨.memory, bytes⟩ s = (.error (.fileTooSmall bytes.length), s) := by
  have small' : (ByteSource.mk .memory bytes).size < Trailer.size := small
  rw [readWindow]
  dsimp only
  rw [if_pos small']
  rfl

/-- Opening a file is reading its end, and its section if that is not in it, and understanding the
section. What is understood does not depend on what is read in one piece. -/
theorem readFooter_run (properties : ReaderProperties) (bytes : Bytes) (s : ReadState) :
    readFooter properties ⟨.memory, bytes⟩ s =
      (liftM (locate bytes) >>= understand properties.decryption : Session FileInfo)
        (s.noted (fileReads properties bytes)) := by
  rw [readFooter, Operation.run_bind, Operation.run_bind, Operation.run_lift, fileReads, locate]
  by_cases small : bytes.length < Trailer.size
  · rw [readWindow_of_small small]
    simp only [if_pos small, ReadState.noted_nil]
    rfl
  · have large := Nat.le_of_not_lt small
    rw [readWindow_run large]
    simp only [if_neg small]
    cases decoded : Trailer.decode (bytes.drop (bytes.length - Trailer.size)) with
    | error e => rfl
    | ok trailer =>
        obtain ⟨_, bound⟩ := Trailer.decode_eq_ok (Bytes.length_last large) decoded
        show readDetected properties ⟨.memory, bytes⟩ _ _ = _
        rw [readDetected, Operation.run_bind, readSection_run large bound]
        simp only [Except.ok_bind]
        by_cases long : bytes.length < Trailer.size + trailer.metadataLength
        · simp only [if_pos long]
          rfl
        · have length : ((bytes.drop (bytes.length - (Trailer.size + trailer.metadataLength))).take
              trailer.metadataLength).length = trailer.metadataLength := by
            simp only [List.length_take, List.length_drop]
            omega
          simp only [if_neg long]
          generalize (bytes.drop (bytes.length - (Trailer.size + trailer.metadataLength))).take
            trailer.metadataLength = bs at length ⊢
          show _ = understand properties.decryption (trailer.mode, bs) (s.noted (_ ::
            if windowSize properties bytes < Trailer.size + bs.length then _ else []))
          rw [length]
          cases trailer.mode with
          | plaintext => split <;> simp [understand]
          | encrypted => split <;> simp [understand]

end Opening

/-! ### Sessions that differ in what was read -/

/-- Whether an entry in the record of a session is not about the file. -/
def SessionEvent.asksOthers : SessionEvent → Bool
  | .read .. => false
  | .retrieval .. | .verification .. => true

/-- Two sessions agree on everything but what was read of the file: on the calls of the
retriever and the verifier in their order, on the footer key, on the engines and on
whether the file is closed. -/
structure ReadState.SameButReads (s t : ReadState) : Prop where
  events : s.events.toList.filter SessionEvent.asksOthers =
    t.events.toList.filter SessionEvent.asksOthers
  footerKey : s.footerKey = t.footerKey
  engines : s.engines = t.engines
  closed : s.closed = t.closed

open ReadState (Companions SameButReads)

namespace ReadState.SameButReads

theorem refl (s : ReadState) : SameButReads s s :=
  ⟨rfl, rfl, rfl, rfl⟩

/-- Sessions that noted different reads still agree on everything else. -/
theorem noted {s t : ReadState} (same : SameButReads s t) {calls calls' : List SessionEvent}
    (reads : ∀ call ∈ calls, call.asksOthers = false)
    (reads' : ∀ call ∈ calls', call.asksOthers = false) :
    SameButReads (s.noted calls) (t.noted calls') := by
  refine ⟨?_, same.footerKey, same.engines, same.closed⟩
  have none_left : calls.filter SessionEvent.asksOthers = [] := by
    simpa using reads
  have none_left' : calls'.filter SessionEvent.asksOthers = [] := by
    simpa using reads'
  simp [ReadState.noted, none_left, none_left', same.events]

theorem note (event : SessionEvent) :
    SideBySide SameButReads Eq (Session.note event) (Session.note event) := by
  apply SideBySide.modify
  intro s t same
  refine ⟨?_, same.footerKey, same.engines, same.closed⟩
  simp [same.events]

theorem companions : Companions SameButReads where
  closed := fun same => same.closed
  read start length := note _
  verification aadPrefix := note _
  engine kind := by
    intro s t same
    rw [Session.engine, Session.onEngines, Session.onEngines, same.engines]
    exact ⟨.refl _, same.events, same.footerKey, rfl, same.closed⟩

theorem checkKeysHeld_beside :
    SideBySide SameButReads Eq Session.checkKeysHeld Session.checkKeysHeld := by
  apply SideBySide.get_bind
  intro s t same
  rw [same.closed]
  cases t.closed with
  | false => exact ⟨.ok rfl, same⟩
  | true => exact ⟨.error _, same⟩

variable (d : FileDecryption)

theorem retrieveKey_beside (subject : KeySubject) (keyMetadata : Option Bytes) :
    SideBySide SameButReads Eq (d.retrieveKey subject keyMetadata)
      (d.retrieveKey subject keyMetadata) := by
  rw [FileDecryption.retrieveKey]
  cases d.properties.keyRetriever with
  | none => exact .throw _
  | some retriever =>
      dsimp only
      cases keyMetadata.filter (!·.isEmpty) with
      | none => exact .throw _
      | some stored =>
          have asked : SideBySide SameButReads Eq (Session.retrieve retriever subject stored)
              (Session.retrieve retriever subject stored) := (note _).seq_eq fun _ => .lift _
          exact (asked.adapt _).seq_eq fun _ => .lift _

/-- The footer key is looked for in the same way, whatever was read. -/
theorem footerKey_beside : SideBySide SameButReads Eq d.footerKey d.footerKey := by
  rw [FileDecryption.footerKey]
  refine checkKeysHeld_beside.seq_eq fun _ => .get_bind ?_
  intro s t same
  rw [same.footerKey]
  cases t.footerKey with
  | some key => exact ⟨.ok rfl, same⟩
  | none =>
      have keep (key : Key) : SideBySide SameButReads Eq
          (do modify fun s => { s with footerKey := some key }; return key : Session Key)
          (do modify fun s => { s with footerKey := some key }; return key : Session Key) := by
        refine SideBySide.seq_eq (.modify ?_) fun _ => .pure rfl
        intro s t same
        exact ⟨same.events, rfl, same.engines, same.closed⟩
      cases d.properties.footerKey with
      | some key => exact keep key s t same
      | none => exact (retrieveKey_beside d _ _).seq_eq keep s t same

end ReadState.SameButReads

namespace Opening

/-- A reader with the same retriever comes to know the same file. -/
theorem SameFile.eq {decryption : Option DecryptionProperties} {f f' : FileInfo}
    (same : SameFile decryption (decryption.bind (·.keyRetriever)) f f') : f = f' := by
  obtain ⟨properties, rfl⟩ := same
  rcases f with ⟨version, numRows, createdBy, schema, rowGroups, _ | d⟩
  · rfl
  · rw [properties d rfl]
    rfl

/-- A section is understood in the same way, whatever was read. -/
theorem understand_beside (decryption : Option DecryptionProperties)
    (located : FooterMode × Bytes) :
    SideBySide SameButReads Eq (understand decryption located) (understand decryption located) := by
  have own : decryption.map (·.withRetriever (decryption.bind (·.keyRetriever))) = decryption := by
    cases decryption <;> rfl
  have keys : ∀ p ∈ decryption,
      p.FooterKeyBeside SameButReads (decryption.bind (·.keyRetriever)) := by
    rintro p hp d rfl
    rw [hp]
    exact SameButReads.footerKey_beside d
  obtain ⟨mode, bs⟩ := located
  cases mode with
  | plaintext =>
      have beside := plaintextSection_beside SameButReads.companions keys bs
      rw [own] at beside
      exact beside.mono fun _ _ same => same.eq
  | encrypted =>
      have beside := encryptedSection_beside SameButReads.companions keys bs
      rw [own] at beside
      exact beside.mono fun _ _ same => same.eq

theorem fileReads_about_file (properties : ReaderProperties) (bytes : Bytes) :
    ∀ call ∈ fileReads properties bytes, call.asksOthers = false := by
  rw [fileReads]
  split
  · simp
  · cases locate bytes with
    | error e => simp [SessionEvent.asksOthers]
    | ok located =>
        dsimp only
        split <;> simp [SessionEvent.asksOthers]

/-- Readers that read different amounts to begin with read the same footer. -/
theorem readFooter_readSize {properties properties' : ReaderProperties}
    (same : properties.decryption = properties'.decryption) (bytes : Bytes) (s : ReadState) :
    (readFooter properties ⟨.memory, bytes⟩ s).1 = (readFooter properties' ⟨.memory, bytes⟩ s).1 ∧
      SameButReads (readFooter properties ⟨.memory, bytes⟩ s).2
        (readFooter properties' ⟨.memory, bytes⟩ s).2 := by
  rw [readFooter_run, readFooter_run, same]
  have beside : SideBySide SameButReads Eq
      (liftM (locate bytes) >>= understand properties'.decryption)
      (liftM (locate bytes) >>= understand properties'.decryption) :=
    .lift_bind fun located _ => understand_beside _ located
  have start := (SameButReads.refl s).noted (fileReads_about_file properties bytes)
    (fileReads_about_file properties' bytes)
  obtain ⟨alike, kept⟩ := beside _ _ start
  exact ⟨alike.eq, kept⟩

end Opening

namespace FooterReader

/-- The same reader, set to read another number of bytes to begin with. -/
def withReadSize (reader : FooterReader) (n : Nat) : FooterReader :=
  { reader with properties := { reader.properties with footerReadSize := n } }

/-- The number of bytes that a reader reads to begin with makes no difference to what comes of an
attempt to parse a file in memory: the result, the state and the metadata are the same, and keys and
prefixes are asked about in the same way. -/
theorem tryParse_readSize (reader : FooterReader) (n : Nat) (bytes : Bytes) (s : ReadState) :
    let run := reader.tryParse ⟨.memory, bytes⟩ s
    let run' := (reader.withReadSize n).tryParse ⟨.memory, bytes⟩ s
    run'.1.1 = run.1.1 ∧ run'.1.2.state = run.1.2.state ∧ run'.1.2.info = run.1.2.info ∧
      SameButReads run.2 run'.2 := by
  by_cases unopened : reader.state = .unopened
  · have unopened' : (reader.withReadSize n).state = .unopened := unopened
    have same : reader.properties.decryption = (reader.withReadSize n).properties.decryption := rfl
    obtain ⟨alike, kept⟩ := Opening.readFooter_readSize same bytes s
    rw [tryParse_unopened unopened, tryParse_unopened unopened', ← alike]
    cases (Opening.readFooter reader.properties ⟨.memory, bytes⟩ s).1 with
    | error e => exact ⟨rfl, rfl, rfl, kept⟩
    | ok info => exact ⟨rfl, rfl, rfl, kept⟩
  · have used : (reader.withReadSize n).state ≠ .unopened := unopened
    rw [tryParse_used unopened, tryParse_used used]
    exact ⟨rfl, rfl, rfl, .refl s⟩

end FooterReader

end SealedColumns
