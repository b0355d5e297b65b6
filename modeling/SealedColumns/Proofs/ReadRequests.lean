import SealedColumns.Proofs.UntrustedFiles

/-!
# Requests to a reader, in any order

A reader of one source is asked to open the file, for row groups, chunks, pages, values and offset
indexes, and to close, in any order and with any indices. It hands out page readers and column
readers, which go on after the file was closed, opened again or found broken.

Each request ends in a value or in an error that breaks no promise, and each reader that was handed
out stands inside the bytes that were read for it. Nothing is assumed of the source. What is assumed
of the settings is that the caller's verifier reports no broken promises of its own.
-/

namespace SealedColumns

/-- What a reader is asked for. Page readers and column readers have the number of their place among
those that were handed out. -/
inductive ReadRequest where
  | openSource
  | rowGroup (i : Nat)
  | columnChunk (i j : Nat)
  /-- The metadata of a chunk by the metadata of the file, also when the file is closed. -/
  | chunkInfo (i j : Nat)
  | columnPages (i j : Nat)
  | nextPage (n : Nat)
  | columnReader (i j : Nat)
  | nextValues (n : Nat)
  | restOfValues (n : Nat)
  | readColumn (i j : Nat)
  | offsetIndex (i j : Nat)
  | close
  deriving DecidableEq

/-- What is known of a file without the means to decrypt it. -/
def FileInfo.bare (f : FileInfo) : FileInfo :=
  { f with decryption := none }

/-- The value that a request leads to. -/
inductive ReadReply where
  /-- There is nothing to hand out. -/
  | done
  /-- The metadata of the file, and its algorithm if modules can be decrypted. -/
  | opened (info : FileInfo) (algorithm : Option Algorithm)
  | rowGroup (g : RowGroupInfo)
  | chunk (c : ChunkInfo)
  | pages (p : ChunkPages)
  | page (p : Option Page)
  | reader (c : ColumnReader ChunkPages)
  | nextValues (v : Option ColumnValues)
  | values (v : ColumnValues)
  | offsetIndex (index : Option OffsetIndex)

/-- A reader that is handed out stands inside the bytes that were read for it. -/
def ReadReply.Sound : ReadReply → Prop
  | .pages p => ∃ chunk, p.Within chunk
  | .reader c => ∃ chunk, c.Within chunk
  | _ => True

/-- What a request does to an open file. Requests that are not about the file do nothing. -/
def ReadRequest.onFile (f : OpenFile) : ReadRequest → Session ReadReply
  | .rowGroup i => return .rowGroup (← f.rowGroup i)
  | .columnChunk i j => return .chunk (← f.inRowGroup i (f.info.columnChunk i j))
  | .chunkInfo i j => return .chunk (← f.info.columnChunk i j)
  | .columnPages i j => return .pages (← f.inRowGroup i (f.columnPages i j))
  | .columnReader i j => return .reader (← f.inRowGroup i (f.columnReader i j))
  | .readColumn i j => return .values (← f.inRowGroup i (f.readColumn i j))
  | .offsetIndex i j => return .offsetIndex (← f.inRowGroup i (f.offsetIndex i j))
  | .openSource | .nextPage _ | .nextValues _ | .restOfValues _ | .close => return .done

/-- A reader, and the readers it handed out. -/
structure Reading where
  session : ReadState := {}
  /-- The file, once it was opened. -/
  file : Option OpenFile := none
  pages : List ChunkPages := []
  columns : List (ColumnReader ChunkPages) := []

namespace Reading

/-- The reader after it handed something out. Page readers and column readers are kept. -/
def handOut (r : Reading) : ReadReply → Reading
  | .pages p => { r with pages := r.pages ++ [p] }
  | .reader c => { r with columns := r.columns ++ [c] }
  | _ => r

/-- Performs an operation of the session. -/
def perform (r : Reading) (op : Session ReadReply) : Except Error ReadReply × Reading :=
  match op r.session with
  | (.ok reply, session) => (.ok reply, { r with session }.handOut reply)
  | (.error e, session) => (.error e, { r with session })

/-- Opens the source, in a session of its own. -/
def openAnew (properties : ReaderProperties) (source : ByteSource) (r : Reading) :
    Except Error ReadReply × Reading :=
  match OpenFile.openSource properties source {} with
  | (.ok f, session) => (.ok (.opened f.info.bare f.info.algorithm), { r with session, file := f })
  | (.error e, session) => (.error e, { r with session, file := none })

/-- Asks the reader at place `n`, if there is one. -/
def ask {σ α : Type} (op : Operation σ α) (reply : α → ReadReply) (readers : List σ) (n : Nat) :
    Except Error ReadReply × List σ :=
  match readers[n]? with
  | some reader => ((op reader).1.map reply, readers.set n (op reader).2)
  | none => (.ok .done, readers)

/-- The reply to a request, and the reader after it. There is nothing to ask as long as there is no
file. -/
def reply (properties : ReaderProperties) (source : ByteSource) (r : Reading) :
    ReadRequest → Except Error ReadReply × Reading
  | .openSource => r.openAnew properties source
  | .nextPage n =>
    let (outcome, pages) :=
      ask (ChunkPages.next : ChunkPages.Step (Option Page)) .page r.pages n
    (outcome, { r with pages })
  | .nextValues n =>
    let (outcome, columns) :=
      ask (ColumnReader.readPage : ColumnReader.Step ChunkPages (Option ColumnValues)) .nextValues
        r.columns n
    (outcome, { r with columns })
  | .restOfValues n =>
    let (outcome, columns) :=
      ask (ColumnReader.readAll : ColumnReader.Step ChunkPages ColumnValues) .values r.columns n
    (outcome, { r with columns })
  | .close => r.perform (do Session.close; return .done)
  | request =>
    match r.file with
    | some f => r.perform (request.onFile f)
    | none => (.ok .done, r)

/-- The replies to requests that follow each other, and the reader after them. -/
def serve (properties : ReaderProperties) (source : ByteSource) (r : Reading) :
    List ReadRequest → List (Except Error ReadReply) × Reading
  | [] => ([], r)
  | request :: requests =>
    let (outcome, r) := r.reply properties source request
    let (outcomes, r) := r.serve properties source requests
    (outcome :: outcomes, r)

/-- The outcomes of requests that follow each other, without values, and the reader after them. -/
def run (properties : ReaderProperties) (source : ByteSource) (r : Reading)
    (requests : List ReadRequest) : List (Except Error Unit) × Reading :=
  let (outcomes, r) := r.serve properties source requests
  (outcomes.map (Except.map fun _ => ()), r)

/-- The readers that were handed out stand inside the bytes that were read for them. -/
structure Sound (r : Reading) : Prop where
  pages : ∀ p ∈ r.pages, ∃ chunk, p.Within chunk
  columns : ∀ c ∈ r.columns, ∃ chunk, c.Within chunk

theorem Sound.handOut {r : Reading} {reply : ReadReply} (sound : r.Sound) (h : reply.Sound) :
    (r.handOut reply).Sound := by
  cases reply with
  | pages p =>
      refine ⟨fun other member => ?_, sound.columns⟩
      obtain old | new := List.mem_append.mp member
      · exact sound.pages other old
      · cases List.mem_singleton.mp new
        exact h
  | reader c =>
      refine ⟨sound.pages, fun other member => ?_⟩
      obtain old | new := List.mem_append.mp member
      · exact sound.columns other old
      · cases List.mem_singleton.mp new
        exact h
  | _ => exact sound

/-- A request was answered, and the reader is in order afterwards. -/
def Answered (outcome : Except Error ReadReply × Reading) : Prop :=
  Answers.Plainly outcome.1 ∧ outcome.2.Sound

variable {r : Reading}

theorem perform_answered {op : Session ReadReply} (h : Session.Answers ReadReply.Sound op)
    (sound : r.Sound) : Answered (r.perform op) := by
  have ended := (h r.session trivial).1
  have sound' (session : ReadState) : { r with session }.Sound := ⟨sound.pages, sound.columns⟩
  rw [perform]
  generalize op r.session = outcome at ended ⊢
  rcases outcome with ⟨e | reply, session⟩
  · exact ⟨ended, sound' session⟩
  · exact ⟨trivial, (sound' session).handOut ended⟩

theorem openAnew_answered {properties : ReaderProperties} (verified : properties.VerifierAnswers)
    (source : ByteSource) (sound : r.Sound) : Answered (r.openAnew properties source) := by
  have ended := (OpenFile.openSource_answers verified source {} trivial).1
  rw [openAnew]
  generalize OpenFile.openSource properties source {} = outcome at ended ⊢
  rcases outcome with ⟨e | f, session⟩
  · exact ⟨ended, sound.pages, sound.columns⟩
  · exact ⟨trivial, sound.pages, sound.columns⟩

/-- Asking one reader leaves the others where they are. -/
theorem ask_answers {σ α : Type} {P : σ → Prop} {op : Operation σ α} {reply : α → ReadReply}
    (h : AnswersFrom P op (fun _ => P) P) {readers : List σ} (all : ∀ reader ∈ readers, P reader)
    (n : Nat) :
    Answers.Plainly (ask op reply readers n).1 ∧
      ∀ reader ∈ (ask op reply readers n).2, P reader := by
  rw [ask]
  cases present : readers[n]? with
  | none => exact ⟨trivial, all⟩
  | some reader =>
      have ended := h reader (all reader (List.mem_of_getElem? present))
      dsimp only
      generalize op reader = outcome at ended ⊢
      have others {next : σ} (hnext : P next) : ∀ other ∈ readers.set n next, P other := by
        intro other member
        obtain old | rfl := List.mem_or_eq_of_mem_set member
        · exact all other old
        · exact hnext
      rcases outcome with ⟨e | a, next⟩
      · exact ⟨ended.1, others ended.2⟩
      · exact ⟨trivial, others ended⟩

end Reading

/-- What is kept in each chunk is kept in some chunk. -/
theorem AnswersFrom.someChunk {σ α : Type} {P : Bytes → σ → Prop} {op : Operation σ α}
    (h : ∀ chunk, AnswersFrom (P chunk) op (fun _ => P chunk) (P chunk)) :
    AnswersFrom (fun s => ∃ chunk, P chunk s) op (fun _ s => ∃ chunk, P chunk s)
      fun s => ∃ chunk, P chunk s := by
  rintro s ⟨chunk, hs⟩
  exact (h chunk).weaken (fun _ h => h) (fun _ _ h => ⟨chunk, h⟩) (fun _ h => ⟨chunk, h⟩) s hs

namespace Reading

variable {r : Reading} {properties : ReaderProperties}

/-- What a request asks of a file is answered, and a reader that is handed out is in order. -/
theorem onFile_answers (f : OpenFile) (request : ReadRequest) :
    Session.Answers ReadReply.Sound (request.onFile f) := by
  have plain {α : Type} {Good : α → Prop} {op : Session α} (reply : α → ReadReply)
      (sound : ∀ a, Good a → (reply a).Sound) (h : Session.Answers Good op) :
      Session.Answers ReadReply.Sound (op >>= fun a => pure (reply a)) :=
    .seq h fun a good => Yields.pure (sound a good)
  cases request with
  | rowGroup i => exact plain .rowGroup (fun _ _ => trivial) (f.rowGroup_answers i)
  | columnChunk i j =>
      exact plain .chunk (fun _ _ => trivial)
        (f.inRowGroup_answers i (f.info.columnChunk_answers i j))
  | chunkInfo i j => exact plain .chunk (fun _ _ => trivial) (f.info.columnChunk_answers i j)
  | columnPages i j =>
      exact plain .pages (fun _ start => ⟨_, start⟩)
        (f.inRowGroup_answers i (f.columnPages_answers i j))
  | columnReader i j =>
      exact plain .reader (fun _ start => ⟨_, start⟩)
        (f.inRowGroup_answers i (f.columnReader_answers i j))
  | readColumn i j =>
      exact plain .values (fun _ _ => trivial) (f.inRowGroup_answers i (f.readColumn_answers i j))
  | offsetIndex i j =>
      exact plain .offsetIndex (fun _ _ => trivial)
        (f.inRowGroup_answers i (f.offsetIndex_answers i j))
  | openSource | nextPage | nextValues | restOfValues | close => exact Yields.pure trivial

/-- One request, of whatever kind, is answered. -/
theorem reply_answered (verified : properties.VerifierAnswers) (source : ByteSource)
    (sound : r.Sound) (request : ReadRequest) : Answered (r.reply properties source request) := by
  cases request with
  | openSource => exact openAnew_answered verified source sound
  | nextPage n =>
      obtain ⟨answers, pages⟩ :=
        ask_answers (.someChunk fun _ => ChunkPages.next_answers) sound.pages n
      exact ⟨answers, pages, sound.columns⟩
  | nextValues n =>
      obtain ⟨answers, columns⟩ :=
        ask_answers (.someChunk fun _ => ColumnReader.readPage_answers) sound.columns n
      exact ⟨answers, sound.pages, columns⟩
  | restOfValues n =>
      obtain ⟨answers, columns⟩ :=
        ask_answers (.someChunk fun _ => ColumnReader.readAll_answers) sound.columns n
      exact ⟨answers, sound.pages, columns⟩
  | close =>
      exact perform_answered (.seq (Session.modify_answers _) fun _ _ => Yields.pure trivial) sound
  | _ =>
      rw [reply.eq_def]
      dsimp only
      split
      · exact perform_answered (onFile_answers _ _) sound
      · exact ⟨trivial, sound⟩

/-- Requests that follow each other are answered, and the reader is in order after them. -/
theorem serve_answered (verified : properties.VerifierAnswers) (source : ByteSource)
    (sound : r.Sound) (requests : List ReadRequest) :
    (∀ outcome ∈ (r.serve properties source requests).1, Answers.Plainly outcome) ∧
      (r.serve properties source requests).2.Sound := by
  induction requests generalizing r with
  | nil => exact ⟨fun _ member => absurd member List.not_mem_nil, sound⟩
  | cons request requests ih =>
      obtain ⟨first, sound⟩ := reply_answered verified source sound request
      obtain ⟨rest, sound⟩ := ih sound
      refine ⟨fun outcome member => ?_, sound⟩
      obtain rfl | later := List.mem_cons.mp member
      · exact first
      · exact rest outcome later

theorem run_answered (verified : properties.VerifierAnswers) (source : ByteSource) (sound : r.Sound)
    (requests : List ReadRequest) :
    (∀ outcome ∈ (r.run properties source requests).1, Answers.Plainly outcome) ∧
      (r.run properties source requests).2.Sound := by
  obtain ⟨answered, sound⟩ := serve_answered verified source sound requests
  refine ⟨fun outcome member => ?_, sound⟩
  obtain ⟨reply, served, rfl⟩ := List.mem_map.mp member
  have plain := answered reply served
  cases reply with
  | error e => exact plain
  | ok value => exact trivial

/-- No source and no requests make a reader break a promise: every request, whether those before it
succeeded or not, ends in a value or in an error about its input. -/
theorem run_of_untrusted (verified : properties.VerifierAnswers) (source : ByteSource)
    (requests : List ReadRequest) :
    (∀ outcome ∈ (run properties source {} requests).1, Answers.Plainly outcome) ∧
      (run properties source {} requests).2.Sound := by
  refine run_answered verified source ?_ requests
  have none {σ : Type} {P : σ → Prop} : ∀ reader ∈ ([] : List σ), P reader :=
    fun _ member => absurd member List.not_mem_nil
  exact ⟨none, none⟩

end Reading

namespace Sample

/-- A chunk that claims to lie at the largest position, to be as long, and to have as many
values. -/
def claimedChunk : ColumnChunk where
  fileOffset := -1
  metaData := some
    { type := .int32, encodings := [.plain], pathInSchema := ["a"],
      numValues := 0x7fffffffffffffff, totalUncompressedSize := -1,
      totalCompressedSize := 0x7fffffffffffffff, dataPageOffset := 0x7fffffffffffffff,
      dictionaryPageOffset := none }
  offsetIndexOffset := some 0x7fffffffffffffff
  offsetIndexLength := some (-1)
  crypto := none
  encryptedMetaData := none

/-- The schema that goes with it. -/
def claimedSchema : Schema :=
  ⟨"m", [⟨⟨["a"]⟩, .int32⟩]⟩

theorem claimedSchema_elements :
    Schema.ofElements "m" claimedSchema.toElements = .ok claimedSchema :=
  Schema.ofElements_toElements (Schema.ofColumns_eq_ok_iff.mpr ⟨rfl, by decide, by decide⟩)

/-- A footer that nobody signed, of an application whose chunks need padding. -/
def unsignedFooter : FileMetaData where
  version := -1
  schemaName := "m"
  schema := claimedSchema.toElements
  numRows := -1
  rowGroups := [⟨[claimedChunk], -1, -1, none, none, some 0⟩]
  createdBy := some "parquet-mr version 1.2.8"
  encryptionAlgorithm := none
  footerSigningKeyMetadata := none

/-- A file with this footer. -/
def unsignedFile : ByteSource where
  kind := .memory
  bytes := FooterMode.plaintext.magic ++ (Wire.encode unsignedFooter ++
    Trailer.encode ⟨(Wire.encode unsignedFooter).length, .plaintext⟩)

/-- The settings of a reader that refuses each prefix that a file stores. -/
def suspiciousReader : ReaderProperties where
  decryption := some {
    footerKey := none
    columns := {}
    keyRetriever := none
    checkFooterSignature := true
    aadPrefix := none
    aadPrefixVerifier := some fun _ => .error .aadPrefixMismatch }

/-- What the reader takes the file to be. -/
def unsignedOpen : OpenFile where
  source := unsignedFile
  info := {
    version := -1
    numRows := -1
    createdBy := unsignedFooter.createdBy
    schema := claimedSchema
    rowGroups := #[⟨[claimedChunk], -1, -1, none, 0⟩]
    decryption := none }

theorem unsignedFile_opens (s : ReadState) :
    (OpenFile.openSource suspiciousReader unsignedFile s).1 = .ok unsignedOpen := by
  have info : Opening.fileInfo unsignedFooter none = .ok unsignedOpen.info := by
    change (Schema.ofElements "m" claimedSchema.toElements >>= _) = _
    rw [claimedSchema_elements]
    rfl
  have short : (Wire.encode unsignedFooter).length < UInt32.size := by decide +kernel
  exact OpenFile.openSource_of_plain suspiciousReader _ rfl short info s

/-- The kind of the error that an outcome is, if it is one. -/
def failure? {α : Type} : Except Error α → Option ErrorKind
  | .ok _ => none
  | .error e => some e.kind

end Sample

theorem Reading.run_of_untrusted_sample :
    Sample.suspiciousReader.VerifierAnswers ∧
      (OpenFile.openSource Sample.suspiciousReader Sample.unsignedFile {}).1 =
        .ok Sample.unsignedOpen ∧
      Sample.failure? (Sample.unsignedOpen.readColumn 0 0 {}).1 = some .endOfFile ∧
      ∀ outcome ∈ (run Sample.suspiciousReader Sample.unsignedFile {}
        [.openSource, .rowGroup 7, .readColumn 0 0, .close, .offsetIndex 0 0]).1,
          Answers.Plainly outcome := by
  have verified : Sample.suspiciousReader.VerifierAnswers := by
    rintro p ⟨⟩ verifier ⟨⟩ aadPrefix
    exact .error rfl
  refine ⟨verified, Sample.unsignedFile_opens {}, by decide +kernel, ?_⟩
  exact (run_of_untrusted verified Sample.unsignedFile _).1

end SealedColumns
