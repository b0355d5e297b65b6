import SealedColumns.Proofs.ReadRequests
import SealedColumns.Proofs.RelatedOpening
import SealedColumns.Proofs.RoundTrip

/-!
# Requests to two readers

Two readers of one source, whose settings differ in the retriever of keys at most, are given
the same requests in the same order. They stand beside each other as long as their sessions are
related, one has a file open where the other has the same file under its own retriever, and
both have handed out the same page readers and column readers. Each request leads to the same
reply and leaves them so.
-/

namespace SealedColumns

namespace ReadRequest

/-- The request is about the open file, and its reply comes from a session. -/
def asksFile : ReadRequest → Bool
  | .openSource | .nextPage _ | .nextValues _ | .restOfValues _ | .close => false
  | _ => true

/-- The request leaves the reader with the file that it has open. -/
def staysOpen : ReadRequest → Bool
  | .openSource | .close => false
  | _ => true

end ReadRequest

open ReadState (Companions Lasts)

variable {P : ReadState → ReadState → Prop} {retriever : Option KeyRetriever}
variable {properties : ReaderProperties} {source : ByteSource}

/-- What is known without decryption does not depend on the retriever. -/
@[simp] theorem FileInfo.bare_withRetriever (f : FileInfo) :
    (f.withRetriever retriever).bare = f.bare := rfl

@[simp] theorem FileInfo.algorithm_withRetriever (f : FileInfo) :
    (f.withRetriever retriever).algorithm = f.algorithm := by
  rw [algorithm, algorithm, withRetriever, Option.map_map]
  rfl

/-- What is asked of a file is read from it. -/
theorem OpenFile.onFile_reads (f : OpenFile) (request : ReadRequest) :
    f.Reads Eq fun f => request.onFile f where
  beside {P retriever} companions keys := by
    have handed {α : Type} {V : α → α → Prop} {access : OpenFile → Session α}
        (reads : f.Reads V access) (reply : α → ReadReply)
        (same : ∀ a b, V a b → reply a = reply b) :
        SideBySide P Eq (access f >>= fun a => pure (reply a))
          (access (f.withRetriever retriever) >>= fun a => pure (reply a)) :=
      (reads.beside companions keys).seq fun a b related => .pure (same a b related)
    have equal {α : Type} (reply : α → ReadReply) (a b : α) (h : a = b) : reply a = reply b :=
      congrArg reply h
    cases request with
    | rowGroup i => exact handed (f.rowGroup_reads i) .rowGroup (equal _)
    | columnChunk i j =>
        exact handed ((f.columnChunk_reads i j).inRowGroup i) .chunk fun a b h => equal _ a b h.1
    | chunkInfo i j => exact handed (f.columnChunk_reads i j) .chunk fun a b h => equal _ a b h.1
    | columnPages i j => exact handed ((f.columnPages_reads i j).inRowGroup i) .pages (equal _)
    | columnReader i j => exact handed ((f.columnReader_reads i j).inRowGroup i) .reader (equal _)
    | readColumn i j => exact handed ((f.readColumn_reads i j).inRowGroup i) .values (equal _)
    | offsetIndex i j =>
        exact handed ((f.offsetIndex_reads i j).inRowGroup i) .offsetIndex (equal _)
    | openSource | nextPage | nextValues | restOfValues | close => exact .pure rfl

namespace Reading

/-- A reader that has just opened a file. -/
def opened (f : OpenFile) (s : ReadState) : Reading where
  session := s
  file := some f

variable {r r' : Reading} {f : OpenFile}

theorem reply_openSource {s : ReadState}
    (opening : OpenFile.openSource properties source {} = (.ok f, s)) :
    reply properties source {} .openSource =
      (.ok (.opened f.info.bare f.info.algorithm), opened f s) := by
  rw [reply, openAnew, opening]
  rfl

/-- A request about the file is an operation in the session. -/
theorem reply_of_asksFile {request : ReadRequest} (asks : request.asksFile = true)
    (opened : r.file = some f) :
    r.reply properties source request = r.perform (request.onFile f) := by
  cases request with
  | openSource | nextPage | nextValues | restOfValues | close => cases asks
  | _ =>
      rw [reply.eq_def]
      dsimp only
      rw [opened]

theorem reply_of_no_file {request : ReadRequest} (asks : request.asksFile = true)
    (missing : r.file = none) : r.reply properties source request = (.ok .done, r) := by
  cases request with
  | openSource | nextPage | nextValues | restOfValues | close => cases asks
  | _ =>
      rw [reply.eq_def]
      dsimp only
      rw [missing]

/-- Handing something out does not concern the session and the file. -/
@[simp] theorem handOut_session (r : Reading) (reply : ReadReply) :
    (r.handOut reply).session = r.session := by
  cases reply <;> rfl

@[simp] theorem handOut_file (r : Reading) (reply : ReadReply) :
    (r.handOut reply).file = r.file := by
  cases reply <;> rfl

/-- What is performed is the operation in the session. -/
theorem perform_eq (r : Reading) (op : Session ReadReply) :
    (r.perform op).1 = (op r.session).1 ∧ (r.perform op).2.session = (op r.session).2 ∧
      (r.perform op).2.file = r.file := by
  rw [perform]
  generalize op r.session = outcome
  rcases outcome with ⟨e | reply, session⟩
  · exact ⟨rfl, rfl, rfl⟩
  · simp

/-! ### One reader -/

variable {I : ReadState → Prop}

/-- What lasts, and is preserved when keys are looked for, is preserved by a request that
leaves the file open. -/
theorem reply_preserves (properties : ReaderProperties) (source : ByteSource)
    {request : ReadRequest} (lasts : Lasts I)
    (keys : ∀ d ∈ f.info.decryption, ∀ path crypto, Preserves I (d.columnKey path crypto))
    (stays : request.staysOpen = true) (opened : r.file = some f) (hs : I r.session) :
    (r.reply properties source request).2.file = some f ∧
      I (r.reply properties source request).2.session := by
  by_cases asks : request.asksFile = true
  · rw [reply_of_asksFile asks opened]
    obtain ⟨_, session, file⟩ := r.perform_eq (request.onFile f)
    rw [session, file]
    exact ⟨opened, ((f.onFile_reads request).preserves lasts keys _ hs).2⟩
  · cases request with
    | openSource | close => cases stays
    | nextPage n | nextValues n | restOfValues n => exact ⟨opened, hs⟩
    | _ => exact absurd rfl asks

theorem serve_preserves (properties : ReaderProperties) (source : ByteSource)
    {requests : List ReadRequest} (lasts : Lasts I)
    (keys : ∀ d ∈ f.info.decryption, ∀ path crypto, Preserves I (d.columnKey path crypto))
    (stay : ∀ request ∈ requests, request.staysOpen = true) (opened : r.file = some f)
    (hs : I r.session) :
    (r.serve properties source requests).2.file = some f ∧
      I (r.serve properties source requests).2.session := by
  induction requests generalizing r with
  | nil => exact ⟨opened, hs⟩
  | cons request requests ih =>
      obtain ⟨opened, hs⟩ := reply_preserves properties source lasts keys
        (stay request List.mem_cons_self) opened hs
      exact ih (fun later member => stay later (List.mem_cons_of_mem _ member)) opened hs

/-! ### Two readers -/

/-- Two readers of one source stand beside each other. -/
structure Beside (P : ReadState → ReadState → Prop) (retriever : Option KeyRetriever)
    (properties : ReaderProperties) (source : ByteSource) (r r' : Reading) : Prop where
  session : P r.session r'.session
  file : r'.file = r.file.map (·.withRetriever retriever)
  opened : ∀ f ∈ r.file, (OpenFile.openSource properties source {}).1 = .ok f
  pages : r.pages = r'.pages
  columns : r.columns = r'.columns

/-- What it takes for two readers to stay beside each other when they are given the request. -/
structure Answerable (P : ReadState → ReadState → Prop) (retriever : Option KeyRetriever)
    (properties : ReaderProperties) (source : ByteSource) (request : ReadRequest) : Prop where
  companions : Companions P
  keys : ∀ f, (OpenFile.openSource properties source {}).1 = .ok f → f.info.KeysBeside P retriever
  opening : request = .openSource → P {} {} ∧
    ∀ p ∈ properties.decryption, p.FooterKeyBeside P retriever
  closing : request = .close → SideBySide P Eq Session.close Session.close

/-- An operation on related sessions is performed alike. -/
theorem perform_beside {op op' : Session ReadReply}
    (beside : r.Beside P retriever properties source r')
    (h : SideBySide P Eq op op') :
    (r.perform op).1 = (r'.perform op').1 ∧
      (r.perform op).2.Beside P retriever properties source (r'.perform op').2 := by
  obtain ⟨alike, related⟩ := h _ _ beside.session
  rw [perform, perform]
  generalize op r.session = left at alike related ⊢
  generalize op' r'.session = right at alike related ⊢
  rcases left with ⟨result, session⟩
  rcases right with ⟨result', session'⟩
  cases alike with
  | error e => exact ⟨rfl, related, beside.file, beside.opened, beside.pages, beside.columns⟩
  | @ok reply _ same =>
      cases same
      refine ⟨rfl, ?_⟩
      cases reply with
      | pages p =>
          exact ⟨related, beside.file, beside.opened, congrArg (· ++ [p]) beside.pages,
            beside.columns⟩
      | reader c =>
          exact ⟨related, beside.file, beside.opened, beside.pages,
            congrArg (· ++ [c]) beside.columns⟩
      | _ => exact ⟨related, beside.file, beside.opened, beside.pages, beside.columns⟩

theorem openAnew_beside (companions : Companions P) (start : P {} {})
    (footer : ∀ p ∈ properties.decryption, p.FooterKeyBeside P retriever)
    (beside : r.Beside P retriever properties source r') :
    (r.openAnew properties source).1 =
        (r'.openAnew (properties.withRetriever retriever) source).1 ∧
      (r.openAnew properties source).2.Beside P retriever properties source
        (r'.openAnew (properties.withRetriever retriever) source).2 := by
  have both := OpenFile.openSource_beside companions footer source {} {} start
  obtain ⟨alike, related⟩ := both
  rw [openAnew, openAnew]
  generalize hleft : OpenFile.openSource properties source {} = left at alike related ⊢
  generalize OpenFile.openSource (properties.withRetriever retriever) source {} = right
    at alike related ⊢
  rcases left with ⟨result, session⟩
  rcases right with ⟨result', session'⟩
  cases alike with
  | error e =>
      refine ⟨rfl, related, rfl, ?_, beside.pages, beside.columns⟩
      rintro _ ⟨⟩
  | @ok f f' same =>
      obtain ⟨_, rfl⟩ := same
      have reply : ReadReply.opened f.info.bare f.info.algorithm =
          .opened (f.info.withRetriever retriever).bare
            (f.info.withRetriever retriever).algorithm := by
        rw [FileInfo.bare_withRetriever, FileInfo.algorithm_withRetriever]
      refine ⟨congrArg Except.ok reply, related, rfl, ?_, beside.pages, beside.columns⟩
      rintro _ ⟨⟩
      rw [hleft]

/-- A request leads two readers beside each other to the same reply, and they stay so. -/
theorem reply_beside {request : ReadRequest}
    (able : Answerable P retriever properties source request)
    (beside : r.Beside P retriever properties source r') :
    (r.reply properties source request).1 =
        (r'.reply (properties.withRetriever retriever) source request).1 ∧
      (r.reply properties source request).2.Beside P retriever properties source
        (r'.reply (properties.withRetriever retriever) source request).2 := by
  by_cases asks : request.asksFile = true
  · cases hfile : r.file with
    | none =>
        have missing : r'.file = none := by rw [beside.file, hfile, Option.map_none]
        rw [reply_of_no_file asks hfile, reply_of_no_file asks missing]
        exact ⟨rfl, beside⟩
    | some f =>
        have other : r'.file = some (f.withRetriever retriever) := by
          rw [beside.file, hfile, Option.map_some]
        rw [reply_of_asksFile asks hfile, reply_of_asksFile asks other]
        have keys := able.keys f (beside.opened f hfile)
        exact perform_beside beside ((f.onFile_reads request).beside able.companions keys)
  · cases request with
    | openSource =>
        obtain ⟨start, footer⟩ := able.opening rfl
        exact openAnew_beside able.companions start footer beside
    | nextPage n =>
        rw [reply, reply, beside.pages]
        exact ⟨rfl, beside.session, beside.file, beside.opened, rfl, beside.columns⟩
    | nextValues n =>
        rw [reply, reply, beside.columns]
        exact ⟨rfl, beside.session, beside.file, beside.opened, beside.pages, rfl⟩
    | restOfValues n =>
        rw [reply, reply, beside.columns]
        exact ⟨rfl, beside.session, beside.file, beside.opened, beside.pages, rfl⟩
    | close => exact perform_beside beside ((able.closing rfl).seq_eq fun _ => .pure rfl)
    | _ => exact absurd rfl asks

/-- Requests that follow each other lead to the same replies. -/
theorem serve_beside {requests : List ReadRequest}
    (able : ∀ request ∈ requests, Answerable P retriever properties source request)
    (beside : r.Beside P retriever properties source r') :
    (r.serve properties source requests).1 =
        (r'.serve (properties.withRetriever retriever) source requests).1 ∧
      (r.serve properties source requests).2.Beside P retriever properties source
        (r'.serve (properties.withRetriever retriever) source requests).2 := by
  induction requests generalizing r r' with
  | nil => exact ⟨rfl, beside⟩
  | cons request requests ih =>
      obtain ⟨first, beside⟩ := reply_beside (able request List.mem_cons_self) beside
      obtain ⟨rest, beside⟩ := ih (fun later member => able later (List.mem_cons_of_mem _ member))
        beside
      exact ⟨congrArg₂ List.cons first rest, beside⟩

end Reading

open FileDecryption (Sessions)

/-- The first column of the sample is read back if its key is found. -/
theorem Sample.reply_readColumn {p : EncryptionProperties} {e : FileEncryption} {m : FileMetaData}
    {d : DecryptionProperties} {f : OpenFile} {s : ReadState}
    (openFile : OpenFile.Opened schema (Sample.properties (some p)) (some e) [columns] m (some d) f)
    (kept : Sessions (some e) s) (finds : d.FindsColumn e.properties own.path) :
    ((Reading.opened f s).reply properties source (.readColumn 0 0)).1 =
      .ok (.values ⟨.int32, [7, 8, 7]⟩) := by
  have group : [columns][0]? = some columns := rfl
  have values : columns[0]? = some ⟨.int32, [7, 8, 7]⟩ := rfl
  have column : schema.columns[0]? = some ⟨own.path, .int32⟩ := rfl
  have read := openFile.readColumn_yields group values column (openFile.findsColumn rfl rfl finds)
  rw [short.stored_eq_self group values] at read
  have replied : Yields (Sessions (some e)) ((ReadRequest.readColumn 0 0).onFile f)
      (· = .ok (.values ⟨.int32, [7, 8, 7]⟩)) :=
    .seq_ok read (.pure rfl)
  rw [Reading.reply_of_asksFile rfl rfl, (Reading.perform_eq _ _).1]
  exact (replied s kept).1

end SealedColumns
