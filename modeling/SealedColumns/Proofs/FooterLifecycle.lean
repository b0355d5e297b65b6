import SealedColumns.Proofs.OpeningFiles

/-!
# The life of a footer reader

A footer reader is asked to parse files and to hand out metadata, in any order and any number
of times. What becomes of it is decided by the first attempt to parse: that one reads its file
and may have keys retrieved, later ones are refused and leave everything as it was. The
metadata is handed out once.

`Stage` has one case for each way in which a history can leave a reader. A request leads
from one stage to another (`Stage.reply`), so every run ends in a stage, and the
lifecycle is read off the stages.
-/

namespace SealedColumns

/-- What a footer reader is asked. -/
inductive FooterRequest where
  | tryParse (source : ByteSource)
  | finish

/-- What a footer reader replies. -/
inductive FooterReply where
  | parsed (result : Except Error Unit)
  | metadata (result : Except Error FileInfo)

/-- The metadata that a reply hands out. -/
def FooterReply.handedOut : FooterReply → List FileInfo
  | .metadata (.ok info) => [info]
  | _ => []

/-- The source of the first attempt to parse, and the requests after it. -/
def firstAttempt : List FooterRequest → Option (ByteSource × List FooterRequest)
  | [] => none
  | .tryParse source :: later => some (source, later)
  | .finish :: requests => firstAttempt requests

/-- A footer reader and the record of its calls. -/
structure FooterReading where
  reader : FooterReader
  session : ReadState := {}

namespace FooterReading

/-- A reader that was not used yet. -/
def unused (properties : ReaderProperties) : FooterReading :=
  { reader := { properties } }

/-- The reply to a request, and the reader after it. -/
def reply (r : FooterReading) : FooterRequest → FooterReply × FooterReading
  | .tryParse source =>
    let ((result, reader), session) := r.reader.tryParse source r.session
    (.parsed result, { reader, session })
  | .finish =>
    let (result, reader) := r.reader.finish
    (.metadata result, { r with reader })

/-- The replies to requests that follow each other, and the reader after them. -/
def serve (r : FooterReading) : List FooterRequest → List FooterReply × FooterReading
  | [] => ([], r)
  | request :: requests =>
    let (outcome, r) := r.reply request
    let (outcomes, r) := r.serve requests
    (outcome :: outcomes, r)

/-! ### The first attempt -/

theorem firstAttempt_append (requests more : List FooterRequest) :
    firstAttempt (requests ++ more) =
      match firstAttempt requests with
      | none => firstAttempt more
      | some (source, later) => some (source, later ++ more) := by
  induction requests with
  | nil => rfl
  | cons request requests ih =>
      cases request with
      | tryParse source => rfl
      | finish => exact ih

theorem firstAttempt_append_of_none {requests : List FooterRequest}
    (idle : firstAttempt requests = none) (more : List FooterRequest) :
    firstAttempt (requests ++ more) = firstAttempt more := by
  rw [firstAttempt_append, idle]

theorem firstAttempt_append_of_some {requests later : List FooterRequest} {source : ByteSource}
    (first : firstAttempt requests = some (source, later)) (more : List FooterRequest) :
    firstAttempt (requests ++ more) = some (source, later ++ more) := by
  rw [firstAttempt_append, first]

/-! ### Single requests -/

/-- The first attempt to parse reads the footer. -/
theorem reply_tryParse_unused (properties : ReaderProperties) (source : ByteSource) :
    (unused properties).reply (.tryParse source) =
      match Opening.readFooter properties source {} with
      | (.ok info, session) =>
        (.parsed (.ok ()), ⟨⟨properties, .metadataParsed, some info⟩, session⟩)
      | (.error e, session) => (.parsed (.error e), ⟨⟨properties, .failed, none⟩, session⟩) := by
  have fresh : (unused properties).reader.state = .unopened := rfl
  rw [reply, FooterReader.tryParse_unopened fresh, unused]
  rcases Opening.readFooter properties source {} with ⟨e | info, session⟩
  · rfl
  · rfl

/-- A reader in any state but the first refuses to parse. -/
theorem reply_tryParse_of_used {r : FooterReading} (used : r.reader.state ≠ .unopened)
    (source : ByteSource) :
    r.reply (.tryParse source) = (.parsed (.error (.metadataReaderUsed r.reader.state)), r) := by
  rw [reply, FooterReader.tryParse_used used]

theorem reply_finish_of_some {r : FooterReading} {info : FileInfo}
    (present : r.reader.info = some info) :
    r.reply .finish =
      (.metadata (.ok info), { r with reader := { r.reader with info := none } }) := by
  simp only [reply, FooterReader.finish, present]

theorem reply_finish_of_none {r : FooterReading} (absent : r.reader.info = none) :
    r.reply .finish = (.metadata (.error .metadataNotParsed), r) := by
  simp only [reply, FooterReader.finish, absent]

/-- Handing out metadata changes neither the state nor the record of calls. -/
theorem reply_finish_frame (r : FooterReading) :
    (r.reply .finish).2.reader.state = r.reader.state ∧
      (r.reply .finish).2.session = r.session := by
  cases held : r.reader.info with
  | none =>
      rw [reply_finish_of_none held]
      exact ⟨rfl, rfl⟩
  | some info =>
      rw [reply_finish_of_some held]
      exact ⟨rfl, rfl⟩

/-- Once a reader was used, no request changes its state or leads to a call. -/
theorem reply_frame {r : FooterReading} (used : r.reader.state ≠ .unopened)
    (request : FooterRequest) :
    (r.reply request).2.reader.state = r.reader.state ∧
      (r.reply request).2.session = r.session := by
  cases request with
  | tryParse source =>
      rw [reply_tryParse_of_used used]
      exact ⟨rfl, rfl⟩
  | finish => exact reply_finish_frame r

theorem serve_frame {r : FooterReading} (used : r.reader.state ≠ .unopened)
    (requests : List FooterRequest) :
    (r.serve requests).2.reader.state = r.reader.state ∧
      (r.serve requests).2.session = r.session := by
  induction requests generalizing r with
  | nil => exact ⟨rfl, rfl⟩
  | cons request requests ih =>
      obtain ⟨sameState, sameSession⟩ := reply_frame used request
      obtain ⟨state, session⟩ := ih (sameState ▸ used)
      exact ⟨state.trans sameState, session.trans sameSession⟩

/-! ### Stages -/

/-- How a history of requests leaves a reader, with the metadata that was handed out on the way. -/
inductive Stage (properties : ReaderProperties) :
    List FooterRequest → List FileInfo → FooterReading → Prop
  /-- Nothing was parsed yet. -/
  | unopened {requests : List FooterRequest} (idle : firstAttempt requests = none) :
      Stage properties requests [] (unused properties)
  /-- The first attempt failed. -/
  | failed {requests later : List FooterRequest} {source : ByteSource} {e : Error} {s : ReadState}
      (first : firstAttempt requests = some (source, later))
      (read : Opening.readFooter properties source {} = (.error e, s)) :
      Stage properties requests [] ⟨⟨properties, .failed, none⟩, s⟩
  /-- The first attempt succeeded, and its metadata is held. -/
  | parsed {requests later : List FooterRequest} {source : ByteSource} {info : FileInfo}
      {s : ReadState} (first : firstAttempt requests = some (source, later))
      (read : Opening.readFooter properties source {} = (.ok info, s)) (held : .finish ∉ later) :
      Stage properties requests [] ⟨⟨properties, .metadataParsed, some info⟩, s⟩
  /-- The first attempt succeeded, and its metadata was handed out. -/
  | finished {requests later : List FooterRequest} {source : ByteSource} {info : FileInfo}
      {s : ReadState} (first : firstAttempt requests = some (source, later))
      (read : Opening.readFooter properties source {} = (.ok info, s)) (taken : .finish ∈ later) :
      Stage properties requests [info] ⟨⟨properties, .metadataParsed, none⟩, s⟩

variable {properties : ReaderProperties} {requests : List FooterRequest} {handed : List FileInfo}
  {r : FooterReading}

/-- The first attempt to parse decides between failure and success. -/
theorem Stage.tryParse_unused (idle : firstAttempt requests = none) (source : ByteSource) :
    Stage properties (requests ++ [.tryParse source]) []
      ((unused properties).reply (.tryParse source)).2 := by
  have first : firstAttempt (requests ++ [.tryParse source]) = some (source, []) :=
    firstAttempt_append_of_none idle _
  rw [reply_tryParse_unused]
  cases footer : Opening.readFooter properties source {} with
  | mk result s =>
      cases result with
      | error e => exact .failed first footer
      | ok info => exact .parsed first footer List.not_mem_nil

/-- A request leads from one stage to another. -/
theorem Stage.reply (stage : Stage properties requests handed r) (request : FooterRequest) :
    Stage properties (requests ++ [request])
      (handed ++ (r.reply request).1.handedOut) (r.reply request).2 := by
  cases stage with
  | unopened idle =>
      cases request with
      | tryParse source => exact Stage.tryParse_unused idle source
      | finish => exact .unopened (firstAttempt_append_of_none idle _)
  | failed first read =>
      have first' := firstAttempt_append_of_some first [request]
      cases request with
      | tryParse source => exact .failed first' read
      | finish => exact .failed first' read
  | parsed first read held =>
      have first' := firstAttempt_append_of_some first [request]
      cases request with
      | tryParse source =>
          apply Stage.parsed first' read
          simpa using held
      | finish =>
          apply Stage.finished first' read
          simp
  | finished first read taken =>
      have first' := firstAttempt_append_of_some first [request]
      have taken' := List.mem_append_left [request] taken
      cases request with
      | tryParse source => exact .finished first' read taken'
      | finish => exact .finished first' read taken'

theorem Stage.serve (stage : Stage properties requests handed r) (more : List FooterRequest) :
    Stage properties (requests ++ more)
      (handed ++ (r.serve more).1.flatMap FooterReply.handedOut) (r.serve more).2 := by
  induction more generalizing requests handed r with
  | nil =>
      rw [List.append_nil]
      simpa [FooterReading.serve] using stage
  | cons request more ih =>
      have after := ih (stage.reply request)
      simpa [FooterReading.serve] using after

/-! ### The lifecycle -/

/-- What can be said of a reader after the given requests, and of what it does with the next one. -/
structure Lifecycle (properties : ReaderProperties) (requests : List FooterRequest)
    (handed : List FileInfo) (r : FooterReading) : Prop where
  /-- No request ends with a footer that is detected but not read. -/
  settled : r.reader.state = .unopened ∨ r.reader.state = .metadataParsed ∨
    r.reader.state = .failed
  /-- As long as nothing was to be parsed, the reader is as new and called nobody. -/
  untouched : firstAttempt requests = none → r = unused properties
  /-- The first attempt reads the footer of its source, and keeps the metadata or has failed. -/
  first : firstAttempt requests = none → ∀ source, r.reply (.tryParse source) =
    match Opening.readFooter properties source {} with
    | (.ok info, session) =>
      (.parsed (.ok ()), ⟨⟨properties, .metadataParsed, some info⟩, session⟩)
    | (.error e, session) => (.parsed (.error e), ⟨⟨properties, .failed, none⟩, session⟩)
  /-- A later attempt is refused, and the reader stays as it was. -/
  later : firstAttempt requests ≠ none → ∀ source,
    r.reply (.tryParse source) = (.parsed (.error (.metadataReaderUsed r.reader.state)), r) ∧
      (Error.metadataReaderUsed r.reader.state).kind = .general
  /-- After an attempt the state is one of the last two. It is never left, and nobody is called any
  more. -/
  final : firstAttempt requests ≠ none → r.reader.state ≠ .unopened ∧ ∀ more,
    (r.serve more).2.reader.state = r.reader.state ∧ (r.serve more).2.session = r.session
  /-- Asking for the metadata does not change the state and calls nobody. -/
  finish_frame : (r.reply .finish).2.reader.state = r.reader.state ∧
    (r.reply .finish).2.session = r.session
  /-- Metadata is handed out if the first attempt succeeded and nobody asked for it since then. -/
  finish_iff : ∀ info, (r.reply .finish).1 = .metadata (.ok info) ↔
    ∃ source later session, firstAttempt requests = some (source, later) ∧ .finish ∉ later ∧
      Opening.readFooter properties source {} = (.ok info, session)
  /-- What was handed out so far is the metadata of the first attempt, at most once. -/
  once : handed = [] ∨ ∃ source later info session,
    handed = [info] ∧ firstAttempt requests = some (source, later) ∧
      Opening.readFooter properties source {} = (.ok info, session)

/-- The state tells whether there was an attempt. -/
theorem Stage.unopened_iff (stage : Stage properties requests handed r) :
    r.reader.state = .unopened ↔ firstAttempt requests = none := by
  cases stage with
  | unopened idle => simp [idle, FooterReading.unused]
  | failed first => simp [first]
  | parsed first => simp [first]
  | finished first => simp [first]

/-- The reader holds metadata if the first attempt succeeded and nobody asked for it since then. -/
theorem Stage.info_iff (stage : Stage properties requests handed r) (info : FileInfo) :
    r.reader.info = some info ↔
      ∃ source later session, firstAttempt requests = some (source, later) ∧ .finish ∉ later ∧
        Opening.readFooter properties source {} = (.ok info, session) := by
  constructor
  · intro held
    cases stage with
    | unopened => cases held
    | failed => cases held
    | parsed first read untouched =>
        cases held
        exact ⟨_, _, _, first, untouched, read⟩
    | finished => cases held
  · rintro ⟨source, later, session, first, untouched, read⟩
    cases stage with
    | unopened idle =>
        rw [idle] at first
        cases first
    | failed first' read' =>
        cases first'.symm.trans first
        cases read'.symm.trans read
    | parsed first' read' =>
        cases first'.symm.trans first
        cases read'.symm.trans read
        rfl
    | finished first' read' taken =>
        cases first'.symm.trans first
        exact absurd taken untouched

theorem reply_finish_iff (r : FooterReading) (info : FileInfo) :
    (r.reply .finish).1 = .metadata (.ok info) ↔ r.reader.info = some info := by
  cases held : r.reader.info with
  | none => simp [reply_finish_of_none held]
  | some info' => simp [reply_finish_of_some held]

theorem Stage.lifecycle (stage : Stage properties requests handed r) :
    Lifecycle properties requests handed r := by
  have used : firstAttempt requests ≠ none → r.reader.state ≠ .unopened := by
    intro attempted unopened
    exact attempted (stage.unopened_iff.mp unopened)
  have untouched : firstAttempt requests = none → r = unused properties := by
    intro idle
    cases stage with
    | unopened => rfl
    | failed first => simp [idle] at first
    | parsed first => simp [idle] at first
    | finished first => simp [idle] at first
  constructor
  · cases stage <;> simp [FooterReading.unused]
  · exact untouched
  · intro idle source
    rw [untouched idle]
    exact reply_tryParse_unused properties source
  · intro attempted source
    exact ⟨reply_tryParse_of_used (used attempted) source, rfl⟩
  · intro attempted
    exact ⟨used attempted, serve_frame (used attempted)⟩
  · exact reply_finish_frame r
  · intro info
    rw [reply_finish_iff, stage.info_iff]
  · cases stage with
    | unopened => exact .inl rfl
    | failed => exact .inl rfl
    | parsed => exact .inl rfl
    | finished first read => exact .inr ⟨_, _, _, _, rfl, first, read⟩

/-- However a footer reader is used, it keeps to its lifecycle. -/
theorem serve_lifecycle (properties : ReaderProperties) (requests : List FooterRequest) :
    Lifecycle properties requests
      (((unused properties).serve requests).1.flatMap FooterReply.handedOut)
      ((unused properties).serve requests).2 := by
  have start : Stage properties [] [] (unused properties) := .unopened rfl
  exact (start.serve requests).lifecycle

/-- A file that is too short is the end of a reader. -/
example :
    ((unused {}).serve [.finish, .tryParse ⟨.memory, []⟩, .finish]).2.reader.state = .failed :=
  rfl

end FooterReading

end SealedColumns
