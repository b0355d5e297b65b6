import SealedColumns.Proofs.RelatedRuns

/-!
# Files that were closed

Closing a file releases the footer key and the engines, and nothing brings them back: whatever is
requested of the closed file, the session stays as closing left it. So nobody is asked for a key and
nothing is read from the source. Row groups cannot be reached. What is known of the file without
opening anything is still there, among it the metadata of chunks that is not sealed.

Opening the source again is the start of another reader. Page readers and column readers that were
handed out before have all they need, and go on.
-/

namespace SealedColumns

/-- The session after a file was closed in it. -/
def ReadState.released (s : ReadState) : ReadState :=
  { s with footerKey := none, engines := {}, closed := true }

/-- The row group that a request has to reach first. -/
def ReadRequest.rowGroup? : ReadRequest → Option Nat
  | .rowGroup i | .columnChunk i _ | .columnPages i _ | .columnReader i _ | .readColumn i _
  | .offsetIndex i _ => some i
  | .openSource | .chunkInfo _ _ | .nextPage _ | .nextValues _ | .restOfValues _ | .close => none

/-- The file has the chunk, its metadata is sealed, and the reader is to open it. -/
def FileInfo.OpensChunk (f : FileInfo) (i j : Nat) : Prop :=
  ∃ g c, f.rowGroups[i]? = some g ∧ g.columns[j]? = some c ∧ f.OpensMetaData c

/-- Every row group of the file has one chunk for each column. -/
def FileInfo.Complete (f : FileInfo) : Prop :=
  ∀ (i : Nat) g, f.rowGroups[i]? = some g → g.columns.length = f.schema.numColumns

/-- The outcome of a request is the error, and the error is of the general kind. -/
def RefusedWith (e : Error) (outcome : Except Error ReadReply) : Prop :=
  outcome = .error e ∧ e.kind = .general

/-! ### One access to a closed file -/

variable {s : ReadState}

theorem Session.checkKeysHeld_of_closed (closed : s.closed = true) :
    checkKeysHeld s = (.error .keysReleased, s) := by
  rw [checkKeysHeld, Operation.run_get_bind, closed]
  rfl

/-- No key of a column is found in a closed session, wherever it would come from. -/
theorem FileDecryption.columnOpener_of_closed (closed : s.closed = true) (d : FileDecryption)
    (path : ColumnPath) (crypto : ColumnCrypto) (moduleClass : ModuleClass) :
    d.columnOpener path crypto moduleClass s = (.error .keysReleased, s) := by
  have refused : d.columnKey path crypto s = (.error .keysReleased, s) :=
    Operation.run_bind_error (Session.checkKeysHeld_of_closed closed)
  exact Operation.run_bind_error refused

namespace FileInfo

variable {f : FileInfo} {i j : Nat}

/-- Sealed metadata of a chunk is not opened in a closed session. -/
theorem columnChunk_of_closed (closed : s.closed = true) (complete : f.Complete)
    (opens : f.OpensChunk i j) : f.columnChunk i j s = (.error .keysReleased, s) := by
  obtain ⟨g, c, hg, hc, named, sealedForm, decrypting⟩ := opens
  obtain ⟨crypto, hcrypto⟩ := Option.isSome_iff_exists.mp named
  obtain ⟨module, hmodule⟩ := Option.isSome_iff_exists.mp sealedForm
  obtain ⟨d, hd⟩ := Option.isSome_iff_exists.mp decrypting
  have place : j < f.schema.columns.length := by
    have width := complete i g hg
    obtain ⟨inside, _⟩ := List.getElem?_eq_some_iff.mp hc
    rwa [width, Schema.numColumns] at inside
  have column : f.schema.column j = .ok f.schema.columns[j] := by
    rw [Schema.column, List.getElem?_eq_getElem place]
  have refused : f.columnMetaData i j f.schema.columns[j].path c s = (.error .keysReleased, s) := by
    rw [columnMetaData, hcrypto, hmodule, hd]
    exact Operation.run_bind_error (FileDecryption.columnOpener_of_closed closed d _ _ _)
  rw [columnChunk, hg]
  dsimp only
  rw [hc]
  dsimp only
  rw [Operation.run_lift_bind column]
  exact Operation.run_bind_error refused

/-- What is known of a chunk without opening anything does not depend on the session, whatever two
sessions are compared. -/
theorem columnChunk_of_not_opens (opens : ¬ f.OpensChunk i j) (P : ReadState → ReadState → Prop) :
    SideBySide P Eq (f.columnChunk i j) (f.columnChunk i j) := by
  rw [columnChunk]
  cases hg : f.rowGroups[i]? with
  | none => exact .throw _
  | some g =>
      dsimp only
      cases hc : g.columns[j]? with
      | none => exact .throw _
      | some c =>
          have plain : ¬ f.OpensMetaData c := fun opens' => opens ⟨g, c, hg, hc, opens'⟩
          refine .lift_bind fun column _ => ?_
          rw [columnMetaData_of_not_opens plain]
          exact (SideBySide.lift _).seq_eq fun m => .guard (.lift _)

end FileInfo

namespace OpenFile

variable {f : OpenFile} {i : Nat}

theorem inRowGroup_of_closed {α : Type} (closed : s.closed = true) (op : Session α) :
    f.inRowGroup i op s = (.error (.readerClosed i), s) := by
  have refused : f.rowGroup i s = (.error (.readerClosed i), s) := by
    rw [rowGroup, Operation.run_get_bind, closed]
    rfl
  exact Operation.run_bind_error refused

/-- A request that has to reach a row group is refused, and leaves the closed session as it is. -/
theorem onFile_of_rowGroup {request : ReadRequest} (closed : s.closed = true)
    (reaches : request.rowGroup? = some i) :
    request.onFile f s = (.error (.readerClosed i), s) := by
  cases request with
  | openSource | chunkInfo | nextPage | nextValues | restOfValues | close => cases reaches
  | rowGroup =>
      cases reaches
      refine Operation.run_bind_error ?_
      rw [rowGroup, Operation.run_get_bind, closed]
      rfl
  | columnChunk | columnPages | columnReader | readColumn | offsetIndex =>
      cases reaches
      exact Operation.run_bind_error (inRowGroup_of_closed closed _)

/-- Asked for what is known of a chunk without opening anything, all sessions give one reply,
and stay as they are. -/
theorem chunkInfo_of_not_opens {j : Nat} (opens : ¬ f.info.OpensChunk i j) (s t : ReadState) :
    ((ReadRequest.chunkInfo i j).onFile f s).1 = ((ReadRequest.chunkInfo i j).onFile f t).1 ∧
      ((ReadRequest.chunkInfo i j).onFile f s).2 = s := by
  have alike : SideBySide (fun s' t' => s' = s ∧ t' = t) Eq
      ((ReadRequest.chunkInfo i j).onFile f) ((ReadRequest.chunkInfo i j).onFile f) :=
    (FileInfo.columnChunk_of_not_opens opens _).seq_eq fun chunk => .pure rfl
  obtain ⟨same, left, _⟩ := alike s t ⟨rfl, rfl⟩
  exact ⟨same.eq, left⟩

/-- No request changes a closed session. -/
theorem onFile_of_closed (closed : s.closed = true) (complete : f.info.Complete)
    (request : ReadRequest) : (request.onFile f s).2 = s := by
  cases request with
  | chunkInfo i j =>
      by_cases opens : f.info.OpensChunk i j
      · have refused := FileInfo.columnChunk_of_closed closed complete opens
        rw [ReadRequest.onFile, Operation.run_bind_error refused]
      · exact (chunkInfo_of_not_opens opens s s).2
  | rowGroup | columnChunk | columnPages | columnReader | readColumn | offsetIndex =>
      rw [onFile_of_rowGroup closed rfl]
  | openSource | nextPage | nextValues | restOfValues | close => rfl

end OpenFile

/-! ### Files that were opened -/

variable {properties : ReaderProperties} {source : ByteSource}

/-- A reader opens no file that lacks chunks. -/
theorem OpenFile.complete_of_openSource {f : OpenFile}
    (opened : (openSource properties source {}).1 = .ok f) : f.info.Complete := by
  rw [openSource_run] at opened
  generalize hfooter : Opening.readFooter properties source {} = outcome at opened
  rcases outcome with ⟨e | info, t⟩
  · cases opened
  · cases opened
    obtain ⟨_, metadataSection, mode, u, _, _, fresh, understood⟩ :=
      Opening.readFooter_eq_ok hfooter
    have taken : ∃ m d, Opening.fileInfo m d = .ok info := by
      cases mode with
      | plaintext =>
          obtain ⟨m, d, _, taken⟩ := Opening.plaintextSection_eq_ok fresh understood
          exact ⟨m, d, taken⟩
      | encrypted =>
          obtain ⟨m, d, _, taken⟩ := Opening.encryptedSection_eq_ok fresh understood
          exact ⟨m, d, taken⟩
    obtain ⟨m, d, taken⟩ := taken
    have known := Opening.fileInfo_eq_ok taken
    intro i g hg
    obtain ⟨inside, _⟩ := Array.getElem?_eq_some_iff.mp hg
    have stored : i < m.rowGroups.length := by
      rwa [← known.numRowGroups, FileInfo.numRowGroups]
    obtain ⟨width, ordinal, _, same⟩ := known.rowGroup i _ (List.getElem?_eq_getElem stored)
    cases hg.symm.trans same
    rw [width, known.schema, Schema.numColumns, List.length_map]

namespace Reading

variable {r : Reading} {f : OpenFile}

/-- The file of a reader is one that it opened. -/
def HoldsOpened (properties : ReaderProperties) (source : ByteSource) (r : Reading) : Prop :=
  ∀ f ∈ r.file, (OpenFile.openSource properties source {}).1 = .ok f

theorem reply_holdsOpened (h : r.HoldsOpened properties source) (request : ReadRequest) :
    (r.reply properties source request).2.HoldsOpened properties source := by
  by_cases asks : request.asksFile = true
  · cases hfile : r.file with
    | none =>
        rw [reply_of_no_file asks hfile]
        exact h
    | some f =>
        rw [reply_of_asksFile asks hfile, HoldsOpened, (perform_eq _ _).2.2]
        exact h
  · cases request with
    | openSource =>
        rw [reply, openAnew]
        generalize hopened : OpenFile.openSource properties source {} = outcome
        rcases outcome with ⟨e | f, s⟩
        · rintro _ ⟨⟩
        · rintro _ ⟨⟩
          rw [hopened]
    | nextPage n | nextValues n | restOfValues n | close => exact h
    | _ => exact absurd rfl asks

theorem serve_holdsOpened (h : r.HoldsOpened properties source) (requests : List ReadRequest) :
    (r.serve properties source requests).2.HoldsOpened properties source := by
  induction requests generalizing r with
  | nil => exact h
  | cons request requests ih => exact ih (reply_holdsOpened h request)

/-! ### Any requests to a closed file -/

/-- A closed reader stays as it is, up to the readers that it handed out, unless it is
to open the source again. -/
theorem reply_released (complete : f.info.Complete) {request : ReadRequest}
    (stays : request ≠ .openSource) (present : r.file = some f)
    (released : r.session = s.released) :
    (r.reply properties source request).2.file = some f ∧
      (r.reply properties source request).2.session = s.released := by
  by_cases asks : request.asksFile = true
  · rw [reply_of_asksFile asks present]
    obtain ⟨_, session, file⟩ := r.perform_eq (request.onFile f)
    rw [session, file, released]
    exact ⟨present, OpenFile.onFile_of_closed rfl complete request⟩
  · cases request with
    | openSource => exact absurd rfl stays
    | nextPage n | nextValues n | restOfValues n => exact ⟨present, released⟩
    | close =>
        refine ⟨present, ?_⟩
        change r.session.released = s.released
        rw [released]
        rfl
    | _ => exact absurd rfl asks

theorem serve_released (complete : f.info.Complete) {requests : List ReadRequest}
    (stay : ∀ request ∈ requests, request ≠ .openSource) (present : r.file = some f)
    (released : r.session = s.released) :
    (r.serve properties source requests).2.file = some f ∧
      (r.serve properties source requests).2.session = s.released := by
  induction requests generalizing r with
  | nil => exact ⟨present, released⟩
  | cons request requests ih =>
      obtain ⟨present, released⟩ :=
        reply_released complete (stay request List.mem_cons_self) present released
      exact ih (fun later member => stay later (List.mem_cons_of_mem _ member)) present released

/-- After a file was closed, whatever was requested before and whatever is requested then: the file
is still there, and the session is as closing left it, without a footer key, engines or further
calls. What needs a row group is refused, and so is the metadata of a chunk that would have to be
opened. For any other chunk the reply is the one from before the file was closed. -/
theorem nothing_opened_after_close {before after : List ReadRequest} {r later : Reading}
    (reached : (serve properties source {} before).2 = r) (present : r.file = some f)
    (stay : ∀ request ∈ after, request ≠ .openSource)
    (afterwards : ((r.reply properties source .close).2.serve properties source after).2 = later) :
    later.file = some f ∧
      later.session = { r.session with footerKey := none, engines := {}, closed := true } ∧
      (∀ request i, request.rowGroup? = some i →
        RefusedWith (.readerClosed i) (later.reply properties source request).1) ∧
      ∀ i j,
        (f.info.OpensChunk i j →
          RefusedWith .keysReleased (later.reply properties source (.chunkInfo i j)).1) ∧
        (¬ f.info.OpensChunk i j →
          (later.reply properties source (.chunkInfo i j)).1 =
            (r.reply properties source (.chunkInfo i j)).1) := by
  have opened : r.HoldsOpened properties source := by
    rw [← reached]
    apply serve_holdsOpened
    rintro _ ⟨⟩
  have complete := OpenFile.complete_of_openSource (opened f present)
  have closing : (r.reply properties source .close).2.session = r.session.released := rfl
  have kept : (r.reply properties source .close).2.file = some f := present
  obtain ⟨still, released⟩ := serve_released complete stay kept closing
  rw [afterwards] at still released
  have closed : later.session.closed = true := by
    rw [released]
    rfl
  refine ⟨still, released, ?_, ?_⟩
  · intro request i reaches
    have asks : request.asksFile = true := by
      cases request <;> first | rfl | cases reaches
    refine ⟨?_, rfl⟩
    rw [reply_of_asksFile asks still, (perform_eq _ _).1,
      OpenFile.onFile_of_rowGroup closed reaches]
  · intro i j
    constructor
    · intro opens
      refine ⟨?_, rfl⟩
      rw [reply_of_asksFile rfl still, (perform_eq _ _).1, ReadRequest.onFile,
        Operation.run_bind_error (FileInfo.columnChunk_of_closed closed complete opens)]
    · intro plain
      rw [reply_of_asksFile rfl still, reply_of_asksFile rfl present, (perform_eq _ _).1,
        (perform_eq _ _).1]
      exact (OpenFile.chunkInfo_of_not_opens plain later.session r.session).1

end Reading

/-! ### A finished file -/

/-- A chunk of a column with a key of its own has to be opened. -/
theorem OpenFile.Reflects.opensChunk {schema : Schema} {properties : WriterProperties}
    {e : FileEncryption} {groups : List (List ColumnValues)} {m : FileMetaData} {d : FileDecryption}
    {f : OpenFile} {i j : Nat} {columns : List ColumnValues} {values : ColumnValues}
    {column : Column} {c : ColumnEncryption} {key : Key}
    (reflects : Reflects schema properties (some e) groups m (some d) f)
    (hi : groups[i]? = some columns) (hj : columns[j]? = some values)
    (hcolumn : schema.columns[j]? = some column)
    (found : e.properties.columns.get? column.path = some c) (hkey : c.key = some key) :
    f.info.OpensChunk i j := by
  obtain ⟨_, chunk, _, _, located, _, _, entry, _⟩ := reflects.located hi hj
  have same := located.column
  rw [reflects.describes.schema, hcolumn] at same
  cases same
  obtain ⟨g, hg, hc⟩ := located.chunk
  have crypto : chunk.crypto = some (.columnKey ⟨column.path.parts, c.keyMetadata⟩) :=
    entry.crypto.trans (EncryptionProperties.columnCrypto_of_ownKey found hkey)
  refine ⟨g, chunk, hg, hc, ?_, entry.ownKey _ crypto, ?_⟩
  · rw [crypto, Option.isSome_some]
  · rw [reflects.describes.decryption, Option.isSome_some]

/-- A reader that finds all keys. -/
def Sample.knowing : ReaderProperties :=
  readerProperties fun _ => .ok ownKey.bytes

theorem Reading.nothing_opened_after_close_sample : ∃ m w file info r later,
    FileWriter.Finished Sample.schema (Sample.properties (some Sample.encryption))
        [Sample.columns] m w ∧
      FileWriter.release w = (.ok file, w) ∧
      serve Sample.knowing ⟨.memory, file⟩ {} [.openSource, .readColumn 0 0] =
        ([.ok (.opened info (some .gcmCtr)), .ok (.values ⟨.int32, [7, 8, 7]⟩)], r) ∧
      ((r.reply Sample.knowing ⟨.memory, file⟩ .close).2.serve Sample.knowing ⟨.memory, file⟩
        [.offsetIndex 0 0, .close]).2 = later ∧
      RefusedWith (.readerClosed 0)
        (later.reply Sample.knowing ⟨.memory, file⟩ (.readColumn 0 0)).1 ∧
      RefusedWith .keysReleased
        (later.reply Sample.knowing ⟨.memory, file⟩ (.chunkInfo 0 0)).1 := by
  obtain ⟨m, w, finished⟩ := Sample.finished
  have opens : (Sample.reader fun _ => .ok Sample.ownKey.bytes).OpensFooter Sample.encryption :=
    ⟨.brought rfl, Sample.knowsPrefix _, Sample.built.metadataNonempty⟩
  have decrypting : Sample.knowing.decryption =
      some (Sample.reader fun _ => .ok Sample.ownKey.bytes) := rfl
  obtain ⟨e, file, f, s, same, released, opening, openFile, kept⟩ :=
    OpenFile.openSource_of_finished finished rfl decrypting opens
  have finds : (Sample.reader fun _ => .ok Sample.ownKey.bytes).FindsColumn e.properties
      Sample.own.path := by
    rw [same]
    exact Sample.findsColumn _
  have algorithm : f.info.algorithm = some .gcmCtr := by
    rw [FileInfo.algorithm, openFile.describes.decryption]
    exact congrArg (fun p => some p.algorithm) same
  have served : ∃ r, serve Sample.knowing ⟨.memory, file⟩ {} [.openSource, .readColumn 0 0] =
      ([.ok (.opened f.info.bare (some .gcmCtr)), .ok (.values ⟨.int32, [7, 8, 7]⟩)], r) ∧
        r.file = some f := by
    rw [serve]
    dsimp only
    rw [reply_openSource opening, serve]
    dsimp only
    rw [Sample.reply_readColumn openFile kept finds, serve, algorithm]
    refine ⟨_, rfl, ?_⟩
    rw [reply_of_asksFile rfl rfl, (perform_eq _ _).2.2]
    rfl
  obtain ⟨r, served, present⟩ := served
  have stay : ∀ request ∈ [ReadRequest.offsetIndex 0 0, .close], request ≠ .openSource := by decide
  obtain ⟨_, _, refused, closed⟩ :=
    nothing_opened_after_close (congrArg Prod.snd served) present stay rfl
  have group : [Sample.columns][0]? = some Sample.columns := rfl
  have values : Sample.columns[0]? = some ⟨.int32, [7, 8, 7]⟩ := rfl
  have column : Sample.schema.columns[0]? = some ⟨Sample.own.path, .int32⟩ := rfl
  have own : e.properties.columns.get? Sample.own.path = some Sample.own := by
    rw [same]
    rfl
  exact ⟨m, w, file, f.info.bare, r, _, finished, released, served, rfl, refused _ 0 rfl,
    (closed 0 0).1 (openFile.opensChunk group values column own rfl)⟩

end SealedColumns
