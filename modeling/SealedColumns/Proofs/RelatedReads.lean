import SealedColumns.Proofs.Sessions
import SealedColumns.Proofs.SideBySide
import SealedColumns.Reader.OpenFile

/-!
# Reading a file in two sessions

An open file is read in two sessions, or two open files are read that differ in the retriever of
keys only. Apart from keys, reading depends on little of a session: whether it is closed, and
engines, which are the same from a pool or anew. So if the sessions agree on the keys that the
chunks of the file name, they agree on everything that is read.

The relation of the sessions is left open. It may be equality together with something that is
preserved, or that both sessions remember nothing but the right footer key.
-/

namespace SealedColumns

/-! ### Another retriever -/

/-- The same properties with another retriever, or none. -/
def DecryptionProperties.withRetriever (p : DecryptionProperties)
    (retriever : Option KeyRetriever) : DecryptionProperties :=
  { p with keyRetriever := retriever }

/-- The same decryption with another retriever, or none. -/
def FileDecryption.withRetriever (d : FileDecryption) (retriever : Option KeyRetriever) :
    FileDecryption :=
  { d with properties := d.properties.withRetriever retriever }

/-- The same file with another retriever, or none. -/
def FileInfo.withRetriever (f : FileInfo) (retriever : Option KeyRetriever) : FileInfo :=
  { f with decryption := f.decryption.map (·.withRetriever retriever) }

/-- The same open file with another retriever, or none. -/
def OpenFile.withRetriever (f : OpenFile) (retriever : Option KeyRetriever) : OpenFile :=
  { f with info := f.info.withRetriever retriever }

/-- The retriever that a file was opened with. -/
def FileInfo.keyRetriever (f : FileInfo) : Option KeyRetriever :=
  f.decryption.bind (·.properties.keyRetriever)

@[simp] theorem FileInfo.withRetriever_keyRetriever (f : FileInfo) :
    f.withRetriever f.keyRetriever = f := by
  rcases f with ⟨_, _, _, _, _, _ | d⟩ <;> rfl

theorem FileInfo.withRetriever_of_mem (f : FileInfo) {d : FileDecryption} (hd : d ∈ f.decryption) :
    d.withRetriever f.keyRetriever = d := by
  rw [keyRetriever, hd]
  rfl

@[simp] theorem OpenFile.withRetriever_keyRetriever (f : OpenFile) :
    f.withRetriever f.info.keyRetriever = f := by
  simp [withRetriever]

/-! ### Sessions that go together -/

namespace ReadState

/-- What holds of a session whatever is read, whatever prefix is verified and whatever engines are
made. -/
structure Lasts (I : ReadState → Prop) : Prop where
  read : ∀ start length, Preserves I (Session.note (.read start length))
  verification : ∀ aadPrefix, Preserves I (Session.note (.verification aadPrefix))
  engines : ∀ s, I s → ∀ engines, I { s with engines }

/-- Related sessions are closed together, and reading, verifying and making engines in both of them
keeps them related. -/
structure Companions (P : ReadState → ReadState → Prop) : Prop where
  closed : ∀ {s t}, P s t → s.closed = t.closed
  read : ∀ start length,
    SideBySide P Eq (Session.note (.read start length)) (Session.note (.read start length))
  verification : ∀ aadPrefix,
    SideBySide P Eq (Session.note (.verification aadPrefix))
      (Session.note (.verification aadPrefix))
  engine : ∀ kind, SideBySide P Eq (Session.engine kind) (Session.engine kind)

/-- What a session remembers of the footer key lasts. -/
theorem Keeps.lasts {expected : Option Key} : Lasts (Keeps expected) where
  read _ _ := .of_yields (Session.note_keeps _)
  verification _ := .of_yields (Session.note_keeps _)
  engines _ kept := kept.withEngines

variable {I : ReadState → Prop}

/-- Two copies of one session go together. -/
theorem Lasts.copies (lasts : Lasts I) : Companions fun s t => s = t ∧ I s where
  closed := by
    rintro s _ ⟨rfl, _⟩
    rfl
  read start length := (lasts.read start length).sideBySide
  verification aadPrefix := (lasts.verification aadPrefix).sideBySide
  engine kind := (Preserves.of_yields (Session.engine_yields lasts.engines kind)).sideBySide

/-- Any two open sessions with a property that lasts go together. -/
theorem Lasts.pairs (lasts : Lasts I) (opened : ∀ s, I s → s.closed = false) :
    Companions fun s t => I s ∧ I t where
  closed := by
    rintro s t ⟨hs, ht⟩
    rw [opened s hs, opened t ht]
  read start length := by
    have noted : Yields I (Session.note (.read start length)) (· = .ok ⟨⟩) :=
      fun s hs => ⟨rfl, (lasts.read start length s hs).2⟩
    exact noted.sideBySide
  verification aadPrefix := by
    have noted : Yields I (Session.note (.verification aadPrefix)) (· = .ok ⟨⟩) :=
      fun s hs => ⟨rfl, (lasts.verification aadPrefix s hs).2⟩
    exact noted.sideBySide
  engine kind := (Session.engine_yields lasts.engines kind).sideBySide

end ReadState

open ReadState (Companions Lasts)

variable {P : ReadState → ReadState → Prop} {retriever : Option KeyRetriever}

theorem Session.read_beside (companions : Companions P) (source : ByteSource) (start length : Nat) :
    SideBySide P Eq (read source start length) (read source start length) :=
  (companions.read start length).seq_eq fun _ => .lift _

namespace FileDecryption

variable {d : FileDecryption}

/-- From the key on the retriever is not asked. -/
theorem columnOpener_beside (companions : Companions P) {path : ColumnPath} {crypto : ColumnCrypto}
    (key : SideBySide P Eq (d.columnKey path crypto)
      ((d.withRetriever retriever).columnKey path crypto)) (moduleClass : ModuleClass) :
    SideBySide P Eq (d.columnOpener path crypto moduleClass)
      ((d.withRetriever retriever).columnOpener path crypto moduleClass) :=
  key.seq_eq fun _ => (companions.engine _).seq_eq fun _ => .pure rfl

theorem footerOpener_beside (companions : Companions P)
    (key : SideBySide P Eq d.footerKey (d.withRetriever retriever).footerKey) :
    SideBySide P Eq d.footerOpener (d.withRetriever retriever).footerOpener :=
  key.seq_eq fun _ => (companions.engine _).seq_eq fun _ => .pure rfl

end FileDecryption

/-! ### Reading -/

theorem Schema.column_eq_ok {schema : Schema} {j : Nat} {column : Column}
    (h : schema.column j = .ok column) : schema.columns[j]? = some column := by
  rw [Schema.column] at h
  split at h
  · next found =>
      cases h
      exact found
  · cases h

/-- What is known of a chunk keeps the column and the description of the key. -/
theorem ChunkInfo.ofMetaData_eq_ok {column : Column} {c : ColumnChunk} {m : ColumnMetaData}
    {chunk : ChunkInfo} (h : ofMetaData column c m = .ok chunk) :
    chunk.column = column ∧ chunk.crypto = c.crypto := by
  rw [ofMetaData] at h
  split at h
  · cases h
  · cases h
    exact ⟨rfl, rfl⟩

namespace FileInfo

variable {f : FileInfo} {i j : Nat} {column : Column} {c : ColumnChunk}

/-- The position of a chunk in an open file, and its entry. -/
structure Locates (f : FileInfo) (i j : Nat) (column : Column) (c : ColumnChunk) : Prop where
  column : f.schema.columns[j]? = some column
  chunk : ∃ g, f.rowGroups[i]? = some g ∧ g.columns[j]? = some c

/-- A chunk of the file says that it is sealed under the key that `crypto` describes. -/
def Names (f : FileInfo) (path : ColumnPath) (crypto : ColumnCrypto) : Prop :=
  ∃ i j column c, f.Locates i j column c ∧ column.path = path ∧ c.crypto = some crypto

/-- The keys that the chunks of the file name are the same with the other retriever. -/
def KeysBeside (P : ReadState → ReadState → Prop) (retriever : Option KeyRetriever) (f : FileInfo) :
    Prop :=
  ∀ d ∈ f.decryption, ∀ path crypto, f.Names path crypto →
    SideBySide P Eq (d.columnKey path crypto) ((d.withRetriever retriever).columnKey path crypto)

/-- What is known of a chunk names the key that the chunk names. -/
def Shows (f : FileInfo) (chunk : ChunkInfo) : Prop :=
  ∀ crypto ∈ chunk.crypto, f.Names chunk.column.path crypto

/-- The metadata of the chunk is sealed, and there is what it takes to open it
but possibly the key. -/
def OpensMetaData (f : FileInfo) (c : ColumnChunk) : Prop :=
  c.crypto.isSome ∧ c.encryptedMetaData.isSome ∧ f.decryption.isSome

/-- The metadata of a chunk that is not opened is what is stored in plain form. -/
def plainMetaData (f : FileInfo) (path : ColumnPath) (c : ColumnChunk) :
    Except Error ColumnMetaData :=
  match c.metaData with
  | some m => .ok m
  | none =>
    if c.encryptedMetaData.isSome && f.decryption.isNone then .error (.columnMetadataEncrypted path)
    else .error (.columnMetadataMissing path)

/-- Without opening, the metadata of a chunk does not depend on the session. -/
theorem columnMetaData_of_not_opens (closed : ¬ f.OpensMetaData c) (i j : Nat) (path : ColumnPath) :
    f.columnMetaData i j path c = liftM (f.plainMetaData path c) := by
  rw [columnMetaData, plainMetaData]
  split
  · next hcrypto hmodule hd =>
      refine absurd ⟨?_, ?_, ?_⟩ closed
      · rw [hcrypto, Option.isSome_some]
      · rw [hmodule, Option.isSome_some]
      · rw [hd, Option.isSome_some]
  · cases c.metaData with
    | some m => rfl
    | none =>
        by_cases unreadable : (c.encryptedMetaData.isSome && f.decryption.isNone) = true
        · simp only [unreadable]
          rfl
        · simp only [unreadable]
          rfl

theorem columnMetaData_beside (companions : Companions P) (keys : f.KeysBeside P retriever)
    (located : f.Locates i j column c) :
    SideBySide P Eq (f.columnMetaData i j column.path c)
      ((f.withRetriever retriever).columnMetaData i j column.path c) := by
  by_cases opens : f.OpensMetaData c
  · obtain ⟨named, sealedForm, decrypting⟩ := opens
    obtain ⟨crypto, hcrypto⟩ := Option.isSome_iff_exists.mp named
    obtain ⟨module, hmodule⟩ := Option.isSome_iff_exists.mp sealedForm
    obtain ⟨d, hd⟩ := Option.isSome_iff_exists.mp decrypting
    have other : (f.withRetriever retriever).decryption = some (d.withRetriever retriever) := by
      rw [withRetriever, hd, Option.map_some]
    have key := keys d hd column.path crypto ⟨i, j, column, c, located, rfl, hcrypto⟩
    rw [columnMetaData, columnMetaData, hcrypto, hmodule, hd, other]
    refine (FileDecryption.columnOpener_beside companions key _).seq_eq fun opener => ?_
    refine (SideBySide.lift _).seq_eq fun aad => ?_
    refine (SideBySide.lift _).seq_eq fun plain => ?_
    exact (SideBySide.lift _).seq_eq fun decoded => .pure rfl
  · have opens' : ¬ (f.withRetriever retriever).OpensMetaData c := by
      intro opens'
      rw [OpensMetaData, withRetriever, Option.isSome_map] at opens'
      exact opens opens'
    have same : (f.withRetriever retriever).plainMetaData column.path c =
        f.plainMetaData column.path c := by
      rw [plainMetaData, plainMetaData, withRetriever, Option.isNone_map]
    rw [columnMetaData_of_not_opens opens, columnMetaData_of_not_opens opens', same]
    exact .lift _

/-- The metadata of a chunk is the same, and it names the key that the chunk names. -/
theorem columnChunk_beside (companions : Companions P) (keys : f.KeysBeside P retriever)
    (i j : Nat) :
    SideBySide P (fun chunk chunk' => chunk = chunk' ∧ f.Shows chunk) (f.columnChunk i j)
      ((f.withRetriever retriever).columnChunk i j) := by
  rw [columnChunk, columnChunk, withRetriever]
  dsimp only
  cases hg : f.rowGroups[i]? with
  | none => exact .throw _
  | some g =>
      dsimp only
      cases hc : g.columns[j]? with
      | none => exact .throw _
      | some c =>
          refine .lift_bind fun column hcolumn => ?_
          have located : f.Locates i j column c := ⟨Schema.column_eq_ok hcolumn, g, hg, hc⟩
          refine (columnMetaData_beside companions keys located).seq_eq fun m => .guard ?_
          refine SideBySide.lift_known fun chunk known => ⟨rfl, fun crypto hcrypto => ?_⟩
          obtain ⟨sameColumn, sameCrypto⟩ := ChunkInfo.ofMetaData_eq_ok known
          rw [sameColumn]
          exact ⟨i, j, column, c, located, rfl, sameCrypto.symm.trans hcrypto⟩

end FileInfo

namespace OpenFile

/-- An operation on a row group, which has to be there. -/
def inRowGroup {α : Type} (f : OpenFile) (i : Nat) (op : Session α) : Session α := do
  let _ ← f.rowGroup i
  op

variable {f : OpenFile}

theorem rowGroup_beside (companions : Companions P) (i : Nat) :
    SideBySide P Eq (f.rowGroup i) ((f.withRetriever retriever).rowGroup i) := by
  rw [rowGroup, rowGroup, withRetriever, FileInfo.withRetriever]
  refine .get_bind ?_
  intro s t related
  rw [companions.closed related]
  split
  · exact ⟨.error _, related⟩
  · dsimp only [FileInfo.numRowGroups]
    cases f.info.rowGroups[i]? with
    | none => exact ⟨.error _, related⟩
    | some g => exact ⟨.ok rfl, related⟩

/-- What opens the modules of a chunk is the same if the chunk is one of the file. -/
theorem columnOpener_beside (companions : Companions P) (keys : f.info.KeysBeside P retriever)
    (i j : Nat) {chunk : ChunkInfo} (shows : f.info.Shows chunk) :
    SideBySide P Eq (f.columnOpener i j chunk)
      ((f.withRetriever retriever).columnOpener i j chunk) := by
  rw [columnOpener, columnOpener, withRetriever, FileInfo.withRetriever]
  cases hcrypto : chunk.crypto with
  | none => exact .pure rfl
  | some crypto =>
      cases hd : f.info.decryption with
      | none => exact .throw _
      | some d =>
          have key := keys d hd _ _ (shows crypto hcrypto)
          refine (FileDecryption.columnOpener_beside companions key _).seq_eq fun metadata => ?_
          exact (FileDecryption.columnOpener_beside companions key _).seq_eq fun data => .pure rfl

theorem columnPages_beside (companions : Companions P) (keys : f.info.KeysBeside P retriever)
    (i j : Nat) :
    SideBySide P Eq (f.columnPages i j) ((f.withRetriever retriever).columnPages i j) := by
  refine (FileInfo.columnChunk_beside companions keys i j).seq ?_
  rintro chunk _ ⟨rfl, shows⟩
  refine (SideBySide.lift _).seq_eq fun range => ?_
  refine (SideBySide.lift _).seq_eq fun length => ?_
  refine (columnOpener_beside companions keys i j shows).seq_eq fun opener => ?_
  exact (Session.read_beside companions _ _ _).seq_eq fun bs => .pure rfl

theorem columnReader_beside (companions : Companions P) (keys : f.info.KeysBeside P retriever)
    (i j : Nat) :
    SideBySide P Eq (f.columnReader i j) ((f.withRetriever retriever).columnReader i j) :=
  (SideBySide.lift _).seq_eq fun _ => (columnPages_beside companions keys i j).seq_eq fun _ =>
    .pure rfl

theorem readColumn_beside (companions : Companions P) (keys : f.info.KeysBeside P retriever)
    (i j : Nat) :
    SideBySide P Eq (f.readColumn i j) ((f.withRetriever retriever).readColumn i j) :=
  (columnReader_beside companions keys i j).seq_eq fun _ => .lift _

theorem offsetIndex_beside (companions : Companions P) (keys : f.info.KeysBeside P retriever)
    (i j : Nat) :
    SideBySide P Eq (f.offsetIndex i j) ((f.withRetriever retriever).offsetIndex i j) := by
  refine (FileInfo.columnChunk_beside companions keys i j).seq ?_
  rintro chunk _ ⟨rfl, shows⟩
  cases chunk.offsetIndexOffset with
  | none => exact .pure rfl
  | some offset =>
      cases chunk.offsetIndexLength with
      | none => exact .pure rfl
      | some length =>
          refine (SideBySide.lift _).seq_eq fun start => (SideBySide.lift _).seq_eq fun size => ?_
          refine (Session.read_beside companions _ _ _).seq_eq fun bs => ?_
          refine (columnOpener_beside companions keys i j shows).seq_eq fun opener => ?_
          cases opener with
          | none =>
              refine (SideBySide.pure (V := Eq) rfl).seq_eq fun plain => ?_
              exact (SideBySide.lift _).seq_eq fun _ => .pure rfl
          | some o =>
              refine (SideBySide.lift _).seq_eq fun plain => ?_
              exact (SideBySide.lift _).seq_eq fun _ => .pure rfl

/-! ### One file -/

/-- An access to an open file runs side by side with itself under another
retriever if the keys do. -/
structure Reads {α : Type} (V : α → α → Prop) (access : OpenFile → Session α) (f : OpenFile) :
    Prop where
  beside : ∀ {P retriever}, Companions P → f.info.KeysBeside P retriever →
    SideBySide P V (access f) (access (f.withRetriever retriever))

variable {α : Type} {V : α → α → Prop} {access : OpenFile → Session α} {I : ReadState → Prop}

theorem rowGroup_reads (f : OpenFile) (i : Nat) : f.Reads Eq (·.rowGroup i) where
  beside companions _ := rowGroup_beside companions i

theorem columnChunk_reads (f : OpenFile) (i j : Nat) :
    f.Reads (fun chunk chunk' => chunk = chunk' ∧ f.info.Shows chunk) (·.info.columnChunk i j) where
  beside companions keys := FileInfo.columnChunk_beside companions keys i j

theorem columnPages_reads (f : OpenFile) (i j : Nat) : f.Reads Eq (·.columnPages i j) where
  beside companions keys := columnPages_beside companions keys i j

theorem columnReader_reads (f : OpenFile) (i j : Nat) : f.Reads Eq (·.columnReader i j) where
  beside companions keys := columnReader_beside companions keys i j

theorem readColumn_reads (f : OpenFile) (i j : Nat) : f.Reads Eq (·.readColumn i j) where
  beside companions keys := readColumn_beside companions keys i j

theorem offsetIndex_reads (f : OpenFile) (i j : Nat) : f.Reads Eq (·.offsetIndex i j) where
  beside companions keys := offsetIndex_beside companions keys i j

/-- An access that the row group grants. -/
theorem Reads.inRowGroup (reads : f.Reads V access) (i : Nat) :
    f.Reads V fun f => f.inRowGroup i (access f) where
  beside companions keys :=
    (rowGroup_beside companions i).seq_eq fun _ => reads.beside companions keys

/-- What lasts and is preserved when keys are looked for is preserved by an access. -/
theorem Reads.preserves (reads : f.Reads V access) (lasts : Lasts I)
    (keys : ∀ d ∈ f.info.decryption, ∀ path crypto, Preserves I (d.columnKey path crypto)) :
    Preserves I (access f) := by
  have beside : f.info.KeysBeside (fun s t => s = t ∧ I s) f.info.keyRetriever := by
    intro d hd path crypto _
    rw [f.info.withRetriever_of_mem hd]
    exact (keys d hd path crypto).sideBySide
  have both := reads.beside lasts.copies beside
  rw [withRetriever_keyRetriever] at both
  exact both.preserves

/-- If what lasts determines the keys, it determines what is read. -/
theorem Reads.pairs (reads : f.Reads V access) (lasts : Lasts I)
    (opened : ∀ s, I s → s.closed = false)
    (keys : ∀ d ∈ f.info.decryption, ∀ path crypto, ∃ key,
      Yields I (d.columnKey path crypto) (· = key)) :
    SideBySide (fun s t => I s ∧ I t) V (access f) (access f) := by
  have beside : f.info.KeysBeside (fun s t => I s ∧ I t) f.info.keyRetriever := by
    intro d hd path crypto _
    rw [f.info.withRetriever_of_mem hd]
    obtain ⟨key, found⟩ := keys d hd path crypto
    exact found.sideBySide
  have both := reads.beside (lasts.pairs opened) beside
  rwa [withRetriever_keyRetriever] at both

end OpenFile

end SealedColumns
