import SealedColumns.Proofs.RoundTrip

/-!
# Encrypted files that are read without keys

A file whose footer is signed and not sealed can be opened by anyone. A reader without keys reads
the columns that are not encrypted as they were written. Of an encrypted column it learns where the
chunk is and what its metadata say, because they stand in the footer a second time in plain form;
this copy says the same as the sealed one, which a reader with the keys opens instead. The pages and
the offset index of such a column remain closed, for lack of keys and for no other reason.
-/

namespace SealedColumns

/-- The result is an error of the given kind. -/
def FailsWith {α : Type} (kind : ErrorKind) (x : Except Error α) : Prop :=
  ∃ e, x = .error e ∧ e.kind = kind

/-! ### What stands in the footer for everyone -/

/-- The chunk of a column in a file with all that its entry says: where the pages are, the metadata
in the forms that are due, and where the offset index is. -/
structure EnteredColumn (encryption : Option FileEncryption) (file : Bytes) (i j : Nat)
    (path : ColumnPath) (values : ColumnValues) (c : ColumnChunk) : Prop where
  stored : StoredColumn encryption file i j path values c
  forms : EntryForms encryption path c
  index : ∃ before own after, file = before ++ (own ++ after) ∧
    c.offsetIndexOffset.map Int64.toInt = some (before.length : Int) ∧
    c.offsetIndexLength.map Int32.toInt = some (own.length : Int)

section

variable {schema : Schema} {properties : WriterProperties} {encryption : Option FileEncryption}
variable {groups : List (List ColumnValues)} {m : FileMetaData} {file : Bytes} {i j : Nat}
variable {columns : List ColumnValues} {column : Column} {values : ColumnValues}
variable {g : RowGroup} {c : ColumnChunk}

/-- The entry of a chunk was made when the chunk was written, and the place of its offset index when
the index was written. -/
theorem PlacedGroups.entered {stored : List (RowGroup × List Bytes)} {entries : List RowGroup}
    {chunks indexes : Bytes}
    (h : PlacedGroups schema properties encryption groups stored entries chunks indexes)
    (hi : groups[i]? = some columns) (hj : (schema.columns.zip columns)[j]? = some (column, values))
    (hg : entries[i]? = some g) (hc : g.columns[j]? = some c) :
    EntryForms encryption column.path c ∧
      ∃ before own after, indexes = before ++ (own ++ after) ∧
        c.offsetIndexOffset.map Int64.toInt =
          some ((4 + chunks.length + before.length : Nat) : Int) ∧
        c.offsetIndexLength.map Int32.toInt = some (own.length : Int) := by
  obtain ⟨g', c', chunk, hg', hc', same, ⟨_, _, _, _, chunkAt⟩, before, own, after, whole,
    indexAt⟩ := h.exists_chunk hi hj
  cases Option.some.inj (hg'.symm.trans hg)
  cases Option.some.inj (hc'.symm.trans hc)
  refine ⟨?_, before, own, after, whole, indexAt.offset, indexAt.length⟩
  rw [same]
  exact ⟨chunkAt.forms.plain, chunkAt.forms.inSealedForm⟩

/-- A column that was written is entered in the footer. -/
theorem PlacedFile.enteredColumn (h : PlacedFile schema properties encryption groups m file)
    (hi : groups[i]? = some columns) (hj : columns[j]? = some values)
    (hcolumn : schema.columns[j]? = some column) :
    values.type = column.type ∧ ∃ g c, m.rowGroups[i]? = some g ∧ g.columns[j]? = some c ∧
      EnteredColumn encryption file i j column.path
        (values.stored (properties.usesDictionary column.path)) c := by
  have among : (schema.columns.zip columns)[j]? = some (column, values) :=
    List.getElem?_zip_eq_some.mpr ⟨hcolumn, hj⟩
  obtain ⟨_, g, hg, group⟩ := h.storedFile.stored i columns hi
  obtain ⟨type, c, hc, stored⟩ := group.chunk j column values among
  obtain ⟨kept, chunks, indexes, footer, rfl, placed, _⟩ := h.layout
  obtain ⟨forms, before, own, after, rfl, offset, length⟩ := placed.entered hi among hg hc
  refine ⟨type, g, c, hg, hc, stored, forms,
    (FileWriter.footerMode encryption).magic ++ (chunks ++ before), own,
    after ++ (footer ++ Trailer.encode ⟨footer.length, FileWriter.footerMode encryption⟩), ?_, ?_,
    length⟩
  · simp only [List.append_assoc]
  · rw [offset, List.length_append, List.length_append, FooterMode.length_magic, Nat.add_assoc]

end

/-! ### Opening -/

namespace Opening

variable {schema : Schema} {properties : WriterProperties} {e : FileEncryption}
variable {groups : List (List ColumnValues)} {m : FileMetaData} {file : Bytes}
variable {readerProperties : ReaderProperties}

/-- Without keys nobody looks at the signature of a footer. -/
theorem plaintextSection_without_keys {P : ReadState → Prop} {description : EncryptionAlgorithm}
    (described : m.encryptionAlgorithm = some description) (signature : Bytes)
    (short : (Wire.encode m).length < UInt32.size) :
    Yields P (plaintextSection none (Wire.encode m ++ signature)) (· = fileInfo m none) := by
  have decoded := decodePart_encode (fits_of_short short) signature
  rw [plaintextSection]
  refine .seq_ok (.lift decoded) ?_
  dsimp only
  rw [described]
  exact .lift rfl

theorem readFooter_without_keys
    (stored : StoredFile schema properties (some e) groups m file)
    (inPlainForm : e.properties.encryptedFooter = false)
    (keyless : readerProperties.decryption = none) :
    Yields (ReadState.Keeps none) (readFooter readerProperties ⟨.memory, file⟩)
      (· = fileInfo m none) := by
  obtain ⟨front, bytes, rfl, short, form⟩ := stored.layout
  have described := stored.encryptionAlgorithm
  rw [signing, Option.filter_some, inPlainForm] at described
  refine readFooter_yields (fun _ _ _ => Session.read_yields _ _ _) short ?_
  rw [FileWriter.footerMode, Option.any_some, inPlainForm, keyless]
  cases form with
  | @signed _ signature _ _ =>
      rw [List.length_append] at short
      exact plaintextSection_without_keys described signature (by omega)
  | inSealedForm encrypted _ =>
      rw [inPlainForm] at encrypted
      cases encrypted

end Opening

/-! ### Columns -/

/-- A column that is not encrypted is stored as in a file without encryption. -/
theorem StoredColumn.unencrypted {encryption : Option FileEncryption} {file : Bytes} {i j : Nat}
    {path : ColumnPath} {values : ColumnValues} {c : ColumnChunk}
    (h : StoredColumn encryption file i j path values c)
    (unencrypted : chunkCrypto encryption path = none) :
    StoredColumn none file i j path values c := by
  obtain ⟨m, entry, stored⟩ := h
  rw [chunkSealing_eq_none_iff.mpr unencrypted] at stored
  have crypto : c.crypto = none := entry.crypto.trans unencrypted
  refine ⟨m, ⟨crypto, entry.shown, entry.plain, ?_, entry.ownKey⟩, stored⟩
  intro module hmodule
  have named := (entry.sealedForm module hmodule).1
  rw [crypto] at named
  cases named

/-- Metadata that appears in plain form is the metadata of the chunk. -/
theorem ChunkEntry.metaData_eq {encryption : Option FileEncryption} {i j : Nat} {path : ColumnPath}
    {m : ColumnMetaData} {c : ColumnChunk} (entry : ChunkEntry encryption i j path m c)
    (plain : c.metaData ≠ none) : c.metaData = some m := by
  obtain ⟨other, hother⟩ := Option.ne_none_iff_exists'.mp plain
  rw [hother, entry.shown other hother]

/-- Beside a footer in plain form the metadata of an encrypted column has both forms. -/
theorem EntryForms.both {e : FileEncryption} {path : ColumnPath} {c : ColumnChunk}
    (forms : EntryForms (some e) path c) (inPlainForm : e.properties.encryptedFooter = false)
    (encrypted : chunkCrypto (some e) path ≠ none) :
    c.metaData ≠ none ∧ c.encryptedMetaData ≠ none := by
  have footer : ¬ ((some e).any fun e => e.properties.encryptedFooter) = true := by
    rw [Option.any_some, inPlainForm]
    exact Bool.false_ne_true
  constructor
  · intro hidden
    exact footer (forms.plain.mp hidden).1
  · exact forms.inSealedForm.mpr ⟨encrypted, fun sealedFooter => absurd sealedFooter footer⟩

namespace OpenFile

variable {f : OpenFile} {encryption : Option FileEncryption} {i j : Nat} {column : Column}
variable {c : ColumnChunk} {m : ColumnMetaData} {file : Bytes} {values : ColumnValues}
variable {expected : Option Key}

/-- What a reader without keys sees of a chunk is what stands in the footer in plain form. -/
theorem columnChunk_without_keys {sealing : Option ChunkSealing}
    (keyless : f.info.decryption = none) (located : f.info.Locates i j column c)
    (type : values.type = column.type) (stored : StoredChunk sealing file values m)
    (plain : c.metaData = some m) :
    Yields (ReadState.Keeps expected) (f.info.columnChunk i j)
      (· = .ok (FileInfo.shown column c m)) := by
  refine FileInfo.columnChunk_of_metaData located type stored ?_
  rw [FileInfo.columnMetaData, keyless, plain]
  cases c.crypto with
  | none => exact .pure rfl
  | some crypto => cases c.encryptedMetaData <;> exact .pure rfl

theorem columnOpener_without_keys (keyless : f.info.decryption = none) {chunk : ChunkInfo}
    (encrypted : chunk.crypto ≠ none) :
    Yields (ReadState.Keeps expected) (f.columnOpener i j chunk)
      (· = .error (.columnEncrypted chunk.column.path)) := by
  obtain ⟨crypto, named⟩ := Option.ne_none_iff_exists'.mp encrypted
  rw [columnOpener, named, keyless]
  exact .throw rfl

/-- Without keys the pages of an encrypted column are not even read. -/
theorem readColumn_without_keys {sealing : Option ChunkSealing}
    (source : f.source = ⟨.memory, file⟩) (keyless : f.info.decryption = none)
    (located : f.info.Locates i j column c) (type : values.type = column.type)
    (stored : StoredChunk sealing file values m) (plain : c.metaData = some m)
    (encrypted : c.crypto ≠ none) :
    Yields (ReadState.Keeps expected) (f.readColumn i j)
      (· = .error (.columnEncrypted column.path)) := by
  have known : Yields (ReadState.Keeps expected) _ _ :=
    columnChunk_without_keys keyless located type stored plain
  have found : f.info.schema.column j = .ok column := by
    rw [Schema.column, located.column]
  cases stored with
  | @intro before bytes after dictionary data rows file_eq holds pages metaType numValues size start
      dataPage dictionaryPage =>
      have start_lt := (m.dictionaryPageOffset.getD m.dataPageOffset).toInt_lt
      have size_lt := m.totalCompressedSize.toInt_lt
      have range : (FileInfo.shown column c m).byteRange = .ok (before.length, bytes.length) :=
        FileInfo.byteRange_of_stored start size
      subst file_eq
      obtain ⟨length, _, padded, _⟩ := get_padded source (by omega) (by omega)
      have refused : Yields (ReadState.Keeps expected) (f.columnPages i j)
          (· = .error (.columnEncrypted column.path)) :=
        .seq_ok known (.seq_ok (.lift range) (.seq_ok (.lift padded)
          (Yields.seq_error (columnOpener_without_keys keyless encrypted) _)))
      exact Yields.seq_error (.seq_ok (.lift found) (Yields.seq_error refused _)) _

/-- The offset index of an encrypted column is read, and then there is no key to open it with. -/
theorem offsetIndex_without_keys {sealing : Option ChunkSealing}
    (source : f.source = ⟨.memory, file⟩) (keyless : f.info.decryption = none)
    (located : f.info.Locates i j column c) (type : values.type = column.type)
    (stored : StoredChunk sealing file values m) (plain : c.metaData = some m)
    (encrypted : c.crypto ≠ none)
    (index : ∃ before own after, file = before ++ (own ++ after) ∧
      c.offsetIndexOffset.map Int64.toInt = some (before.length : Int) ∧
      c.offsetIndexLength.map Int32.toInt = some (own.length : Int)) :
    Yields (ReadState.Keeps expected) (f.offsetIndex i j)
      (· = .error (.columnEncrypted column.path)) := by
  obtain ⟨before, own, after, rfl, hoffset, hlength⟩ := index
  obtain ⟨offset, entered, start⟩ := Option.map_eq_some_iff.mp hoffset
  obtain ⟨length, enteredLength, size⟩ := Option.map_eq_some_iff.mp hlength
  have read : Yields (ReadState.Keeps expected) (Session.read f.source before.length own.length)
      (· = .ok own) := by
    rw [source, ← get_memory before own after]
    exact Session.read_yields _ _ _
  refine .seq_ok (columnChunk_without_keys keyless located type stored plain) ?_
  dsimp only [FileInfo.shown]
  rw [entered, enteredLength]
  dsimp only
  rw [start, size, natural_natCast, natural_natCast]
  exact .seq_ok (.lift rfl) (.seq_ok (.lift rfl) (.seq_ok read
    (Yields.seq_error (columnOpener_without_keys keyless encrypted) _)))

/-- An encrypted column beside a footer in plain form: its metadata is there for everyone,
and nothing else of it. -/
theorem encryptedColumn_without_keys {e : FileEncryption} (source : f.source = ⟨.memory, file⟩)
    (keyless : f.info.decryption = none) (located : f.info.Locates i j column c)
    (type : values.type = column.type)
    (entered : EnteredColumn (some e) file i j column.path values c)
    (inPlainForm : e.properties.encryptedFooter = false)
    (encrypted : chunkCrypto (some e) column.path ≠ none) :
    ∃ m, ChunkEntry (some e) i j column.path m c ∧
      StoredChunk (chunkSealing (some e) i j column.path) file values m ∧
      Yields (ReadState.Keeps expected) (f.info.columnChunk i j)
        (· = .ok (FileInfo.shown column c m)) ∧
      Yields (ReadState.Keeps expected) (f.readColumn i j)
        (· = .error (.columnEncrypted column.path)) ∧
      Yields (ReadState.Keeps expected) (f.offsetIndex i j)
        (· = .error (.columnEncrypted column.path)) := by
  obtain ⟨m, entry, stored⟩ := entered.stored
  have named : c.crypto ≠ none := entry.crypto ▸ encrypted
  have plain := entry.metaData_eq (entered.forms.both inPlainForm encrypted).1
  exact ⟨m, entry, stored, columnChunk_without_keys keyless located type stored plain,
    readColumn_without_keys source keyless located type stored plain named,
    offsetIndex_without_keys source keyless located type stored plain named entered.index⟩

end OpenFile

/-! ### Finished files -/

/-- The reader finds all keys of files with the given properties, and knows their prefix. -/
def ReaderProperties.HasAllKeys (properties : ReaderProperties) (p : EncryptionProperties) : Prop :=
  ∃ r, properties.decryption = some r ∧ r.Finds r.footerKey p.footerKeyMetadata p.footerKey ∧
    r.KnowsPrefix p ∧ ∀ path, r.FindsColumn p path

namespace OpenFile

open FileDecryption (Sessions)

variable {schema : Schema} {properties : WriterProperties} {e : FileEncryption}
variable {groups : List (List ColumnValues)} {m : FileMetaData} {file : Bytes}
variable {readerProperties : ReaderProperties}

/-- A file with a footer in plain form is opened without keys. -/
theorem openSource_without_keys
    (wellFormed : Schema.ofColumns schema.name schema.columns = .ok schema)
    (stored : StoredFile schema properties (some e) groups m file)
    (inPlainForm : e.properties.encryptedFooter = false)
    (keyless : readerProperties.decryption = none) :
    ∃ f, Reflects schema properties (some e) groups m none f ∧ f.source = ⟨.memory, file⟩ ∧
      Yields (ReadState.Keeps none) (openSource readerProperties ⟨.memory, file⟩) (· = .ok f) := by
  have footer := Opening.readFooter_without_keys stored inPlainForm keyless
  obtain ⟨info, taken, describes⟩ :=
    Opening.fileInfo_of_stored wellFormed stored (stored.ordinals rfl) none
  rw [taken] at footer
  exact ⟨⟨⟨.memory, file⟩, info⟩, ⟨⟨file, stored, rfl⟩, describes⟩, rfl, openSource_yields footer⟩

/-- A reader with all keys opens the sealed form of the metadata of a chunk. -/
theorem columnChunk_with_keys
    (wellFormed : Schema.ofColumns schema.name schema.columns = .ok schema)
    (stored : StoredFile schema properties (some e) groups m file)
    (metadata : e.properties.MetadataNonempty) (keyed : readerProperties.HasAllKeys e.properties) :
    ∃ g t, openSource readerProperties ⟨.memory, file⟩ {} = (.ok g, t) ∧
      ∀ accesses i j columns column values entries c chunk, groups[i]? = some columns →
        schema.columns[j]? = some column → m.rowGroups[i]? = some entries →
        entries.columns[j]? = some c → ColumnValues.type values = column.type →
        ChunkEntry (some e) i j column.path chunk c →
        StoredChunk (chunkSealing (some e) i j column.path) file values chunk →
        (g.inRowGroup i (g.info.columnChunk i j) (g.afterAccesses accesses t)).1 =
          .ok (FileInfo.shown column c chunk) := by
  obtain ⟨r, decrypting, footerKey, aadPrefix, columnKeys⟩ := keyed
  have equipped : Opening.Equipped readerProperties.decryption (some e) := by
    rintro _ ⟨⟩
    exact ⟨r, decrypting, footerKey, aadPrefix, metadata⟩
  obtain ⟨g, opened, yields⟩ :=
    openSource_of_stored wellFormed stored equipped (stored.ordinals rfl)
  obtain ⟨result, kept⟩ := yields {} (.start _)
  rw [decrypting] at opened
  refine ⟨g, _, Prod.ext result rfl, ?_⟩
  intro accesses i j columns column values entries c chunk hi hcolumn hentries hc type entry placed
  have finds := opened.findsColumn rfl rfl (columnKeys column.path)
  have located := opened.describes.locates hcolumn hentries hc
  have known := FileInfo.columnChunk_yields opened.decrypts finds located type entry placed
  have session := afterAccesses_keeps opened.decrypts accesses kept
  exact (opened.inRowGroup_yields hi known _ session).1

variable {p : EncryptionProperties} {w : FileWriter}

/-- An encrypted file with a footer in plain form, in the hands of a reader without keys. The reader
opens it and reads every column that is not encrypted as it was written. Of an encrypted column,
whose metadata stand in the footer in both forms, it is shown the same as every reader with all
keys, and it fails to read the column and its offset index for lack of keys. -/
theorem plaintextFooter_without_keys (finished : FileWriter.Finished schema properties groups m w)
    (short : ColumnValues.AllShort groups) (encrypted : properties.encryption = some p)
    (built : p.Built) (inPlainForm : p.encryptedFooter = false)
    (keyless : readerProperties.decryption = none) :
    ∃ file f s, FileWriter.release w = (.ok file, w) ∧
      openSource readerProperties ⟨.memory, file⟩ {} = (.ok f, s) ∧ Reports schema groups m f ∧
      ∀ accesses i j columns values column, groups[i]? = some columns → columns[j]? = some values →
        schema.columns[j]? = some column →
        (p.columnKey column.path = none →
          (f.inRowGroup i (f.readColumn i j) (f.afterAccesses accesses s)).1 = .ok values) ∧
        (p.columnKey column.path ≠ none →
          FailsWith .encryptionConfig
            (f.inRowGroup i (f.readColumn i j) (f.afterAccesses accesses s)).1 ∧
          FailsWith .encryptionConfig
            (f.inRowGroup i (f.offsetIndex i j) (f.afterAccesses accesses s)).1 ∧
          (∃ entries c, m.rowGroups[i]? = some entries ∧ entries.columns[j]? = some c ∧
            c.metaData ≠ none ∧ c.encryptedMetaData ≠ none) ∧
          ∃ chunk, (f.inRowGroup i (f.info.columnChunk i j) (f.afterAccesses accesses s)).1 =
              .ok chunk ∧
            ∀ keyed : ReaderProperties, keyed.HasAllKeys p → ∃ g t,
              openSource keyed ⟨.memory, file⟩ {} = (.ok g, t) ∧ ∀ accesses,
                (g.inRowGroup i (g.info.columnChunk i j) (g.afterAccesses accesses t)).1 =
                  .ok chunk) := by
  obtain ⟨encryption, file, same, _, placed, released⟩ := finished.placedFile
  rw [encrypted, Option.map_eq_some_iff] at same
  obtain ⟨e, rfl, rfl⟩ := same
  obtain ⟨f, reflects, source, yields⟩ :=
    openSource_without_keys finished.wellFormed placed.storedFile inPlainForm keyless
  obtain ⟨result, kept⟩ := yields {} (.start _)
  have none_held : f.info.decryption = none := reflects.describes.decryption
  have decrypts : f.info.Decrypts none := by
    rw [FileInfo.Decrypts, none_held]
    exact .none
  refine ⟨file, f, _, released, Prod.ext result rfl, reflects.reports finished.wellFormed, ?_⟩
  intro accesses i j columns values column hi hj hcolumn
  have session : ReadState.Keeps none _ := afterAccesses_keeps decrypts accesses kept
  obtain ⟨type, entries, c, hentries, hc, entered⟩ := placed.enteredColumn hi hj hcolumn
  have located := reflects.describes.locates hcolumn hentries hc
  rw [short.stored_eq_self hi hj] at entered
  constructor
  · intro unencrypted
    have crypto : chunkCrypto (some e) column.path = none :=
      EncryptionProperties.columnCrypto_eq_none_iff.mpr unencrypted
    have finds : f.info.FindsColumn none column.path := by
      rintro _ ⟨⟩
    have read := readColumn_yields source decrypts finds located type
      (entered.stored.unencrypted crypto)
    exact (reflects.inRowGroup_yields hi read _ session).1
  · intro sealedWith
    have crypto : chunkCrypto (some e) column.path ≠ none := fun unencrypted =>
      sealedWith (EncryptionProperties.columnCrypto_eq_none_iff.mp unencrypted)
    obtain ⟨chunk, entry, stored, known, read, index⟩ :=
      encryptedColumn_without_keys source none_held located type entered inPlainForm crypto
    have refusal : (Error.columnEncrypted column.path).kind = .encryptionConfig := rfl
    refine ⟨⟨_, (reflects.inRowGroup_yields hi read _ session).1, refusal⟩,
      ⟨_, (reflects.inRowGroup_yields hi index _ session).1, refusal⟩,
      ⟨entries, c, hentries, hc, entered.forms.both inPlainForm crypto⟩,
      _, (reflects.inRowGroup_yields hi known _ session).1, ?_⟩
    intro keyed hkeyed
    obtain ⟨g, t, opening, shows⟩ :=
      columnChunk_with_keys finished.wellFormed placed.storedFile built.metadataNonempty hkeyed
    refine ⟨g, t, opening, fun accesses => ?_⟩
    exact shows accesses i j columns column values entries c chunk hi hcolumn hentries hc type entry
      stored

theorem plaintextFooter_without_keys_sample : ∃ m w file f s g t chunk,
    FileWriter.Finished Sample.schema (Sample.properties (some Sample.encryption))
        [Sample.columns] m w ∧
      FileWriter.release w = (.ok file, w) ∧
      openSource {} ⟨.memory, file⟩ {} = (.ok f, s) ∧
      (f.inRowGroup 0 (f.readColumn 0 2) s).1 = .ok ⟨.boolean, [true, false, true]⟩ ∧
      FailsWith .encryptionConfig (f.inRowGroup 0 (f.readColumn 0 0) s).1 ∧
      (f.inRowGroup 0 (f.info.columnChunk 0 0) s).1 = .ok chunk ∧
      openSource (Sample.readerProperties fun _ => .ok Sample.ownKey.bytes) ⟨.memory, file⟩ {} =
        (.ok g, t) ∧
      (g.inRowGroup 0 (g.info.columnChunk 0 0) t).1 = .ok chunk := by
  obtain ⟨m, w, finished⟩ := Sample.finished
  have keyed : (Sample.readerProperties fun _ => .ok Sample.ownKey.bytes).HasAllKeys
      Sample.encryption :=
    ⟨_, rfl, .brought rfl, Sample.knowsPrefix _, Sample.findsColumn⟩
  have keyless : ({} : ReaderProperties).decryption = none := rfl
  obtain ⟨file, f, s, released, opening, _, reads⟩ :=
    plaintextFooter_without_keys finished Sample.short rfl Sample.built rfl keyless
  have unencrypted := (reads [] 0 2 _ _ _ rfl rfl rfl).1 rfl
  obtain ⟨refused, _, _, chunk, shown, same⟩ := (reads [] 0 0 _ _ _ rfl rfl rfl).2 (by decide)
  obtain ⟨g, t, openingKeyed, opened⟩ := same _ keyed
  exact ⟨m, w, file, f, s, g, t, chunk, finished, released, opening, unencrypted, refused, shown,
    openingKeyed, opened []⟩

end OpenFile

end SealedColumns
