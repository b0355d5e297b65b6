import SealedColumns.Proofs.ManyRowGroups
import SealedColumns.Proofs.OpeningFiles

/-!
# Files are read back as they were written

What a writer leaves and what a reader understands meet at `StoredFile`. A reader with the keys and
the prefix opens a finished file, knows of it what the writer returned, and reads each column of
each row group with exactly the values that were written, in whatever order and however often
columns are accessed.

Keys of columns may be missing. Such a column fails with one kind of error in every way of accessing
it, and does no harm to the others.

Two limits are not the keys' business. A dictionary counts positions with 32 bits, and a reader
numbers row groups with 16 bits; encrypted files cannot have more row groups, and for other files
the limit decides whether they can be opened at all.
-/

namespace SealedColumns

namespace ColumnValues

theorem stored_eq_self_iff {c : ColumnValues} {useDictionary : Bool} :
    c.stored useDictionary = c ↔
      (useDictionary = true → ∀ v ∈ c.values, c.values.idxOf v < UInt32.size) := by
  rw [← PagePlan.storedValues_eq_self_iff]
  obtain ⟨type, values⟩ := c
  constructor
  · intro same
    injection same
  · intro same
    rw [stored, same]

/-- Every column has fewer values than there are numbers of 32 bits. -/
def AllShort (groups : List (List ColumnValues)) : Prop :=
  ∀ columns ∈ groups, ∀ c ∈ columns, c.length < UInt32.size

theorem AllShort.stored_eq_self {groups : List (List ColumnValues)} (short : AllShort groups)
    {i j : Nat} {columns : List ColumnValues} {c : ColumnValues} (hi : groups[i]? = some columns)
    (hj : columns[j]? = some c) (useDictionary : Bool) : c.stored useDictionary = c := by
  have few := short columns (List.mem_of_getElem? hi) c (List.mem_of_getElem? hj)
  rw [stored, PagePlan.storedValues_eq_self few]

end ColumnValues

namespace OpenFile

open FileDecryption (Sessions)

/-- An open file that is a finished one, with or without the means to decrypt it. -/
structure Reflects (schema : Schema) (properties : WriterProperties)
    (encryption : Option FileEncryption) (groups : List (List ColumnValues)) (m : FileMetaData)
    (decryption : Option FileDecryption) (f : OpenFile) : Prop where
  stored : ∃ file, StoredFile schema properties encryption groups m file ∧
    f.source = ⟨.memory, file⟩
  describes : Opening.Describes schema m decryption f.info

/-- A finished file that a reader has opened. -/
structure Opened (schema : Schema) (properties : WriterProperties)
    (encryption : Option FileEncryption)
    (groups : List (List ColumnValues)) (m : FileMetaData)
    (decryption : Option DecryptionProperties)
    (f : OpenFile) : Prop extends
    Reflects schema properties encryption groups m (Opening.decryptionFor decryption encryption)
      f where
  equipped : Opening.Equipped decryption encryption

section

variable {schema : Schema} {properties : WriterProperties} {encryption : Option FileEncryption}
variable {groups : List (List ColumnValues)} {m : FileMetaData} {file : Bytes}
variable {readerProperties : ReaderProperties} {decryption : Option DecryptionProperties}
variable {f : OpenFile} {i j : Nat} {columns : List ColumnValues} {values : ColumnValues}

/-- A finished file is opened if it has no more row groups than a reader can number. -/
theorem openSource_of_stored (wellFormed : Schema.ofColumns schema.name schema.columns = .ok schema)
    (stored : StoredFile schema properties encryption groups m file)
    (equipped : Opening.Equipped readerProperties.decryption encryption)
    (few : groups.length ≤ maxOrdinal + 1) :
    ∃ f, Opened schema properties encryption groups m readerProperties.decryption f ∧
      Yields (Sessions encryption) (openSource readerProperties ⟨.memory, file⟩) (· = .ok f) := by
  have footer := Opening.readFooter_of_stored stored equipped
  obtain ⟨info, taken, describes⟩ := Opening.fileInfo_of_stored wellFormed stored few
    (Opening.decryptionFor readerProperties.decryption encryption)
  rw [taken] at footer
  exact ⟨⟨⟨.memory, file⟩, info⟩, ⟨⟨⟨file, stored, rfl⟩, describes⟩, equipped⟩,
    openSource_yields footer⟩

theorem openSource_of_too_many
    (wellFormed : Schema.ofColumns schema.name schema.columns = .ok schema)
    (stored : StoredFile schema properties encryption groups m file)
    (equipped : Opening.Equipped readerProperties.decryption encryption)
    (many : maxOrdinal + 1 < groups.length) :
    Yields (Sessions encryption) (openSource readerProperties ⟨.memory, file⟩)
      (· = .error (.rowGroupOrdinal (maxOrdinal + 1))) := by
  have footer := Opening.readFooter_of_stored stored equipped
  rw [Opening.fileInfo_of_too_many wellFormed stored many] at footer
  exact openSource_yields footer

namespace Reflects

variable {decryption : Option FileDecryption}
variable (reflects : Reflects schema properties encryption groups m decryption f)
include reflects

theorem numRowGroups : f.info.numRowGroups = groups.length := by
  obtain ⟨file, stored, _⟩ := reflects.stored
  have columns := congrArg List.length reflects.describes.columns
  rw [List.length_map, List.length_map, stored.size] at columns
  exact columns

/-- Where a column that was written is found. -/
theorem located (hi : groups[i]? = some columns) (hj : columns[j]? = some values) :
    ∃ column c file, f.source = ⟨.memory, file⟩ ∧ f.info.Locates i j column c ∧
      values.type = column.type ∧ StoredColumn encryption file i j column.path
        (values.stored (properties.usesDictionary column.path)) c := by
  obtain ⟨file, stored, source⟩ := reflects.stored
  obtain ⟨width, g, hg, group⟩ := stored.stored i columns hi
  obtain ⟨inside, _⟩ := List.getElem?_eq_some_iff.mp hj
  have place : j < schema.columns.length := by rwa [width, Schema.numColumns] at inside
  have named := List.getElem?_eq_getElem place
  have paired : (schema.columns.zip columns)[j]? = some (schema.columns[j], values) := by
    rw [List.getElem?_zip_eq_some]
    exact ⟨named, hj⟩
  obtain ⟨type, c, hc, chunk⟩ := group.chunk j _ _ paired
  exact ⟨_, c, file, source, reflects.describes.locates named hg hc, type, chunk⟩

/-- A column that was written is in the schema. -/
theorem exists_column (hi : groups[i]? = some columns) (hj : columns[j]? = some values) :
    ∃ column, schema.columns[j]? = some column := by
  obtain ⟨column, _, _, _, located, _⟩ := reflects.located hi hj
  have named := located.column
  rw [reflects.describes.schema] at named
  exact ⟨column, named⟩

/-- A row group that was written is there, as long as the file is open. -/
theorem inRowGroup_yields {α : Type} {op : Session α} {R : Except Error α → Prop}
    {expected : Option Key} (hi : groups[i]? = some columns)
    (h : Yields (ReadState.Keeps expected) op R) :
    Yields (ReadState.Keeps expected) (f.inRowGroup i op) R := by
  obtain ⟨inside, _⟩ := List.getElem?_eq_some_iff.mp hi
  rw [← reflects.numRowGroups, FileInfo.numRowGroups] at inside
  have present := Array.getElem?_eq_getElem inside
  have found : Yields (ReadState.Keeps expected) (f.rowGroup i) (· = .ok f.info.rowGroups[i]) := by
    refine .get_bind ?_
    intro s hs
    rw [hs.opened, present]
    exact ⟨rfl, hs⟩
  exact .seq_ok found h

end Reflects

namespace Opened

variable (opened : Opened schema properties encryption groups m decryption f)
include opened

theorem decrypts : f.info.Decrypts encryption := by
  rw [FileInfo.Decrypts]
  rw [opened.describes.decryption]
  cases encryption with
  | none => exact .none
  | some e =>
      obtain ⟨r, rfl, opens⟩ := opened.equipped e rfl
      exact .some (FileEncryption.decryption_decrypts opens)

/-- The reader finds the keys that its decryption properties find. -/
theorem findsColumn {e : FileEncryption} {r : DecryptionProperties} {path : ColumnPath}
    (encrypted : encryption = some e) (decrypting : decryption = some r)
    (finds : r.FindsColumn e.properties path) : f.info.FindsColumn encryption path := by
  subst encrypted decrypting
  intro e' he d hd
  cases he
  have known := opened.describes.decryption.symm.trans hd
  cases known
  exact finds

/-- A column whose key is found is read back, as far as the dictionary allows. -/
theorem readColumn_yields (hi : groups[i]? = some columns) (hj : columns[j]? = some values)
    {column : Column} (hcolumn : schema.columns[j]? = some column)
    (finds : f.info.FindsColumn encryption column.path) :
    Yields (Sessions encryption) (f.inRowGroup i (f.readColumn i j))
      (· = .ok (values.stored (properties.usesDictionary column.path))) := by
  obtain ⟨_, c, file, source, located, type, stored⟩ := opened.located hi hj
  have same := located.column
  rw [opened.describes.schema, hcolumn] at same
  cases same
  exact opened.inRowGroup_yields hi
    (OpenFile.readColumn_yields source opened.decrypts finds located type stored)

/-- A column whose key is missed fails for this reason in each way of accessing it. -/
theorem access_of_lacks {e : FileEncryption} {r : DecryptionProperties} {column : Column}
    (encrypted : encryption = some e) (decrypting : decryption = some r)
    (hi : groups[i]? = some columns) (hj : columns[j]? = some values)
    (hcolumn : schema.columns[j]? = some column) (lacks : r.LacksColumn e.properties column.path) :
    Yields (Sessions encryption) (f.inRowGroup i (f.info.columnChunk i j)) KeyNotFound ∧
      Yields (Sessions encryption) (f.inRowGroup i (f.readColumn i j)) KeyNotFound ∧
      Yields (Sessions encryption) (f.inRowGroup i (f.offsetIndex i j)) KeyNotFound := by
  obtain ⟨_, c, file, source, located, type, m', entry, stored⟩ := opened.located hi hj
  have same := located.column
  rw [opened.describes.schema, hcolumn] at same
  cases same
  subst encrypted decrypting
  have failed : Yields (Sessions (some e)) (f.info.columnChunk i j) KeyNotFound :=
    FileInfo.columnChunk_of_lacks opened.describes.decryption lacks located entry
  exact ⟨opened.inRowGroup_yields hi failed,
    opened.inRowGroup_yields hi (readColumn_of_keyNotFound located.column failed),
    opened.inRowGroup_yields hi (offsetIndex_of_keyNotFound failed)⟩

end Opened

end

/-- What a reader knows of a file is what it was written from and what finishing returned. -/
structure Reports (schema : Schema) (groups : List (List ColumnValues)) (m : FileMetaData)
    (f : OpenFile) : Prop where
  returnedSchema : Schema.ofElements m.schemaName m.schema = .ok schema
  schema : f.info.schema = schema
  createdBy : f.info.createdBy = m.createdBy
  numRows : f.info.numRows = m.numRows
  numRowGroups : f.info.numRowGroups = groups.length
  returnedRowGroups : m.rowGroups.length = groups.length

section

variable {schema : Schema} {properties : WriterProperties} {encryption : Option FileEncryption}
variable {groups : List (List ColumnValues)} {m : FileMetaData} {w : FileWriter}
variable {readerProperties : ReaderProperties} {p : EncryptionProperties} {r : DecryptionProperties}

theorem Reflects.reports {decryption : Option FileDecryption} {f : OpenFile}
    (reflects : Reflects schema properties encryption groups m decryption f)
    (wellFormed : Schema.ofColumns schema.name schema.columns = .ok schema) :
    Reports schema groups m f := by
  obtain ⟨file, stored, _⟩ := reflects.stored
  refine ⟨?_, reflects.describes.schema, reflects.describes.createdBy, reflects.describes.numRows,
    reflects.numRowGroups, stored.size⟩
  rw [stored.schemaName, stored.elements, Schema.ofElements_toElements wellFormed]

/-- With the footer key and the prefix an encrypted file is opened. -/
theorem openSource_of_finished (finished : FileWriter.Finished schema properties groups m w)
    (encrypted : properties.encryption = some p) (decrypting : readerProperties.decryption = some r)
    (opens : r.OpensFooter p) :
    ∃ e file f s, e.properties = p ∧ FileWriter.release w = (.ok file, w) ∧
      openSource readerProperties ⟨.memory, file⟩ {} = (.ok f, s) ∧
      Opened schema properties (some e) groups m (some r) f ∧ Sessions (some e) s := by
  obtain ⟨encryption, file, same, stored, released⟩ := finished.storedFile
  rw [encrypted, Option.map_eq_some_iff] at same
  obtain ⟨e, rfl, rfl⟩ := same
  have equipped : Opening.Equipped readerProperties.decryption (some e) := by
    rintro _ ⟨⟩
    exact ⟨r, decrypting, opens⟩
  obtain ⟨f, opened, yields⟩ :=
    openSource_of_stored finished.wellFormed stored equipped (stored.ordinals rfl)
  obtain ⟨result, kept⟩ := yields {} (.start _)
  rw [decrypting] at opened
  exact ⟨e, file, f, _, rfl, released, Prod.ext result rfl, opened, kept⟩

end

end OpenFile

namespace Sample

theorem short : ColumnValues.AllShort [columns] := by
  rw [ColumnValues.AllShort]
  decide

/-- A reader with the footer key that has other keys retrieved. -/
def reader (retriever : KeyRetriever) : DecryptionProperties where
  footerKey := some footerKey
  columns := {}
  keyRetriever := some retriever
  checkFooterSignature := true
  aadPrefix := none
  aadPrefixVerifier := none

/-- The prefix is stored in the file. -/
theorem knowsPrefix (retriever : KeyRetriever) : (reader retriever).KnowsPrefix encryption := by
  refine ⟨?_, ?_⟩
  · rintro _ ⟨⟩
  · rintro _ ⟨⟩

def readerProperties (retriever : KeyRetriever) : ReaderProperties :=
  { decryption := some (reader retriever) }

/-- A retriever that knows the key of the only column with its own key. -/
theorem findsColumn (path : ColumnPath) :
    (reader fun _ => .ok ownKey.bytes).FindsColumn encryption path := by
  intro c key found hkey
  obtain ⟨_, metadata, rfl⟩ := own_of_get? found hkey
  exact .retrieved rfl rfl metadata rfl

end Sample

namespace OpenFile

open FileDecryption (Sessions)

section

variable {schema : Schema} {properties : WriterProperties}
variable {groups : List (List ColumnValues)} {m : FileMetaData} {w : FileWriter}
variable {readerProperties : ReaderProperties} {p : EncryptionProperties} {r : DecryptionProperties}

/-! ### Encrypted files -/

/-- An encrypted file is read back with all keys, whatever is accessed in between. -/
theorem encryptedFile_roundTrip (finished : FileWriter.Finished schema properties groups m w)
    (short : ColumnValues.AllShort groups) (encrypted : properties.encryption = some p)
    (built : p.Built) (decrypting : readerProperties.decryption = some r)
    (footerKey : r.Finds r.footerKey p.footerKeyMetadata p.footerKey)
    (aadPrefix : r.KnowsPrefix p) (columnKeys : ∀ path, r.FindsColumn p path) :
    ∃ file f s, FileWriter.release w = (.ok file, w) ∧
      openSource readerProperties ⟨.memory, file⟩ {} = (.ok f, s) ∧ Reports schema groups m f ∧
      ∀ accesses i j columns values, groups[i]? = some columns → columns[j]? = some values →
        (f.inRowGroup i (f.readColumn i j) (f.afterAccesses accesses s)).1 = .ok values := by
  have opens : r.OpensFooter p := ⟨footerKey, aadPrefix, built.metadataNonempty⟩
  obtain ⟨e, file, f, s, rfl, released, opening, opened, kept⟩ :=
    openSource_of_finished finished encrypted decrypting opens
  refine ⟨file, f, s, released, opening, opened.reports finished.wellFormed, ?_⟩
  intro accesses i j columns values hi hj
  obtain ⟨column, hcolumn⟩ := opened.exists_column hi hj
  have finds := opened.findsColumn rfl rfl (columnKeys column.path)
  have session := afterAccesses_keeps opened.decrypts accesses kept
  have read := (opened.readColumn_yields hi hj hcolumn finds _ session).1
  rwa [short.stored_eq_self hi hj] at read

theorem encryptedFile_roundTrip_sample : ∃ m w file f s,
    FileWriter.Finished Sample.schema (Sample.properties (some Sample.encryption))
        [Sample.columns] m w ∧
      FileWriter.release w = (.ok file, w) ∧
      openSource (Sample.readerProperties fun _ => .ok Sample.ownKey.bytes) ⟨.memory, file⟩ {} =
        (.ok f, s) ∧
      (f.inRowGroup 0 (f.readColumn 0 0) s).1 = .ok ⟨.int32, [7, 8, 7]⟩ := by
  obtain ⟨m, w, finished⟩ := Sample.finished
  have reading : (Sample.readerProperties fun _ => .ok Sample.ownKey.bytes).decryption =
      some (Sample.reader fun _ => .ok Sample.ownKey.bytes) := rfl
  obtain ⟨file, f, s, released, opening, _, reads⟩ := encryptedFile_roundTrip finished Sample.short
    rfl Sample.built reading (.brought rfl) (Sample.knowsPrefix _) Sample.findsColumn
  exact ⟨m, w, file, f, s, finished, released, opening, reads [] 0 0 _ _ rfl rfl⟩

/-- The columns in `missing` have keys of their own that the reader does not find; it finds all
others. The file is opened nevertheless. Every access to a missing column fails because of its key,
and every other column is read back, whatever is accessed in between. -/
theorem missingColumnKeys_confined (finished : FileWriter.Finished schema properties groups m w)
    (short : ColumnValues.AllShort groups) (encrypted : properties.encryption = some p)
    (built : p.Built) (decrypting : readerProperties.decryption = some r)
    (footerKey : r.Finds r.footerKey p.footerKeyMetadata p.footerKey)
    (aadPrefix : r.KnowsPrefix p) (missing : ColumnPath → Prop)
    (lacks : ∀ path, missing path → r.LacksColumn p path)
    (finds : ∀ path, ¬ missing path → r.FindsColumn p path) :
    ∃ file f s, FileWriter.release w = (.ok file, w) ∧
      openSource readerProperties ⟨.memory, file⟩ {} = (.ok f, s) ∧ Reports schema groups m f ∧
      ∀ accesses i j columns values column, groups[i]? = some columns → columns[j]? = some values →
        schema.columns[j]? = some column →
        (missing column.path →
          KeyNotFound (f.inRowGroup i (f.info.columnChunk i j) (f.afterAccesses accesses s)).1 ∧
          KeyNotFound (f.inRowGroup i (f.readColumn i j) (f.afterAccesses accesses s)).1 ∧
          KeyNotFound (f.inRowGroup i (f.offsetIndex i j) (f.afterAccesses accesses s)).1) ∧
        (¬ missing column.path →
          (f.inRowGroup i (f.readColumn i j) (f.afterAccesses accesses s)).1 = .ok values) := by
  have opens : r.OpensFooter p := ⟨footerKey, aadPrefix, built.metadataNonempty⟩
  obtain ⟨e, file, f, s, rfl, released, opening, opened, kept⟩ :=
    openSource_of_finished finished encrypted decrypting opens
  refine ⟨file, f, s, released, opening, opened.reports finished.wellFormed, ?_⟩
  intro accesses i j columns values column hi hj hcolumn
  have session := afterAccesses_keeps opened.decrypts accesses kept
  constructor
  · intro missed
    obtain ⟨chunk, read, index⟩ := opened.access_of_lacks rfl rfl hi hj hcolumn (lacks _ missed)
    exact ⟨(chunk _ session).1, (read _ session).1, (index _ session).1⟩
  · intro found
    have known := opened.findsColumn rfl rfl (finds _ found)
    have read := (opened.readColumn_yields hi hj hcolumn known _ session).1
    rwa [short.stored_eq_self hi hj] at read

theorem missingColumnKeys_confined_sample : ∃ m w file f s,
    FileWriter.Finished Sample.schema (Sample.properties (some Sample.encryption))
        [Sample.columns] m w ∧
      FileWriter.release w = (.ok file, w) ∧
      openSource (Sample.readerProperties fun _ => .error .footerMagic) ⟨.memory, file⟩ {} =
        (.ok f, s) ∧
      KeyNotFound (f.inRowGroup 0 (f.readColumn 0 0) s).1 ∧
      (f.inRowGroup 0 (f.readColumn 0 1) (f.afterAccesses [.readColumn 0 0] s)).1 =
        .ok ⟨.byteArray, [[1], [], [2, 3]]⟩ := by
  obtain ⟨m, w, finished⟩ := Sample.finished
  have lacks : ∀ path, path = Sample.own.path →
      (Sample.reader fun _ => .error .footerMagic).LacksColumn Sample.encryption path := by
    rintro _ rfl
    refine ⟨Sample.own, Sample.ownKey, rfl, rfl, rfl, ?_⟩
    rintro _ ⟨⟩ _ ⟨⟩
    exact ⟨_, rfl⟩
  have finds : ∀ path, ¬ path = Sample.own.path →
      (Sample.reader fun _ => .error .footerMagic).FindsColumn Sample.encryption path := by
    intro path other c key found hkey
    exact absurd (Sample.own_of_get? found hkey).1 other
  have reading : (Sample.readerProperties fun _ => .error .footerMagic).decryption =
      some (Sample.reader fun _ => .error .footerMagic) := rfl
  obtain ⟨file, f, s, released, opening, _, reads⟩ := missingColumnKeys_confined finished
    Sample.short rfl Sample.built reading (.brought rfl) (Sample.knowsPrefix _)
    (· = Sample.own.path) lacks finds
  exact ⟨m, w, file, f, s, finished, released, opening,
    ((reads [] 0 0 _ _ _ rfl rfl rfl).1 rfl).2.1,
    (reads [.readColumn 0 0] 0 1 _ _ _ rfl rfl rfl).2 (by decide)⟩

/-! ### Files without encryption -/

/-- A file without encryption is opened exactly if a reader can number its row groups, and then a
column is read back exactly unless it has a dictionary and a value that first occurs behind the
positions of 32 bits. -/
theorem plainFile_roundTrip_iff (finished : FileWriter.Finished schema properties groups m w)
    (plain : properties.encryption = none) (readerProperties : ReaderProperties) :
    ∃ file, FileWriter.release w = (.ok file, w) ∧
      (maxOrdinal + 1 < groups.length →
        (openSource readerProperties ⟨.memory, file⟩ {}).1 =
          .error (.rowGroupOrdinal (maxOrdinal + 1))) ∧
      (groups.length ≤ maxOrdinal + 1 → ∃ f s,
        openSource readerProperties ⟨.memory, file⟩ {} = (.ok f, s) ∧ Reports schema groups m f ∧
        ∀ accesses i j columns values column, groups[i]? = some columns →
          columns[j]? = some values → schema.columns[j]? = some column →
          ((f.inRowGroup i (f.readColumn i j) (f.afterAccesses accesses s)).1 = .ok values ↔
            (properties.usesDictionary column.path = true →
              ∀ v ∈ values.values, values.values.idxOf v < UInt32.size))) := by
  obtain ⟨encryption, file, same, stored, released⟩ := finished.storedFile
  rw [plain, Option.map_eq_none_iff] at same
  subst same
  have equipped : Opening.Equipped readerProperties.decryption none := by
    rintro _ ⟨⟩
  have start : Sessions none {} := .start none
  refine ⟨file, released, ?_, ?_⟩
  · intro many
    exact (openSource_of_too_many finished.wellFormed stored equipped many {} start).1
  · intro few
    obtain ⟨f, opened, yields⟩ := openSource_of_stored finished.wellFormed stored equipped few
    obtain ⟨result, kept⟩ := yields {} start
    refine ⟨f, _, Prod.ext result rfl, opened.reports finished.wellFormed, ?_⟩
    intro accesses i j columns values column hi hj hcolumn
    have session := afterAccesses_keeps opened.decrypts accesses kept
    have finds : f.info.FindsColumn none column.path := by
      rintro _ ⟨⟩
    rw [(opened.readColumn_yields hi hj hcolumn finds _ session).1, Except.ok.injEq,
      ColumnValues.stored_eq_self_iff]

/-- A file with one row group is read back. One with more row groups than a reader can number, each
of them with a single value, is refused. -/
theorem plainFile_roundTrip_iff_sample :
    (∃ m w file f s,
      FileWriter.Finished Sample.schema (Sample.properties none) [Sample.columns] m w ∧
        FileWriter.release w = (.ok file, w) ∧
        openSource {} ⟨.memory, file⟩ {} = (.ok f, s) ∧
        Reports Sample.schema [Sample.columns] m f ∧
        (f.inRowGroup 0 (f.readColumn 0 0) s).1 = .ok ⟨.int32, [7, 8, 7]⟩) ∧
      ∃ m w file,
        FileWriter.Finished Sample.numbers (Sample.properties none)
            (List.replicate 32769 [Sample.number]) m w ∧
          FileWriter.release w = (.ok file, w) ∧
          (openSource {} ⟨.memory, file⟩ {}).1 = .error (.rowGroupOrdinal 32768) := by
  constructor
  · obtain ⟨m, w, finished⟩ := Sample.finishedPlain
    obtain ⟨file, released, _, opened⟩ := plainFile_roundTrip_iff finished rfl {}
    obtain ⟨f, s, opening, reports, reads⟩ := opened (by decide)
    have read := (reads [] 0 0 _ ⟨.int32, [7, 8, 7]⟩ ⟨⟨["own"]⟩, .int32⟩ rfl rfl rfl).mpr
      fun _ _ held => Nat.lt_trans (List.idxOf_lt_length_of_mem held) (by decide)
    exact ⟨m, w, file, f, s, finished, released, opening, reports, read⟩
  · obtain ⟨m, w, finished⟩ := Sample.numbers_finished (n := 32769) (by decide)
    obtain ⟨file, released, refused, _⟩ := plainFile_roundTrip_iff finished rfl {}
    have many : maxOrdinal + 1 < (List.replicate 32769 [Sample.number]).length := by
      rw [List.length_replicate]
      decide
    exact ⟨m, w, file, finished, released, refused many⟩

end

end OpenFile

end SealedColumns
