import SealedColumns.Proofs.BuiltProperties
import SealedColumns.Proofs.ByteSources
import SealedColumns.Proofs.RelatedReads
import SealedColumns.Proofs.StoredChunks
import SealedColumns.Reader.OpenFile

/-!
# Columns of an open file are read back

An open file knows the entries of its chunks, and with the right keys each entry leads to the values
of the chunk. A column whose own key is not found fails wherever it is touched, because its metadata
is stored in sealed form; the failure leaves the session able to read all other columns.

Every access keeps the session in order, whatever comes of it, so the results do not depend on what
was accessed before.
-/

namespace SealedColumns

namespace FileDecryption

/-- The reader's decryption of a file fits its encryption, and the footer key is found. -/
structure Decrypts (e : FileEncryption) (d : FileDecryption) : Prop where
  algorithm : d.algorithm = e.properties.algorithm
  fileAad : d.fileAad = e.fileAad
  footerKeyMetadata : d.footerKeyMetadata = e.properties.footerKeyMetadata
  footerKey : d.properties.Finds d.properties.footerKey d.footerKeyMetadata e.properties.footerKey
  metadata : e.properties.MetadataNonempty

variable {e : FileEncryption} {d : FileDecryption} {path : ColumnPath}

/-- The sessions that go with an encryption. -/
abbrev Sessions (encryption : Option FileEncryption) : ReadState → Prop :=
  ReadState.Keeps (encryption.map fun e => e.properties.footerKey)

theorem Decrypts.footerKey_yields (h : d.Decrypts e) :
    Yields (Sessions (some e)) d.footerKey (· = .ok e.properties.footerKey) := by
  refine footerKey_of_finds h.footerKey fun _ => ?_
  rw [h.footerKeyMetadata]
  exact h.metadata.footer

theorem Decrypts.footerOpener_yields (h : d.Decrypts e) :
    Yields (Sessions (some e)) d.footerOpener
      (· = .ok (e.properties.footerKey.opener d.algorithm .metadata)) :=
  .seq_ok h.footerKey_yields (opener_yields (fun _ kept => kept.withEngines) _ _)

theorem Decrypts.columnKey_keeps (h : d.Decrypts e) (crypto : ColumnCrypto) :
    Yields (Sessions (some e)) (d.columnKey path crypto) fun _ => True :=
  columnKey_preserves (.of_yields h.footerKey_yields) fun _ _ =>
    retrieveKey_preserves fun _ _ => .of_yields (Session.note_keeps _)

/-- The key that a chunk names is the key that it is sealed with. -/
theorem Decrypts.columnKey_yields (h : d.Decrypts e)
    (finds : d.properties.FindsColumn e.properties path)
    {crypto : ColumnCrypto} {rowGroup column : Nat} {s : ChunkSealing}
    (named : chunkCrypto (some e) path = some crypto)
    (place : chunkSealing (some e) rowGroup column path = some s) :
    Yields (Sessions (some e)) (d.columnKey path crypto) (· = .ok s.key) := by
  obtain ⟨sealedWith, _⟩ := eq_of_chunkSealing place
  cases crypto with
  | footerKey =>
      have shared := (EncryptionProperties.columnKey_of_footerKey named).symm.trans sealedWith
      rw [← Option.some.inj shared]
      exact columnKey_footerKey h.footerKey_yields
  | columnKey info =>
      obtain ⟨c, own, found, hkey, ownKey, rfl⟩ := EncryptionProperties.columnKey_of_ownKey named
      rw [Option.some.inj (ownKey.symm.trans sealedWith)] at hkey
      exact columnKey_of_finds (finds c s.key found hkey) (h.metadata.column path c found)

/-- The key of a column with a key of its own is missed. -/
theorem columnKey_of_lacksColumn (h : d.properties.LacksColumn e.properties path)
    {crypto : ColumnCrypto}
    {expected : Option Key} (named : chunkCrypto (some e) path = some crypto) :
    Yields (ReadState.Keeps expected) (d.columnKey path crypto) KeyNotFound := by
  obtain ⟨c, key, found, hkey, lacks⟩ := h
  have own := (EncryptionProperties.columnCrypto_of_ownKey found hkey).symm.trans named
  rw [← Option.some.inj own]
  exact columnKey_of_lacks lacks

end FileDecryption

namespace FileInfo

variable {f : FileInfo} {encryption : Option FileEncryption} {rowGroup column : Nat}
variable {path : ColumnPath} {m : ColumnMetaData} {c : ColumnChunk}

/-- The file is open with what it takes to decrypt it, except possibly for columns' own keys. -/
def Decrypts (encryption : Option FileEncryption) (f : FileInfo) : Prop :=
  Option.Rel (fun e d => FileDecryption.Decrypts e d) encryption f.decryption

/-- The key of a column is found, if it has a key of its own. -/
def FindsColumn (encryption : Option FileEncryption) (f : FileInfo) (path : ColumnPath) : Prop :=
  ∀ e ∈ encryption, ∀ d ∈ f.decryption, d.properties.FindsColumn e.properties path

open FileDecryption (Sessions)

/-- A chunk that names a key is sealed, and the key that it is sealed with is found. -/
theorem exists_chunkSealing (decrypts : f.Decrypts encryption)
    (finds : f.FindsColumn encryption path) {crypto : ColumnCrypto}
    (named : chunkCrypto encryption path = some crypto) (rowGroup column : Nat) :
    ∃ d s, f.decryption = some d ∧ chunkSealing encryption rowGroup column path = some s ∧
      s = ⟨d.algorithm, s.key, d.fileAad, rowGroup, column⟩ ∧
      Yields (Sessions encryption) (d.columnKey path crypto) (· = .ok s.key) := by
  rw [FindsColumn] at finds
  rw [Decrypts] at decrypts
  generalize f.decryption = decryption at decrypts finds ⊢
  cases decrypts with
  | none => cases named
  | @some e d decrypts =>
      cases place : chunkSealing (some e) rowGroup column path with
      | none =>
          rw [chunkSealing_eq_none_iff.mp place] at named
          cases named
      | some s =>
          have key := decrypts.columnKey_yields (finds e rfl d rfl) named place
          obtain ⟨_, form⟩ := eq_of_chunkSealing place
          rw [← decrypts.algorithm, ← decrypts.fileAad] at form
          exact ⟨d, s, rfl, rfl, form, key⟩

/-- The metadata of a chunk is what its entry shows. -/
theorem columnMetaData_yields (decrypts : f.Decrypts encryption)
    (finds : f.FindsColumn encryption path)
    (entry : ChunkEntry encryption rowGroup column path m c) :
    Yields (Sessions encryption) (f.columnMetaData rowGroup column path c) (· = .ok m) := by
  rw [columnMetaData]
  cases hform : c.encryptedMetaData with
  | none =>
      rw [entry.plain hform]
      cases c.crypto <;> exact .pure rfl
  | some module =>
      obtain ⟨named, stored⟩ := entry.sealedForm module hform
      obtain ⟨crypto, hcrypto⟩ := Option.isSome_iff_exists.mp named
      obtain ⟨d, s, hd, place, form, key⟩ :=
        exists_chunkSealing decrypts finds (entry.crypto.symm.trans hcrypto) rowGroup column
      rw [place, form] at stored
      obtain ⟨aad, built, seals⟩ := stored
      have opened : (s.key.opener d.algorithm .metadata).decrypt aad module = .ok (Wire.encode m) :=
        seals.decrypt
      have fits : LawfulWire.Fits m := LawfulWire.fits_of_length m
        (Nat.lt_trans seals.plaintext_lt (by decide))
      rw [hcrypto, hd]
      exact .seq_ok (FileDecryption.columnOpener_of_key key _)
        (.seq_ok (.lift built) (.seq_ok (.lift opened)
          (.seq_ok (.lift (decodeFront_whole fits)) (.pure rfl))))

/-- What an open file says about a chunk whose metadata is known. -/
def shown (column : Column) (c : ColumnChunk) (m : ColumnMetaData) : ChunkInfo where
  column := column
  encodings := m.encodings
  numValues := m.numValues
  compressedSize := m.totalCompressedSize
  uncompressedSize := m.totalUncompressedSize
  dataPageOffset := m.dataPageOffset
  dictionaryPageOffset := m.dictionaryPageOffset
  offsetIndexOffset := c.offsetIndexOffset
  offsetIndexLength := c.offsetIndexLength
  crypto := c.crypto

theorem not_neg_of_toInt {n : Int64} (h : 0 ≤ n.toInt) : ¬ n < 0 := by
  rw [Int64.lt_iff_toInt_lt, Int64.toInt_zero]
  omega

/-- Stored metadata passes the checks of a reader. -/
theorem ofMetaData_of_stored {sealing : Option ChunkSealing} {file : Bytes} {values : ColumnValues}
    (stored : StoredChunk sealing file values m) (column : Column) :
    ChunkInfo.ofMetaData column c m = .ok (shown column c m) := by
  cases stored with
  | intro _ _ _ _ numValues size start dataPage _ =>
      refine if_neg ?_
      rintro (negative | negative | negative | negative)
      · exact not_neg_of_toInt (by omega) negative
      · exact not_neg_of_toInt (by omega) negative
      · exact not_neg_of_toInt dataPage negative
      · cases hoffset : m.dictionaryPageOffset with
        | none =>
            rw [hoffset] at negative
            cases negative
        | some offset =>
            rw [hoffset] at negative start
            rw [Option.getD_some] at start
            exact not_neg_of_toInt (by omega) (of_decide_eq_true negative)

/-- Once its metadata is known a chunk is known. -/
theorem columnChunk_of_metaData {P : ReadState → Prop} {sealing : Option ChunkSealing} {i j : Nat}
    {column : Column} {file : Bytes} {values : ColumnValues} (located : f.Locates i j column c)
    (type : values.type = column.type) (stored : StoredChunk sealing file values m)
    (metaData : Yields P (f.columnMetaData i j column.path c) (· = .ok m)) :
    Yields P (f.columnChunk i j) (· = .ok (shown column c m)) := by
  obtain ⟨g, hg, hc⟩ := located.chunk
  have found : f.schema.column j = .ok column := by
    rw [Schema.column, located.column]
  have metaType : ¬ m.type ≠ column.type := by
    cases stored with
    | intro _ _ _ same => exact not_not_intro (same.trans type)
  rw [columnChunk, hg]
  dsimp only
  rw [hc]
  refine .seq_ok (.lift found) (.seq_ok metaData ?_)
  rw [if_neg metaType]
  exact .lift (ofMetaData_of_stored stored column)

theorem columnChunk_yields {i j : Nat} {column : Column} {file : Bytes} {values : ColumnValues}
    (decrypts : f.Decrypts encryption) (finds : f.FindsColumn encryption column.path)
    (located : f.Locates i j column c) (type : values.type = column.type)
    (entry : ChunkEntry encryption i j column.path m c)
    (stored : StoredChunk (chunkSealing encryption i j column.path) file values m) :
    Yields (Sessions encryption) (f.columnChunk i j) (· = .ok (shown column c m)) :=
  columnChunk_of_metaData located type stored (columnMetaData_yields decrypts finds entry)

theorem byteRange_of_stored {column : Column} {start size : Nat}
    (hstart : (m.dictionaryPageOffset.getD m.dataPageOffset).toInt = start)
    (hsize : m.totalCompressedSize.toInt = size) :
    (shown column c m).byteRange = .ok (start, size) := by
  have valid :
      ¬ (m.dictionaryPageOffset.getD m.dataPageOffset < 0 ∨ m.totalCompressedSize < 0) := by
    rintro (negative | negative)
    · exact not_neg_of_toInt (by omega) negative
    · exact not_neg_of_toInt (by omega) negative
  have checked : (shown column c m).byteRange =
      .ok ((m.dictionaryPageOffset.getD m.dataPageOffset).toInt.toNat,
        m.totalCompressedSize.toInt.toNat) := if_neg valid
  rw [checked, hstart, hsize, Int.toNat_natCast, Int.toNat_natCast]

end FileInfo

namespace OpenFile

variable {f : OpenFile} {encryption : Option FileEncryption} {i j : Nat} {column : Column}
variable {c : ColumnChunk} {m : ColumnMetaData} {file : Bytes}

open FileDecryption (Sessions)

/-- A source in memory gives any range of its bytes. -/
theorem get_memory (before part after : Bytes) :
    (ByteSource.mk .memory (before ++ (part ++ after))).get before.length part.length =
      .ok part := by
  refine ByteSource.get_memory_eq_ok.mpr ⟨?_, ?_⟩
  · simp only [List.length_append]
    omega
  · rw [List.drop_left, List.take_left]

/-- Whether the file is taken to come from an application that leaves dictionary headers out. -/
def omitsHeaders (f : OpenFile) : Bool :=
  f.info.writerVersion.any ApplicationVersion.omitsDictionaryHeader

/-- What is read beyond a chunk, for the sake of files of certain applications. -/
theorem paddedLength_eq {start length : Nat} (start_lt : start < 0x8000000000000000)
    (length_lt : length < 0x8000000000000000) :
    f.paddedLength start length = .ok (length +
      if f.omitsHeaders then min (f.source.size - (start + length)) maxDictionaryHeader
      else 0) := by
  rw [paddedLength, omitsHeaders]
  split
  · have few : min (f.source.size - (start + length)) maxDictionaryHeader ≤ 100 :=
      Nat.min_le_right _ _
    have size : UInt64.size = 0x8000000000000000 + 0x8000000000000000 := rfl
    rw [addSizes_of_lt (by omega), Except.ok_bind]
    exact addSizes_of_lt (by omega)
  · rfl

/-- It lies in the file if the chunk does. -/
theorem paddedLength_of_inside {start length : Nat} (inside : start + length ≤ f.source.size)
    (start_lt : start < 0x8000000000000000) (length_lt : length < 0x8000000000000000) :
    ∃ extra, f.paddedLength start length = .ok (length + extra) ∧
      start + length + extra ≤ f.source.size := by
  refine ⟨_, paddedLength_eq start_lt length_lt, ?_⟩
  split <;> omega

/-- What is read for a chunk starts with its bytes. -/
theorem get_padded {before bytes after : Bytes}
    (source : f.source = ⟨.memory, before ++ (bytes ++ after)⟩)
    (start_lt : before.length < 0x8000000000000000)
    (length_lt : bytes.length < 0x8000000000000000) :
    ∃ length more, f.paddedLength before.length bytes.length = .ok length ∧
      f.source.get before.length length = .ok (bytes ++ more) := by
  have size : f.source.size = before.length + (bytes.length + after.length) := by
    rw [source, ByteSource.size, List.length_append, List.length_append]
  obtain ⟨extra, padded, inside⟩ :=
    paddedLength_of_inside (f := f) (by omega) start_lt length_lt
  have split : before ++ (bytes ++ after) =
      before ++ ((bytes ++ after.take extra) ++ after.drop extra) := by
    rw [List.append_assoc bytes, List.take_append_drop]
  have length : (bytes ++ after.take extra).length = bytes.length + extra := by
    rw [List.length_append, List.length_take]
    omega
  refine ⟨_, after.take extra, padded, ?_⟩
  rw [source, split, ← length]
  exact get_memory _ _ _

/-- The opener of a chunk opens what its sealing seals. -/
theorem columnOpener_yields (decrypts : f.info.Decrypts encryption)
    (finds : f.info.FindsColumn encryption column.path)
    (entry : ChunkEntry encryption i j column.path m c) :
    Yields (Sessions encryption) (f.columnOpener i j (FileInfo.shown column c m))
      (· = .ok ((chunkSealing encryption i j column.path).map .ofSealing)) := by
  have crypto : (FileInfo.shown column c m).crypto = chunkCrypto encryption column.path :=
    entry.crypto
  rw [columnOpener, crypto]
  cases named : chunkCrypto encryption column.path with
  | none =>
      rw [chunkSealing_eq_none_iff.mpr named]
      exact .pure rfl
  | some crypto =>
      obtain ⟨d, s, hd, place, form, key⟩ :=
        FileInfo.exists_chunkSealing decrypts finds named i j
      rw [hd, place]
      refine .seq_ok (FileDecryption.columnOpener_of_key key _)
        (.seq_ok (FileDecryption.columnOpener_of_key key _) (.pure ?_))
      rw [Option.map_some, form]
      rfl

/-- The values of a column are read back. -/
theorem readColumn_yields {values : ColumnValues} (source : f.source = ⟨.memory, file⟩)
    (decrypts : f.info.Decrypts encryption) (finds : f.info.FindsColumn encryption column.path)
    (located : f.info.Locates i j column c) (type : values.type = column.type)
    (stored : StoredColumn encryption file i j column.path values c) :
    Yields (Sessions encryption) (f.readColumn i j) (· = .ok values) := by
  obtain ⟨m, entry, chunk⟩ := stored
  have known := FileInfo.columnChunk_yields decrypts finds located type entry chunk
  have opener := columnOpener_yields decrypts finds entry
  cases chunk with
  | @intro before bytes after dictionary data rows file_eq holds pages metaType numValues size start
      dataPage dictionaryPage =>
      have start_lt := (m.dictionaryPageOffset.getD m.dataPageOffset).toInt_lt
      have size_lt := m.totalCompressedSize.toInt_lt
      have rows_lt := m.numValues.toInt_lt
      have range : (FileInfo.shown column c m).byteRange = .ok (before.length, bytes.length) :=
        FileInfo.byteRange_of_stored start size
      subst file_eq
      obtain ⟨length, more, padded, part⟩ := get_padded source (by omega) (by omega)
      have read : Yields (Sessions encryption) (Session.read f.source before.length length)
          (· = .ok (bytes ++ more)) := part ▸ Session.read_yields _ _ _
      have found : f.info.schema.column j = .ok column := by
        rw [Schema.column, located.column]
      -- What is read beyond the chunk is left alone.
      have all : ((ColumnReader.readAll : ColumnReader.Step ChunkPages ColumnValues)
          { type := column.type,
            source := ⟨bytes ++ more, m.numValues.toInt, m.dictionaryPageOffset.isSome, 0,
              (chunkSealing encryption i j column.path).map .ofSealing⟩ }).1 = .ok values := by
        rw [← type]
        exact ChunkPages.readAll_of_stored holds pages
          ⟨rfl, numValues, dictionaryPage, rfl, ColumnOpener.opens_map_ofSealing _⟩ (by omega)
      refine .seq_ok (.seq_ok (.lift found) (.seq_ok ?_ (.pure rfl))) (.lift all)
      exact .seq_ok known (.seq_ok (.lift range) (.seq_ok (.lift padded) (.seq_ok opener
        (.seq_ok read (.pure rfl)))))

end OpenFile

/-! ### Columns whose key is not found -/

namespace FileInfo

variable {f : FileInfo} {e : FileEncryption} {d : FileDecryption} {i j : Nat} {column : Column}
variable {c : ColumnChunk} {m : ColumnMetaData} {expected : Option Key}

/-- The metadata of a column whose own key is missed cannot be opened, also where it is stored in
plain form as well. -/
theorem columnChunk_of_lacks (decryption : f.decryption = some d)
    (lacks : d.properties.LacksColumn e.properties column.path) (located : f.Locates i j column c)
    (entry : ChunkEntry (some e) i j column.path m c) :
    Yields (ReadState.Keeps expected) (f.columnChunk i j) KeyNotFound := by
  obtain ⟨g, hg, hc⟩ := located.chunk
  have found : f.schema.column j = .ok column := by
    rw [Schema.column, located.column]
  obtain ⟨own, key, hown, hkey, _⟩ := id lacks
  have named : chunkCrypto (some e) column.path =
      some (.columnKey ⟨column.path.parts, own.keyMetadata⟩) :=
    EncryptionProperties.columnCrypto_of_ownKey hown hkey
  have crypto := entry.crypto.trans named
  obtain ⟨module, hmodule⟩ := Option.isSome_iff_exists.mp (entry.ownKey _ crypto)
  have failed :
      Yields (ReadState.Keeps expected) (f.columnMetaData i j column.path c) KeyNotFound := by
    rw [columnMetaData, crypto, hmodule, decryption]
    refine Yields.keyNotFound_seq (Yields.keyNotFound_seq ?_ _) _
    exact FileDecryption.columnKey_of_lacksColumn lacks named
  rw [columnChunk, hg]
  dsimp only
  rw [hc]
  exact .seq_ok (.lift found) (Yields.keyNotFound_seq failed _)

end FileInfo

namespace OpenFile

variable {f : OpenFile} {e : FileEncryption} {d : FileDecryption} {i j : Nat} {column : Column}
variable {expected : Option Key}

theorem readColumn_of_keyNotFound (found : f.info.schema.columns[j]? = some column)
    (failed : Yields (ReadState.Keeps expected) (f.info.columnChunk i j) KeyNotFound) :
    Yields (ReadState.Keeps expected) (f.readColumn i j) KeyNotFound := by
  have known : f.info.schema.column j = .ok column := by
    rw [Schema.column, found]
  exact Yields.keyNotFound_seq (.seq_ok (.lift known)
    (Yields.keyNotFound_seq (Yields.keyNotFound_seq failed _) _)) _

theorem offsetIndex_of_keyNotFound
    (failed : Yields (ReadState.Keeps expected) (f.info.columnChunk i j) KeyNotFound) :
    Yields (ReadState.Keeps expected) (f.offsetIndex i j) KeyNotFound :=
  Yields.keyNotFound_seq failed _

end OpenFile

/-! ### Any sequence of accesses -/

namespace OpenFile

variable {f : OpenFile} {encryption : Option FileEncryption}

open FileDecryption (Sessions)

/-- What can be asked of a column in a row group. -/
inductive Access where
  | columnChunk (rowGroup column : Nat)
  | readColumn (rowGroup column : Nat)
  | offsetIndex (rowGroup column : Nat)

/-- An access, whose result is dropped. -/
def access (f : OpenFile) : Access → Session Unit
  | .columnChunk i j => discard (f.inRowGroup i (f.info.columnChunk i j))
  | .readColumn i j => discard (f.inRowGroup i (f.readColumn i j))
  | .offsetIndex i j => discard (f.inRowGroup i (f.offsetIndex i j))

/-- The session after a sequence of accesses, some of which may have failed. -/
def afterAccesses (f : OpenFile) (accesses : List Access) (s : ReadState) : ReadState :=
  accesses.foldl (fun s a => (f.access a s).2) s

/-- One access keeps the session in order. -/
theorem access_keeps (decrypts : f.info.Decrypts encryption) (a : Access) :
    Preserves (Sessions encryption) (f.access a) := by
  have keys : ∀ d ∈ f.info.decryption, ∀ path crypto,
      Preserves (Sessions encryption) (d.columnKey path crypto) := by
    intro d hd path crypto
    rw [FileInfo.Decrypts, hd] at decrypts
    cases decrypts with
    | some decrypts => exact decrypts.columnKey_keeps crypto
  have kept {α : Type} {V : α → α → Prop} {op : OpenFile → Session α} (reads : f.Reads V op)
      (i : Nat) : Preserves (Sessions encryption) (discard (f.inRowGroup i (op f))) :=
    .seq ((reads.inRowGroup i).preserves ReadState.Keeps.lasts keys) fun _ => .pure
  cases a with
  | columnChunk i j => exact kept (f.columnChunk_reads i j) i
  | readColumn i j => exact kept (f.readColumn_reads i j) i
  | offsetIndex i j => exact kept (f.offsetIndex_reads i j) i

/-- So does any sequence of accesses. -/
theorem afterAccesses_keeps (decrypts : f.info.Decrypts encryption) (accesses : List Access)
    {s : ReadState} (hs : Sessions encryption s) : Sessions encryption
    (f.afterAccesses accesses s) := by
  induction accesses generalizing s with
  | nil => exact hs
  | cons a accesses ih => exact ih (access_keeps decrypts a s hs).2

end OpenFile

end SealedColumns
