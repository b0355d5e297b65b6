import SealedColumns.Proofs.PublicParts
import SealedColumns.Proofs.RoundTrip

/-!
# The layout of a file tells nothing of keys and randomness

Two writers with the same schema, the same row groups and the same settings apart from the bytes of
keys finish their files. Whatever they draw at random, the files are laid out alike: chunks, pages
and offset indexes have the same positions and lengths, and the metadata of the files differ in the
identifier of the file and in the contents of sealed metadata only.

The two files are compared part by part, in the order in which they are written. Parts that start
at one position are equally long and have the same recorded of them, so the parts behind them
start at one position again.
-/

namespace SealedColumns

/-- What is related to related members is related. -/
theorem forall₂_square {α α' β β' : Type} {L : α → β → Prop} {R : α' → β' → Prop}
    {A : α → α' → Prop} {B C : β → β' → Prop} {as : List α} {as' : List α'} {bs : List β}
    {bs' : List β'} (left : List.Forall₂ L as bs) (right : List.Forall₂ R as' bs')
    (top : List.Forall₂ A as as') (bottom : List.Forall₂ B bs bs')
    (each : ∀ a a' b b', L a b → R a' b' → A a a' → B b b' → C b b') : List.Forall₂ C bs bs' := by
  induction left generalizing as' bs' with
  | nil =>
      cases bottom
      exact .nil
  | cons first _ ih =>
      cases top with
      | cons here others =>
          cases bottom with
          | cons below belowOthers =>
              cases right with
              | cons second rest =>
                  exact .cons (each _ _ _ _ first second here below) (ih rest others belowOthers)

/-- Two lists have the same images exactly if their members have. -/
theorem map_eq_map_iff_forall₂ {α β : Type} {f : α → β} {as bs : List α} :
    as.map f = bs.map f ↔ List.Forall₂ (fun a b => f a = f b) as bs := by
  rw [← List.forall₂_eq_eq_eq, List.forall₂_map_left_iff, List.forall₂_map_right_iff]

theorem option_toInt64_injective {o o' : Option Int64}
    (h : o.map Int64.toInt = o'.map Int64.toInt) : o = o' :=
  Option.map_injective (fun _ _ same => Int64.toInt_inj.mp same) h

theorem option_toInt32_injective {o o' : Option Int32}
    (h : o.map Int32.toInt = o'.map Int32.toInt) : o = o' :=
  Option.map_injective (fun _ _ same => Int32.toInt_inj.mp same) h

section

variable {schema : Schema} {properties properties' : WriterProperties}
variable {encryption encryption' : Option FileEncryption} {path : ColumnPath}

/-! ### What follows from the public part of the encryption -/

theorem chunkCrypto_of_public
    (secrets : encryption.map FileEncryption.publicPart = encryption'.map FileEncryption.publicPart)
    (path : ColumnPath) : chunkCrypto encryption path = chunkCrypto encryption' path := by
  rw [← chunkCrypto_publicPart, secrets, chunkCrypto_publicPart]

theorem sealingOverhead_of_public
    (secrets : encryption.map FileEncryption.publicPart = encryption'.map FileEncryption.publicPart)
    (rowGroup column : Nat) (path : ColumnPath) :
    sealingOverhead (chunkSealing encryption rowGroup column path) =
      sealingOverhead (chunkSealing encryption' rowGroup column path) := by
  rw [← sealingOverhead_publicPart, secrets, sealingOverhead_publicPart]

theorem encryptedFooter_of_public
    (secrets : encryption.map FileEncryption.publicPart =
      encryption'.map FileEncryption.publicPart) :
    (encryption.any fun e => e.properties.encryptedFooter) =
      encryption'.any fun e => e.properties.encryptedFooter := by
  rw [← encryptedFooter_publicPart, secrets, encryptedFooter_publicPart]

/-! ### Chunks -/

variable {rowGroup ordinal start : Nat} {m : ColumnMetaData} {c c' : ColumnChunk}

/-- Entries that show the same metadata show it in the same forms, and the sealed forms are equally
long. -/
theorem EntryForms.shown_alike
    (secrets : encryption.map FileEncryption.publicPart = encryption'.map FileEncryption.publicPart)
    (forms : EntryForms encryption path c) (forms' : EntryForms encryption' path c')
    (entry : ChunkEntry encryption rowGroup ordinal path m c)
    (entry' : ChunkEntry encryption' rowGroup ordinal path m c') :
    c.metaData = c'.metaData ∧
      c.encryptedMetaData.map Bytes.blank = c'.encryptedMetaData.map Bytes.blank := by
  have crypto := chunkCrypto_of_public secrets path
  have footer := encryptedFooter_of_public secrets
  have sealedOnly : SealedOnly encryption path ↔ SealedOnly encryption' path := by
    rw [SealedOnly, SealedOnly, crypto, footer]
  have sealedForm : HasSealedForm encryption path ↔ HasSealedForm encryption' path := by
    rw [HasSealedForm, HasSealedForm, crypto, footer]
  have plain : c.metaData = none ↔ c'.metaData = none := by
    rw [forms.plain, forms'.plain, sealedOnly]
  have present : c.encryptedMetaData ≠ none ↔ c'.encryptedMetaData ≠ none := by
    rw [forms.inSealedForm, forms'.inSealedForm, sealedForm]
  constructor
  · cases shown : c.metaData with
    | none => exact (plain.mp shown).symm
    | some other =>
        cases shown' : c'.metaData with
        | none => exact absurd (plain.mpr shown') (by simp [shown])
        | some other' => rw [entry.shown other shown, entry'.shown other' shown']
  · cases shown : c.encryptedMetaData with
    | none =>
        cases shown' : c'.encryptedMetaData with
        | none => rfl
        | some module' => exact absurd shown (present.mpr (by simp [shown']))
    | some module =>
        cases shown' : c'.encryptedMetaData with
        | none => exact absurd shown' (present.mp (by simp [shown]))
        | some module' =>
            have length := (entry.sealedForm module shown).2.length_eq
            have length' := (entry'.sealedForm module' shown').2.length_eq
            rw [← sealingOverhead_of_public secrets] at length'
            exact congrArg some (Bytes.blank_eq_iff.mpr (length.trans length'.symm))

/-- The metadata and the offset index of a chunk are the same in both files. -/
theorem ChunkAt.exists_recorded {column : Column × ColumnValues}
    {chunk chunk' : ColumnChunk × Bytes}
    {bytes bytes' : Bytes} (settings : properties.publicPart = properties'.publicPart)
    (secrets : encryption.map FileEncryption.publicPart = encryption'.map FileEncryption.publicPart)
    (h : ChunkAt properties encryption rowGroup ordinal start column chunk bytes)
    (h' : ChunkAt properties' encryption' rowGroup ordinal start column chunk' bytes') :
    ∃ m index,
      (ChunkEntry encryption rowGroup ordinal column.1.path m chunk.1 ∧
        PlacedChunk (chunkSealing encryption rowGroup ordinal column.1.path) properties.pageRowLimit
          (properties.usesDictionary column.1.path) column.2 m index start bytes ∧
        StoredModule (chunkSealing encryption rowGroup ordinal column.1.path) .metadata .offsetIndex
          none (Wire.encode index) chunk.2) ∧
      (ChunkEntry encryption' rowGroup ordinal column.1.path m chunk'.1 ∧
        PlacedChunk (chunkSealing encryption' rowGroup ordinal column.1.path)
          properties'.pageRowLimit (properties'.usesDictionary column.1.path) column.2 m index
          start bytes' ∧
        StoredModule (chunkSealing encryption' rowGroup ordinal column.1.path) .metadata
          .offsetIndex none (Wire.encode index) chunk'.2) := by
  obtain ⟨m, index, entry, _, placed, stored, _, foretold⟩ := h.placed
  obtain ⟨m', index', entry', _, placed', stored', _, foretold'⟩ := h'.placed
  have same : properties.forecast = properties'.forecast := by
    change properties.publicPart.forecast = properties'.publicPart.forecast
    rw [settings]
  rw [same, sealingOverhead_of_public secrets, foretold'] at foretold
  cases foretold
  exact ⟨m, index, ⟨entry, placed, stored⟩, entry', placed', stored'⟩

/-- Chunks at one position are equally long, and so are their offset indexes. Their entries differ
in the contents of sealed metadata at most. -/
theorem ChunkAt.alike {column : Column × ColumnValues} {chunk chunk' : ColumnChunk × Bytes}
    {bytes bytes' : Bytes} (settings : properties.publicPart = properties'.publicPart)
    (secrets : encryption.map FileEncryption.publicPart = encryption'.map FileEncryption.publicPart)
    (h : ChunkAt properties encryption rowGroup ordinal start column chunk bytes)
    (h' : ChunkAt properties' encryption' rowGroup ordinal start column chunk' bytes') :
    (SameChunk chunk.1.publicPart chunk'.1.publicPart ∧ chunk.2.length = chunk'.2.length) ∧
      bytes.length = bytes'.length := by
  obtain ⟨m, index, ⟨entry, placed, stored⟩, entry', placed', stored'⟩ :=
    h.exists_recorded settings secrets h'
  obtain ⟨plain, sealedForm⟩ := h.forms.shown_alike secrets h'.forms entry entry'
  refine ⟨⟨?_, ?_⟩, ?_⟩
  · have fileOffset : chunk.1.fileOffset = chunk'.1.fileOffset :=
      Int64.toInt_inj.mp (h.fileOffset.trans h'.fileOffset.symm)
    have crypto : chunk.1.crypto = chunk'.1.crypto := by
      rw [entry.crypto, entry'.crypto, chunkCrypto_of_public secrets]
    rw [SameChunk, ColumnChunk.publicPart, ColumnChunk.publicPart, fileOffset, plain, crypto,
      sealedForm]
  · rw [stored.length_eq, stored'.length_eq, sealingOverhead_of_public secrets]
  · exact Int.ofNat_inj.mp (placed.size.symm.trans placed'.size)

/-! ### Row groups -/

/-- Metadata in plain form are the same, so their sizes add up to the same. -/
theorem shownByteSize_of_alike {chunks chunks' : List ColumnChunk}
    (alike : List.Forall₂ (fun c d : ColumnChunk => SameChunk c.publicPart d.publicPart) chunks
      chunks') : shownByteSize chunks = shownByteSize chunks' := by
  have shown : chunks.map ColumnChunk.metaData = chunks'.map ColumnChunk.metaData := by
    rw [map_eq_map_iff_forall₂]
    exact alike.imp fun c d same => (congrArg ColumnChunk.metaData same).symm
  have present := congrArg (List.filterMap id) shown
  rw [List.filterMap_map, List.filterMap_map, Function.id_comp] at present
  rw [shownByteSize, shownByteSize, present]

/-- Two lists of modules that are equally long, one by one. -/
abbrev EquallyLongModules : List Bytes → List Bytes → Prop :=
  List.Forall₂ fun a b => a.length = b.length

theorem RowGroupAt.alike {columns : List ColumnValues} {group group' : RowGroup × List Bytes}
    {bytes bytes' : Bytes} (settings : properties.publicPart = properties'.publicPart)
    (secrets : encryption.map FileEncryption.publicPart = encryption'.map FileEncryption.publicPart)
    (h : RowGroupAt schema properties encryption rowGroup start columns group bytes)
    (h' : RowGroupAt schema properties' encryption' rowGroup start columns group' bytes') :
    (SameRowGroup group.1.publicPart group'.1.publicPart ∧
      EquallyLongModules group.2 group'.2) ∧ bytes.length = bytes'.length := by
  obtain ⟨chunks, entries, indexes, laid⟩ := h.chunks
  obtain ⟨chunks', entries', indexes', laid'⟩ := h'.chunks
  obtain ⟨alike, size⟩ := laid.beside laid' (List.forall₂_same.mpr fun _ _ => rfl) (by
    rintro index start column _ chunk chunk' own own' rfl chunkAt chunkAt'
    exact chunkAt.alike settings secrets chunkAt')
  obtain ⟨rows, numRows, each, empty⟩ := h.rows
  obtain ⟨rows', numRows', each', empty'⟩ := h'.rows
  have sameRows : rows = rows' := by
    cases columns with
    | nil => rw [empty rfl, empty' rfl]
    | cons values others => rw [← each values List.mem_cons_self, each' values List.mem_cons_self]
  have chunksAlike : List.Forall₂ (fun c d : ColumnChunk => SameChunk c.publicPart d.publicPart)
      group.1.columns group'.1.columns := by
    rw [entries, entries', List.forall₂_map_left_iff, List.forall₂_map_right_iff]
    exact alike.imp fun _ _ both => both.1
  refine ⟨⟨⟨?_, ?_⟩, ?_⟩, size⟩
  · have numRowsSame : group.1.numRows = group'.1.numRows := by
      rw [← Int64.toInt_inj, numRows, numRows', sameRows]
    have fileOffset := option_toInt64_injective (h.fileOffset.trans h'.fileOffset.symm)
    have written : group.1.totalCompressedSize = group'.1.totalCompressedSize := by
      apply option_toInt64_injective
      rw [h.size, h'.size, size]
    have byteSize : group.1.totalByteSize = group'.1.totalByteSize := by
      rw [h.byteSize, h'.byteSize, shownByteSize_of_alike chunksAlike]
    rw [RowGroup.publicPart, RowGroup.publicPart, numRowsSame, fileOffset, written, byteSize,
      h.ordinal, h'.ordinal]
  · rw [RowGroup.publicPart, RowGroup.publicPart, List.forall₂_map_left_iff,
      List.forall₂_map_right_iff]
    exact chunksAlike
  · rw [indexes, indexes', EquallyLongModules, List.forall₂_map_left_iff,
      List.forall₂_map_right_iff]
    exact alike.imp fun _ _ both => both.2

/-! ### Offset indexes -/

/-- The offset indexes of two chunks are entered with the same place. -/
def SameIndexPlace (c d : ColumnChunk) : Prop :=
  c.offsetIndexOffset = d.offsetIndexOffset ∧ c.offsetIndexLength = d.offsetIndexLength

theorem IndexesAt.alike {indexes indexes' : List Bytes} {g g' : RowGroup} {bytes bytes' : Bytes}
    (related : EquallyLongModules indexes indexes') (h : IndexesAt rowGroup start indexes g bytes)
    (h' : IndexesAt rowGroup start indexes' g' bytes') :
    List.Forall₂ SameIndexPlace g.columns g'.columns ∧ bytes.length = bytes'.length := by
  refine Laid.beside h h' related ?_
  intro ordinal start index index' c c' own own' size place place'
  have same : own.length = own'.length := by
    rw [place.bytes_eq, place'.bytes_eq, size]
  refine ⟨⟨option_toInt64_injective (place.offset.trans place'.offset.symm), ?_⟩, same⟩
  apply option_toInt32_injective
  rw [place.length, place'.length, same]

/-- Entries are alike after the places of the offset indexes were entered. -/
theorem SameChunk.publicPart_eq {c d c' d' : ColumnChunk} (first : SameChunk c d)
    (second : SameChunk c' d') (alike : SameChunk c.publicPart c'.publicPart)
    (places : SameIndexPlace d d') : d.publicPart = d'.publicPart := by
  have fields : d'.publicPart = { c'.publicPart with
      offsetIndexOffset := d'.offsetIndexOffset, offsetIndexLength := d'.offsetIndexLength } := by
    rw [second]
    rfl
  rw [fields, alike, ← places.1, ← places.2, first]
  rfl

theorem SameRowGroup.publicPart_eq {g h g' h' : RowGroup} (first : SameRowGroup g h)
    (second : SameRowGroup g' h') (alike : SameRowGroup g.publicPart g'.publicPart)
    (places : List.Forall₂ SameIndexPlace h.columns h'.columns) : h.publicPart = h'.publicPart := by
  have columns : h.columns.map ColumnChunk.publicPart = h'.columns.map ColumnChunk.publicPart := by
    have chunksAlike := alike.2
    rw [RowGroup.publicPart, RowGroup.publicPart, List.forall₂_map_left_iff,
      List.forall₂_map_right_iff] at chunksAlike
    rw [map_eq_map_iff_forall₂]
    exact forall₂_square first.2 second.2 chunksAlike places fun _ _ _ _ => SameChunk.publicPart_eq
  have fields : h'.publicPart = { g'.publicPart with
      columns := h'.columns.map ColumnChunk.publicPart } := by
    rw [second.1]
    rfl
  rw [fields, alike.1, ← columns, first.1]
  rfl

variable {groups : List (List ColumnValues)}

theorem PlacedGroups.alike {stored stored' : List (RowGroup × List Bytes)}
    {entries entries' : List RowGroup} {chunks chunks' indexes indexes' : Bytes}
    (settings : properties.publicPart = properties'.publicPart)
    (secrets : encryption.map FileEncryption.publicPart = encryption'.map FileEncryption.publicPart)
    (h : PlacedGroups schema properties encryption groups stored entries chunks indexes)
    (h' : PlacedGroups schema properties' encryption' groups stored' entries' chunks' indexes') :
    entries.map RowGroup.publicPart = entries'.map RowGroup.publicPart ∧
      chunks.length = chunks'.length ∧ indexes.length = indexes'.length := by
  obtain ⟨alike, size⟩ := h.rowGroups.beside h'.rowGroups (List.forall₂_same.mpr fun _ _ => rfl) (by
    rintro index start columns _ group group' own own' rfl groupAt groupAt'
    exact groupAt.alike settings secrets groupAt')
  have modules : List.Forall₂ EquallyLongModules (stored.map Prod.snd) (stored'.map Prod.snd) := by
    rw [List.forall₂_map_left_iff, List.forall₂_map_right_iff]
    exact alike.imp fun _ _ both => both.2
  have groupsAlike : List.Forall₂ (fun g g' : RowGroup => SameRowGroup g.publicPart g'.publicPart)
      (stored.map Prod.fst) (stored'.map Prod.fst) := by
    rw [List.forall₂_map_left_iff, List.forall₂_map_right_iff]
    exact alike.imp fun _ _ both => both.1
  have tiled := h'.offsetIndexes
  rw [← size] at tiled
  obtain ⟨places, indexSize⟩ := h.offsetIndexes.beside tiled modules (by
    intro index start modules modules' g g' own own' related indexesAt indexesAt'
    exact indexesAt.alike related indexesAt')
  refine ⟨?_, size, indexSize⟩
  rw [map_eq_map_iff_forall₂]
  exact forall₂_square h.described h'.described groupsAlike places
    fun _ _ _ _ => SameRowGroup.publicPart_eq

/-! ### Files -/

/-- Metadata sections are equally long. -/
theorem MetadataSection.length_eq {m m' : FileMetaData} {bytes bytes' : Bytes}
    (secrets : encryption.map FileEncryption.publicPart = encryption'.map FileEncryption.publicPart)
    (metaData : m.publicPart = m'.publicPart) (h : MetadataSection m encryption bytes)
    (h' : MetadataSection m' encryption' bytes') : bytes.length = bytes'.length := by
  have body : (Wire.encode m).length = (Wire.encode m').length := by
    rw [← m.publicPart_equallyLong, metaData, m'.publicPart_equallyLong]
  have footer := encryptedFooter_of_public secrets
  cases h with
  | plain =>
      cases h' with
      | plain => exact body
      | signed | inSealedForm => cases secrets
  | @signed e signature inPlainForm signed =>
      cases h' with
      | plain => cases secrets
      | signed inPlainForm' signed' =>
          rw [List.length_append, List.length_append, body,
            Opening.length_of_footerSignature signed, Opening.length_of_footerSignature signed']
      | inSealedForm encrypted =>
          rw [Option.any_some, Option.any_some, inPlainForm, encrypted] at footer
          cases footer
  | @inSealedForm e sealedFooter encrypted seals =>
      cases h' with
      | plain => cases secrets
      | signed inPlainForm' =>
          rw [Option.any_some, Option.any_some, encrypted, inPlainForm'] at footer
          cases footer
      | @inSealedForm e' sealedFooter' encrypted' seals' =>
          have same : e.publicPart = e'.publicPart := Option.some.inj secrets
          have front : (Wire.encode e.cryptoMetaData).length =
              (Wire.encode e'.cryptoMetaData).length := by
            rw [← e.length_cryptoMetaData, same, e'.length_cryptoMetaData]
          have delta : (e.footerRequest (Wire.encode m)).sealer.engine.sizeDelta =
              (e'.footerRequest (Wire.encode m')).sealer.engine.sizeDelta :=
            (congrArg Engine.sizeDelta (Opening.engine_metadata _ _)).trans
              (congrArg Engine.sizeDelta (Opening.engine_metadata _ _)).symm
          have plain : (e.footerRequest (Wire.encode m)).plaintext.length =
              (e'.footerRequest (Wire.encode m')).plaintext.length := body
          rw [List.length_append, List.length_append, front, seals.length, seals'.length, delta,
            plain]

/-- The encryption under which a footer is signed, apart from the bytes of keys
and of the identifier. -/
theorem signing_publicPart (encryption : Option FileEncryption) :
    (signing encryption).map FileEncryption.publicPart =
      signing (encryption.map FileEncryption.publicPart) := by
  cases encryption with
  | none => rfl
  | some e =>
      have footer : e.publicPart.properties.encryptedFooter = e.properties.encryptedFooter := rfl
      rw [signing, signing, Option.map_some, Option.filter_some, Option.filter_some, footer]
      cases e.properties.encryptedFooter <;> rfl

/-- What the metadata of a file says about the encryption. -/
theorem PlacedFile.encryption_publicPart {m : FileMetaData} {file : Bytes}
    (h : PlacedFile schema properties encryption groups m file) :
    m.encryptionAlgorithm.map EncryptionAlgorithm.publicPart =
        (signing (encryption.map FileEncryption.publicPart)).map FileEncryption.description ∧
      m.footerSigningKeyMetadata = (signing (encryption.map FileEncryption.publicPart)).bind
        fun e => e.properties.footerSigningKeyMetadata := by
  rw [← signing_publicPart, h.encryptionAlgorithm, h.signingKey, Option.map_map, Option.map_map]
  constructor
  · rfl
  · cases signing encryption <;> rfl

/-- Two files are equally long, begin with the same magic word and end with the same trailer. -/
structure SameFrame (file file' : Bytes) : Prop where
  length : file.length = file'.length
  start : file.take 4 = file'.take 4
  trailer : file.drop (file.length - Trailer.size) = file'.drop (file'.length - Trailer.size)

theorem SameFrame.of_parts {start middle middle' trailer : Bytes} (magic : start.length = 4)
    (size : middle.length = middle'.length) (last : trailer.length = Trailer.size) :
    SameFrame (start ++ (middle ++ trailer)) (start ++ (middle' ++ trailer)) := by
  have ends (part : Bytes) : (start ++ (part ++ trailer)).drop
      ((start ++ (part ++ trailer)).length - Trailer.size) = trailer := by
    have front : (start ++ (part ++ trailer)).length - Trailer.size = (start ++ part).length := by
      simp only [List.length_append]
      omega
    rw [front, ← List.append_assoc, List.drop_left]
  refine ⟨?_, ?_, ?_⟩
  · simp only [List.length_append, size]
  · rw [← magic, List.take_left, List.take_left]
  · rw [ends, ends]

/-- The metadata of the two files have the same public part, and the files begin and end alike. -/
theorem PlacedFile.alike {m m' : FileMetaData} {file file' : Bytes}
    (settings : properties.publicPart = properties'.publicPart)
    (secrets : encryption.map FileEncryption.publicPart = encryption'.map FileEncryption.publicPart)
    (h : PlacedFile schema properties encryption groups m file)
    (h' : PlacedFile schema properties' encryption' groups m' file') :
    m.publicPart = m'.publicPart ∧ SameFrame file file' := by
  obtain ⟨stored, chunks, indexes, footer, rfl, placed, _, form⟩ := h.layout
  obtain ⟨stored', chunks', indexes', footer', rfl, placed', _, form'⟩ := h'.layout
  obtain ⟨entries, chunkSize, indexSize⟩ := placed.alike settings secrets placed'
  have numRows : m.numRows = m'.numRows := by
    have counted : m.rowGroups.map RowGroup.numRows = m'.rowGroups.map RowGroup.numRows := by
      have same := congrArg (List.map RowGroup.numRows) entries
      rwa [List.map_map, List.map_map] at same
    rw [h.numRows, h'.numRows, ← List.foldl_map, counted, List.foldl_map]
  have createdBy : properties.createdBy = properties'.createdBy := by
    change properties.publicPart.createdBy = properties'.publicPart.createdBy
    rw [settings]
  have metaData : m.publicPart = m'.publicPart := by
    have described := h.encryption_publicPart
    have described' := h'.encryption_publicPart
    rw [secrets] at described
    rw [FileMetaData.publicPart, FileMetaData.publicPart, entries, numRows, h.version, h'.version,
      h.schemaName, h'.schemaName, h.elements, h'.elements, h.createdBy, h'.createdBy, createdBy,
      described.1, described'.1, described.2, described'.2]
  have size := form.length_eq secrets metaData form'
  have mode : FileWriter.footerMode encryption = FileWriter.footerMode encryption' := by
    rw [FileWriter.footerMode, FileWriter.footerMode, encryptedFooter_of_public secrets]
  have middle : (chunks ++ (indexes ++ footer)).length =
      (chunks' ++ (indexes' ++ footer')).length := by
    simp only [List.length_append, chunkSize, indexSize, size]
  have framed := SameFrame.of_parts (FooterMode.length_magic (FileWriter.footerMode encryption'))
    middle (Trailer.length_encode ⟨footer'.length, FileWriter.footerMode encryption'⟩)
  rw [mode, size]
  simp only [List.append_assoc] at framed
  exact ⟨metaData, framed⟩

end

/-! ### Where everything is -/

/-- Where a chunk and its offset index stand in a file, and what is recorded of the chunk. -/
structure ChunkPlace where
  start : Nat
  size : Nat
  indexStart : Nat
  indexSize : Nat
  metaData : ColumnMetaData
  index : OffsetIndex

/-- The bytes stand at a position of the file. -/
def StandsAt (file : Bytes) (start : Nat) (bytes : Bytes) : Prop :=
  ∃ before after, file = before ++ (bytes ++ after) ∧ before.length = start

/-- The chunk of a column, with its pages, and the offset index are where the place says, and the
entry of the chunk says the same. -/
structure ChunkPlace.Holds (place : ChunkPlace) (properties : WriterProperties)
    (encryption : Option FileEncryption) (file : Bytes) (i j : Nat) (column : Column × ColumnValues)
    (c : ColumnChunk) : Prop where
  entry : ChunkEntry encryption i j column.1.path place.metaData c
  fileOffset : c.fileOffset.toInt = place.start
  chunk : ∃ bytes, StandsAt file place.start bytes ∧ bytes.length = place.size ∧
    PlacedChunk (chunkSealing encryption i j column.1.path) properties.pageRowLimit
      (properties.usesDictionary column.1.path) column.2 place.metaData place.index
      place.start bytes
  indexOffset : c.offsetIndexOffset.map Int64.toInt = some (place.indexStart : Int)
  indexLength : c.offsetIndexLength.map Int32.toInt = some (place.indexSize : Int)
  offsetIndex : ∃ module, StandsAt file place.indexStart module ∧
    module.length = place.indexSize ∧ StoredModule (chunkSealing encryption i j column.1.path)
      .metadata .offsetIndex none (Wire.encode place.index) module

/-- The entry of a chunk in the metadata of a file. -/
def FileMetaData.chunk? (m : FileMetaData) (i j : Nat) : Option ColumnChunk :=
  m.rowGroups[i]?.bind fun g => g.columns[j]?

theorem FileMetaData.publicPart_chunk? (m : FileMetaData) (i j : Nat) :
    m.publicPart.chunk? i j = (m.chunk? i j).map ColumnChunk.publicPart := by
  rw [chunk?, chunk?, publicPart, List.getElem?_map]
  cases m.rowGroups[i]? with
  | none => rfl
  | some g => exact List.getElem?_map

section

variable {schema : Schema} {properties properties' : WriterProperties}
variable {encryption encryption' : Option FileEncryption} {groups : List (List ColumnValues)}
variable {m m' : FileMetaData} {file file' : Bytes} {i j : Nat} {columns : List ColumnValues}
variable {values : ColumnValues} {column : Column}

/-- Every chunk has a place, and what is recorded there could have been forecast. -/
theorem PlacedFile.exists_place (h : PlacedFile schema properties encryption groups m file)
    (hi : groups[i]? = some columns) (hj : columns[j]? = some values)
    (hcolumn : schema.columns[j]? = some column) :
    ∃ (place : ChunkPlace) (c : ColumnChunk), m.chunk? i j = some c ∧
      place.Holds properties encryption file i j (column, values) c ∧
      properties.forecast (sealingOverhead (chunkSealing encryption i j column.path))
        (column, values) place.start = .ok (place.metaData, place.index) := by
  have among : (schema.columns.zip columns)[j]? = some (column, values) :=
    List.getElem?_zip_eq_some.mpr ⟨hcolumn, hj⟩
  obtain ⟨stored, chunks, indexes, footer, rfl, placed, _⟩ := h.layout
  obtain ⟨g, c, chunk, hg, hc, same, ⟨before, own, after, rfl, chunkAt⟩, before', own', after', rfl,
    indexAt⟩ := placed.exists_chunk hi among
  obtain ⟨metaData, index, entry, _, pages, indexStored, _, foretold⟩ := chunkAt.placed
  let place : ChunkPlace :=
    ⟨4 + before.length, own.length, 4 + (before ++ (own ++ after)).length + before'.length,
      own'.length, metaData, index⟩
  have found : m.chunk? i j = some c := by
    rw [FileMetaData.chunk?, hg]
    exact hc
  have fileOffset : c.fileOffset.toInt = place.start := by
    rw [same]
    exact chunkAt.fileOffset
  rw [← indexAt.bytes_eq] at indexStored
  refine ⟨place, c, found, ⟨same.chunkEntry entry, fileOffset, ⟨own, ?_, rfl, pages⟩,
    indexAt.offset, indexAt.length, ⟨own', ?_, rfl, indexStored⟩⟩, foretold⟩
  · refine ⟨(FileWriter.footerMode encryption).magic ++ before,
      after ++ (before' ++ (own' ++ after') ++
        (footer ++ Trailer.encode ⟨footer.length, FileWriter.footerMode encryption⟩)), ?_, ?_⟩
    · simp only [List.append_assoc]
    · rw [List.length_append, FooterMode.length_magic]
  · refine ⟨(FileWriter.footerMode encryption).magic ++ (before ++ (own ++ after) ++ before'),
      after' ++ (footer ++ Trailer.encode ⟨footer.length, FileWriter.footerMode encryption⟩),
      ?_, ?_⟩
    · simp only [List.append_assoc]
    · rw [List.length_append, List.length_append, FooterMode.length_magic, ← Nat.add_assoc]

/-- In both files every chunk has the same place. -/
theorem PlacedFile.exists_common_place
    (settings : properties.publicPart = properties'.publicPart)
    (secrets : encryption.map FileEncryption.publicPart = encryption'.map FileEncryption.publicPart)
    (h : PlacedFile schema properties encryption groups m file)
    (h' : PlacedFile schema properties' encryption' groups m' file')
    (hi : groups[i]? = some columns) (hj : columns[j]? = some values)
    (hcolumn : schema.columns[j]? = some column) :
    ∃ (place : ChunkPlace) (c c' : ColumnChunk),
      m.chunk? i j = some c ∧ m'.chunk? i j = some c' ∧
      place.Holds properties encryption file i j (column, values) c ∧
      place.Holds properties' encryption' file' i j (column, values) c' := by
  obtain ⟨place, c, found, holds, foretold⟩ := h.exists_place hi hj hcolumn
  obtain ⟨place', c', found', holds', foretold'⟩ := h'.exists_place hi hj hcolumn
  have alike : c.publicPart = c'.publicPart := by
    have same : m.publicPart.chunk? i j = m'.publicPart.chunk? i j := by
      rw [(h.alike settings secrets h').1]
    rw [FileMetaData.publicPart_chunk?, FileMetaData.publicPart_chunk?, found, found'] at same
    exact Option.some.inj same
  -- The entries tell the positions, and with the position the rest of the place is a forecast.
  have start : place.start = place'.start := by
    have told := congrArg (Int64.toInt ∘ ColumnChunk.fileOffset) alike
    exact Int.ofNat_inj.mp (holds.fileOffset.symm.trans (told.trans holds'.fileOffset))
  have recorded : (place.metaData, place.index) = (place'.metaData, place'.index) := by
    have forecasts : properties.forecast = properties'.forecast := by
      change properties.publicPart.forecast = properties'.publicPart.forecast
      rw [settings]
    rw [forecasts, sealingOverhead_of_public secrets, start, foretold'] at foretold
    exact (Except.ok.inj foretold).symm
  obtain ⟨metaData, index⟩ := Prod.mk.inj recorded
  have size : place.size = place'.size := by
    obtain ⟨bytes, _, length, pages⟩ := holds.chunk
    obtain ⟨bytes', _, length', pages'⟩ := holds'.chunk
    have told := pages.size
    rw [metaData, pages'.size, length, length'] at told
    exact (Int.ofNat_inj.mp told).symm
  have indexStart : place.indexStart = place'.indexStart := by
    have told := congrArg (Option.map Int64.toInt ∘ ColumnChunk.offsetIndexOffset) alike
    exact Int.ofNat_inj.mp (Option.some.inj
      (holds.indexOffset.symm.trans (told.trans holds'.indexOffset)))
  have indexSize : place.indexSize = place'.indexSize := by
    have told := congrArg (Option.map Int32.toInt ∘ ColumnChunk.offsetIndexLength) alike
    exact Int.ofNat_inj.mp (Option.some.inj
      (holds.indexLength.symm.trans (told.trans holds'.indexLength)))
  have same : place = place' := by
    cases place
    cases place'
    cases start
    cases size
    cases indexStart
    cases indexSize
    cases metaData
    cases index
    rfl
  exact ⟨place, c, c', found, found', holds, same ▸ holds'⟩

end

namespace FileWriter

/-- Settings that agree apart from keys, and identifiers of one length, have one public part. -/
theorem encryption_publicPart_eq {p p' : Option EncryptionProperties}
    {encryption encryption' : Option FileEncryption}
    (settings : p.map EncryptionProperties.publicPart = p'.map EncryptionProperties.publicPart)
    (same : encryption.map FileEncryption.properties = p)
    (same' : encryption'.map FileEncryption.properties = p')
    (identified : ∀ e ∈ encryption, e.fileUnique.length = FileEncryption.fileUniqueLength)
    (identified' : ∀ e ∈ encryption', e.fileUnique.length = FileEncryption.fileUniqueLength) :
    encryption.map FileEncryption.publicPart = encryption'.map FileEncryption.publicPart := by
  subst same same'
  cases encryption with
  | none =>
      cases encryption' with
      | none => rfl
      | some e' => cases settings
  | some e =>
      cases encryption' with
      | none => cases settings
      | some e' =>
          have properties : e.properties.publicPart = e'.properties.publicPart :=
            Option.some.inj settings
          have fileUnique : e.fileUnique.blank = e'.fileUnique.blank :=
            Bytes.blank_eq_iff.mpr ((identified e rfl).trans (identified' e' rfl).symm)
          rw [Option.map_some, Option.map_some, FileEncryption.publicPart,
            FileEncryption.publicPart, properties, fileUnique]

/-- Two writers whose settings agree apart from the bytes of keys finish files with the same schema
and the same row groups, whatever they draw at random. The files are equally long and begin and end
alike; their metadata differ in the identifier and in the contents of sealed metadata at most; and
every chunk with its pages, and every offset index, has one place in both files. -/
theorem layout_of_publicPart {schema : Schema} {properties properties' : WriterProperties}
    {groups : List (List ColumnValues)} {m m' : FileMetaData} {w w' : FileWriter}
    (finished : Finished schema properties groups m w)
    (finished' : Finished schema properties' groups m' w')
    (settings : properties.publicPart = properties'.publicPart) :
    ∃ encryption encryption' file file',
      encryption.map FileEncryption.properties = properties.encryption ∧
      encryption'.map FileEncryption.properties = properties'.encryption ∧
      release w = (.ok file, w) ∧ release w' = (.ok file', w') ∧
      SameFrame file file' ∧ m.publicPart = m'.publicPart ∧
      ∀ i j columns values column, groups[i]? = some columns → columns[j]? = some values →
        schema.columns[j]? = some column →
        ∃ (place : ChunkPlace) (c c' : ColumnChunk),
          m.chunk? i j = some c ∧ m'.chunk? i j = some c' ∧
          place.Holds properties encryption file i j (column, values) c ∧
          place.Holds properties' encryption' file' i j (column, values) c' := by
  obtain ⟨encryption, file, same, identified, placed, released⟩ := finished.placedFile
  obtain ⟨encryption', file', same', identified', placed', released'⟩ := finished'.placedFile
  have secrets := encryption_publicPart_eq (congrArg WriterProperties.encryption settings) same
    same' identified identified'
  obtain ⟨metaData, framed⟩ := placed.alike settings secrets placed'
  refine ⟨encryption, encryption', file, file', same, same', released, released', framed, metaData,
    ?_⟩
  intro i j columns values column hi hj hcolumn
  exact placed.exists_common_place settings secrets placed' hi hj hcolumn

end FileWriter

namespace Sample

/-- The settings with other keys, a longer one and a shorter one. -/
def otherKeys : EncryptionProperties :=
  { encryption with
    footerKey := ⟨List.replicate 32 3, by decide⟩
    columns := ⟨[(own.path, { own with key := some ⟨List.replicate 16 4, by decide⟩ }),
      (shared.path, shared)]⟩ }

theorem otherKeys_finished :
    ∃ m w, FileWriter.Finished schema (properties (some otherKeys)) [columns] m w :=
  FileWriter.exists_finished { byteAt := fun n => (n + 7).toUInt8 } wellFormed (by decide +kernel)

end Sample

/-- The sample columns, written with two sets of keys. -/
theorem FileWriter.layout_of_publicPart_sample : ∃ m m' w w' e e' file file' place c c',
    Finished Sample.schema (Sample.properties (some Sample.encryption)) [Sample.columns] m w ∧
      Finished Sample.schema (Sample.properties (some Sample.otherKeys)) [Sample.columns] m' w' ∧
      e.map FileEncryption.properties = some Sample.encryption ∧
      e'.map FileEncryption.properties = some Sample.otherKeys ∧
      release w = (.ok file, w) ∧ release w' = (.ok file', w') ∧
      SameFrame file file' ∧ m.publicPart = m'.publicPart ∧
      m.chunk? 0 0 = some c ∧ m'.chunk? 0 0 = some c' ∧
      ChunkPlace.Holds place (Sample.properties (some Sample.encryption)) e file 0 0
        (⟨Sample.own.path, .int32⟩, ⟨.int32, [7, 8, 7]⟩) c ∧
      ChunkPlace.Holds place (Sample.properties (some Sample.otherKeys)) e' file' 0 0
        (⟨Sample.own.path, .int32⟩, ⟨.int32, [7, 8, 7]⟩) c' := by
  obtain ⟨m, w, ends⟩ := Sample.finished
  obtain ⟨m', w', ends'⟩ := Sample.otherKeys_finished
  obtain ⟨e, e', file, file', same, same', released, released', framed, alike, places⟩ :=
    layout_of_publicPart ends ends' rfl
  obtain ⟨place, c, c', found, found', holds, holds'⟩ := places 0 0 Sample.columns _ _ rfl rfl rfl
  exact ⟨m, m', w, w', e, e', file, file', place, c, c', ends, ends', same, same', released,
    released', framed, alike, found, found', holds, holds'⟩

end SealedColumns
