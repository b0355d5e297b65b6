import SealedColumns.Proofs.RelatedRuns

/-!
# Keys that a reader brings along

A key that the reader brought along takes precedence over the retriever: nobody is asked for it,
whatever the reader is asked to do and whatever the file says about its keys. If the reader brought
the footer key and the keys of all columns that have one of their own, the retriever is never asked
for anything, so nothing depends on what it would answer, or on whether there is one.

The record of a session says for each call of the retriever what the key was for. Which columns have
a key of their own is what the file says once it is open.
-/

namespace SealedColumns

/-- The reader has a retriever, and did not bring the key along. -/
def ReaderProperties.MayRetrieve (r : ReaderProperties) (subject : KeySubject) : Prop :=
  ∃ p, r.decryption = some p ∧ p.explicitKey subject = none ∧ p.keyRetriever.isSome = true

/-- The retriever was asked only for keys that the reader did not bring along. -/
def ReadState.RetrievedFor (r : ReaderProperties) (s : ReadState) : Prop :=
  ∀ subject keyMetadata, .retrieval subject keyMetadata ∈ s.events → r.MayRetrieve subject

/-- The reader brought the keys of all columns of the file that have one of their own. -/
def FileInfo.OwnKeysBrought (p : DecryptionProperties) (f : FileInfo) : Prop :=
  ∀ path info, f.Names path (.columnKey info) → (p.columnKey path).isSome = true

/-- The retriever of the reader, if it has one. -/
def ReaderProperties.keyRetriever (r : ReaderProperties) : Option KeyRetriever :=
  r.decryption.bind DecryptionProperties.keyRetriever

@[simp] theorem ReaderProperties.withRetriever_keyRetriever (r : ReaderProperties) :
    r.withRetriever r.keyRetriever = r := by
  rcases r with ⟨_, _ | p⟩ <;> rfl

open ReadState (Lasts RetrievedFor)

variable {r : ReaderProperties} {retriever : Option KeyRetriever}

namespace ReadState

theorem RetrievedFor.start (r : ReaderProperties) : RetrievedFor r {} := by
  intro subject keyMetadata recorded
  cases recorded
  contradiction

/-- Recording another call keeps it so, unless the call asks for a key that was brought along. -/
theorem RetrievedFor.note {event : SessionEvent}
    (allowed : ∀ subject keyMetadata, event = .retrieval subject keyMetadata →
      r.MayRetrieve subject) :
    Preserves (RetrievedFor r) (Session.note event) := by
  refine .of_yields (.modify ?_)
  intro s hs subject keyMetadata recorded
  obtain earlier | now := Array.mem_push.mp recorded
  · exact hs subject keyMetadata earlier
  · exact allowed subject keyMetadata now.symm

theorem RetrievedFor.lasts : Lasts (RetrievedFor r) where
  read start length := RetrievedFor.note (by rintro _ _ ⟨⟩)
  verification aadPrefix := RetrievedFor.note (by rintro _ _ ⟨⟩)
  engines _ hs _ := hs

end ReadState

namespace FileDecryption

variable {d : FileDecryption}

/-- A retriever is asked for a key that was not brought along. -/
theorem retrieveKey_retrievedFor (hd : r.decryption = some d.properties) (subject : KeySubject)
    (absent : d.properties.explicitKey subject = none) (keyMetadata : Option Bytes) :
    Preserves (RetrievedFor r) (d.retrieveKey subject keyMetadata) := by
  refine retrieveKey_preserves fun present stored => ReadState.RetrievedFor.note ?_
  rintro _ _ ⟨⟩
  exact ⟨d.properties, hd, absent, present⟩

theorem footerKey_retrievedFor (hd : r.decryption = some d.properties) :
    Preserves (RetrievedFor r) d.footerKey :=
  footerKey_preserves (fun absent => retrieveKey_retrievedFor hd .footer absent _) fun _ _ hs => hs

theorem columnKey_retrievedFor (hd : r.decryption = some d.properties) (path : ColumnPath)
    (crypto : ColumnCrypto) : Preserves (RetrievedFor r) (d.columnKey path crypto) :=
  columnKey_preserves (footerKey_retrievedFor hd) fun absent _ =>
    retrieveKey_retrievedFor hd (.column path) absent _

/-- A footer key that was brought along is found in the same way with any retriever. -/
theorem footerKey_withRetriever (brought : d.properties.footerKey.isSome = true) :
    (d.withRetriever retriever).footerKey = d.footerKey := by
  obtain ⟨key, hkey⟩ := Option.isSome_iff_exists.mp brought
  rw [footerKey, footerKey, withRetriever, DecryptionProperties.withRetriever]
  dsimp only
  rw [hkey]

theorem columnKey_withRetriever {path : ColumnPath} {crypto : ColumnCrypto}
    (footer : d.properties.footerKey.isSome = true)
    (own : ∀ info, crypto = .columnKey info → (d.properties.columnKey path).isSome = true) :
    (d.withRetriever retriever).columnKey path crypto = d.columnKey path crypto := by
  cases crypto with
  | footerKey => rw [columnKey, columnKey, footerKey_withRetriever footer]
  | columnKey info =>
      obtain ⟨key, hkey⟩ := Option.isSome_iff_exists.mp (own info rfl)
      have same : (d.withRetriever retriever).properties.columnKey path = some key := hkey
      rw [columnKey, columnKey, hkey, same]

end FileDecryption

/-- A file is decrypted by the properties that it was opened with. -/
theorem OpenFile.properties_of_openSource {source : ByteSource} {f : OpenFile}
    (opened : (OpenFile.openSource r source {}).1 = .ok f) :
    ∀ d ∈ f.info.decryption, r.decryption = some d.properties := by
  have keys : ∀ p ∈ r.decryption, p.FooterKeyBeside (fun s t => s = t ∧ RetrievedFor r s)
      r.keyRetriever := by
    intro p hp d hd
    have own : d.withRetriever r.keyRetriever = d := by
      rw [ReaderProperties.keyRetriever, hp, ← hd]
      rfl
    rw [own]
    exact (FileDecryption.footerKey_retrievedFor (hp.trans (congrArg some hd.symm))).sideBySide
  obtain ⟨alike, _⟩ :=
    OpenFile.openSource_beside ReadState.RetrievedFor.lasts.copies keys source {} {} ⟨rfl, .start r⟩
  rw [ReaderProperties.withRetriever_keyRetriever, opened] at alike
  cases alike with
  | ok same => exact same.properties

namespace Reading

variable {source : ByteSource}

/-- If no key is found in another way with the other retriever, the readers stay beside each
other. -/
theorem answerable_of_same
    (footer : ∀ p ∈ r.decryption, ∀ d : FileDecryption, d.properties = p →
      (d.withRetriever retriever).footerKey = d.footerKey)
    (columns : ∀ f, (OpenFile.openSource r source {}).1 = .ok f → ∀ d ∈ f.info.decryption,
      ∀ path crypto, f.info.Names path crypto →
        (d.withRetriever retriever).columnKey path crypto = d.columnKey path crypto)
    (request : ReadRequest) :
    Answerable (fun s t => s = t ∧ RetrievedFor r s) retriever r source request where
  companions := ReadState.RetrievedFor.lasts.copies
  keys := by
    intro f opened d hd path crypto named
    rw [columns f opened d hd path crypto named]
    have decrypted := OpenFile.properties_of_openSource opened d hd
    exact (FileDecryption.columnKey_retrievedFor decrypted path crypto).sideBySide
  opening := by
    rintro _
    refine ⟨⟨rfl, .start r⟩, ?_⟩
    intro p hp d hd
    rw [footer p hp d hd]
    exact (FileDecryption.footerKey_retrievedFor (hp.trans (congrArg some hd.symm))).sideBySide
  closing := by
    rintro _
    have kept : Preserves (RetrievedFor r) Session.close := .of_yields (.modify fun _ hs => hs)
    exact kept.sideBySide

/-- A reader stands beside itself at the start. -/
theorem Beside.start : Beside (fun s t => s = t ∧ RetrievedFor r s) retriever r source {} {} where
  session := ⟨rfl, .start r⟩
  file := rfl
  opened := by
    rintro _ ⟨⟩
  pages := rfl
  columns := rfl

/-- Whatever is requested, the retriever is asked only for keys that were not brought along. -/
theorem serve_retrievedFor (r : ReaderProperties) (source : ByteSource)
    (requests : List ReadRequest) :
    RetrievedFor r (serve r source {} requests).2.session := by
  have able (request : ReadRequest) : Answerable (fun s t => s = t ∧ RetrievedFor r s)
      r.keyRetriever r source request := by
    refine answerable_of_same ?_ ?_ request
    · rintro p hp d rfl
      rw [ReaderProperties.keyRetriever, hp]
      rfl
    · intro f opened d hd path crypto _
      rw [ReaderProperties.keyRetriever, OpenFile.properties_of_openSource opened d hd]
      rfl
  obtain ⟨_, beside⟩ := serve_beside (fun request _ => able request) .start
  exact beside.session.2

/-- With all keys brought along, two readers whose retrievers differ stay beside each other. -/
theorem answerable_of_brought {p : DecryptionProperties} (hp : r.decryption = some p)
    (footer : p.footerKey.isSome = true)
    (columns : ∀ f, (OpenFile.openSource r source {}).1 = .ok f → f.info.OwnKeysBrought p)
    (request : ReadRequest) :
    Answerable (fun s t => s = t ∧ RetrievedFor r s) retriever r source request := by
  refine answerable_of_same ?_ ?_ request
  · rintro p' hp' d rfl
    obtain rfl := Option.some.inj (hp.symm.trans hp')
    exact FileDecryption.footerKey_withRetriever footer
  · intro f opened d hd path crypto named
    obtain rfl := Option.some.inj (hp.symm.trans (OpenFile.properties_of_openSource opened d hd))
    refine FileDecryption.columnKey_withRetriever footer ?_
    rintro info rfl
    exact columns f opened path info named

/-- A retriever is not asked for a key that was brought along, whatever is requested in
whatever order. If the footer key was brought along and so were the keys of all columns that
have one of their own, the retriever is not asked at all, and with any other retriever, or
none, the replies are the same. -/
theorem serve_of_brought (r : ReaderProperties) (source : ByteSource) (p : DecryptionProperties)
    (hp : r.decryption = some p) (requests : List ReadRequest) :
    (∀ subject keyMetadata,
      .retrieval subject keyMetadata ∈ (serve r source {} requests).2.session.events →
        p.explicitKey subject = none) ∧
      (p.footerKey.isSome = true →
        (∀ f, (OpenFile.openSource r source {}).1 = .ok f → f.info.OwnKeysBrought p) →
        (∀ subject keyMetadata,
          .retrieval subject keyMetadata ∉ (serve r source {} requests).2.session.events) ∧
        ∀ retriever,
          (serve (r.withRetriever retriever) source {} requests).1 =
            (serve r source {} requests).1 ∧
          (serve (r.withRetriever retriever) source {} requests).2.session =
            (serve r source {} requests).2.session) := by
  have asked := serve_retrievedFor r source requests
  refine ⟨?_, fun footer columns => ?_⟩
  · intro subject keyMetadata recorded
    obtain ⟨p', hp', absent, _⟩ := asked subject keyMetadata recorded
    obtain rfl := Option.some.inj (hp.symm.trans hp')
    exact absent
  · have same (retriever : Option KeyRetriever) :
        (serve r source {} requests).1 = (serve (r.withRetriever retriever) source {} requests).1 ∧
          (serve r source {} requests).2.session =
            (serve (r.withRetriever retriever) source {} requests).2.session := by
      have able (request : ReadRequest) : Answerable (fun s t => s = t ∧ RetrievedFor r s)
          retriever r source request := answerable_of_brought hp footer columns request
      obtain ⟨replies, beside⟩ := serve_beside (fun request _ => able request) .start
      exact ⟨replies, beside.session.1⟩
    refine ⟨?_, fun retriever => ⟨(same retriever).1.symm, (same retriever).2.symm⟩⟩
    -- Without a retriever there is nobody to ask, and the session is the same.
    intro subject keyMetadata recorded
    rw [(same none).2] at recorded
    obtain ⟨p', hp', _, present⟩ :=
      serve_retrievedFor (r.withRetriever none) source requests subject keyMetadata recorded
    rw [ReaderProperties.withRetriever, hp] at hp'
    cases hp'
    cases present

end Reading

/-! ### A finished file -/

/-- A chunk of a finished file names the key that its column was encrypted with. -/
theorem OpenFile.Reflects.chunkCrypto_of_names {schema : Schema} {properties : WriterProperties}
    {encryption : Option FileEncryption} {groups : List (List ColumnValues)} {m : FileMetaData}
    {decryption : Option FileDecryption} {f : OpenFile} {path : ColumnPath} {crypto : ColumnCrypto}
    (reflects : Reflects schema properties encryption groups m decryption f)
    (named : f.info.Names path crypto) : chunkCrypto encryption path = some crypto := by
  obtain ⟨i, j, column, c, located, rfl, hcrypto⟩ := named
  obtain ⟨g, hg, hc⟩ := located.chunk
  obtain ⟨file, stored, _⟩ := reflects.stored
  have known : (m.rowGroups.map RowGroup.columns)[i]? = some g.columns := by
    rw [← reflects.describes.columns, List.getElem?_map, Array.getElem?_toList, hg]
    rfl
  rw [List.getElem?_map, Option.map_eq_some_iff] at known
  obtain ⟨written, hwritten, same⟩ := known
  have group : ∃ columns, groups[i]? = some columns := by
    have inside := (List.getElem?_eq_some_iff.mp hwritten).1
    rw [stored.size] at inside
    exact ⟨_, List.getElem?_eq_getElem inside⟩
  obtain ⟨columns, hi⟩ := group
  obtain ⟨_, g', hg', chunks⟩ := stored.stored i columns hi
  obtain rfl := Option.some.inj (hwritten.symm.trans hg')
  rw [← same] at hc
  have place : ∃ values, (schema.columns.zip columns)[j]? = some (column, values) := by
    have inside := (List.getElem?_eq_some_iff.mp hc).1
    rw [chunks.length] at inside
    have paired := List.getElem?_eq_getElem inside
    have first := (List.getElem?_zip_eq_some.mp paired).1
    have same := located.column
    rw [reflects.describes.schema, first] at same
    cases same
    exact ⟨_, paired⟩
  obtain ⟨values, paired⟩ := place
  obtain ⟨_, c', hc', _, entry, _⟩ := chunks.chunk j column values paired
  obtain rfl := Option.some.inj (hc.symm.trans hc')
  exact entry.crypto.symm.trans hcrypto

namespace Sample

/-- A reader with all keys, and a retriever that knows none. -/
def bringing : DecryptionProperties :=
  { reader fun _ => .error .footerMagic with
    columns := ⟨[(own.path, ⟨own.path, some ownKey⟩)]⟩ }

def bringingReader : ReaderProperties :=
  { decryption := some bringing }

theorem bringing_findsColumn (path : ColumnPath) : bringing.FindsColumn encryption path := by
  intro c key found hkey
  obtain ⟨rfl, _, rfl⟩ := own_of_get? found hkey
  exact .brought rfl

theorem bringing_opens : bringing.OpensFooter encryption where
  footerKey := .brought rfl
  aadPrefix := knowsPrefix fun _ => .error .footerMagic
  metadata := built.metadataNonempty

end Sample

theorem Reading.serve_of_brought_sample : ∃ m w file f s,
    FileWriter.Finished Sample.schema (Sample.properties (some Sample.encryption))
        [Sample.columns] m w ∧
      FileWriter.release w = (.ok file, w) ∧
      OpenFile.openSource Sample.bringingReader ⟨.memory, file⟩ {} = (.ok f, s) ∧
      (serve (Sample.bringingReader.withRetriever none) ⟨.memory, file⟩ {}
        [.openSource, .readColumn 0 0]).1 =
          [.ok (.opened f.info.bare f.info.algorithm), .ok (.values ⟨.int32, [7, 8, 7]⟩)] := by
  obtain ⟨m, w, finished⟩ := Sample.finished
  have decrypting : Sample.bringingReader.decryption = some Sample.bringing := rfl
  obtain ⟨e, file, f, s, same, released, opening, openFile, kept⟩ :=
    OpenFile.openSource_of_finished finished rfl decrypting Sample.bringing_opens
  have brought : ∀ f', (OpenFile.openSource Sample.bringingReader ⟨.memory, file⟩ {}).1 = .ok f' →
      f'.info.OwnKeysBrought Sample.bringing := by
    intro f' opened path info named
    rw [opening] at opened
    cases opened
    obtain ⟨c, key, found, hkey, _⟩ :=
      EncryptionProperties.columnKey_of_ownKey (openFile.chunkCrypto_of_names named)
    rw [same] at found
    obtain ⟨rfl, _⟩ := Sample.own_of_get? found hkey
    rfl
  obtain ⟨_, independent⟩ := serve_of_brought Sample.bringingReader ⟨.memory, file⟩ Sample.bringing
    rfl [.openSource, .readColumn 0 0]
  have finds : Sample.bringing.FindsColumn e.properties Sample.own.path := by
    rw [same]
    exact Sample.bringing_findsColumn _
  refine ⟨m, w, file, f, s, finished, released, opening, ?_⟩
  rw [((independent rfl brought).2 none).1, serve]
  dsimp only
  rw [reply_openSource opening, serve]
  dsimp only
  rw [Sample.reply_readColumn openFile kept finds, serve]

end SealedColumns
