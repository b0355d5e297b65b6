import SealedColumns.Cipher.EnginePool
import SealedColumns.Decryption.Properties
import SealedColumns.Reader.ByteSource

/-!
# Reading sessions

Reading a file calls on three parties outside the library: the byte source, the key retriever
and the verifier of the stored prefix. A session keeps the calls in order, failing ones
included, together with the footer key once it was found, the engines made so far and the fact
that the file was closed.

Keys given explicitly take precedence over the retriever. A closed session finds no keys.
-/

namespace SealedColumns

/-- A call to a party outside the library. -/
inductive ExternalCall where
  | read (start length : Nat)
  | retrieve (keyMetadata : Bytes)
  | verify (aadPrefix : Bytes)
  deriving DecidableEq

/-- An entry in the record of a session: a call, and for a key what the key is for. -/
inductive SessionEvent where
  | read (start length : Nat)
  | retrieval (subject : KeySubject) (keyMetadata : Bytes)
  | verification (aadPrefix : Bytes)
  deriving DecidableEq

/-- The call behind an entry. -/
def SessionEvent.call : SessionEvent → ExternalCall
  | .read start length => .read start length
  | .retrieval _ keyMetadata => .retrieve keyMetadata
  | .verification aadPrefix => .verify aadPrefix

/-- What a session remembers. -/
structure ReadState where
  /-- The record of the calls made so far, in order. -/
  events : Array SessionEvent := #[]
  /-- The footer key, once it was found. -/
  footerKey : Option Key := none
  /-- The engines made so far. -/
  engines : EnginePool := {}
  /-- Whether the file was closed. -/
  closed : Bool := false

/-- The calls made so far, in order. -/
def ReadState.calls (s : ReadState) : Array ExternalCall :=
  s.events.map SessionEvent.call

/-- An operation of a reading session. -/
abbrev Session := ExceptT Error (StateM ReadState)

namespace Session

/-- Records a call. -/
def note (event : SessionEvent) : Session Unit :=
  modify fun s => { s with events := s.events.push event }

/-- Reads a range of a byte source. -/
def read (source : ByteSource) (start length : Nat) : Session Bytes := do
  note (.read start length)
  source.get start length

/-- Has a stored prefix verified. -/
def verify (verifier : AadPrefixVerifier) (aadPrefix : Bytes) : Session Unit := do
  note (.verification aadPrefix)
  verifier aadPrefix

/-- Has a key retrieved. -/
def retrieve (retriever : KeyRetriever) (subject : KeySubject) (keyMetadata : Bytes) :
    Session Bytes := do
  note (.retrieval subject keyMetadata)
  retriever keyMetadata

/-- Runs an operation of the engine pool. -/
def onEngines {α : Type} (op : EnginePool.Step α) : Session α := fun s =>
  let (result, engines) := op s.engines
  (result, { s with engines })

/-- The engine of a kind, made now unless it was made before. -/
def engine (kind : EngineKind) : Session Engine :=
  onEngines (EnginePool.engine kind)

/-- Fails once the file is closed. -/
def checkKeysHeld : Session Unit := do
  if (← get).closed then throw .keysReleased

/-- Closes the file and gives up the footer key and the engines. -/
def close : Session Unit :=
  modify fun s => { s with footerKey := none, engines := {}, closed := true }

end Session

/-- The decryption of a file that is open. -/
structure FileDecryption where
  properties : DecryptionProperties
  algorithm : Algorithm
  /-- The associated data of the file: the prefix, if any, and the identifier. -/
  fileAad : Bytes
  /-- What a key retriever needs to find the footer key. -/
  footerKeyMetadata : Option Bytes

namespace FileDecryption

/-- Turns the failure of a retriever into a key that is not found. -/
def retrievalError (subject : KeySubject) (e : Error) : Error :=
  if e.kind = .keyNotFound then e else .keyRetrieval subject e

/-- Finds a key through the retriever. -/
def retrieveKey (d : FileDecryption) (subject : KeySubject) (keyMetadata : Option Bytes) :
    Session Key := do
  let some retriever := d.properties.keyRetriever | throw (.noKeySource subject)
  let some keyMetadata := keyMetadata.filter (!·.isEmpty) | throw (.noKeyMetadata subject)
  let key ← ExceptT.adapt (retrievalError subject) (Session.retrieve retriever subject keyMetadata)
  Key.ofBytes key

/-- The footer key: the one found before, or the explicit one, or one from the retriever. -/
def footerKey (d : FileDecryption) : Session Key := do
  Session.checkKeysHeld
  match (← get).footerKey with
  | some key => return key
  | none =>
    let key ← match d.properties.footerKey with
      | some key => pure key
      | none => d.retrieveKey .footer d.footerKeyMetadata
    modify fun s => { s with footerKey := some key }
    return key

/-- The key of an encrypted column. -/
def columnKey (d : FileDecryption) (path : ColumnPath) (crypto : ColumnCrypto) : Session Key := do
  Session.checkKeysHeld
  match crypto with
  | .footerKey => d.footerKey
  | .columnKey info =>
    match d.properties.columnKey path with
    | some key => return key
    | none => d.retrieveKey (.column path) info.keyMetadata

/-- What opens modules of a class that are sealed under a key. -/
def opener (d : FileDecryption) (key : Key) (moduleClass : ModuleClass) : Session ModuleOpener := do
  return ⟨← Session.engine ⟨d.algorithm, key.bytes.length, moduleClass⟩, key⟩

/-- What opens a sealed footer. -/
def footerOpener (d : FileDecryption) : Session ModuleOpener := do
  d.opener (← d.footerKey) .metadata

/-- What opens the modules of a class of an encrypted column. -/
def columnOpener (d : FileDecryption) (path : ColumnPath) (crypto : ColumnCrypto)
    (moduleClass : ModuleClass) : Session ModuleOpener := do
  d.opener (← d.columnKey path crypto) moduleClass

end FileDecryption

end SealedColumns
