import SealedColumns.Cipher.Engine

/-!
# Engine pools

The engines of a file are made when they are first needed and shared by all its modules
from then on. A pool knows them by what they were made for: the algorithm, the length of
the keys and the class of the modules. A module sealer or a module opener is an engine
together with a key that it takes.
-/

namespace SealedColumns

/-- What an engine is made for. -/
structure EngineKind where
  algorithm : Algorithm
  keyLength : Nat
  moduleClass : ModuleClass
  deriving DecidableEq

/-- An engine in a pool. It is the one that is made for its kind. -/
structure PooledEngine where
  kind : EngineKind
  engine : Engine
  made : Engine.create kind.algorithm kind.keyLength kind.moduleClass = .ok engine

/-- Makes the engine of a kind. -/
def EngineKind.make (kind : EngineKind) : Except Error PooledEngine :=
  match made : Engine.create kind.algorithm kind.keyLength kind.moduleClass with
  | .ok engine => .ok ⟨kind, engine, made⟩
  | .error e => .error e

/-- The engines made so far. -/
structure EnginePool where
  /-- The engines, latest first. -/
  entries : List PooledEngine := []

namespace EnginePool

/-- The engine of a kind, if it was made before. -/
def get? (pool : EnginePool) (kind : EngineKind) : Option PooledEngine :=
  pool.entries.find? (·.kind = kind)

/-- Adds an engine. -/
def put (pool : EnginePool) (made : PooledEngine) : EnginePool :=
  ⟨made :: pool.entries⟩

/-- An operation on a pool. -/
abbrev Step (α : Type) := ExceptT Error (StateM EnginePool) α

/-- The engine of a kind, made now unless it was made before. -/
def engine (kind : EngineKind) : Step Engine := do
  match (← get).get? kind with
  | some pooled => return pooled.engine
  | none =>
    let made ← kind.make
    modify fun pool => pool.put made
    return made.engine

end EnginePool

/-- Seals modules of one class under one key. -/
structure ModuleSealer where
  engine : Engine
  key : Key

namespace ModuleSealer

/-- The sealed module of a plaintext under a fresh nonce. -/
def encrypt (s : ModuleSealer) (aad plaintext : Bytes) :
    ExceptT Error (StateM RandomSource) Bytes :=
  s.engine.encrypt plaintext s.key.bytes aad

end ModuleSealer

/-- Opens modules of one class that are sealed under one key. -/
structure ModuleOpener where
  engine : Engine
  key : Key

namespace ModuleOpener

/-- The plaintext of a sealed module. -/
def decrypt (o : ModuleOpener) (aad sealedModule : Bytes) : Except Error Bytes :=
  o.engine.decrypt sealedModule o.key.bytes aad

end ModuleOpener

end SealedColumns
