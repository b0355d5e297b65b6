import SealedColumns.Cipher.EnginePool
import SealedColumns.Proofs.Operation

/-!
# Engines from a pool

An engine in a pool is the one that would be made anew for its kind. Whoever asks a pool for
an engine therefore gets the same one, whatever was asked for before, and keys have lengths
that engines are made for.
-/

namespace SealedColumns

/-- What seals the modules of a class under a key. -/
def Key.sealer (key : Key) (algorithm : Algorithm) (moduleClass : ModuleClass) : ModuleSealer :=
  ⟨key.engine algorithm moduleClass, key⟩

/-- A key has a length that engines are made for. -/
theorem Key.create_engine (key : Key) (algorithm : Algorithm) (moduleClass : ModuleClass) :
    Engine.create algorithm key.bytes.length moduleClass =
      .ok (key.engine algorithm moduleClass) := by
  rw [Engine.create, checkKeyLength, if_pos key.valid]
  rfl

/-- Making a pooled engine is making the engine. -/
theorem EngineKind.make_engine (kind : EngineKind) :
    kind.make.map PooledEngine.engine =
      Engine.create kind.algorithm kind.keyLength kind.moduleClass := by
  rw [make]
  split
  · next made => exact made.symm
  · next made => exact made.symm

/-- What a pool has for a kind is the engine of this kind. -/
theorem EnginePool.get?_eq_some {pool : EnginePool} {kind : EngineKind} {pooled : PooledEngine}
    (h : pool.get? kind = some pooled) :
    Engine.create kind.algorithm kind.keyLength kind.moduleClass = .ok pooled.engine := by
  rw [get?] at h
  have same := List.find?_some h
  obtain rfl := of_decide_eq_true same
  exact pooled.made

namespace EnginePool

/-- Pooled or not, the engine of a kind is the one that is made for it. -/
theorem engine_yields (kind : EngineKind) :
    Yields (fun _ => True) (engine kind)
      (· = Engine.create kind.algorithm kind.keyLength kind.moduleClass) := by
  refine .get_bind fun pool _ => ⟨?_, trivial⟩
  cases pooled : pool.get? kind with
  | some entry => exact (get?_eq_some pooled).symm
  | none =>
      rw [← kind.make_engine]
      cases kind.make <;> rfl

end EnginePool

end SealedColumns
