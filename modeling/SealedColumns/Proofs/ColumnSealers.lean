import SealedColumns.Encryption.ColumnSealer
import SealedColumns.Proofs.Engines

/-!
# What seals a column

Engines come from the pool of a file, but which engine and which key seal the modules of a
column depends on the properties alone: the pool gives the engine that would be made anew,
and it never refuses a key.
-/

namespace SealedColumns

namespace FileEncryption

/-- The engine for a key is found or made, whatever was made before. -/
theorem sealer_yields (e : FileEncryption) (key : Key) (moduleClass : ModuleClass) :
    Yields (fun _ => True) (e.sealer key moduleClass)
      (· = .ok (key.sealer e.properties.algorithm moduleClass)) := by
  refine .seq_ok (a := key.engine e.properties.algorithm moduleClass) ?_ (.pure rfl)
  rw [← key.create_engine]
  exact EnginePool.engine_yields _

theorem footerSealer_yields (e : FileEncryption) :
    Yields (fun _ => True) e.footerSealer
      (· = .ok (e.properties.footerKey.sealer e.properties.algorithm .metadata)) :=
  e.sealer_yields _ _

theorem columnSealer?_yields (e : FileEncryption) (path : ColumnPath) (moduleClass : ModuleClass) :
    Yields (fun _ => True) (e.columnSealer? path moduleClass)
      (· = .ok ((e.properties.columnKey path).map
        fun key => key.sealer e.properties.algorithm moduleClass)) := by
  rw [columnSealer?]
  cases e.properties.columnKey path with
  | none => exact .pure rfl
  | some key => exact .seq_ok (e.sealer_yields key moduleClass) (.pure rfl)

/-- The sealer of a column chunk, if the column is encrypted. -/
def chunkSealer? (e : FileEncryption) (rowGroup column : Nat) (path : ColumnPath) :
    Option ColumnSealer :=
  (e.properties.columnKey path).map fun key =>
    .start (key.sealer e.properties.algorithm .metadata) (key.sealer e.properties.algorithm .data)
      e.fileAad rowGroup column

end FileEncryption

theorem ColumnSealer.ofColumn?_yields (e : FileEncryption) (rowGroup column : Nat)
    (path : ColumnPath) :
    Yields (fun _ => True) (ofColumn? e rowGroup column path)
      (· = .ok (e.chunkSealer? rowGroup column path)) := by
  rw [ofColumn?, FileEncryption.chunkSealer?]
  refine .seq_ok (e.columnSealer?_yields path .metadata) ?_
  refine .seq_ok (e.columnSealer?_yields path .data) ?_
  cases e.properties.columnKey path <;> exact .pure rfl

end SealedColumns
