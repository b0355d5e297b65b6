import SealedColumns.Proofs.StoredChunks
import SealedColumns.Writer.FileWriter

/-!
# Chunks that are forecast

What sealing adds to a module depends on the algorithm and the class of the module, but not on
the key or on what is drawn at random. So the metadata of a chunk and its offset index can be
told before the chunk is written, from the planned pages, the position of the chunk and the
bytes that sealing adds.
-/

namespace SealedColumns

/-- The bytes that the stored form of a module has beyond its plaintext. -/
def sealingOverhead (sealing : Option ChunkSealing) (moduleClass : ModuleClass) : Nat :=
  match sealing with
  | none => 0
  | some s => lengthWidth + (s.engine moduleClass).sizeDelta

theorem StoredModule.length_eq {sealing : Option ChunkSealing} {moduleClass : ModuleClass}
    {kind : ModuleKind} {page : Option Nat} {plaintext stored : Bytes}
    (h : StoredModule sealing moduleClass kind page plaintext stored) :
    stored.length = plaintext.length + sealingOverhead sealing moduleClass := by
  cases sealing with
  | none => exact congrArg List.length h
  | some s =>
      obtain ⟨aad, _, seals⟩ := h
      have length := seals.length
      change stored.length = lengthWidth + (plaintext.length + (s.engine moduleClass).sizeDelta)
        at length
      rw [length, sealingOverhead]
      omega

/-- The length of a page with its stored header and its body before sealing. -/
def PlannedPage.plainLength (overhead : ModuleClass → Nat) (q : PlannedPage) : Nat :=
  ChunkPages.headerLength + overhead .metadata + q.body.length

namespace PlannedPage.StoredAs

variable {sealing : Option ChunkSealing} {page : Nat} {q : PlannedPage} {header body : Bytes}

theorem plainLength_eq (h : q.StoredAs sealing page header body) :
    header.length + q.body.length = q.plainLength (sealingOverhead sealing) := by
  rw [plainLength, h.header_stored.length_eq, length_encode_header]

theorem length_eq (h : q.StoredAs sealing page header body) :
    (header ++ body).length =
      q.plainLength (sealingOverhead sealing) + sealingOverhead sealing .data := by
  rw [List.length_append, h.body_stored.length_eq, ← h.plainLength_eq, Nat.add_assoc]

end PlannedPage.StoredAs

namespace FileWriter.ChunkProgress

/-- What is known about a chunk after pages that start at `offset`, with the
bytes that sealing adds. -/
def forecast (overhead : ModuleClass → Nat) :
    (p : ChunkProgress) → (offset : Nat) → List PlannedPage → Except Error ChunkProgress
  | p, _, [] => return p
  | p, offset, q :: rest => do
    let plain := q.plainLength overhead
    let p ← p.record q offset plain (plain + overhead .data)
    forecast overhead p (offset + (plain + overhead .data)) rest

/-- The progress apart from what seals the modules. -/
def unsealed (p : ChunkProgress) : ChunkProgress :=
  { p with sealer := none }

/-- What is taken into account of a page does not depend on what seals the modules. -/
theorem record_unsealed {p p₁ : ChunkProgress} {q : PlannedPage} {offset plain stored : Nat}
    (h : p.record q offset plain stored = .ok p₁) :
    p.unsealed.record q offset plain stored = .ok p₁.unsealed := by
  rw [record] at h ⊢
  cases hkind : q.kind with
  | dictionary =>
      simp only [hkind] at h ⊢
      cases h
      rfl
  | data =>
      simp only [hkind] at h ⊢
      obtain ⟨start, hstart, h⟩ := Except.bind_eq_ok.mp h
      obtain ⟨size, hsize, h⟩ := Except.bind_eq_ok.mp h
      obtain ⟨row, hrow, h⟩ := Except.bind_eq_ok.mp h
      cases h
      rw [hstart, hsize, hrow]
      rfl

end FileWriter.ChunkProgress

/-- The metadata and the offset index of a chunk that starts at `start`. -/
def WriterProperties.forecast (p : WriterProperties) (overhead : ModuleClass → Nat)
    (column : Column × ColumnValues) (start : Nat) :
    Except Error (ColumnMetaData × OffsetIndex) := do
  let pages ← PagePlan.ofValues column.2 p.pageRowLimit (p.usesDictionary column.1.path)
  let progress ← FileWriter.ChunkProgress.forecast overhead { sealer := none } start pages
  let metaData ← progress.metaData column.1 column.2.length start
  return (metaData, ⟨progress.locations.reverse⟩)

/-- What is known after the planned pages gives the metadata and the offset index. -/
theorem WriterProperties.forecast_of_progress {p : WriterProperties} {overhead : ModuleClass → Nat}
    {column : Column × ColumnValues} {start : Nat} {pages : List PlannedPage}
    {sealer : Option ColumnSealer} {progress : FileWriter.ChunkProgress} {m : ColumnMetaData}
    (plan : PagePlan.ofValues column.2 p.pageRowLimit (p.usesDictionary column.1.path) = .ok pages)
    (reached : FileWriter.ChunkProgress.forecast overhead
      (FileWriter.ChunkProgress.unsealed { sealer }) start pages = .ok progress.unsealed)
    (metaData : progress.metaData column.1 column.2.length start = .ok m) :
    p.forecast overhead column start = .ok (m, ⟨progress.locations.reverse⟩) := by
  rw [WriterProperties.forecast, Except.bind_eq_ok]
  refine ⟨pages, plan, Except.bind_eq_ok.mpr ⟨_, reached, Except.bind_eq_ok.mpr ⟨m, metaData, rfl⟩⟩⟩

end SealedColumns
