import DbfAnonymizer.Engine.PassOne

/-! Pass two over all tables: each table is written with its evidence, and the coordinator accepts it in order. -/
namespace DbfAnonymizer.Engine
open Transforms Vault Lib Verification

/-- What one worker hands back: the records it wrote and the evidence of its shard. -/
structure TableWritten where
  relativePath : Text
  records : List DirectRecord
  observations : List RelationObservation

/-- One record: transformed, then observed for the relations that read its table. -/
def writeRecord (sources : PassTwoSources) (relations : List RelationDirective) (directive : TableDirective)
    (schema : TableSchema) (record : DirectRecord) : Except Raised (DirectRecord × List RelationObservation) := do
  let out ← transformRecord sources schema directive record
  let observations ← observeRelations .after relations directive.relativePath out.values
  return (out, observations)

def writeTable (sources : PassTwoSources) (relations : List RelationDirective) (source : DatasetFiles)
    (directive : TableDirective) : Except Raised TableWritten := do
  let table ← source.readTable directive.relativePath
  let written ← table.records.mapM (writeRecord sources relations directive table.schema)
  return ⟨directive.relativePath, written.map Prod.fst, written.flatMap Prod.snd⟩

/-- What the coordinator has merged and accepted so far. -/
structure PassTwoProgress where
  evidence : EvidenceStore
  written : List TableWritten

def PassTwoProgress.accept (batch : ℕ) (progress : PassTwoProgress) (table : TableWritten) : PassTwoProgress where
  evidence := progress.evidence.mergeRelationShard (.closedShard batch table.observations)
  written := progress.written ++ [table]

/-- The tables one after the other, as a single worker writes them. -/
def writeSequentially (batch : ℕ) (write : TableDirective → Except Raised TableWritten) (progress : PassTwoProgress)
    (tables : List TableDirective) : Except Raised PassTwoProgress :=
  tables.foldlM (fun progress directive => (write directive).map (progress.accept batch)) progress

/-- The last flush, the comparison of the relations and the counts of both passes; `spoolBytes` is the size of the
spool's file. What the publication adds is not set yet. -/
def PassTwoProgress.result (relations : List RelationDirective) (outcome : PassOneOutcome) (spoolBytes : ℕ)
    (progress : PassTwoProgress) : TwoPassResult where
  tablesWritten := progress.written.map TableWritten.relativePath
  passOneRecordsScanned := outcome.recordsScanned
  passOneDeletedScanned := outcome.deletedScanned
  passTwoRecordsWritten := (progress.written.map fun t => t.records.length).sum
  textAllocated := outcome.textAllocated
  textReused := outcome.textReused
  numericAllocated := outcome.numericAllocated.rows
  temporalOffsetAllocated := outcome.temporalOffset.isSome
  relations := compareRelations relations (progress.evidence.flush .passOneSpool)
  evidenceSpoolBytes := spoolBytes
  readStreams := outcome.readStreams ++ progress.written.map fun t => ("pass2".toList, t.relativePath)
  operationId := none
  outputFingerprint := none
  reusedExisting := false
  protectedStateCreated := false
  indexArtifacts := []

/-- Pass two with one worker: the accepted tables and the result. -/
def runPassTwo (batch : ℕ) (plan : EnginePlan) (source : DatasetFiles) (vault : VaultState) (temporalDomainId : Text)
    (outcome : PassOneOutcome) (render : Value → Text) (spoolBytes : ℕ) (evidence : EvidenceStore) :
    Except Raised (List TableWritten × TwoPassResult) := do
  let sources ← passTwoSources plan vault temporalDomainId outcome.textDomainId render
  let progress ← writeSequentially batch (writeTable sources plan.relations source) ⟨evidence, []⟩ plan.tables
  return (progress.written, progress.result plan.relations outcome spoolBytes)

section Sequential
variable {batch : ℕ} {write : TableDirective → Except Raised TableWritten} {progress final : PassTwoProgress}
  {tables : List TableDirective} {written : List TableWritten}

def PassTwoProgress.acceptAll (batch : ℕ) (progress : PassTwoProgress) (written : List TableWritten) : PassTwoProgress :=
  written.foldl (PassTwoProgress.accept batch) progress

theorem written_acceptAll (batch : ℕ) (progress : PassTwoProgress) (written : List TableWritten) :
    (progress.acceptAll batch written).written = progress.written ++ written := by
  induction written generalizing progress with
  | nil => simp [PassTwoProgress.acceptAll]
  | cons table written ih =>
    have hrest := ih (progress.accept batch table)
    rw [PassTwoProgress.acceptAll, List.foldl_cons]
    exact hrest.trans (by simp [PassTwoProgress.accept])

theorem result_acceptAll (batch : ℕ) (relations : List RelationDirective) (outcome : PassOneOutcome) (spoolBytes : ℕ)
    (evidence : EvidenceStore) (written : List TableWritten) :
    ((PassTwoProgress.acceptAll batch ⟨evidence, []⟩ written).result relations outcome spoolBytes).tablesWritten =
        written.map TableWritten.relativePath ∧
      ((PassTwoProgress.acceptAll batch ⟨evidence, []⟩ written).result relations outcome spoolBytes).passTwoRecordsWritten =
        (written.map fun t => t.records.length).sum := by
  have hwritten := written_acceptAll batch ⟨evidence, []⟩ written
  rw [List.nil_append] at hwritten
  rw [PassTwoProgress.result, hwritten]
  exact ⟨rfl, rfl⟩

theorem writeSequentially_eq_ok_iff : writeSequentially batch write progress tables = .ok final ↔
    ∃ written, tables.mapM write = .ok written ∧ final = progress.acceptAll batch written := by
  induction tables generalizing progress with
  | nil =>
    constructor
    · intro h
      cases h
      exact ⟨[], rfl, rfl⟩
    · intro h
      obtain ⟨written, hwritten, rfl⟩ := h
      cases hwritten
      rfl
  | cons directive tables ih =>
    unfold writeSequentially at ih ⊢
    rw [List.foldlM_cons, List.mapM_cons]
    cases hone : write directive with
    | error e => simp [Except.map]
    | ok table =>
      rw [Except.map, ok_bind, ih, ok_bind]
      constructor
      · intro h
        obtain ⟨written, hwritten, rfl⟩ := h
        exact ⟨table :: written, by rw [hwritten]; rfl, rfl⟩
      · intro h
        obtain ⟨all, hall, rfl⟩ := h
        obtain ⟨written, hwritten, hall⟩ := bind_eq_ok.mp hall
        cases hall
        exact ⟨written, hwritten, rfl⟩

end Sequential
end DbfAnonymizer.Engine
