import DbfAnonymizer.Verification.Tables

/-! The dataset verification over all tables, and exactly when it records no failure. -/
namespace DbfAnonymizer.Verification
open Transforms Vault Lib

inductive IdxStatus
  | omittedDataOnly | omittedUnverified | rebuiltVerified
  deriving DecidableEq, Repr

structure StandaloneIdxEvidence where
  artifactPath : Text
  status : IdxStatus
  sourceSha256 : Text
  outputSha256 : Option Text
  deriving DecidableEq, Repr

/-- The facts of a public result that the verification compares with the files. -/
structure PseudonymizationResult where
  sourceFingerprint : Text
  outputFingerprint : Text
  tablePaths : List Text
  dbcBoundTablePaths : List Text
  tableCount : ℕ
  recordCount : ℕ
  indexArtifacts : List StandaloneIdxEvidence

/-- A dataset directory: its fingerprint, its files with their digests, and its readable tables. -/
structure DatasetFiles where
  fingerprint : Text
  paths : List Text
  sha256 : Text → Option Text
  table : Text → Option StoredTable

/-- One verification: the result, both datasets, the vault, and what the vault phase found. That phase
compares identities, the receipt, the assurance and the mapping domains; it reads no record stream. -/
structure VerificationInput where
  result : PseudonymizationResult
  source : DatasetFiles
  output : DatasetFiles
  vault : VaultState
  vaultPhase : Except Raised Findings

/-- The suffix of a path's last segment, with its dot. -/
def pathSuffix (path : Text) : Text :=
  let name := (path.reverse.takeWhile (· ≠ '/')).reverse
  let extension := (name.reverse.takeWhile (· ≠ '.')).reverse
  if extension ≠ [] ∧ extension.length + 1 < name.length then '.' :: extension else []

def withSuffix (path suffix : Text) : Text := path.take (path.length - (pathSuffix path).length) ++ suffix

def fptSuffix : Text := ['.', 'f', 'p', 't']
def idxSuffix : Text := ['.', 'i', 'd', 'x']
def cdxSuffix : Text := ['.', 'c', 'd', 'x']

def schemaUnreadable : Raised := .typed .dbfbridgeFailure "engine" "ENGINE_READ_SCHEMA_FAILED"

def DatasetFiles.readTable (files : DatasetFiles) (path : Text) : Except Raised StoredTable :=
  match files.table path with
  | some table => .ok table
  | none => .error schemaUnreadable

/-- The record stream of a path, and the number of records over some paths. -/
def DatasetFiles.recordsOf (files : DatasetFiles) (path : Text) : List DirectRecord :=
  ((files.table path).map StoredTable.records).getD []

def DatasetFiles.recordTotal (files : DatasetFiles) (paths : List Text) : ℕ :=
  (paths.map fun path => (files.recordsOf path).length).sum

theorem DatasetFiles.readTable_eq_ok {files : DatasetFiles} {path : Text} {table : StoredTable} :
    files.readTable path = .ok table ↔ files.table path = some table := by
  unfold readTable
  cases files.table path <;> simp

theorem DatasetFiles.recordsOf_eq {files : DatasetFiles} {path : Text} {table : StoredTable}
    (h : files.table path = some table) : files.recordsOf path = table.records := by
  simp [recordsOf, h]

namespace VerificationInput
variable (V : VerificationInput)

def rebuiltIdxPaths : List Text :=
  (V.result.indexArtifacts.filter (·.status = .rebuiltVerified)).map StandaloneIdxEvidence.artifactPath

/-- The memo companions of the planned tables whose source schema has memo fields. -/
def memoCompanions (sources : List (Text × StoredTable)) : List Text :=
  (sources.filter (·.2.schema.hasMemoFields)).map fun s => withSuffix s.1 fptSuffix

def expectedOutput (sources : List (Text × StoredTable)) : List Text :=
  V.result.tablePaths ++ memoCompanions sources ++ V.rebuiltIdxPaths

def missingFinding (sources : List (Text × StoredTable)) (path : Text) : FindingCode :=
  if path ∈ memoCompanions sources then .memoCompanionMissing
  else if path ∈ V.rebuiltIdxPaths then .standaloneIdxEvidenceMismatch
  else .tableMissing

def unexpectedFinding (path : Text) : Findings :=
  let suffix := (pathSuffix path).map Char.toLower
  if suffix = idxSuffix then ⟨[.standaloneIdxEvidenceMismatch], []⟩
  else if suffix = cdxSuffix then ⟨[], [.indexArtifactUnverified]⟩
  else ⟨[.unexpectedOutputArtifact], []⟩

def topologyFindings (sources : List (Text × StoredTable)) : Findings :=
  let dbcBound := (sources.filter (·.2.schema.dbcBound)).map Prod.fst
  let missing := (V.expectedOutput sources).filter (· ∉ V.output.paths)
  let unexpected := (V.output.paths.filter (· ∉ V.expectedOutput sources)).map unexpectedFinding
  unexpected.foldl Findings.append
    ⟨failWhen (dbcBound ≠ V.result.dbcBoundTablePaths) .sourceDbcInventoryMismatch ++
      missing.map (V.missingFinding sources), []⟩

def idxFinding (item : StandaloneIdxEvidence) : Findings :=
  ⟨failWhen (V.source.sha256 item.artifactPath ≠ some item.sourceSha256) .standaloneIdxEvidenceMismatch ++
      failWhen (item.status = .rebuiltVerified ∧
        (item.outputSha256 = none ∨ V.output.sha256 item.artifactPath ≠ item.outputSha256))
        .standaloneIdxEvidenceMismatch,
    if item.status = .omittedUnverified then [.standaloneIdxDefinitionUnavailable] else []⟩

/-- One planned table: `none` when a topology finding already accounts for it. -/
def verifyPlannedTable (sources : List (Text × StoredTable)) (path : Text) :
    Except Raised (Option (List FindingCode × ℕ)) :=
  let memoRelative := withSuffix path fptSuffix
  if path ∉ V.output.paths then .ok none
  else if memoRelative ∈ memoCompanions sources ∧ memoRelative ∉ V.output.paths then .ok none
  else do
    let source ← V.source.readTable path
    let output ← V.output.readTable path
    let verdict ← verifyTable V.vault path source output
    return some verdict

/-- The findings, the record count and the table count of one verification. -/
def verify : Except Raised (Findings × ℕ × ℕ) := do
  let sources ← V.result.tablePaths.mapM fun path => (V.source.readTable path).map (path, ·)
  let vaultFindings ← V.vaultPhase
  let verdicts ← V.result.tablePaths.mapM (V.verifyPlannedTable sources)
  let scanned := verdicts.reduceOption
  let recordCount := (scanned.map Prod.snd).sum
  let topology := V.topologyFindings sources
  let idx := (V.result.indexArtifacts.map V.idxFinding).foldl Findings.append ⟨[], []⟩
  return (⟨failWhen (V.source.fingerprint ≠ V.result.sourceFingerprint) .sourceFingerprintMismatch ++
      topology.failures ++ idx.failures ++ vaultFindings.failures ++ scanned.flatMap Prod.fst ++
      failWhen (V.output.fingerprint ≠ V.result.outputFingerprint) .outputFingerprintMismatch ++
      failWhen (scanned.length ≠ V.result.tableCount ∨ recordCount ≠ V.result.recordCount)
        .recordCountMismatch,
    topology.partials ++ idx.partials ++ vaultFindings.partials⟩, recordCount, scanned.length)

end VerificationInput
end DbfAnonymizer.Verification
