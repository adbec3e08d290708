import DbfAnonymizer.Engine.PublicationState

/-! One building run as the sequence of its durable effects, and what an exception handler does to it. -/
namespace DbfAnonymizer.Engine
open Lib

/-- A durable effect, or the statement that records one in the run's own variables. -/
inductive Effect
  | acquireLease
  | beginOperation | noteStarted
  | makeRoot | noteCreated | makeTables | makeDataset
  | writeTemporary (phase : PublicationTxnPhase) | replaceRecord (phase : PublicationTxnPhase)
  | createSpool | noteSpool
  | createEvidence | noteEvidence
  | stageTable (index : ℕ) | assembleTable (index : ℕ) (files : List DatasetEntry)
  | cleanupEvidence
  | rebuildIndexes (files : List DatasetEntry)
  | fingerprintPayload
  | recordStaged
  | checkTarget | rename | openParent | syncParent | closeParent | noteRenamed
  | completeOperation (result : TwoPassResult)
  | removeTables | removeRecord | removeRoot
  | releaseLease | cleanupSpool
  deriving DecidableEq, Repr

/-- The disk and the variables that the exception handler reads. -/
structure RunState where
  disk : Disk
  operationStarted : Bool
  created : Bool
  renamed : Bool
  spoolOwned : Bool
  evidenceRoot : Bool
  outputFingerprint : Text

def RunState.start (d : Disk) : RunState := ⟨d, false, false, false, false, false, []⟩

section Perform
variable (sha256 : List UInt8 → Text) (identity : PublicationIdentity)

/-- The record of a phase; the first one is written before there is a fingerprint. -/
def crashRecord (phase : PublicationTxnPhase) (outputFingerprint : Text) : CrashRecord where
  schemaVersion := publicationTxnStateSchemaVersion
  phase
  operationId := identity.operationId
  bindingFingerprint := identity.bindingFingerprint
  destinationIdentity := identity.destinationIdentity
  outputFingerprint := if phase = .running then none else some outputFingerprint

/-- Works on the staging root, which has to be there. -/
def RunState.onStaging (s : RunState) (detailCode : String) (f : StagingTree → Except Raised StagingTree) :
    Except Raised RunState :=
  match s.disk.staging with
  | none => .error (publicationFailure detailCode)
  | some t => do
    let t ← f t
    return { s with disk := { s.disk with staging := some t } }

/-- One effect; it raises where the disk refuses it, and then it has changed nothing. -/
def perform (s : RunState) : Effect → Except Raised RunState
  | .acquireLease => do
    refuseIf s.disk.writerLease (.typed .vaultWriterConflict "vault" "WRITER_LEASE_HELD")
    return { s with disk := { s.disk with writerLease := true } }
  | .beginOperation => do
    let vault ← s.disk.vault.beginOperation identity
    return { s with disk := { s.disk with vault } }
  | .noteStarted => .ok { s with operationStarted := true }
  | .makeRoot => do
    refuseIf s.disk.staging.isSome (publicationFailure "STALE_STAGING_DETECTED")
    return { s with disk := { s.disk with staging := some ⟨none, none, none, false, []⟩ } }
  | .noteCreated => .ok { s with created := true }
  | .makeTables => s.onStaging "STAGING_CREATE_FAILED" fun t => .ok { t with tables := some [] }
  | .makeDataset => s.onStaging "STAGING_CREATE_FAILED" fun t => .ok { t with dataset := some [] }
  | .writeTemporary _ => s.onStaging "DURABILITY_FILE_WRITE_FAILED" fun t => .ok { t with temporary := true }
  | .replaceRecord phase => s.onStaging "DURABILITY_FILE_WRITE_FAILED" fun t =>
      .ok { t with transaction := some (.record (crashRecord identity phase s.outputFingerprint)), temporary := false }
  | .createSpool => do
    refuseIf s.disk.spool (spoolFailure "LEFTOVER_REFUSED")
    return { s with disk := { s.disk with spool := true } }
  | .noteSpool => .ok { s with spoolOwned := true }
  | .createEvidence => do
    refuseIf s.disk.evidence (spoolFailure "EVIDENCE_LEFTOVER_REFUSED")
    return { s with disk := { s.disk with evidence := true } }
  | .noteEvidence => .ok { s with evidenceRoot := true }
  | .stageTable index => s.onStaging "TABLE_STAGING_CREATE_FAILED" fun t => do
      let tables := t.tables.getD []
      refuseIf (index ∈ tables) (publicationFailure "TABLE_STAGING_CONFLICT")
      return { t with tables := some (tables ++ [index]) }
  | .assembleTable index files => s.onStaging "STAGED_TABLE_MISSING" fun t => do
      let tables := t.tables.getD []
      refuseIf (index ∉ tables) (publicationFailure "STAGED_TABLE_MISSING")
      return { t with tables := some (tables.erase index), dataset := some (t.dataset.getD [] ++ files) }
  | .cleanupEvidence => .ok { s with disk := { s.disk with evidence := false } }
  | .rebuildIndexes files => s.onStaging "STAGED_PAYLOAD_MISSING" fun t =>
      .ok { t with dataset := some (t.dataset.getD [] ++ files) }
  | .fingerprintPayload => do
    let output ← fingerprintDataset sha256 (s.disk.staging.bind fun t => t.dataset.map .directory)
    return { s with outputFingerprint := output }
  | .recordStaged => do
    let vault ← s.disk.vault.recordPublication identity.operationId .staged s.outputFingerprint
      identity.vaultFingerprint
    return { s with disk := { s.disk with vault } }
  | .checkTarget => do
    refuseIf s.disk.destination.isSome (destinationConflict "TARGET_ALREADY_EXISTS")
    return s
  | .rename =>
    match s.disk.staging with
    | some t =>
      match t.dataset with
      | some tree => .ok
          { s with
            disk :=
              { s.disk with
                staging := some { t with dataset := none }
                destination := some (.directory tree) } }
      | none => .error (publicationFailure "STAGING_PROMOTION_FAILED")
    | none => .error (publicationFailure "STAGING_PROMOTION_FAILED")
  | .openParent | .syncParent | .closeParent => .ok s
  | .noteRenamed => .ok { s with renamed := true }
  | .completeOperation result => do
    let vault ← s.disk.vault.recordPublication identity.operationId .published s.outputFingerprint
      identity.vaultFingerprint
    let receipt := resultReceipt
      { result with operationId := identity.operationId, outputFingerprint := some s.outputFingerprint }
    let vault ← vault.completeOperation identity.operationId s.outputFingerprint receipt
    return { s with disk := { s.disk with vault } }
  | .removeTables => s.onStaging "STAGING_CLEANUP_FAILED" fun t => do
      refuseIf (t.tables ≠ none ∧ t.tables ≠ some []) (publicationFailure "STAGING_CLEANUP_FAILED")
      return { t with tables := none }
  | .removeRecord => s.onStaging "STAGING_CLEANUP_FAILED" fun t => do
      refuseIf (t.transaction = none) (publicationFailure "STAGING_CLEANUP_FAILED")
      return { t with transaction := none }
  | .removeRoot =>
    match s.disk.staging with
    | none => .error (publicationFailure "STAGING_CLEANUP_FAILED")
    | some t => do
      refuseIf (t ≠ ⟨none, none, none, false, []⟩) (publicationFailure "STAGING_CLEANUP_FAILED")
      return { s with disk := { s.disk with staging := none } }
  | .releaseLease => .ok { s with disk := { s.disk with writerLease := false } }
  | .cleanupSpool => .ok { s with disk := { s.disk with spool := false } }

end Perform

/-- What the passes produce for one plan: the tables in the batches they are written in, and the indexes. -/
structure Build where
  batches : List (List (ℕ × List DatasetEntry))
  indexes : List DatasetEntry
  result : TwoPassResult

/-- Every table of a batch is staged before the first of them is assembled. -/
def batchEffects (batch : List (ℕ × List DatasetEntry)) : List Effect :=
  (batch.map fun table => .stageTable table.1) ++ batch.map fun table => .assembleTable table.1 table.2

def openingEffects : List Effect :=
  [.acquireLease, .beginOperation, .noteStarted, .makeRoot, .noteCreated, .makeTables, .makeDataset,
    .writeTemporary .running, .replaceRecord .running, .createSpool, .noteSpool, .createEvidence, .noteEvidence]

def tableEffects (b : Build) : List Effect := b.batches.flatMap batchEffects

def closingEffects (b : Build) : List Effect :=
  [.cleanupEvidence, .rebuildIndexes b.indexes, .fingerprintPayload, .recordStaged,
    .writeTemporary .readyToPromote, .replaceRecord .readyToPromote, .checkTarget, .rename, .openParent, .syncParent,
    .closeParent, .noteRenamed, .writeTemporary .promoted, .replaceRecord .promoted, .completeOperation b.result]

def cleanupEffects : List Effect := [.removeTables, .removeRecord, .removeRoot, .releaseLease, .cleanupSpool]

/-- The whole run: it builds, publishes and completes, and then it removes its private metadata. -/
def runEffects (b : Build) : List Effect := openingEffects ++ (tableEffects b ++ (closingEffects b ++ cleanupEffects))

section Stops
variable (sha256 : List UInt8 → Text) (identity : PublicationIdentity)

/-- The state in which a run stops after some of its effects, and the effect that does not happen any more. -/
def stopAfter : ℕ → List Effect → RunState → RunState × Option Effect
  | _, [], s => (s, none)
  | 0, next :: _, s => (s, some next)
  | count + 1, next :: rest, s =>
    match perform sha256 identity s next with
    | .ok s' => stopAfter count rest s'
    | .error _ => (s, some next)

/-- An `OSError` of the call itself, or any other exception raised in its place. -/
inductive ExceptionKind
  | osError | other
  deriving DecidableEq, Repr

/-- `promote` knows of the rename when the call that fails behind it is translated. -/
def noticed (next : Effect) (kind : ExceptionKind) : Bool :=
  kind = .osError && (next = .openParent || next = .syncParent)

/-- A failed record update removes its own temporary file. -/
def dropTemporary (next : Effect) (kind : ExceptionKind) (d : Disk) : Disk :=
  match kind, next with
  | .osError, .writeTemporary _ | .osError, .replaceRecord _ =>
    { d with staging := d.staging.map fun t => { t with temporary := false } }
  | _, _ => d

/-- The cleanup of a run that has promoted nothing. -/
def rollBack (s : RunState) (d : Disk) : Except Raised Disk := do
  let vault ← d.vault.abandonOperation identity.operationId
  return { d with
    vault
    staging := if s.created then none else d.staging
    evidence := if s.evidenceRoot then false else d.evidence }

/-- What the handlers of a raised exception leave: the rollback, the lease and the spool. -/
def handle (s : RunState) (next : Effect) (kind : ExceptionKind) : Except Raised Disk := do
  let d := dropTemporary next kind s.disk
  let d ← if s.operationStarted && !(s.renamed || noticed next kind) then rollBack identity s d else .ok d
  return { d with
    writerLease := if next = .acquireLease then d.writerLease else false
    spool := if s.spoolOwned then false else d.spool }

end Stops

def blankDisk : Disk := ⟨⟨.empty, .empty, by simp⟩, false, none, none, false, false⟩

def ordersIdentity : PublicationIdentity where
  operationId := "op-1".toList
  destinationIdentity := "dst-1".toList
  sourceFingerprint := "src-1".toList
  policyFingerprint := "pol-1".toList
  relationshipFingerprint := "rel-1".toList
  vaultFingerprint := "vlt-1".toList
  bindingFingerprint := "bnd-1".toList

def ordersResult : TwoPassResult where
  tablesWritten := ["orders".toList]
  passOneRecordsScanned := 0
  passOneDeletedScanned := 0
  passTwoRecordsWritten := 0
  textAllocated := 0
  textReused := 0
  numericAllocated := []
  temporalOffsetAllocated := false
  relations := []
  evidenceSpoolBytes := 0
  readStreams := []
  operationId := none
  outputFingerprint := none
  reusedExisting := false
  protectedStateCreated := false
  indexArtifacts := []

def ordersBuild : Build := ⟨[[(0, [.file "orders.dbf".toList [3, 13]])]], [], ordersResult⟩

def ordersDigest (_ : List UInt8) : Text := "dbb34ef9f0bee53fd205510b3d631c34072b97fcd91c4c174154f59ed433b77f".toList

example : (stopAfter ordersDigest ordersIdentity 35 (runEffects ordersBuild) (.start blankDisk)).2 = none := by decide

end DbfAnonymizer.Engine
