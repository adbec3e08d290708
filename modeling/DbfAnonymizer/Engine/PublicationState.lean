import DbfAnonymizer.Engine.EvidenceSpool

/-! What a publication leaves behind durably, and how a later run of the same plan classifies it. -/
namespace DbfAnonymizer.Engine
open Lib

def publicationFailure (detailCode : String) : Raised := .typed .publicationIncomplete "publication" detailCode

def destinationConflict (detailCode : String) : Raised := .typed .destinationConflict "publication" detailCode

def identityFailure (detailCode : String) : Raised := .typed .vaultIdentityMismatch "engine" detailCode

def spoolFailure (detailCode : String) : Raised := .typed .vaultStateInvalid "engine" ("ENGINE_SPOOL_" ++ detailCode)

def vaultFailure (detailCode : String) : Raised := .typed .vaultStateInvalid "vault" detailCode

/-- The binding of one operation to its vault, its inputs and its target. -/
structure PublicationIdentity where
  operationId : Text
  destinationIdentity : Text
  sourceFingerprint : Text
  policyFingerprint : Text
  relationshipFingerprint : Text
  vaultFingerprint : Text
  bindingFingerprint : Text
  deriving DecidableEq, Repr

/-- What the walk over a dataset tree meets, in its order. -/
inductive DatasetEntry
  | file (relativePath : Text) (content : List UInt8)
  | directoryLink
  | irregular
  deriving DecidableEq, Repr

abbrev DatasetTree := List DatasetEntry

inductive PathNode
  | file
  | directory (tree : DatasetTree)
  deriving DecidableEq, Repr

/-- `to_bytes(width, "big")`, for numbers that fit. -/
def bigEndian : ℕ → ℕ → List UInt8
  | 0, _ => []
  | width + 1, n => bigEndian width (n / 256) ++ [UInt8.ofNat n]

def inspectEntry : DatasetEntry → Except Raised (Text × List UInt8)
  | .file relativePath content => .ok (relativePath, content)
  | .directoryLink => .error (publicationFailure "DATASET_SYMLINK_REFUSED")
  | .irregular => .error (publicationFailure "DATASET_ARTIFACT_INVALID")

/-- The digest of a complete tree; `sha256` is the hexadecimal digest of the bytes fed to it. -/
def fingerprintDataset (sha256 : List UInt8 → Text) (root : Option PathNode) : Except Raised Text :=
  match root with
  | some (.directory tree) => do
    let inventory ← tree.mapM inspectEntry
    let fed := inventory.flatMap fun item =>
      bigEndian 4 (utf8Bytes item.1).length ++ utf8Bytes item.1 ++ bigEndian 8 item.2.length ++ item.2
    let header := asciiBytes "DBF-ANONYMIZER-DATASET/v1".toList ++ [0]
    return "out-".toList ++ sha256 (header ++ fed ++ bigEndian 8 inventory.length)
  | _ => .error (publicationFailure "DATASET_MISSING")

def receiptSchemaVersion : Text := "1.2".toList

/-- A stored receipt: what its JSON says, or a text that no result can be read from. -/
inductive Receipt
  | unreadable
  | payload (schemaVersion : Text) (result : TwoPassResult)
  deriving DecidableEq, Repr

/-- The receipt keeps everything but the mark of reuse. -/
def resultReceipt (result : TwoPassResult) : Receipt :=
  .payload receiptSchemaVersion { result with reusedExisting := false }

def resultFromReceipt : Receipt → Except Raised TwoPassResult
  | .unreadable => .error (publicationFailure "OPERATION_RECEIPT_INVALID")
  | .payload schemaVersion result =>
    if schemaVersion ≠ receiptSchemaVersion then .error (publicationFailure "OPERATION_RECEIPT_INVALID")
    else .ok { result with reusedExisting := true }

inductive OperationState
  | started | completed
  deriving DecidableEq, Repr

structure OperationRow where
  state : OperationState
  sourceFingerprint : Option Text
  policyFingerprint : Option Text
  relationshipFingerprint : Option Text
  vaultFingerprint : Option Text
  destinationIdentity : Option Text
  bindingFingerprint : Option Text
  outputFingerprint : Option Text
  resultJson : Option Receipt
  deriving DecidableEq, Repr

inductive PublicationRowPhase
  | staged | published
  deriving DecidableEq, Repr

/-- The operation and publication rows of a vault; a publication row belongs to an operation. -/
structure OperationStore where
  operations : KeyedTable Text OperationRow
  publication : KeyedTable (Text × PublicationRowPhase) (Option Text × Option Text)
  publication_owned : ∀ key ∈ publication.keys, key.1 ∈ operations.keys

namespace OperationStore
variable (s : OperationStore)

def operationRecord (operationId : Text) : Option OperationRow := s.operations.lookup operationId

/-- The operation bound to a destination; the unique index allows one. -/
def operationForDestination (destinationIdentity : Text) : Option (Text × OperationRow) :=
  s.operations.rows.find? (·.2.destinationIdentity = some destinationIdentity)

def beginOperation (identity : PublicationIdentity) : Except Raised OperationStore :=
  if identity.operationId ∈ s.operations.keys then .error (vaultFailure "OPERATION_EXISTS")
  else if (s.operationForDestination identity.destinationIdentity).isSome then
    .error (vaultFailure "OPERATION_REJECTED")
  else .ok
    { s with
      operations := s.operations.upsert identity.operationId
        { state := .started
          sourceFingerprint := identity.sourceFingerprint
          policyFingerprint := identity.policyFingerprint
          relationshipFingerprint := identity.relationshipFingerprint
          vaultFingerprint := identity.vaultFingerprint
          destinationIdentity := identity.destinationIdentity
          bindingFingerprint := identity.bindingFingerprint
          outputFingerprint := none
          resultJson := none }
      publication_owned := fun key hkey => KeyedTable.mem_keys_upsert.mpr (Or.inr (s.publication_owned key hkey)) }

def recordPublication (operationId : Text) (phase : PublicationRowPhase) (outputFingerprint vaultFingerprint : Text) :
    Except Raised OperationStore :=
  if h : operationId ∈ s.operations.keys ∧ (operationId, phase) ∉ s.publication.keys then .ok
    { s with
      publication := s.publication.upsert (operationId, phase) (some outputFingerprint, some vaultFingerprint)
      publication_owned := by
        intro key hkey
        rcases KeyedTable.mem_keys_upsert.mp hkey with rfl | hmem
        · exact h.1
        · exact s.publication_owned key hmem }
  else .error (vaultFailure "PUBLICATION_REJECTED")

def completeOperation (operationId outputFingerprint : Text) (resultJson : Receipt) : Except Raised OperationStore :=
  match s.operations.lookup operationId with
  | some row =>
    if row.state = .started then .ok
      { s with
        operations := s.operations.upsert operationId
          { row with state := .completed, outputFingerprint, resultJson }
        publication_owned := fun key hkey => KeyedTable.mem_keys_upsert.mpr (Or.inr (s.publication_owned key hkey)) }
    else .error (vaultFailure "OPERATION_NOT_STARTED")
  | none => .error (vaultFailure "OPERATION_NOT_STARTED")

/-- Deletes a started operation and its publication rows. -/
def abandonOperation (operationId : Text) : Except Raised OperationStore :=
  match s.operations.lookup operationId with
  | some row =>
    if row.state = .started then .ok
      { operations := s.operations.erase operationId
        publication := s.publication.retain (·.1 ≠ operationId)
        publication_owned := by
          intro key hkey
          obtain ⟨hne, hmem⟩ := KeyedTable.mem_keys_retain.mp hkey
          obtain ⟨row, hrow⟩ := KeyedTable.mem_keys.mp (s.publication_owned key hmem)
          exact KeyedTable.mem_keys.mpr ⟨row, KeyedTable.mem_erase.mpr ⟨by simpa using hne, hrow⟩⟩ }
    else .error (vaultFailure "OPERATION_NOT_STARTED")
  | none => .error (vaultFailure "OPERATION_NOT_STARTED")

end OperationStore

def publicationTxnStateSchemaVersion : Text := "1.1".toList

inductive PublicationTxnPhase
  | running | readyToPromote | promoted
  deriving DecidableEq, Repr

/-- The private crash state of a staging root. -/
structure CrashRecord where
  schemaVersion : Text
  phase : PublicationTxnPhase
  operationId : Text
  bindingFingerprint : Text
  destinationIdentity : Text
  outputFingerprint : Option Text
  deriving DecidableEq, Repr

/-- What `transaction.json` holds: a record, or nothing that can be read as one. -/
inductive CrashState
  | unreadable
  | record (record : CrashRecord)
  deriving DecidableEq, Repr

/-- The entries of a staging root; `strays` are names that no run gives. -/
structure StagingTree where
  tables : Option (List ℕ)
  dataset : Option DatasetTree
  transaction : Option CrashState
  temporary : Bool
  strays : List Text
  deriving DecidableEq, Repr

/-- Everything durable that a run of one plan touches. -/
@[ext] structure Disk where
  vault : OperationStore
  writerLease : Bool
  staging : Option StagingTree
  destination : Option PathNode
  spool : Bool
  evidence : Bool

/-- The residue of a completed publication: no payload, no table root, no foreign name. -/
def StagingTree.residualIsOwned (t : StagingTree) : Bool :=
  t.dataset.isNone && t.strays.isEmpty && (t.tables = none || t.tables = some [])

def CrashRecord.coherent (r : CrashRecord) (identity : PublicationIdentity) (outputFingerprint : Text) : Bool :=
  r.schemaVersion = publicationTxnStateSchemaVersion && r.phase = .promoted &&
    r.operationId = identity.operationId && r.destinationIdentity = identity.destinationIdentity &&
    r.bindingFingerprint = identity.bindingFingerprint && r.outputFingerprint = some outputFingerprint

/-- Whether the residue of a completed operation may be removed. -/
def reconcileCompletedStagingResidual (identity : PublicationIdentity) (outputFingerprint : Text)
    (t : StagingTree) : Except Raised Unit :=
  match t.transaction with
  | none => .error (publicationFailure "COMPLETED_STAGING_STATE_MISSING")
  | some .unreadable => .error (publicationFailure "COMPLETED_STAGING_STATE_INVALID")
  | some (.record r) => do
    refuseIf (¬ r.coherent identity outputFingerprint) (publicationFailure "COMPLETED_STAGING_STATE_INVALID")
    refuseIf (¬ t.residualIsOwned) (publicationFailure "COMPLETED_STAGING_UNRECOGNIZED")

/-- The row is bound to exactly this identity. -/
def OperationRow.boundTo (row : OperationRow) (identity : PublicationIdentity) : Bool :=
  row.sourceFingerprint = some identity.sourceFingerprint && row.policyFingerprint = some identity.policyFingerprint &&
    row.relationshipFingerprint = some identity.relationshipFingerprint &&
    row.vaultFingerprint = some identity.vaultFingerprint &&
    row.destinationIdentity = some identity.destinationIdentity &&
    row.bindingFingerprint = some identity.bindingFingerprint

section Classification
variable (sha256 : List UInt8 → Text) (identity : PublicationIdentity) (d : Disk)

/-- The evidence behind a completed operation, read back in full. -/
def completedEvidence (row : OperationRow) : Except Raised TwoPassResult :=
  match row.outputFingerprint, row.resultJson with
  | some stored, some receipt => do
    let actual ← fingerprintDataset sha256 d.destination
    refuseIf (actual ≠ stored) (publicationFailure "COMPLETED_OUTPUT_MISMATCH")
    let result ← resultFromReceipt receipt
    refuseIf (result.operationId ≠ some identity.operationId ∨ result.outputFingerprint ≠ some stored)
      (publicationFailure "OPERATION_RECEIPT_MISMATCH")
    match d.staging with
    | none => return result
    | some t =>
      reconcileCompletedStagingResidual identity stored t
      return result
  | _, _ => .error (publicationFailure "COMPLETED_OPERATION_INCOMPLETE")

/-- An exact completed retry, a fresh start, or the refusal of every other state. -/
def existingCompletedResult : Except Raised (Option TwoPassResult) :=
  match d.vault.operationRecord identity.operationId with
  | none => do
    refuseIf (d.vault.operationForDestination identity.destinationIdentity).isSome
      (destinationConflict "DESTINATION_BOUND_TO_OTHER_OPERATION")
    refuseIf d.staging.isSome (publicationFailure "STALE_STAGING_DETECTED")
    refuseIf d.destination.isSome (destinationConflict "UNOWNED_TARGET_EXISTS")
    return none
  | some row => do
    refuseIf (¬ row.boundTo identity) (identityFailure "ENGINE_OPERATION_BINDING_MISMATCH")
    refuseIf ((d.vault.operationForDestination identity.destinationIdentity).map Prod.fst ≠ some identity.operationId)
      (publicationFailure "DESTINATION_OPERATION_MISSING")
    match row.state with
    | .started => .error (publicationFailure "STALE_OPERATION_DETECTED")
    | .completed => do
      let result ← completedEvidence sha256 identity d row
      return some result

/-- No run starts, and no completed result is returned, over sensitive residue. -/
def refuseLeftovers : Except Raised Unit := do
  refuseIf d.spool (spoolFailure "LEFTOVER_REFUSED")
  refuseIf d.evidence (spoolFailure "EVIDENCE_LEFTOVER_REFUSED")

/-- What a later run of the plan answers before it transforms anything; `none` lets it start afresh. -/
def retry : Except Raised (Option TwoPassResult) := do
  let existing ← existingCompletedResult sha256 identity d
  refuseLeftovers d
  return existing

end Classification

/-- What the removal of a staging root leaves when it is interrupted: any of its entries, or no root at all. -/
inductive PartlyRemoved (t : StagingTree) : Option StagingTree → Prop
  | entries {tables : Option (List ℕ)} {transaction : Option CrashState} {temporary : Bool}
      (htables : tables = none ∨ tables = t.tables)
      (htransaction : transaction = none ∨ transaction = t.transaction)
      (htemporary : temporary = true → t.temporary = true) :
      PartlyRemoved t (some { t with tables, transaction, temporary })
  | root : PartlyRemoved t none

/-- The disk behind a classification, stopped anywhere: only a reconciled residue may be gone. -/
inductive Classified (sha256 : List UInt8 → Text) (identity : PublicationIdentity) (d : Disk) : Disk → Prop
  | unchanged : Classified sha256 identity d d
  | reconciled {t : StagingTree} {result : TwoPassResult} {staging : Option StagingTree} (ht : d.staging = some t)
      (hresult : existingCompletedResult sha256 identity d = .ok (some result)) (hleft : PartlyRemoved t staging) :
      Classified sha256 identity d { d with staging }

end DbfAnonymizer.Engine
