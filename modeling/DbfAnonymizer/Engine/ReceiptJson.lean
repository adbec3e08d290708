import DbfAnonymizer.Lib.JsonObject
import DbfAnonymizer.Transfer.PathComponents

/-! The receipt of a run as a JSON text: how it is written, and how a retry reads and re-validates it. -/
namespace DbfAnonymizer.Engine
open Lib Transfer Verification

/-- The built-in conversions, by what is documented about them. -/
structure PythonBuiltins where
  int : Json → Except Raised ℤ
  str : Json → Text
  bool : Json → Bool
  int_int : ∀ n, int (.int n) = .ok n
  str_str : ∀ s, str (.str s) = s
  bool_bool : ∀ b, bool (.bool b) = b

def modelSchemaVersion : Text := "1.8".toList

def standaloneIdxEvidenceStatuses : List String := ["OMITTED_DATA_ONLY", "OMITTED_UNVERIFIED", "REBUILT_VERIFIED"]

section Evidence
variable (rt : PythonRuntime) (sha256 : List UInt8 → Text)

/-- `standalone_idx_artifact_id`, where a refusal is `none`. -/
def standaloneIdxArtifactId (artifactPath : Text) : Option Text := do
  let normalized ← normalizedRelativePath rt artifactPath
  if rt.lower (pathSuffix normalized) ≠ idxSuffix then none
  return "idx-".toList ++ sha256 (utf8Bytes normalized)

/-- The claims that a status allows. -/
def StandaloneIdxEvidence.statusAgrees (e : StandaloneIdxEvidence) : Bool :=
  if e.status = "OMITTED_DATA_ONLY".toList then e.backendId.isNone && e.tablePath.isNone && e.outputSha256.isNone
  else if e.status = "OMITTED_UNVERIFIED".toList then e.backendId.isSome && e.outputSha256.isNone
  else e.backendId.isSome && e.tablePath.isSome && e.outputSha256.isSome

def normalizedOptionalPath : Option Text → Option (Option Text)
  | none => some none
  | some path => (normalizedRelativePath rt path).map some

/-- The checks of the constructor on everything but the paths. -/
def StandaloneIdxEvidence.accepts (e : StandaloneIdxEvidence) (expectedId : Text) : Bool :=
  e.artifactId = expectedId && e.status ∈ standaloneIdxEvidenceStatuses.map String.toList &&
    isEvidenceFingerprint e.sourceSha256 && e.backendId.all (isValidatedCode rt) &&
    e.outputSha256.all isEvidenceFingerprint && e.statusAgrees

/-- `StandaloneIdxEvidence(...)`, where a refusal is `none`. -/
def StandaloneIdxEvidence.new (e : StandaloneIdxEvidence) : Option StandaloneIdxEvidence := do
  let artifactPath ← normalizedRelativePath rt e.artifactPath
  let expectedId ← standaloneIdxArtifactId rt sha256 artifactPath
  let tablePath ← normalizedOptionalPath rt e.tablePath
  let evidence := { e with artifactPath, tablePath }
  if evidence.accepts rt expectedId then some evidence else none

/-- The evidence that the engine records for one index of its plan, in whichever status. -/
def idxEvidence (idxPath status sourceSha256 : Text) (backendId tablePath outputSha256 : Option Text) :
    Option StandaloneIdxEvidence := do
  let artifactId ← standaloneIdxArtifactId rt sha256 idxPath
  StandaloneIdxEvidence.new rt sha256 ⟨artifactId, idxPath, status, sourceSha256, backendId, tablePath, outputSha256⟩

end Evidence

def optionalText : Option Text → Json
  | none => .null
  | some s => .str s

/-- `asdict(summary)`. -/
def RelationPassSummary.asdict (s : RelationPassSummary) : List (String × Json) :=
  [("relation_id", .str s.relationId), ("verified", .bool s.verified), ("before_rows", .int s.beforeRows),
    ("after_rows", .int s.afterRows), ("before_nulls", .int s.beforeNulls), ("after_nulls", .int s.afterNulls),
    ("before_unique", .int s.beforeUnique), ("after_unique", .int s.afterUnique), ("matched_rows", .int s.matchedRows),
    ("orphan_count", .int s.orphanCount), ("parent_profile_equal", .bool s.parentProfileEqual),
    ("foreign_profile_equal", .bool s.foreignProfileEqual)]

def StandaloneIdxEvidence.toDict (e : StandaloneIdxEvidence) : List (String × Json) :=
  [("schema_version", .str modelSchemaVersion), ("model_type", .str "StandaloneIdxEvidence".toList),
    ("artifact_id", .str e.artifactId), ("artifact_path", .str e.artifactPath), ("status", .str e.status),
    ("source_sha256", .str e.sourceSha256), ("backend_id", optionalText e.backendId),
    ("table_path", optionalText e.tablePath), ("output_sha256", optionalText e.outputSha256)]

/-- The pairs of entries under constant keys. -/
def dictPairs (entries : List (String × Json)) : List (Text × Json) := entries.map fun e => (e.1.toList, e.2)

def dictJson (entries : List (String × Json)) : Json := sortedObject (dictPairs entries)

namespace TwoPassResult

def numericPairs (r : TwoPassResult) : List (Text × Json) := r.numericAllocated.map fun item => (item.1, .int item.2)

def receiptPayload (r : TwoPassResult) : List (String × Json) :=
  [("schema_version", .str receiptSchemaVersion), ("tables_written", .arr (r.tablesWritten.map .str)),
    ("pass1_records_scanned", .int r.passOneRecordsScanned), ("pass1_deleted_scanned", .int r.passOneDeletedScanned),
    ("pass2_records_written", .int r.passTwoRecordsWritten), ("text_allocated", .int r.textAllocated),
    ("text_reused", .int r.textReused), ("numeric_allocated", sortedObject r.numericPairs),
    ("temporal_offset_allocated", .bool r.temporalOffsetAllocated),
    ("relations", .arr (r.relations.map fun s => dictJson s.asdict)), ("evidence_spool_bytes", .int r.evidenceSpoolBytes),
    ("read_streams", .arr (r.readStreams.map fun item => .arr [.str item.1, .str item.2])),
    ("operation_id", optionalText r.operationId), ("output_fingerprint", optionalText r.outputFingerprint),
    ("protected_state_created", .bool r.protectedStateCreated),
    ("index_artifacts", .arr (r.indexArtifacts.map fun e => dictJson e.toDict))]

/-- `result_receipt`. -/
def receiptText (r : TwoPassResult) : Text := Json.dumps (dictJson r.receiptPayload)

end TwoPassResult

/-- What a receipt is read into: the numbers are any integers, and a relation summary keeps the values of its
fields as they come. -/
structure StoredResult where
  tablesWritten : List Text
  passOneRecordsScanned : ℤ
  passOneDeletedScanned : ℤ
  passTwoRecordsWritten : ℤ
  textAllocated : ℤ
  textReused : ℤ
  numericAllocated : List (Text × ℤ)
  temporalOffsetAllocated : Bool
  relations : List (List Json)
  evidenceSpoolBytes : ℤ
  readStreams : List (Text × Text)
  operationId : Option Text
  outputFingerprint : Option Text
  reusedExisting : Bool
  protectedStateCreated : Bool
  indexArtifacts : List StandaloneIdxEvidence

def TwoPassResult.stored (r : TwoPassResult) : StoredResult where
  tablesWritten := r.tablesWritten
  passOneRecordsScanned := r.passOneRecordsScanned
  passOneDeletedScanned := r.passOneDeletedScanned
  passTwoRecordsWritten := r.passTwoRecordsWritten
  textAllocated := r.textAllocated
  textReused := r.textReused
  numericAllocated := r.numericAllocated.map fun item => (item.1, (item.2 : ℤ))
  temporalOffsetAllocated := r.temporalOffsetAllocated
  relations := r.relations.map fun s => s.asdict.map (·.2)
  evidenceSpoolBytes := r.evidenceSpoolBytes
  readStreams := r.readStreams
  operationId := r.operationId
  outputFingerprint := r.outputFingerprint
  reusedExisting := r.reusedExisting
  protectedStateCreated := r.protectedStateCreated
  indexArtifacts := r.indexArtifacts

/-- `for item in value`. -/
def iterate : Json → Except Raised (List Json)
  | .arr items => .ok items
  | .obj pairs => .ok (pairs.map fun p => .str p.1)
  | .str s => .ok (s.map fun c => .str [c])
  | _ => .error (.typeError "object is not iterable")

/-- `value[index]`. -/
def indexed (value : Json) (index : ℕ) : Except Raised Json :=
  match value with
  | .arr items => required .indexError items[index]?
  | .str s => required .indexError (s[index]?.map fun c => .str [c])
  | .obj _ => .error .keyError
  | _ => .error (.typeError "object is not subscriptable")

def summaryKeys : List String :=
  ["relation_id", "verified", "before_rows", "after_rows", "before_nulls", "after_nulls", "before_unique",
    "after_unique", "matched_rows", "orphan_count", "parent_profile_equal", "foreign_profile_equal"]

/-- `RelationPassSummary(**item)`: the values of its fields, in their order. -/
def summaryFromItem : Json → Except Raised (List Json)
  | .obj pairs => do
    refuseIf (hasExactKeys pairs summaryKeys = false) (.typeError "unexpected or missing argument")
    summaryKeys.mapM fun key => required .keyError (valueAt pairs key)
  | _ => .error (.typeError "argument after ** must be a mapping")

def evidenceKeys : List String :=
  ["schema_version", "model_type", "artifact_id", "artifact_path", "status", "source_sha256", "backend_id",
    "table_path", "output_sha256"]

section Reading
variable (rt : PythonRuntime) (sha256 : List UInt8 → Text) (py : PythonBuiltins)

/-- One index artifact, validated by the constructor again. -/
def evidenceFromItem : Json → Except Raised StandaloneIdxEvidence
  | .obj pairs => do
    refuseIf (hasExactKeys pairs evidenceKeys = false) (.valueError "")
    refuseIf ((valueAt pairs "schema_version").bind jsonText? ≠ some modelSchemaVersion ∨
      (valueAt pairs "model_type").bind jsonText? ≠ some "StandaloneIdxEvidence".toList) (.valueError "")
    let artifactId ← required (.valueError "") ((valueAt pairs "artifact_id").bind jsonText?)
    let artifactPath ← required (.valueError "") ((valueAt pairs "artifact_path").bind jsonText?)
    let status ← required (.valueError "") ((valueAt pairs "status").bind jsonText?)
    let sourceSha256 ← required (.valueError "") ((valueAt pairs "source_sha256").bind jsonText?)
    let backendId ← required (.valueError "") ((valueAt pairs "backend_id").bind jsonOptionalText?)
    let tablePath ← required (.valueError "") ((valueAt pairs "table_path").bind jsonOptionalText?)
    let outputSha256 ← required (.valueError "") ((valueAt pairs "output_sha256").bind jsonOptionalText?)
    required (.valueError "") (StandaloneIdxEvidence.new rt sha256
      ⟨artifactId, artifactPath, status, sourceSha256, backendId, tablePath, outputSha256⟩)
  | _ => .error (.valueError "")

/-- `value.items()` with the values converted. -/
def numericFromItems : Json → Except Raised (List (Text × ℤ))
  | .obj pairs => pairs.mapM fun p => do
    let value ← py.int p.2
    return (py.str (.str p.1), value)
  | _ => .error .attributeError

def streamFromItem (item : Json) : Except Raised (Text × Text) := do
  let pass ← indexed item 0
  let path ← indexed item 1
  return (py.str pass, py.str path)

/-- `result_from_receipt` up to what it catches. -/
def storedFromPayload : Json → Except Raised StoredResult
  | .obj payload => do
    let field (key : String) : Except Raised Json := required .keyError (valueAt payload key)
    let number (key : String) : Except Raised ℤ := do
      let value ← field key
      py.int value
    refuseIf ((valueAt payload "schema_version").bind jsonText? ≠ some receiptSchemaVersion) (.valueError "")
    let relations ← (← iterate (← field "relations")).mapM summaryFromItem
    let indexArtifacts ← (← iterate (← field "index_artifacts")).mapM (evidenceFromItem rt sha256)
    let tablesWritten ← iterate (← field "tables_written")
    let passOneRecordsScanned ← number "pass1_records_scanned"
    let passOneDeletedScanned ← number "pass1_deleted_scanned"
    let passTwoRecordsWritten ← number "pass2_records_written"
    let textAllocated ← number "text_allocated"
    let textReused ← number "text_reused"
    let numericAllocated ← numericFromItems py (← field "numeric_allocated")
    let temporalOffsetAllocated ← field "temporal_offset_allocated"
    let evidenceSpoolBytes ← number "evidence_spool_bytes"
    let readStreams ← (← iterate (← field "read_streams")).mapM (streamFromItem py)
    let operationId ← field "operation_id"
    let outputFingerprint ← field "output_fingerprint"
    let protectedStateCreated ← field "protected_state_created"
    return {
      tablesWritten := tablesWritten.map py.str, passOneRecordsScanned, passOneDeletedScanned, passTwoRecordsWritten
      textAllocated, textReused, numericAllocated
      temporalOffsetAllocated := py.bool temporalOffsetAllocated, relations, evidenceSpoolBytes, readStreams
      operationId := some (py.str operationId), outputFingerprint := some (py.str outputFingerprint), reusedExisting := true
      protectedStateCreated := py.bool protectedStateCreated, indexArtifacts }
  | _ => .error .attributeError

/-- The exceptions that a receipt may cause, all of them one failure. -/
def caughtByReceipt : Raised → Raised
  | .keyError => publicationFailure "OPERATION_RECEIPT_INVALID"
  | .typeError _ => publicationFailure "OPERATION_RECEIPT_INVALID"
  | .valueError _ => publicationFailure "OPERATION_RECEIPT_INVALID"
  | e => e

/-- `result_from_receipt`; an undecodable text is a `ValueError` as well. -/
def resultFromReceiptText (receipt : Text) : Except Raised StoredResult :=
  match Json.loads (.valueError "") (fun pairs => .ok (.obj (dictOf pairs))) receipt >>= storedFromPayload rt sha256 py with
  | .ok result => .ok result
  | .error e => .error (caughtByReceipt e)

end Reading
end DbfAnonymizer.Engine
