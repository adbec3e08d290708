import DbfAnonymizer.Lib.JsonObject
import DbfAnonymizer.Relationships.Models
import DbfAnonymizer.Transfer.Paths

/-! The public relational assurance: how the engine derives it and how a manifest gives it back. -/
namespace DbfAnonymizer.Transfer
open Lib Relationships

inductive RelationalAssuranceLevel
  | globalExactValue | declaredRelationsVerified | vfpMetadataVerified | incomplete
  deriving DecidableEq, Repr

def RelationalAssuranceLevel.value : RelationalAssuranceLevel → Text
  | .globalExactValue => "GLOBAL_EXACT_VALUE".toList
  | .declaredRelationsVerified => "DECLARED_RELATIONS_VERIFIED".toList
  | .vfpMetadataVerified => "VFP_METADATA_VERIFIED".toList
  | .incomplete => "INCOMPLETE".toList

def RelationalAssuranceLevel.all : List RelationalAssuranceLevel :=
  [.globalExactValue, .declaredRelationsVerified, .vfpMetadataVerified, .incomplete]

/-- `RelationalAssuranceLevel(value)`. -/
def RelationalAssuranceLevel.ofValue (value : Text) : Option RelationalAssuranceLevel :=
  RelationalAssuranceLevel.all.find? fun level => level.value = value

theorem RelationalAssuranceLevel.ofValue_value (level : RelationalAssuranceLevel) :
    RelationalAssuranceLevel.ofValue level.value = some level := by
  cases level <;> decide

structure RelationalAssurance where
  level : RelationalAssuranceLevel
  declaredRelations : ℕ
  verifiedRelations : ℕ
  failedRelations : ℕ
  incompleteRelations : ℕ
  evidenceFingerprint : Option Text
  relationshipFingerprint : Option Text
  evidenceSchemaVersion : Option Text
  scopeNote : Option Text
  deriving DecidableEq, Repr

def relationalAssuranceScopeNote : Text := "DECLARED_AND_INJECTED_METADATA_SCOPE_ONLY".toList
def evidenceSchemaVersion : Text := "1.0".toList
def publicJsonMaxCount : ℕ := 2 ^ 63 - 1
def publicJsonMaxTokenLength : ℕ := 128

/-- `_validated_code`. -/
def isValidatedCode (rt : PythonRuntime) (value : Text) : Bool :=
  !value.isEmpty && value.length ≤ publicJsonMaxTokenLength && strip value == value &&
    value.all (fun c => !isWhitespace c && rt.isPrintable c) && !value.contains '/' && !value.contains '\\'

/-- The constructor of the public model. -/
def RelationalAssurance.accepts (rt : PythonRuntime) (a : RelationalAssurance) : Bool :=
  a.declaredRelations ≤ publicJsonMaxCount && a.verifiedRelations ≤ publicJsonMaxCount &&
    a.failedRelations ≤ publicJsonMaxCount && a.incompleteRelations ≤ publicJsonMaxCount &&
    a.verifiedRelations + a.failedRelations + a.incompleteRelations ≤ a.declaredRelations &&
    a.evidenceFingerprint.all (isValidatedCode rt) && a.relationshipFingerprint.all (isValidatedCode rt) &&
    a.evidenceSchemaVersion.all (isValidatedCode rt) && a.scopeNote.all (isValidatedCode rt)

/-- The level-selection kernel, on the facts of the declared relations. -/
def assuranceFromCounts (relationCount verified failed : ℕ) (relationshipFingerprint : Text)
    (evidenceFingerprint : Option Text) (authoritativeVerified : Bool) : RelationalAssurance where
  level :=
    if relationCount = 0 then .globalExactValue
    else if verified = relationCount ∧ failed = 0 then
      if authoritativeVerified then .vfpMetadataVerified else .declaredRelationsVerified
    else .incomplete
  declaredRelations := relationCount
  verifiedRelations := verified
  failedRelations := failed
  incompleteRelations := relationCount - verified - failed
  evidenceFingerprint := evidenceFingerprint
  relationshipFingerprint := some relationshipFingerprint
  evidenceSchemaVersion := some evidenceSchemaVersion
  scopeNote := some relationalAssuranceScopeNote

/-- `validate_relationship_fingerprint`. -/
def isRelationshipFingerprint (rt : PythonRuntime) (value : Text) : Bool :=
  !value.isEmpty && value.length ≤ publicJsonMaxTokenLength && strip value == value &&
    value.all (fun c => !isWhitespace c && c != '\x00' && rt.isPrintable c && c != '\\') &&
    value.head? != some '/' && (purePosixPath (rt.lower value)).root == [] &&
    !(purePosixPath (rt.lower value)).parts.contains ['.', '.'] && !windowsDrive rt value && !windowsRoot value

def isLowerHex (c : Char) : Bool := ('0' ≤ c && c ≤ '9') || ('a' ≤ c && c ≤ 'f')

def isEvidenceFingerprint (value : Text) : Bool := value.length == 64 && value.all isLowerHex

def manifestAssuranceKeys : List String :=
  ["level", "declared_relations", "verified_relations", "failed_relations", "incomplete_relations",
    "evidence_fingerprint", "relationship_fingerprint", "evidence_schema_version", "scope_note"]

/-- The level and the counts tell one story. -/
def levelConsistent (level : RelationalAssuranceLevel) (declared verified failed incomplete : ℕ) : Bool :=
  match level with
  | .globalExactValue => declared == 0 && verified == 0 && failed == 0 && incomplete == 0
  | .declaredRelationsVerified | .vfpMetadataVerified =>
    0 < declared && verified == declared && failed == 0 && incomplete == 0
  | .incomplete =>
    declared != 0 && !(verified + failed + incomplete == declared && failed == 0 && incomplete == 0)

/-- The checked values of the manifest's assurance object. -/
def assuranceOfPairs (rt : PythonRuntime) (pairs : List (Text × Json)) : Option RelationalAssurance := do
  let level ← RelationalAssuranceLevel.ofValue (← jsonText? (← valueAt pairs "level"))
  let declared ← jsonCount? (← valueAt pairs "declared_relations")
  let verified ← jsonCount? (← valueAt pairs "verified_relations")
  let failed ← jsonCount? (← valueAt pairs "failed_relations")
  let incomplete ← jsonCount? (← valueAt pairs "incomplete_relations")
  let evidenceFingerprint ← jsonOptionalText? (← valueAt pairs "evidence_fingerprint")
  let relationshipFingerprint ← jsonText? (← valueAt pairs "relationship_fingerprint")
  let schemaVersion ← jsonText? (← valueAt pairs "evidence_schema_version")
  let scopeNote ← jsonText? (← valueAt pairs "scope_note")
  let assurance : RelationalAssurance :=
    ⟨level, declared, verified, failed, incomplete, evidenceFingerprint, some relationshipFingerprint,
      some schemaVersion, some scopeNote⟩
  if verified + failed + incomplete = declared ∧ evidenceFingerprint.all isEvidenceFingerprint = true ∧
      isRelationshipFingerprint rt relationshipFingerprint = true ∧ schemaVersion = evidenceSchemaVersion ∧
      scopeNote = relationalAssuranceScopeNote ∧ levelConsistent level declared verified failed incomplete = true ∧
      assurance.accepts rt = true then some assurance else none

/-- `_manifest_assurance`. -/
def manifestAssurance (rt : PythonRuntime) (fail : String → Raised) (payload : Json) :
    Except Raised RelationalAssurance :=
  match payload with
  | .obj pairs => do
    refuseIf (hasExactKeys pairs manifestAssuranceKeys = false) (fail "TRANSFER_MANIFEST_SCHEMA_INVALID")
    match assuranceOfPairs rt pairs with
    | some assurance => .ok assurance
    | none => .error (fail "TRANSFER_MANIFEST_VALUE_INVALID")
  | _ => .error (fail "TRANSFER_MANIFEST_UNREADABLE")

end DbfAnonymizer.Transfer
