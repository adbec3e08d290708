import DbfAnonymizer.Transfer.Assurance

/-! The closed contract of a transferred manifest, over its strictly parsed JSON. -/
namespace DbfAnonymizer.Transfer
open Lib Relationships

def transferManifestFilename : Text := "transfer-manifest.json".toList
def transferManifestSchemaVersion : Text := "1.1".toList
def indexStateDataOnly : Text := "DATA_ONLY_INDEX_OMITTED".toList
def dataStateStandalone : Text := "STANDALONE_REDUCED_SEMANTICS".toList
def verificationStatusCreated : Text := "CREATION_SELF_VERIFIED".toList
def transferProfileDataOnly : Text := "DATA_ONLY".toList
def classificationPseudonymized : Text := "PSEUDONYMIZED".toList

def manifestTopLevelKeys : List String :=
  ["schema_version", "package_version", "dbfbridge_version", "profile", "classification", "dataset_id", "index_state",
    "data_state", "verification_status", "artifacts", "assurance"]

/-- The entries of DBF and FPT artifacts have the same keys. -/
def manifestArtifactKeys : List String :=
  ["path", "artifact_type", "size_bytes", "sha256", "record_count", "schema_fingerprint"]

def manifestScalars : List String :=
  ["schema_version", "package_version", "dbfbridge_version", "profile", "classification", "dataset_id", "index_state",
    "data_state", "verification_status"]

def maxManifestBytes : ℕ := 1000000
def maxManifestArtifacts : ℕ := 4096
def maxTokenLength : ℕ := 128

inductive ArtifactType
  | dbf | fpt
  deriving DecidableEq, Repr

def ArtifactType.value : ArtifactType → Text
  | .dbf => "DBF".toList
  | .fpt => "FPT".toList

def ArtifactType.extension : ArtifactType → Text
  | .dbf => ".dbf".toList
  | .fpt => ".fpt".toList

/-- One declared artifact, under its normalized path. -/
structure DeclaredArtifact where
  path : Text
  artifactType : ArtifactType
  sizeBytes : ℕ
  sha256 : Text
  recordCount : Option ℕ
  schemaFingerprint : Option Text
  deriving DecidableEq, Repr

/-- `object_pairs_hook`: no object says a key twice. -/
def rejectPairs (fail : String → Raised) (pairs : List (Text × Json)) : Except Raised Json :=
  if (pairs.map (·.1)).Nodup then .ok (.obj pairs) else .error (fail "TRANSFER_MANIFEST_DUPLICATE_KEY")

/-- `bytes.decode("ascii")`. -/
def decodeAscii (bytes : List UInt8) : Option Text :=
  if bytes.all (· < 128) then some (bytes.map fun b => Char.ofNat b.toNat) else none

/-- `_strict_json_loads`, with the undecodable and the malformed text refused as its caller refuses them. -/
def strictJsonLoads (fail : String → Raised) (manifestBytes : List UInt8) : Except Raised (List (Text × Json)) :=
  match decodeAscii manifestBytes with
  | none => .error (fail "TRANSFER_MANIFEST_UNREADABLE")
  | some text => do
    match ← Json.loads (fail "TRANSFER_MANIFEST_UNREADABLE") (rejectPairs fail) text with
    | .obj pairs => .ok pairs
    | _ => .error (fail "TRANSFER_MANIFEST_UNREADABLE")

section Contract
variable (rt : PythonRuntime) (fail : String → Raised)

/-- `_bounded_manifest_token` on a text. -/
def isManifestToken (value : Text) : Bool :=
  value.length ≤ maxTokenLength && value.all (fun c => c != '\x00' && rt.isPrintable c && c != '\\') &&
    value.head? != some '/' && (purePosixPath (rt.lower value)).root == [] &&
    !(purePosixPath (rt.lower value)).parts.contains ['.', '.'] && strip value == value &&
    !value.any isWhitespace

def boundedManifestToken (value : Option Json) : Except Raised Text :=
  match value with
  | some (.str token) =>
    if isManifestToken rt token then .ok token else .error (fail "TRANSFER_MANIFEST_VALUE_INVALID")
  | _ => .error (fail "TRANSFER_MANIFEST_VALUE_INVALID")

def artifactTypeOf (value : Option Json) : Option ArtifactType :=
  match value with
  | some (.str value) => [ArtifactType.dbf, .fpt].find? fun artifactType => artifactType.value = value
  | _ => none

/-- The count and the fingerprint of a table; a memo file has neither. -/
def logicalFacts (artifactType : ArtifactType) (recordCount schemaFingerprint : Option Json) :
    Option (Option ℕ × Option Text) :=
  match artifactType, recordCount, schemaFingerprint with
  | .dbf, some count, some (.str fingerprint) =>
    match jsonCount? count with
    | some count => if fingerprint = [] then none else some (some count, some fingerprint)
    | none => none
  | .fpt, some .null, some .null => some (none, none)
  | _, _, _ => none

/-- One entry of the manifest, after the entries declared before it. -/
def declareArtifact (declared : List (Text × DeclaredArtifact)) (entry : Json) :
    Except Raised (List (Text × DeclaredArtifact)) :=
  match entry with
  | .obj pairs =>
    match artifactTypeOf (valueAt pairs "artifact_type") with
    | none => .error (fail "TRANSFER_MANIFEST_UNREADABLE")
    | some artifactType => do
      refuseIf (hasExactKeys pairs manifestArtifactKeys = false) (fail "TRANSFER_MANIFEST_SCHEMA_INVALID")
      match valueAt pairs "path" with
      | some (.str rawPath) =>
        let artifactPath ← normalizedArtifactPath rt fail rawPath
        refuseIf (artifactPath = transferManifestFilename) (fail "TRANSFER_MANIFEST_PATH_COLLISION")
        refuseIf (isForbiddenArtifact rt artifactPath = true) (fail "TRANSFER_FORBIDDEN_ARTIFACT")
        let lowered := rt.casefold artifactPath
        refuseIf (¬ artifactType.extension <:+ lowered) (fail "TRANSFER_ARTIFACT_TYPE_MISMATCH")
        refuseIf (∃ other ∈ [ArtifactType.dbf, .fpt], other.extension <:+ lowered ∧ artifactType ≠ other)
          (fail "TRANSFER_ARTIFACT_TYPE_MISMATCH")
        refuseIf (lowered ∈ declared.map (·.1)) (fail "TRANSFER_MANIFEST_PATH_COLLISION")
        match (valueAt pairs "size_bytes").bind jsonCount?, (valueAt pairs "sha256").bind jsonText?,
            logicalFacts artifactType (valueAt pairs "record_count") (valueAt pairs "schema_fingerprint") with
        | some size, some digest, some (recordCount, schemaFingerprint) =>
          refuseIf (digest = [] ∨ maxTokenLength < digest.length) (fail "TRANSFER_MANIFEST_VALUE_INVALID")
          return declared ++ [(lowered, ⟨artifactPath, artifactType, size, digest, recordCount, schemaFingerprint⟩)]
        | _, _, _ => .error (fail "TRANSFER_MANIFEST_VALUE_INVALID")
      | _ => .error (fail "TRANSFER_MANIFEST_UNREADABLE")
  | _ => .error (fail "TRANSFER_MANIFEST_UNREADABLE")

/-- `_validate_manifest_contract`. -/
def validateManifestContract (manifest : List (Text × Json)) : Except Raised (List (Text × DeclaredArtifact)) := do
  refuseIf (hasExactKeys manifest manifestTopLevelKeys = false) (fail "TRANSFER_MANIFEST_SCHEMA_INVALID")
  manifestScalars.forM fun key => do
    let _ ← boundedManifestToken rt fail (valueAt manifest key)
    return ()
  let scalar := fun key => (valueAt manifest key).bind jsonText?
  refuseIf (scalar "schema_version" ≠ some transferManifestSchemaVersion) (fail "TRANSFER_MANIFEST_SCHEMA_UNSUPPORTED")
  refuseIf (scalar "profile" ≠ some transferProfileDataOnly) (fail "TRANSFER_PROFILE_UNSUPPORTED")
  refuseIf (scalar "classification" ≠ some classificationPseudonymized) (fail "TRANSFER_CLASSIFICATION_INVALID")
  refuseIf (scalar "index_state" ≠ some indexStateDataOnly) (fail "TRANSFER_INDEX_STATE_UNTRUTHFUL")
  refuseIf (scalar "data_state" ≠ some dataStateStandalone) (fail "TRANSFER_DATA_STATE_UNTRUTHFUL")
  refuseIf (scalar "verification_status" ≠ some verificationStatusCreated) (fail "TRANSFER_VERIFICATION_STATUS_INVALID")
  refuseIf (¬ ∃ datasetId ∈ scalar "dataset_id", "ds-".toList <+: datasetId ∧ datasetId.length = 3 + 16)
    (fail "TRANSFER_MANIFEST_VALUE_INVALID")
  match valueAt manifest "artifacts" with
  | some (.arr entries) =>
    refuseIf (entries = []) (fail "TRANSFER_MANIFEST_UNREADABLE")
    refuseIf (maxManifestArtifacts < entries.length) (fail "TRANSFER_MANIFEST_TOO_LARGE")
    entries.foldlM (declareArtifact rt fail) []
  | _ => .error (fail "TRANSFER_MANIFEST_UNREADABLE")

end Contract
end DbfAnonymizer.Transfer
