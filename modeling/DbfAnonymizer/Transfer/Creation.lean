import DbfAnonymizer.Transfer.Bundle

/-! The copy and manifest steps of bundle creation, over a published dataset. -/
namespace DbfAnonymizer.Transfer
open Lib Relationships Engine Verification

def publicJsonMaxDatasetTables : ℕ := 256
def publicJsonMaxRelativePathLength : ℕ := 512

/-- `_normalized_relative_path` of the public models. -/
def normalizedRelativePath (rt : PythonRuntime) (value : Text) : Option Text :=
  let normalized := purePosixPath (value.map fun c => if c = '\\' then '/' else c)
  let text := normalized.asPosix
  if value = [] ∨ publicJsonMaxRelativePathLength < value.length ∨ value.contains '\x00' = true ∨
      value.all rt.isPrintable = false ∨ windowsDrive rt value = true ∨ windowsRoot value = true ∨
      normalized.root ≠ [] ∨ ['.', '.'] ∈ normalized.parts ∨ text = [] ∨ text = ['.'] then none
  else some text

/-- What the engine derives the published assurance from. -/
structure RelationFacts (rt : PythonRuntime) where
  relationCount : ℕ
  verified : ℕ
  failed : ℕ
  relationshipFingerprint : Text
  evidenceFingerprint : Option Text
  authoritativeVerified : Bool
  settled_le : verified + failed ≤ relationCount
  relationCount_le : relationCount ≤ publicJsonMaxCount
  relationship_code : isValidatedCode rt relationshipFingerprint = true
  relationship_token : isRelationshipFingerprint rt relationshipFingerprint = true
  evidence_digest : evidenceFingerprint.all isEvidenceFingerprint = true

def RelationFacts.assurance {rt : PythonRuntime} (facts : RelationFacts rt) : RelationalAssurance :=
  assuranceFromCounts facts.relationCount facts.verified facts.failed facts.relationshipFingerprint
    facts.evidenceFingerprint facts.authoritativeVerified

/-- A published dataset that the verification precondition of bundle creation has passed. -/
structure PublishedDataset (rt : PythonRuntime) (bridge : DbfBridge) (osError : Raised) where
  working : BundleTree rt
  tablePaths : List Text
  datasetDigits : Text
  relations : RelationFacts rt
  tables_nonempty : tablePaths ≠ []
  tables_bounded : tablePaths.length ≤ publicJsonMaxDatasetTables
  /-- The identity keeps its paths in the normal form of the public models. -/
  tables_normalized : ∀ path ∈ tablePaths, ∃ value, normalizedRelativePath rt value = some path
  /-- Tables are discovered by their extension. -/
  tables_dbf : ∀ path ∈ tablePaths, (pathSuffix path).map Char.toLower = ArtifactType.dbf.extension
  digits_hex : datasetDigits.length = 16 ∧ datasetDigits.all isLowerHex = true
  /-- The precondition has read every record, with its memo payloads inline. -/
  memo_read : ∀ path ∈ tablePaths, ∀ f schema, working.opens path = some f → bridge.readSchema f.content = .ok schema →
    schema.hasMemoFields = true →
    bridge.countInline f.content ((working.opens (withSuffix path fptSuffix)).map (·.content)) = .ok schema.recordCount

structure PackageVersions (rt : PythonRuntime) where
  package : Text
  dbfbridge : Text
  package_token : isManifestToken rt package = true
  dbfbridge_token : isManifestToken rt dbfbridge = true

structure AllowedArtifact where
  casefolded : Text
  path : Text
  artifactType : ArtifactType
  deriving DecidableEq, Repr

/-- A copied artifact and the facts its manifest entry states. -/
structure StagedArtifact where
  path : Text
  artifactType : ArtifactType
  content : List UInt8
  recordCount : Option ℕ
  schemaFingerprint : Option Text
  deriving DecidableEq, Repr

section Staging
variable {rt : PythonRuntime} (bridge : DbfBridge) (sha256 : List UInt8 → Text) (osError : Raised)
  (fail : String → Raised)

/-- The artifacts that one table contributes. -/
def tablePayload (working : BundleTree rt) (relativePath : Text) : Except Raised (List (Text × ArtifactType)) := do
  let schema ← readSourceTable bridge osError working relativePath
  return (relativePath, .dbf) ::
    if schema.hasMemoFields then [(withSuffix relativePath fptSuffix, .fpt)] else []

/-- One artifact, after the artifacts allowed before it. -/
def allowArtifact (rt : PythonRuntime) (allowlist : List AllowedArtifact) (item : Text × ArtifactType) :
    Except Raised (List AllowedArtifact) := do
  let normalized ← normalizedArtifactPath rt fail item.1
  refuseIf (isForbiddenArtifact rt normalized = true) (fail "TRANSFER_FORBIDDEN_ARTIFACT")
  refuseIf (rt.casefold normalized ∈ allowlist.map (·.casefolded)) (fail "TRANSFER_MANIFEST_PATH_COLLISION")
  return allowlist ++ [⟨rt.casefold normalized, normalized, item.2⟩]

def payloadAllowlist (working : BundleTree rt) (tablePaths : List Text) : Except Raised (List AllowedArtifact) := do
  let payload ← tablePaths.mapM (tablePayload bridge osError working)
  let allowlist ← payload.flatten.foldlM (allowArtifact fail rt) []
  refuseIf (allowlist.length ≠ payload.flatten.length) (fail "TRANSFER_MANIFEST_PATH_COLLISION")
  return allowlist

/-- `_count_records`. -/
def countRecords (schema : TableSchema) (content : List UInt8) : Except Raised ℕ := do
  let streamed ← bridge.countSkipping content
  refuseIf (streamed ≠ schema.recordCount) (fail "TRANSFER_RECORD_COUNT_MISMATCH")
  return streamed

/-- The copy of one artifact, byte for byte, with its manifest facts. -/
def stageArtifact (working : BundleTree rt) (item : AllowedArtifact) : Except Raised StagedArtifact := do
  let content ← openContent osError working item.path
  match item.artifactType with
  | .fpt => return ⟨item.path, .fpt, content, none, none⟩
  | .dbf => do
    let schema ← readSourceTable bridge osError working item.path
    let recordCount ← countRecords bridge fail schema content
    return ⟨item.path, .dbf, content, some recordCount, some (schemaDigest sha256 schema)⟩

/-- The artifacts in the order of their casefolded paths. -/
def stageArtifacts (working : BundleTree rt) (tablePaths : List Text) : Except Raised (List StagedArtifact) := do
  let allowlist ← payloadAllowlist bridge osError fail working tablePaths
  (allowlist.insertionSort fun a b => a.casefolded ≤ b.casefolded).mapM
    (stageArtifact bridge sha256 osError fail working)

end Staging

def optionalText : Option Text → Json
  | none => .null
  | some value => .str value

def optionalCount : Option ℕ → Json
  | none => .null
  | some value => .int value

def artifactEntry (sha256 : List UInt8 → Text) (artifact : StagedArtifact) : List (Text × Json) :=
  [("artifact_type".toList, .str artifact.artifactType.value),
    ("path".toList, .str artifact.path),
    ("record_count".toList, optionalCount artifact.recordCount),
    ("schema_fingerprint".toList, optionalText artifact.schemaFingerprint),
    ("sha256".toList, .str (sha256 artifact.content)),
    ("size_bytes".toList, .int artifact.content.length)]

def assuranceEntry (assurance : RelationalAssurance) : List (Text × Json) :=
  [("declared_relations".toList, .int assurance.declaredRelations),
    ("evidence_fingerprint".toList, optionalText assurance.evidenceFingerprint),
    ("evidence_schema_version".toList, optionalText assurance.evidenceSchemaVersion),
    ("failed_relations".toList, .int assurance.failedRelations),
    ("incomplete_relations".toList, .int assurance.incompleteRelations),
    ("level".toList, .str assurance.level.value),
    ("relationship_fingerprint".toList, optionalText assurance.relationshipFingerprint),
    ("scope_note".toList, optionalText assurance.scopeNote),
    ("verified_relations".toList, .int assurance.verifiedRelations)]

/-- `_build_manifest`. -/
def buildManifest {rt : PythonRuntime} (sha256 : List UInt8 → Text) (versions : PackageVersions rt) (datasetId : Text)
    (assurance : RelationalAssurance) (artifacts : List StagedArtifact) : List (Text × Json) :=
  [("artifacts".toList, .arr (artifacts.map fun artifact => .obj (artifactEntry sha256 artifact))),
    ("assurance".toList, .obj (assuranceEntry assurance)),
    ("classification".toList, .str classificationPseudonymized),
    ("data_state".toList, .str dataStateStandalone),
    ("dataset_id".toList, .str datasetId),
    ("dbfbridge_version".toList, .str versions.dbfbridge),
    ("index_state".toList, .str indexStateDataOnly),
    ("package_version".toList, .str versions.package),
    ("profile".toList, .str transferProfileDataOnly),
    ("schema_version".toList, .str transferManifestSchemaVersion),
    ("verification_status".toList, .str verificationStatusCreated)]

section Dataset
variable {rt : PythonRuntime} {bridge : DbfBridge} {osError : Raised}

/-- `derive_dataset_id`. -/
def PublishedDataset.datasetId (dataset : PublishedDataset rt bridge osError) : Text :=
  "ds-".toList ++ dataset.datasetDigits

def PublishedDataset.manifest (dataset : PublishedDataset rt bridge osError) (sha256 : List UInt8 → Text)
    (versions : PackageVersions rt) (artifacts : List StagedArtifact) : List (Text × Json) :=
  buildManifest sha256 versions dataset.datasetId dataset.relations.assurance artifacts

def PublishedDataset.manifestBytes (dataset : PublishedDataset rt bridge osError) (sha256 : List UInt8 → Text)
    (versions : PackageVersions rt) (artifacts : List StagedArtifact) : List UInt8 :=
  asciiBytes (Json.obj (dataset.manifest sha256 versions artifacts)).dumps

def stagedArtifactFile (artifact : StagedArtifact) : TreeFile :=
  ⟨(purePosixPath artifact.path).parts, true, artifact.content⟩

def manifestFile (manifestBytes : List UInt8) : TreeFile := ⟨[transferManifestFilename], true, manifestBytes⟩

/-- The files that the copy and manifest steps write. -/
def PublishedDataset.stagedFiles (dataset : PublishedDataset rt bridge osError) (sha256 : List UInt8 → Text)
    (versions : PackageVersions rt) (artifacts : List StagedArtifact) : List TreeFile :=
  artifacts.map stagedArtifactFile ++ [manifestFile (dataset.manifestBytes sha256 versions artifacts)]

end Dataset

def codesSchema : TableSchema where
  fields := [⟨"CODE".toList, 'C', 3, 0, true, false, false, false, false, false, false⟩]
  encoding := "cp1252".toList
  languageDriver := 3
  recordCount := 1
  hasStructuralCdx := false
  dbcBound := false
  dbcBacklinkPath := none
  isDatabaseContainer := false

def codesTable : List UInt8 :=
  [3, 124, 1, 1, 1, 0, 0, 0, 65, 0, 4, 0, 0, 0, 0, 0, 0, 0, 0, 0, 0, 0, 0, 0, 0, 0, 0, 0, 0, 3, 0, 0] ++
    (asciiBytes "CODE".toList ++ List.replicate 7 0 ++ asciiBytes ['C'] ++ List.replicate 4 0 ++ [3, 0] ++
      List.replicate 14 0) ++ [13] ++ asciiBytes " abc".toList ++ [26]

def codesBridge : DbfBridge where
  readSchema content := if content = codesTable then .ok codesSchema else .error schemaUnreadable
  countSkipping content := if content = codesTable then .ok 1 else .error schemaUnreadable
  countInline content _ := if content = codesTable then .ok 1 else .error schemaUnreadable

def codesSha256 (content : List UInt8) : Text :=
  if content = codesTable then "3dbe72f9edca1f224dd619beca015383955e6045b5687c46d5c1180446ad4a70".toList
  else if content.length = 75 then "c49f947e6dcb2a67d9643a1fdf29d2f577f8b933ecb8d6f2d1be274b1b8a1d81".toList
  else "7da7c19876c76d7aa16a6bfa4893710886dd22b7c8c3cc8f0575438ad957edb8".toList

def noRelations : RelationFacts asciiRuntime where
  relationCount := 0
  verified := 0
  failed := 0
  relationshipFingerprint := "8b49371aa77500c1518ee53f3142e771b07cd26a53f46a72d2aa1e79c917509a".toList
  evidenceFingerprint := none
  authoritativeVerified := false
  settled_le := le_refl 0
  relationCount_le := Nat.zero_le _
  relationship_code := by decide +kernel
  relationship_token := by decide +kernel
  evidence_digest := rfl

def releaseVersions : PackageVersions asciiRuntime where
  package := "1.0.0".toList
  dbfbridge := "1.1.0".toList
  package_token := by decide +kernel
  dbfbridge_token := by decide +kernel

def codesDataset (path value : Text) (hvalue : normalizedRelativePath asciiRuntime value = some path)
    (hdbf : (pathSuffix path).map Char.toLower = ArtifactType.dbf.extension) :
    PublishedDataset asciiRuntime codesBridge schemaUnreadable where
  working := .exact asciiRuntime [⟨[path], true, codesTable⟩] (List.nodup_singleton _)
  tablePaths := [path]
  datasetDigits := "0123456789abcdef".toList
  relations := noRelations
  tables_nonempty := by simp
  tables_bounded := by simp [publicJsonMaxDatasetTables]
  tables_normalized := by simpa using ⟨value, hvalue⟩
  tables_dbf := by simpa using hdbf
  digits_hex := by decide
  memo_read := by
    intro _ _ f schema _ hschema hmemo
    dsimp only [codesBridge] at hschema
    split_ifs at hschema
    rw [← Except.ok.inj hschema] at hmemo
    exact absurd hmemo (by decide)

theorem codesPath_normalized :
    normalizedRelativePath asciiRuntime "codes.dbf".toList = some "codes.dbf".toList := by
  decide +kernel

theorem codesPath_suffix : (pathSuffix "codes.dbf".toList).map Char.toLower = ArtifactType.dbf.extension := by decide

end DbfAnonymizer.Transfer
