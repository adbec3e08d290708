import Mathlib.Data.List.Sort
import DbfAnonymizer.Engine.PublicationState
import DbfAnonymizer.Verification.Dataset
import DbfAnonymizer.Transfer.Manifest

/-! The standalone verification of a bundle directory. -/
namespace DbfAnonymizer.Transfer
open Lib Relationships Engine Verification

/-- An entry of a directory tree that is no directory. -/
structure TreeFile where
  /-- Its components below the root. -/
  names : List Text
  regular : Bool
  content : List UInt8
  deriving DecidableEq, Repr

def TreeFile.path (f : TreeFile) : Text := List.intercalate ['/'] f.names

/-- A directory tree. Opening a path finds a file whose own path differs from it at most in case; on a
case-sensitive file system it is the path itself. -/
structure BundleTree (rt : PythonRuntime) where
  files : List TreeFile
  /-- Whether the entries of a directory can be listed. -/
  listable : List Text → Bool
  opens : Text → Option TreeFile
  paths_nodup : (files.map TreeFile.path).Nodup
  opens_mem : ∀ p f, opens p = some f → f ∈ files ∧ rt.casefold f.path = rt.casefold p

namespace BundleTree
variable {rt : PythonRuntime}

/-- The walk passes over the entries of a directory that it cannot list. -/
def visible (tree : BundleTree rt) (f : TreeFile) : Bool := f.names.dropLast.inits.all tree.listable

def walk (tree : BundleTree rt) : DatasetTree :=
  (tree.files.filter tree.visible).map fun f => if f.regular then .file f.path f.content else .irregular

/-- A case-sensitive file system whose directories can all be listed. -/
def exact (rt : PythonRuntime) (files : List TreeFile) (h : (files.map TreeFile.path).Nodup) : BundleTree rt where
  files := files
  listable := fun _ => true
  opens := fun p => files.find? fun f => f.path = p
  paths_nodup := h
  opens_mem p f hf := by
    have hpath : f.path = p := by simpa using List.find?_some hf
    exact ⟨List.mem_of_find?_eq_some hf, by rw [hpath]⟩

end BundleTree

/-- The schema and the record reads of dbfbridge, as functions of the bytes they read. -/
structure DbfBridge where
  readSchema : List UInt8 → Except Raised TableSchema
  /-- The records streamed with their memo payloads skipped. -/
  countSkipping : List UInt8 → Except Raised ℕ
  /-- The records streamed with the memo payloads of the companion read inline. -/
  countInline : List UInt8 → Option (List UInt8) → Except Raised ℕ

/-- The records streamed under the memo policy that the schema asks for. -/
def streamTableRecords (bridge : DbfBridge) (schema : TableSchema) (content : List UInt8)
    (companion : Option (List UInt8)) : Except Raised ℕ :=
  if schema.hasMemoFields then bridge.countInline content companion else bridge.countSkipping content

/-- `_schema_digest`. -/
def schemaDigest (sha256 : List UInt8 → Text) (schema : TableSchema) : Text :=
  let facts := schemaFacts schema
  let canonical := Json.obj
    [("encoding".toList, .str facts.2.1),
      ("fields".toList, .arr (facts.1.map fun f =>
        .arr [.str f.1, .str [f.2.1], .int f.2.2.1, .int f.2.2.2.1, .bool f.2.2.2.2])),
      ("language_driver".toList, .int facts.2.2)]
  "sch-".toList ++ (sha256 (asciiBytes canonical.dumps)).take 32

section Core
variable (rt : PythonRuntime) (bridge : DbfBridge) (sha256 : List UInt8 → Text)
  (osError : Raised) (fail : String → Raised)

/-- `_iter_bundle_inventory`: the relative paths that the walk meets. -/
def iterBundleInventory (tree : BundleTree rt) : Except Raised (List Text) :=
  match tree.walk.mapM inspectEntry with
  | .ok inventory => .ok (inventory.map (·.1))
  | .error _ => .error (fail "TRANSFER_BUNDLE_UNREADABLE")

/-- The bytes under a path; a path that leads nowhere raises what the system raises. -/
def openContent {rt : PythonRuntime} (tree : BundleTree rt) (path : Text) : Except Raised (List UInt8) :=
  match tree.opens path with
  | some f => .ok f.content
  | none => .error osError

def readSourceTable {rt : PythonRuntime} (tree : BundleTree rt) (path : Text) : Except Raised TableSchema := do
  bridge.readSchema (← openContent osError tree path)

/-- The checks of one declared artifact, under its casefolded path. -/
def verifyArtifact (tree : BundleTree rt) (declared : List (Text × DeclaredArtifact))
    (item : Text × DeclaredArtifact) : Except Raised Unit := do
  let content ← openContent osError tree item.1
  refuseIf (content.length ≠ item.2.sizeBytes ∨ sha256 content ≠ item.2.sha256) (fail "TRANSFER_HASH_MISMATCH")
  match item.2.artifactType with
  | .fpt => .ok ()
  | .dbf => do
    let schema ← readSourceTable bridge osError tree item.1
    refuseIf (some schema.recordCount ≠ item.2.recordCount) (fail "TRANSFER_RECORD_COUNT_MISMATCH")
    refuseIf (some (schemaDigest sha256 schema) ≠ item.2.schemaFingerprint) (fail "TRANSFER_SCHEMA_MISMATCH")
    let companion := withSuffix item.1 fptSuffix
    let streamed ← streamTableRecords bridge schema content ((tree.opens companion).map (·.content))
    refuseIf (some streamed ≠ item.2.recordCount) (fail "TRANSFER_RECORD_COUNT_MISMATCH")
    refuseIf (schema.hasMemoFields = true ∧ rt.casefold companion ∉ declared.map (·.1))
      (fail "TRANSFER_FPT_COMPANION_MISSING")

/-- The companion that one declared artifact asks for. -/
def companionExpectation (tree : BundleTree rt) (item : Text × DeclaredArtifact) : Except Raised (Option Text) :=
  match item.2.artifactType with
  | .fpt => .ok none
  | .dbf => do
    let schema ← readSourceTable bridge osError tree item.1
    return if schema.hasMemoFields then some (rt.casefold (withSuffix item.1 fptSuffix)) else none

/-- `_verify_bundle_core`: the manifest's fingerprint, its assurance and the number of artifacts. -/
def verifyBundleCore (tree : BundleTree rt) : Except Raised (Text × RelationalAssurance × ℕ) := do
  let inventory ← iterBundleInventory rt fail tree
  refuseIf (rt.casefold transferManifestFilename ∉ inventory) (fail "TRANSFER_MANIFEST_MISSING")
  inventory.forM fun relativePath =>
    refuseIf (relativePath ≠ transferManifestFilename ∧ isForbiddenArtifact rt relativePath = true)
      (fail "TRANSFER_FORBIDDEN_ARTIFACT")
  let manifestBytes ← openContent (fail "TRANSFER_BUNDLE_UNREADABLE") tree transferManifestFilename
  refuseIf (maxManifestBytes < manifestBytes.length) (fail "TRANSFER_MANIFEST_TOO_LARGE")
  let manifest ← strictJsonLoads fail manifestBytes
  let declared ← validateManifestContract rt fail manifest
  let actual ← casefoldInventory rt fail inventory
  actual.forM fun item => do
    let _ ← normalizedArtifactPath rt fail item.2
    return ()
  let expected := declared.map (·.1) ++ [rt.casefold transferManifestFilename]
  refuseIf ((∃ item ∈ actual, item.1 ∉ expected) ∨ ∃ key ∈ expected, key ∉ actual.map (·.1))
    (fail "TRANSFER_INVENTORY_MISMATCH")
  (declared.insertionSort fun a b => a.1 ≤ b.1).forM
    (verifyArtifact rt bridge sha256 osError fail tree declared)
  let companions ← declared.mapM (companionExpectation rt bridge osError tree)
  refuseIf (∃ item ∈ declared, item.2.artifactType = .fpt ∧ some item.1 ∉ companions)
    (fail "TRANSFER_UNEXPECTED_FPT")
  let assurance ← manifestAssurance rt fail ((valueAt manifest "assurance").getD .null)
  return ("bundle-".toList ++ sha256 manifestBytes, assurance, declared.length)

end Core
end DbfAnonymizer.Transfer
