import DbfAnonymizer.Lib.JsonObject
import DbfAnonymizer.Relationships.Models
import DbfAnonymizer.Verification.Dataset

/-! External metadata: the words of its vocabularies, its paths, and its index claims as they are parsed and written. -/
namespace DbfAnonymizer.Relationships
open Lib
open Verification (pathSuffix)

instance : Vocabulary KeyRole where
  all := [.primary, .candidate, .foreign]
  value
    | .primary => "PRIMARY".toList
    | .candidate => "CANDIDATE".toList
    | .foreign => "FOREIGN".toList
  complete := by intro a; cases a <;> simp
  injective := by intro a b h; cases a <;> cases b <;> first | rfl | exact absurd h (by decide)

instance : Vocabulary Comparison where
  all := [.exactValue, .unspecified]
  value
    | .exactValue => "EXACT_VALUE".toList
    | .unspecified => "UNSPECIFIED".toList
  complete := by intro a; cases a <;> simp
  injective := by intro a b h; cases a <;> cases b <;> first | rfl | exact absurd h (by decide)

instance : Vocabulary Provenance where
  all := [.policyFile, .mcpVfp9sp2Toolchain, .externalVfpMetadata]
  value
    | .policyFile => "POLICY_FILE".toList
    | .mcpVfp9sp2Toolchain => "MCP_VFP9SP2_TOOLCHAIN".toList
    | .externalVfpMetadata => "EXTERNAL_VFP_METADATA".toList
  complete := by intro a; cases a <;> simp
  injective := by intro a b h; cases a <;> cases b <;> first | rfl | exact absurd h (by decide)

instance : Vocabulary MemberType where
  all := [.c, .v, .i, .n]
  value
    | .c => ['C']
    | .v => ['V']
    | .i => ['I']
    | .n => ['N']
  complete := by intro a; cases a <;> simp
  injective := by intro a b h; cases a <;> cases b <;> first | rfl | exact absurd h (by decide)

instance : Vocabulary NumericStrategy where
  all := [.identity, .reversibleBijective]
  value
    | .identity => "IDENTITY".toList
    | .reversibleBijective => "REVERSIBLE_BIJECTIVE".toList
  complete := by intro a; cases a <;> simp
  injective := by intro a b h; cases a <;> cases b <;> first | rfl | exact absurd h (by decide)

instance : Vocabulary ClaimAssurance where
  all := [.verified, .unverified]
  value
    | .verified => "VERIFIED".toList
    | .unverified => "UNVERIFIED".toList
  complete := by intro a; cases a <;> simp
  injective := by intro a b h; cases a <;> cases b <;> first | rfl | exact absurd h (by decide)

instance : Vocabulary ClaimAuthority where
  all := [.contractAuthoritative, .inferred]
  value
    | .contractAuthoritative => "CONTRACT_AUTHORITATIVE".toList
    | .inferred => "INFERRED".toList
  complete := by intro a; cases a <;> simp
  injective := by intro a b h; cases a <;> cases b <;> first | rfl | exact absurd h (by decide)

instance : Vocabulary IndexKind where
  all := [.structuralCdx, .standaloneIdx]
  value
    | .structuralCdx => "STRUCTURAL_CDX".toList
    | .standaloneIdx => "STANDALONE_IDX".toList
  complete := by intro a; cases a <;> simp
  injective := by intro a b h; cases a <;> cases b <;> first | rfl | exact absurd h (by decide)

instance : Vocabulary TagSortOrder where
  all := [.ascending, .descending]
  value
    | .ascending => "ASCENDING".toList
    | .descending => "DESCENDING".toList
  complete := by intro a; cases a <;> simp
  injective := by intro a b h; cases a <;> cases b <;> first | rfl | exact absurd h (by decide)

section Scalars
variable {χ : Type}

/-- A positive number; every other value reads as zero, which every check that follows refuses the same way. -/
def jsonCountOrZero (v : Json χ) : ℕ := (jsonCount? v).getD 0

variable [TextChar χ]

/-- No bounded token holds the replacement character, so that none is read off a text with a surrogate. -/
def jsonToken? : Json χ → Option Text
  | .str value => if isBoundedToken (TextChar.plain value) then some (TextChar.plain value) else none
  | _ => none

/-- A text; a value of another type reads as the empty one, which every check that follows refuses the same way. -/
def jsonTextOrEmpty (v : Json χ) : Text := (jsonText? v).getD []

end Scalars

def maxExternalPathLength : ℕ := 256
def tableSuffix : Text := ['.', 'd', 'b', 'f']

def isExternalPathCharacter (c : Char) : Bool := c.isAlphanum || c == '_' || c == '.' || c == ' ' || c == '-'

def startsWithDrive : Text → Bool
  | c :: ':' :: _ => c.isAlpha
  | _ => false

def validateExternalSegment (part : Text) : Except Raised Unit := do
  refuseIf (part = ['.'] ∨ part = ['.', '.']) (invalid "RELATIONSHIP_TABLE_PATH_TRAVERSAL")
  refuseIf (':' ∈ part) (invalid "RELATIONSHIP_TABLE_PATH_ABSOLUTE")
  refuseIf (part = [] ∨ part.all isExternalPathCharacter = false) (invalid "RELATIONSHIP_TABLE_PATH_INVALID")

/-- A path of external metadata, kept as it is given. -/
def validateExternalMetadataPath (value : Text) (requireTableSuffix : Bool) : Except Raised Text := do
  refuseIf (value = [] ∨ maxExternalPathLength < value.length) (invalid "RELATIONSHIP_TABLE_PATH_INVALID")
  refuseIf (value.head? = some '/') (invalid "RELATIONSHIP_TABLE_PATH_ABSOLUTE")
  refuseIf (startsWithDrive value = true) (invalid "RELATIONSHIP_TABLE_PATH_ABSOLUTE")
  refuseIf (['\\', '\\'].isPrefixOf value = true ∨ ['/', '/'].isPrefixOf value = true)
    (invalid "RELATIONSHIP_TABLE_PATH_ABSOLUTE")
  refuseIf ('\\' ∈ value) (invalid "RELATIONSHIP_TABLE_PATH_INVALID")
  (value.splitOn '/').forM validateExternalSegment
  refuseIf (requireTableSuffix = true ∧ tableSuffix.isSuffixOf (value.map Char.toLower) = false)
    (invalid "RELATIONSHIP_TABLE_PATH_INVALID")
  return value

def externalMetadataSchemaVersion : Text := ['1', '.', '0']

structure ExternalProducerProvenance where
  producerId : Text
  producerVersion : Text
  deriving DecidableEq, Repr

variable {χ : Type} [TextChar χ]

def producerKeys : List String := ["producer_id", "producer_version"]

def parseProducer (payload : Json χ) : Except Raised ExternalProducerProvenance :=
  match payload with
  | .obj pairs => do
    refuseIf (hasOnlyKeys pairs producerKeys = false) (invalid "EXTERNAL_METADATA_PRODUCER_KEY_UNKNOWN")
    let producerId ← required (invalid "EXTERNAL_METADATA_PRODUCER_ID_INVALID")
      (jsonToken? (valueOrNull pairs "producer_id"))
    let producerVersion ← required (invalid "EXTERNAL_METADATA_PRODUCER_VERSION_INVALID")
      (jsonToken? (valueOrNull pairs "producer_version"))
    return ⟨producerId, producerVersion⟩
  | _ => .error (invalid "EXTERNAL_METADATA_PRODUCER_INVALID")

def parseExternalAuthority (payload : Json χ) : Except Raised ClaimAuthority :=
  required (invalid "EXTERNAL_METADATA_AUTHORITY_INVALID") (Vocabulary.ofJson payload)

def parseClaimAssurance (payload : Json χ) : Except Raised ClaimAssurance :=
  required (invalid "EXTERNAL_METADATA_RELATION_ASSURANCE_INVALID") (Vocabulary.ofJson payload)

def validateAuthorityAssurance (authority : ClaimAuthority) (assurance : ClaimAssurance) : Except Raised Unit :=
  refuseIf (authority = .inferred ∧ assurance = .verified) (invalid "EXTERNAL_METADATA_AUTHORITY_ASSURANCE_INCONSISTENT")

/-- The classes of provenance that authoritative metadata may have. -/
def externalProvenanceClassAllowed (provenance : Provenance) : Bool :=
  provenance == .mcpVfp9sp2Toolchain || provenance == .externalVfpMetadata

def maxIndexTags : ℕ := 256
def maxIndexClaims : ℕ := 256

/-- The pattern of a machine path: a drive, a leading separator, or a parent segment. -/
def isPrivatePath (s : Text) : Bool :=
  (match s with
    | c :: ':' :: d :: _ => c.isAlpha && isPathSeparator d
    | _ => false) ||
    s.head?.any isPathSeparator || (s.splitOnP isPathSeparator).contains ['.', '.']

def isTagExpression (s : Text) : Bool :=
  1 ≤ s.length && s.length ≤ 256 && s.all (fun c => 32 ≤ c.toNat && c.toNat ≤ 126) && !isPrivatePath s

def parseTagExpression : Json χ → Except Raised (Option Text)
  | .null => .ok none
  | .str s =>
    if isTagExpression (TextChar.plain s) then .ok (some (TextChar.plain s))
    else .error (invalid "EXTERNAL_METADATA_INDEX_EXPRESSION_INVALID")
  | _ => .error (invalid "EXTERNAL_METADATA_INDEX_EXPRESSION_INVALID")

def tagKeys : List String := ["name", "sort_order", "expression"]

def parseIndexTag (payload : Json χ) : Except Raised ExternalIndexTag :=
  match payload with
  | .obj pairs => do
    refuseIf (hasOnlyKeys pairs tagKeys = false ∨ hasAllKeys pairs ["name", "sort_order"] = false)
      (invalid "EXTERNAL_METADATA_INDEX_TAG_KEY_INVALID")
    let name ← required (invalid "EXTERNAL_METADATA_INDEX_TAG_NAME_INVALID") (jsonToken? (valueOrNull pairs "name"))
    let sortOrder ← required (invalid "EXTERNAL_METADATA_INDEX_TAG_ORDER_INVALID")
      (Vocabulary.ofJson (valueOrNull pairs "sort_order"))
    let expression ← parseTagExpression (valueOrNull pairs "expression")
    return ⟨name, sortOrder, expression⟩
  | _ => .error (invalid "EXTERNAL_METADATA_INDEX_TAG_INVALID")

namespace ExternalIndexTag

def upperName (t : ExternalIndexTag) : Text := t.name.map Char.toUpper

def toDict (t : ExternalIndexTag) : List (String × Option (Json χ)) :=
  [("name", some (.plain t.name)), ("sort_order", some (Vocabulary.toJson t.sortOrder)),
    ("expression", t.expression.map .plain)]

def sortKey (t : ExternalIndexTag) : Text ×ₗ Text ×ₗ Text :=
  toLex (t.upperName, toLex (Vocabulary.value t.sortOrder, t.expression.getD []))

end ExternalIndexTag

def parseIndexTags (payload : Json χ) (detail : String) : Except Raised (List ExternalIndexTag) :=
  match payload with
  | .arr items => do
    refuseIf (items.isEmpty = true ∨ maxIndexTags < items.length) (invalid detail)
    let tags ← items.mapM parseIndexTag
    refuseIf (¬ (tags.map ExternalIndexTag.upperName).Nodup) (invalid "EXTERNAL_METADATA_INDEX_TAG_DUPLICATE")
    return tags
  | _ => .error (invalid detail)

def indexClaimKeys : List String :=
  ["claim_id", "table", "index_file", "index_kind", "tags", "verification_state", "assurance", "provenance", "authority"]

def IndexKind.suffix : IndexKind → Text
  | .structuralCdx => ['.', 'c', 'd', 'x']
  | .standaloneIdx => ['.', 'i', 'd', 'x']

/-- One claim, after the claims with the ids seen before it. -/
def parseIndexClaim (seen : List Text) (payload : Json χ) : Except Raised ExternalIndexClaim :=
  match payload with
  | .obj pairs => do
    refuseIf (hasExactKeys pairs indexClaimKeys = false) (invalid "EXTERNAL_METADATA_INDEX_CLAIM_KEY_INVALID")
    let claimId ← required (invalid "EXTERNAL_METADATA_INDEX_CLAIM_ID_INVALID") (jsonToken? (valueOrNull pairs "claim_id"))
    refuseIf (claimId ∈ seen) (invalid "EXTERNAL_METADATA_INDEX_CLAIM_DUPLICATE")
    let tablePath ← validateExternalMetadataPath (jsonTextOrEmpty (valueOrNull pairs "table")) true
    let indexFilePath ← validateExternalMetadataPath (jsonTextOrEmpty (valueOrNull pairs "index_file")) false
    let indexKind ← required (invalid "EXTERNAL_METADATA_INDEX_KIND_INVALID")
      (Vocabulary.ofJson (valueOrNull pairs "index_kind"))
    let tags ← parseIndexTags (valueOrNull pairs "tags") "EXTERNAL_METADATA_INDEX_TAGS_INVALID"
    let verificationState ← required (invalid "EXTERNAL_METADATA_INDEX_VERIFICATION_INVALID")
      (Vocabulary.ofJson (valueOrNull pairs "verification_state"))
    let assurance ← required (invalid "EXTERNAL_METADATA_INDEX_ASSURANCE_INVALID")
      (Vocabulary.ofJson (valueOrNull pairs "assurance"))
    refuseIf (assurance ≠ verificationState) (invalid "EXTERNAL_METADATA_INDEX_ASSURANCE_INCONSISTENT")
    let authority ← required (invalid "EXTERNAL_METADATA_INDEX_AUTHORITY_INVALID")
      (Vocabulary.ofJson (valueOrNull pairs "authority"))
    refuseIf ((pathSuffix indexFilePath).map Char.toLower ≠ indexKind.suffix)
      (invalid "EXTERNAL_METADATA_INDEX_PATH_KIND_MISMATCH")
    let provenance ← required (invalid "EXTERNAL_METADATA_INDEX_PROVENANCE_INVALID")
      (Vocabulary.ofJson (valueOrNull pairs "provenance"))
    refuseIf (authority = .contractAuthoritative ∧ assurance = .verified ∧ verificationState = .verified ∧
      externalProvenanceClassAllowed provenance = false) (invalid "EXTERNAL_METADATA_INDEX_PROVENANCE_INAUTHORITATIVE")
    return ⟨claimId, tablePath, indexFilePath, indexKind, tags, verificationState, assurance, provenance, authority⟩
  | _ => .error (invalid "EXTERNAL_METADATA_INDEX_CLAIM_INVALID")

def addIndexClaim (claims : List ExternalIndexClaim) (item : Json χ) : Except Raised (List ExternalIndexClaim) := do
  let claim ← parseIndexClaim (claims.map ExternalIndexClaim.claimId) item
  return claims ++ [claim]

def parseIndexClaims (payload : Json χ) : Except Raised (List ExternalIndexClaim) :=
  match payload with
  | .arr items => do
    refuseIf (maxIndexClaims < items.length) (invalid "EXTERNAL_METADATA_INDEX_CLAIMS_INVALID")
    items.foldlM addIndexClaim []
  | _ => .error (invalid "EXTERNAL_METADATA_INDEX_CLAIMS_INVALID")

def ExternalIndexClaim.toDict (c : ExternalIndexClaim) : List (String × Option (Json χ)) :=
  [("claim_id", some (.plain c.claimId)), ("table", some (.plain c.tablePath)), ("index_file", some (.plain c.indexFilePath)),
    ("index_kind", some (Vocabulary.toJson c.indexKind)),
    ("tags", some (.arr ((sortedBy ExternalIndexTag.sortKey c.tags).map fun t => entriesJson t.toDict))),
    ("verification_state", some (Vocabulary.toJson c.verificationState)),
    ("assurance", some (Vocabulary.toJson c.assurance)), ("provenance", some (Vocabulary.toJson c.provenance)),
    ("authority", some (Vocabulary.toJson c.authority))]

end DbfAnonymizer.Relationships
