import DbfAnonymizer.Engine.Evidence
import DbfAnonymizer.Relationships.ExternalMetadata

/-! The relationship document: how a payload is parsed into one, and the canonical text its fingerprint is taken of. -/
namespace DbfAnonymizer.Relationships
open Lib
open Engine (asciiBytes)

def relationshipMetadataSchemaVersion : Text := ['1', '.', '0']
def maxRelationGroups : ℕ := 256
def maxRelationMembers : ℕ := 512

def memberKeys : List String := ["table", "field", "role", "ordinal", "dbf_type", "byte_width", "encoding", "nullable"]

section Parser
variable {χ : Type} [TextChar χ]

/-- The text of a path as it is given; a value of another type reads as the empty one. -/
def pathOrEmpty : Json χ → List χ
  | .str value => value
  | _ => []

/-- The path that a member is constructed from. Of external metadata it has to be in the form of the contract,
which no text with a surrogate is in. -/
def memberTable (external : Bool) (raw : Json χ) : Except Raised (List χ) :=
  if external then do
    let _ ← validateExternalMetadataPath (jsonTextOrEmpty raw) true
    return pathOrEmpty raw
  else .ok (pathOrEmpty raw)

variable [DecidableEq χ]

def parseMember (external : Bool) (payload : Json χ) : Except Raised (RelationMember χ) :=
  match payload with
  | .obj pairs => do
    refuseIf (hasOnlyKeys pairs memberKeys = false) (invalid "RELATIONSHIP_MEMBER_KEY_UNKNOWN")
    refuseIf (hasAllKeys pairs memberKeys = false) (invalid "RELATIONSHIP_MEMBER_KEY_MISSING")
    let keyRole ← required (invalid "RELATIONSHIP_KEY_ROLE_INVALID") (Vocabulary.ofJson (valueOrNull pairs "role"))
    let dbfType ← required (invalid "RELATIONSHIP_DBF_TYPE_UNSUPPORTED")
      (Vocabulary.ofJson (valueOrNull pairs "dbf_type"))
    let tablePath ← memberTable external (valueOrNull pairs "table")
    let nullable := jsonBool? (valueOrNull pairs "nullable")
    let member ← RelationMember.postInit
      { tablePath, keyRole, dbfType
        fieldName := jsonTextOrEmpty (valueOrNull pairs "field")
        compositeOrdinal := jsonCountOrZero (valueOrNull pairs "ordinal")
        byteWidth := jsonCountOrZero (valueOrNull pairs "byte_width")
        encoding := jsonTextOrEmpty (valueOrNull pairs "encoding")
        nullable := nullable.getD false }
    refuseIf (nullable = none) (invalid "RELATIONSHIP_NULL_POLICY_INVALID")
    return member
  | _ => .error (invalid "RELATIONSHIP_MEMBER_INVALID")

def groupKeys : List String :=
  ["relation_id", "provenance", "comparison", "source_digest", "members", "numeric_strategy", "assurance", "authority"]

def requiredGroupKeys : List String := ["relation_id", "provenance", "comparison", "members"]

def parseNumericStrategy : Json χ → Except Raised NumericStrategy
  | .null => .ok .identity
  | v => required (invalid "RELATIONSHIP_NUMERIC_STRATEGY_INVALID") (Vocabulary.ofJson v)

def parseMembers (external : Bool) : Json χ → Except Raised (List (RelationMember χ))
  | .arr items => do
    refuseIf (items.isEmpty = true ∨ maxRelationMembers < items.length) (invalid "RELATIONSHIP_MEMBERS_EMPTY")
    items.mapM (parseMember external)
  | _ => .error (invalid "RELATIONSHIP_MEMBERS_EMPTY")

def parseSourceDigest : Json χ → Except Raised (Option Text)
  | .null => .ok none
  | v => do
    let digest ← required (invalid "RELATIONSHIP_SOURCE_DIGEST_INVALID") (jsonToken? v)
    return some digest

/-- What a relation claims about itself; only a claim of external metadata may. -/
def parseClaimFacts (external : Bool) (pairs : List (Text × Json χ)) (provenance : Provenance) (strategy : NumericStrategy) :
    Except Raised (Option (ClaimAssurance × ClaimAuthority)) :=
  if external then do
    refuseIf ((valueAt pairs "assurance").isNone = true) (invalid "EXTERNAL_METADATA_RELATION_ASSURANCE_MISSING")
    let assurance ← parseClaimAssurance (valueOrNull pairs "assurance")
    refuseIf ((valueAt pairs "authority").isNone = true) (invalid "EXTERNAL_METADATA_RELATION_AUTHORITY_MISSING")
    let authority ← parseExternalAuthority (valueOrNull pairs "authority")
    validateAuthorityAssurance authority assurance
    refuseIf (authority = .contractAuthoritative ∧ assurance = .verified ∧
      externalProvenanceClassAllowed provenance = false) (invalid "EXTERNAL_METADATA_RELATION_PROVENANCE_INAUTHORITATIVE")
    refuseIf (strategy = .reversibleBijective ∧ (authority ≠ .contractAuthoritative ∨ assurance ≠ .verified))
      (invalid (if authority = .inferred then "EXTERNAL_METADATA_INFERRED_GROUPING_UNSUPPORTED"
        else "EXTERNAL_METADATA_UNVERIFIED_GROUPING_UNSUPPORTED"))
    return some (assurance, authority)
  else do
    refuseIf ((valueAt pairs "assurance").isSome = true) (invalid "EXTERNAL_METADATA_RELATION_ASSURANCE_WITHOUT_ENVELOPE")
    return none

def parseGroup (external : Bool) (payload : Json χ) : Except Raised (RelationGroup χ) :=
  match payload with
  | .obj pairs => do
    refuseIf (hasOnlyKeys pairs groupKeys = false) (invalid "RELATIONSHIP_GROUP_KEY_UNKNOWN")
    refuseIf (hasAllKeys pairs requiredGroupKeys = false) (invalid "RELATIONSHIP_GROUP_KEY_MISSING")
    let comparison ← required (invalid "RELATIONSHIP_COMPARISON_INVALID")
      (Vocabulary.ofJson (valueOrNull pairs "comparison"))
    let provenance ← required (invalid "RELATIONSHIP_PROVENANCE_INVALID")
      (Vocabulary.ofJson (valueOrNull pairs "provenance"))
    let numericStrategy ← parseNumericStrategy (valueOrNull pairs "numeric_strategy")
    let members ← parseMembers external (valueOrNull pairs "members")
    let sourceDigest ← parseSourceDigest (valueOrNull pairs "source_digest")
    let claim ← parseClaimFacts external pairs provenance numericStrategy
    let group : RelationGroup χ :=
      { members, comparison, provenance, sourceDigest, numericStrategy
        relationId := jsonTextOrEmpty (valueOrNull pairs "relation_id")
        claimAssurance := claim.map Prod.fst
        claimAuthority := claim.map Prod.snd }
    group.postInit
    return group
  | _ => .error (invalid "RELATIONSHIP_GROUP_INVALID")

structure ExternalEnvelope where
  producer : ExternalProducerProvenance
  authority : ClaimAuthority
  indexClaims : List ExternalIndexClaim
  deriving DecidableEq, Repr

def requiredEnvelopeKeys : List String := ["external_metadata_schema_version", "producer", "authority"]

def envelopeKeys : List String := requiredEnvelopeKeys ++ ["index_claims"]

/-- The claims of an envelope, none of them both inferred and verified. -/
def envelopeClaims : Option (Json χ) → Except Raised (List ExternalIndexClaim)
  | none => .ok []
  | some v => do
    let claims ← parseIndexClaims v
    claims.forM fun c => validateAuthorityAssurance c.authority c.assurance
    return claims

/-- The external envelope is there as a whole or not at all. -/
def parseEnvelope (pairs : List (Text × Json χ)) : Except Raised (Option ExternalEnvelope) :=
  if envelopeKeys.all fun key => (valueAt pairs key).isNone then .ok none
  else do
    refuseIf (hasAllKeys pairs requiredEnvelopeKeys = false) (invalid "RELATIONSHIP_EXTERNAL_ENVELOPE_INCOMPLETE")
    refuseIf (jsonText? (valueOrNull pairs "external_metadata_schema_version") ≠ some externalMetadataSchemaVersion)
      (invalid "RELATIONSHIP_EXTERNAL_METADATA_VERSION_UNSUPPORTED")
    let producer ← parseProducer (valueOrNull pairs "producer")
    let authority ← parseExternalAuthority (valueOrNull pairs "authority")
    let indexClaims ← envelopeClaims (valueAt pairs "index_claims")
    return some ⟨producer, authority, indexClaims⟩

def documentKeys : List String := ["metadata_schema_version", "relations"]

def ExternalEnvelope.document (envelope : Option ExternalEnvelope) (groups : List (RelationGroup χ)) :
    RelationshipDocument χ where
  groups := groups
  externalMetadataSchemaVersion := envelope.map fun _ => externalMetadataSchemaVersion
  producerId := envelope.map fun e => e.producer.producerId
  producerVersion := envelope.map fun e => e.producer.producerVersion
  externalAuthority := envelope.map ExternalEnvelope.authority
  indexClaims := (envelope.map ExternalEnvelope.indexClaims).getD []

def parseRelations (external : Bool) : Json χ → Except Raised (List (RelationGroup χ))
  | .arr items => do
    refuseIf (maxRelationGroups < items.length) (invalid "RELATIONSHIP_RELATIONS_INVALID")
    items.mapM (parseGroup external)
  | _ => .error (invalid "RELATIONSHIP_RELATIONS_INVALID")

def parseRelationshipDocument (payload : Json χ) : Except Raised (RelationshipDocument χ) :=
  match payload with
  | .obj pairs => do
    refuseIf (hasOnlyKeys pairs (documentKeys ++ envelopeKeys) = false) (invalid "RELATIONSHIP_DOCUMENT_KEY_UNKNOWN")
    refuseIf (hasAllKeys pairs documentKeys = false) (invalid "RELATIONSHIP_DOCUMENT_KEY_MISSING")
    refuseIf (jsonText? (valueOrNull pairs "metadata_schema_version") ≠ some relationshipMetadataSchemaVersion)
      (invalid "RELATIONSHIP_METADATA_VERSION_UNSUPPORTED")
    let envelope ← parseEnvelope pairs
    let groups ← parseRelations envelope.isSome (valueOrNull pairs "relations")
    let document := ExternalEnvelope.document envelope groups
    document.postInit
    return document
  | _ => .error (invalid "RELATIONSHIP_DOCUMENT_INVALID")

end Parser

section Writer
variable {χ : Type} [TextChar χ] [LinearOrder χ]

namespace RelationMember

def toDict (m : RelationMember χ) : List (String × Option (Json χ)) :=
  [("table", some (.str m.tablePath)), ("field", some (.plain m.fieldName)), ("role", some (Vocabulary.toJson m.keyRole)),
    ("ordinal", some (.int m.compositeOrdinal)), ("dbf_type", some (Vocabulary.toJson m.dbfType)),
    ("byte_width", some (.int m.byteWidth)), ("encoding", some (.plain m.encoding)), ("nullable", some (.bool m.nullable))]

def sortKey (m : RelationMember χ) : Text ×ₗ ℕ ×ₗ List χ ×ₗ Text :=
  toLex (Vocabulary.value m.keyRole, toLex (m.compositeOrdinal, toLex (m.tablePath, m.fieldName)))

end RelationMember

def RelationGroup.toDict (g : RelationGroup χ) : List (String × Option (Json χ)) :=
  [("relation_id", some (.plain g.relationId)), ("comparison", some (Vocabulary.toJson g.comparison)),
    ("provenance", some (Vocabulary.toJson g.provenance)), ("source_digest", some ((g.sourceDigest.map Json.plain).getD .null)),
    ("numeric_strategy", some (Vocabulary.toJson g.numericStrategy)),
    ("members", some (.arr ((sortedBy RelationMember.sortKey g.members).map fun m => entriesJson m.toDict))),
    ("assurance", g.claimAssurance.map Vocabulary.toJson), ("authority", g.claimAuthority.map Vocabulary.toJson)]

namespace RelationshipDocument

def producerJson (d : RelationshipDocument χ) : Option (Json χ) := do
  let producerId ← d.producerId
  let producerVersion ← d.producerVersion
  return entriesJson [("producer_id", some (.plain producerId)), ("producer_version", some (.plain producerVersion))]

def indexClaimsJson (d : RelationshipDocument χ) : Option (Json χ) :=
  if d.indexClaims = [] then none
  else some (.arr ((sortedBy ExternalIndexClaim.claimId d.indexClaims).map fun c => entriesJson c.toDict))

def toDict (d : RelationshipDocument χ) : List (String × Option (Json χ)) :=
  [("metadata_schema_version", some (.plain relationshipMetadataSchemaVersion)),
    ("relations", some (.arr ((sortedBy RelationGroup.relationId d.groups).map fun g => entriesJson g.toDict))),
    ("external_metadata_schema_version", d.externalMetadataSchemaVersion.map .plain), ("producer", d.producerJson),
    ("authority", d.externalAuthority.map Vocabulary.toJson), ("index_claims", d.indexClaimsJson)]

end RelationshipDocument

def canonicalRelationshipBytes (d : RelationshipDocument χ) : List UInt8 := asciiBytes (Json.dumps (entriesJson d.toDict))

def relationshipFingerprint (sha256 : List UInt8 → Text) (d : RelationshipDocument χ) : Text :=
  sha256 (canonicalRelationshipBytes d)

end Writer

end DbfAnonymizer.Relationships
