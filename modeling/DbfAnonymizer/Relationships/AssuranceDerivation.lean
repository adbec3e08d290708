import DbfAnonymizer.Engine.EvidenceSpool
import DbfAnonymizer.Relationships.Document
import DbfAnonymizer.Transfer.PublishedManifest

/-! The relational assurance is derived from evidence: its strongest level needs verified relations and a minted binding. -/
namespace DbfAnonymizer.Relationships
open Lib Transfer
open Engine (RelationPassSummary asciiBytes)

/-- `hashlib.sha256(content).hexdigest()`, by what is documented about it. -/
structure HexDigest where
  digest : List UInt8 → Text
  digest_hex : ∀ content, isEvidenceFingerprint (digest content) = true

def checkCode (rt : PythonRuntime) (field : String) (value : Text) : Except Raised Unit :=
  refuseIf (isValidatedCode rt value = false) (.valueError (field ++ " must be a non-empty whitespace-free code"))

def checkOptionalCode (rt : PythonRuntime) (field : String) : Option Text → Except Raised Unit
  | none => .ok ()
  | some value => checkCode rt field value

def checkCount (field : String) (value : ℕ) : Except Raised Unit :=
  refuseIf (publicJsonMaxCount < value) (.valueError (field ++ " must be from 0 to 9223372036854775807"))

/-- The public facts of the metadata; its path, which is only displayed, is left out. -/
structure RelationshipMetadata where
  metadataSchemaVersion : Text
  provenance : Text
  relationshipFingerprint : Text
  relationCount : ℕ
  authoritative : Bool
  externalMetadataSchemaVersion : Option Text
  producerId : Option Text
  producerVersion : Option Text
  authoritySummary : Option Text
  deriving DecidableEq, Repr

def RelationshipMetadata.new (rt : PythonRuntime) (m : RelationshipMetadata) : Except Raised RelationshipMetadata := do
  checkCode rt "metadata_schema_version" m.metadataSchemaVersion
  checkCode rt "provenance" m.provenance
  refuseIf (isRelationshipFingerprint rt m.relationshipFingerprint = false)
    (.valueError "relationship_fingerprint must be a non-empty bounded relationship-fingerprint token")
  checkCount "relation_count" m.relationCount
  checkOptionalCode rt "external_metadata_schema_version" m.externalMetadataSchemaVersion
  checkOptionalCode rt "producer_id" m.producerId
  checkOptionalCode rt "producer_version" m.producerVersion
  checkOptionalCode rt "authority_summary" m.authoritySummary
  return m

/-- `RelationalAssurance(...)`. -/
def newRelationalAssurance (rt : PythonRuntime) (a : RelationalAssurance) : Except Raised RelationalAssurance := do
  checkCount "declared_relations" a.declaredRelations
  checkCount "verified_relations" a.verifiedRelations
  checkCount "failed_relations" a.failedRelations
  checkCount "incomplete_relations" a.incompleteRelations
  refuseIf (a.declaredRelations < a.verifiedRelations + a.failedRelations + a.incompleteRelations)
    (.valueError "verified + failed + incomplete relations cannot exceed declared relations")
  checkOptionalCode rt "evidence_fingerprint" a.evidenceFingerprint
  checkOptionalCode rt "relationship_fingerprint" a.relationshipFingerprint
  checkOptionalCode rt "evidence_schema_version" a.evidenceSchemaVersion
  checkOptionalCode rt "scope_note" a.scopeNote
  return a

theorem checkCount_eq_ok {field : String} {value : ℕ} {u : Unit} : checkCount field value = .ok u ↔ value ≤ publicJsonMaxCount := by
  rw [checkCount, refuseIf_eq_ok, not_lt]

theorem checkOptionalCode_eq_ok {rt : PythonRuntime} {field : String} {value : Option Text} {u : Unit} :
    checkOptionalCode rt field value = .ok u ↔ value.all (isValidatedCode rt) = true := by
  cases value with
  | none => simp [checkOptionalCode]
  | some value => simp [checkOptionalCode, checkCode]

theorem newRelationalAssurance_eq_ok {rt : PythonRuntime} {a b : RelationalAssurance} :
    newRelationalAssurance rt a = .ok b ↔ a.accepts rt = true ∧ b = a := by
  simp only [newRelationalAssurance, bind_eq_ok, checkCount_eq_ok, checkOptionalCode_eq_ok, refuseIf_eq_ok, not_lt, pure_eq_ok,
    Except.ok.injEq, RelationalAssurance.accepts, Bool.and_eq_true]
  constructor
  · intro h
    obtain ⟨_, hdeclared, _, hverified, _, hfailed, _, hincomplete, _, hsum, _, hevidence, _, hrelationship, _, hversion, _, hnote,
      rfl⟩ := h
    exact ⟨⟨⟨⟨⟨⟨⟨⟨⟨decide_eq_true hdeclared, decide_eq_true hverified⟩, decide_eq_true hfailed⟩, decide_eq_true hincomplete⟩,
      decide_eq_true hsum⟩, hevidence⟩, hrelationship⟩, hversion⟩, hnote⟩, rfl⟩
  · intro h
    obtain ⟨⟨⟨⟨⟨⟨⟨⟨⟨hdeclared, hverified⟩, hfailed⟩, hincomplete⟩, hsum⟩, hevidence⟩, hrelationship⟩, hversion⟩, hnote⟩, rfl⟩ := h
    exact ⟨(), of_decide_eq_true hdeclared, (), of_decide_eq_true hverified, (), of_decide_eq_true hfailed, (),
      of_decide_eq_true hincomplete, (), of_decide_eq_true hsum, (), hevidence, (), hrelationship, (), hversion, (), hnote, rfl⟩

/-- The internal authority proof. -/
structure AuthoritativeVFPBinding where
  relationshipFingerprint : Text
  relationCount : ℕ
  metadataSchemaVersion : Text
  deriving DecidableEq, Repr

structure AuthoritativeVFPMetadata where
  metadata : RelationshipMetadata
  binding : AuthoritativeVFPBinding
  deriving DecidableEq, Repr

def provenanceMixed : Text := "MIXED".toList

/-- The one word of a set, or that there are several. -/
def summaryWord {α : Type} [DecidableEq α] [Vocabulary α] (words : List α) : Text :=
  match words.dedup with
  | [word] => Vocabulary.value word
  | _ => provenanceMixed

def RelationshipDocument.authorities (d : RelationshipDocument) : List ClaimAuthority :=
  d.groups.filterMap RelationGroup.claimAuthority ++ d.indexClaims.map ExternalIndexClaim.authority

def RelationshipDocument.authoritySummary (d : RelationshipDocument) : Option Text :=
  if d.externalMetadataSchemaVersion = none ∨ d.authorities = [] then none else some (summaryWord d.authorities)

section Minting
variable (rt : PythonRuntime) (hashing : HexDigest)

def authoritativeVfpMetadataFromDocument (d : RelationshipDocument) : Except Raised AuthoritativeVFPMetadata := do
  refuseIf (d.effectiveGroups = []) (invalid "RELATIONSHIP_AUTHORITATIVE_EMPTY")
  refuseIf (¬ ∀ g ∈ d.effectiveGroups, externalProvenanceClassAllowed g.provenance = true)
    (invalid "RELATIONSHIP_AUTHORITATIVE_PROVENANCE_INVALID")
  let fingerprint := relationshipFingerprint hashing.digest d
  let metadata ← RelationshipMetadata.new rt
    { metadataSchemaVersion := relationshipMetadataSchemaVersion
      provenance := summaryWord (d.effectiveGroups.map RelationGroup.provenance)
      relationshipFingerprint := fingerprint
      relationCount := d.effectiveGroups.length
      authoritative := true
      externalMetadataSchemaVersion := d.externalMetadataSchemaVersion
      producerId := d.producerId
      producerVersion := d.producerVersion
      authoritySummary := d.authoritySummary }
  return ⟨metadata, fingerprint, d.effectiveGroups.length, relationshipMetadataSchemaVersion⟩

/-- A binding of the in-process trust boundary: the adapter has minted it for some document. -/
structure MintedBinding extends AuthoritativeVFPBinding where
  document : RelationshipDocument
  minted : ∃ result, authoritativeVfpMetadataFromDocument rt hashing document = .ok result ∧
    result.binding = toAuthoritativeVFPBinding

end Minting

inductive VerificationStatus
  | verified | failed | incomplete
  deriving DecidableEq, Repr

/-- The verdict on one relation; the derivation does not read the counts it rests on. -/
structure RelationVerificationEvidence where
  relationId : Text
  status : VerificationStatus
  deriving DecidableEq, Repr

/-- A report as its constructor leaves it: in the order of the relation ids, with the digest of its content. -/
structure RelationshipVerificationReport where
  relationshipFingerprint : Text
  relations : List RelationVerificationEvidence
  evidenceFingerprint : Text
  ids_nodup : (relations.map RelationVerificationEvidence.relationId).Nodup
  ids_sorted : (relations.map RelationVerificationEvidence.relationId).Pairwise (· ≤ ·)
  fingerprint_hex : isEvidenceFingerprint evidenceFingerprint = true

namespace RelationshipVerificationReport

def idsOf (r : RelationshipVerificationReport) (status : VerificationStatus) : List Text :=
  (r.relations.filter (·.status = status)).map RelationVerificationEvidence.relationId

def complete (r : RelationshipVerificationReport) : Bool := r.relations.all fun e => e.status ≠ .incomplete

end RelationshipVerificationReport

/-- The relations that the engine's summaries found verified, or found failed. -/
def idsOfSummaries (evidence : List RelationPassSummary) (verified : Bool) : List Text :=
  (evidence.filter (·.verified = verified)).map RelationPassSummary.relationId

def evidenceFailure (detailCode : String) : Raised := .typed .verificationFailed "derive_relational_assurance" detailCode

def summaryDict (s : RelationPassSummary) : List (String × Option Json) :=
  [("relation_id", some (.str s.relationId)), ("verified", some (.bool s.verified)), ("before_rows", some (.int s.beforeRows)),
    ("after_rows", some (.int s.afterRows)), ("before_nulls", some (.int s.beforeNulls)), ("after_nulls", some (.int s.afterNulls)),
    ("before_unique", some (.int s.beforeUnique)), ("after_unique", some (.int s.afterUnique)),
    ("matched_rows", some (.int s.matchedRows)), ("orphan_count", some (.int s.orphanCount)),
    ("parent_profile_equal", some (.bool s.parentProfileEqual)), ("foreign_profile_equal", some (.bool s.foreignProfileEqual))]

section Derivation
variable (rt : PythonRuntime) (hashing : HexDigest)

/-- The canonical digest of the engine's summaries, in the order of their relation ids. -/
def boundedEvidenceFingerprint (evidence : List RelationPassSummary) (fingerprint : Text) : Except Raised (Option Text) :=
  if evidence = [] then .ok none
  else do
    refuseIf (¬ (evidence.map RelationPassSummary.relationId).Nodup)
      (evidenceFailure "RELATIONSHIP_EVIDENCE_RELATION_COUNT_MISMATCH")
    return some (hashing.digest (asciiBytes (Json.dumps (entriesJson
      [("evidence_schema_version", some (.str evidenceSchemaVersion)), ("relationship_fingerprint", some (.str fingerprint)),
        ("relations", some (.arr ((sortedBy RelationPassSummary.relationId evidence).map fun s => entriesJson (summaryDict s))))]))))

/-- The summaries of provenance that the strongest level accepts. -/
def authoritativeProvenances : List Text :=
  [Vocabulary.value Provenance.mcpVfp9sp2Toolchain, Vocabulary.value Provenance.externalVfpMetadata, provenanceMixed]

/-- Whether a supplied binding authorizes the strongest level; one that does not fit is refused. -/
def validatedAuthorityBinding (m : RelationshipMetadata) (reportFingerprint : Option Text)
    (binding : Option AuthoritativeVFPBinding) : Except Raised Bool :=
  match binding with
  | none => .ok false
  | some b => do
    refuseIf (b.metadataSchemaVersion ≠ relationshipMetadataSchemaVersion ∨ m.metadataSchemaVersion ≠ b.metadataSchemaVersion ∨
      m.authoritative = false ∨ m.provenance ∉ authoritativeProvenances ∨
      b.relationshipFingerprint ≠ m.relationshipFingerprint ∨ b.relationCount ≠ m.relationCount ∨
      ¬ ∀ fingerprint ∈ reportFingerprint, b.relationshipFingerprint = fingerprint)
      (evidenceFailure "RELATIONSHIP_AUTHORITY_BINDING_MISMATCH")
    return true

/-- `_assurance_from_counts`, with the constructor of the public model. -/
def settledAssurance (m : RelationshipMetadata) (verified failed : ℕ) (evidenceFingerprint : Option Text)
    (authoritativeVerified : Bool) : Except Raised RelationalAssurance :=
  newRelationalAssurance rt (assuranceFromCounts m.relationCount verified failed m.relationshipFingerprint evidenceFingerprint
    authoritativeVerified)

def deriveRelationalAssuranceFromBoundedEvidence (m : RelationshipMetadata) (evidence : List RelationPassSummary)
    (binding : Option AuthoritativeVFPBinding) : Except Raised RelationalAssurance := do
  refuseIf (evidence.length ≠ m.relationCount) (evidenceFailure "RELATIONSHIP_EVIDENCE_RELATION_COUNT_MISMATCH")
  let evidenceFingerprint ← boundedEvidenceFingerprint hashing evidence m.relationshipFingerprint
  let verified := (idsOfSummaries evidence true).length
  let authoritativeVerified ← validatedAuthorityBinding m none binding
  settledAssurance rt m verified (evidence.length - verified) evidenceFingerprint authoritativeVerified

/-- Whether the verified relations of a report earn the strongest level. -/
def reportAuthority (m : RelationshipMetadata) (r : RelationshipVerificationReport) (binding : Option AuthoritativeVFPBinding)
    (verified : ℕ) : Except Raised Bool :=
  if verified = m.relationCount ∧ 0 < m.relationCount ∧ m.authoritative = true ∧ m.provenance ∈ authoritativeProvenances then
    validatedAuthorityBinding m (some r.relationshipFingerprint) binding
  else .ok false

/-- The derivation from a report that names relations. -/
def deriveFromReport (m : RelationshipMetadata) (r : RelationshipVerificationReport) (binding : Option AuthoritativeVFPBinding) :
    Except Raised RelationalAssurance := do
  refuseIf (r.relationshipFingerprint ≠ m.relationshipFingerprint) (evidenceFailure "RELATIONSHIP_EVIDENCE_FINGERPRINT_MISMATCH")
  refuseIf (r.relations.length ≠ m.relationCount) (evidenceFailure "RELATIONSHIP_EVIDENCE_RELATION_COUNT_MISMATCH")
  let verified := (r.idsOf .verified).length
  let failed := (r.idsOf .failed).length
  refuseIf (m.relationCount < verified + failed) (evidenceFailure "RELATIONSHIP_EVIDENCE_RELATION_COUNT_MISMATCH")
  let authoritativeVerified ← reportAuthority m r binding verified
  settledAssurance rt m verified failed (some r.evidenceFingerprint) authoritativeVerified

def deriveRelationalAssurance (m : RelationshipMetadata) (report : Option RelationshipVerificationReport)
    (binding : Option AuthoritativeVFPBinding) : Except Raised RelationalAssurance := do
  let _ ← validatedAuthorityBinding m (report.map RelationshipVerificationReport.relationshipFingerprint) binding
  match report with
  | none => settledAssurance rt m 0 0 none false
  | some r =>
    if r.relations = [] then do
      refuseIf (m.relationCount ≠ 0) (evidenceFailure "RELATIONSHIP_EVIDENCE_RELATION_COUNT_MISMATCH")
      settledAssurance rt m 0 0 none false
    else deriveFromReport rt m r binding

end Derivation

section Results
variable {rt : PythonRuntime} {hashing : HexDigest} {m : RelationshipMetadata}

/-- A binding that fits the metadata and the report. -/
structure BindingFits (m : RelationshipMetadata) (reportFingerprint : Option Text) (b : AuthoritativeVFPBinding) : Prop where
  supported : b.metadataSchemaVersion = relationshipMetadataSchemaVersion
  metadataSchemaVersion : b.metadataSchemaVersion = m.metadataSchemaVersion
  authoritative : m.authoritative = true
  provenance : m.provenance ∈ authoritativeProvenances
  relationshipFingerprint : b.relationshipFingerprint = m.relationshipFingerprint
  relationCount : b.relationCount = m.relationCount
  report : ∀ fingerprint ∈ reportFingerprint, b.relationshipFingerprint = fingerprint

theorem validatedAuthorityBinding_eq_ok {reportFingerprint : Option Text} {binding : Option AuthoritativeVFPBinding}
    {granted : Bool} :
    validatedAuthorityBinding m reportFingerprint binding = .ok granted ↔
      granted = binding.isSome ∧ ∀ b ∈ binding, BindingFits m reportFingerprint b := by
  cases binding with
  | none => simp [validatedAuthorityBinding, eq_comm]
  | some b =>
    unfold validatedAuthorityBinding
    rw [bind_eq_ok]
    constructor
    · intro h
      obtain ⟨_, hfits, h⟩ := h
      have hgranted := Except.ok.inj h
      have hfits' := refuseIf_eq_ok.mp hfits
      simp only [not_or, not_not] at hfits'
      obtain ⟨hsupported, hversion, hauthoritative, hprovenance, hfingerprint, hcount, hreport⟩ := hfits'
      refine ⟨hgranted.symm, fun b' hb => ?_⟩
      obtain rfl := Option.some.inj hb
      exact ⟨hsupported, hversion.symm, Bool.of_not_eq_false hauthoritative, hprovenance, hfingerprint, hcount, hreport⟩
    · intro h
      obtain ⟨rfl, hfits⟩ := h
      have hb := hfits b rfl
      refine ⟨(), refuseIf_eq_ok.mpr ?_, rfl⟩
      simp only [not_or, not_not]
      exact ⟨hb.supported, hb.metadataSchemaVersion.symm, by simp [hb.authoritative], hb.provenance,
        hb.relationshipFingerprint, hb.relationCount, hb.report⟩

theorem boundedEvidenceFingerprint_eq_ok {evidence : List RelationPassSummary} {fingerprint : Text} {digest : Option Text}
    (h : boundedEvidenceFingerprint hashing evidence fingerprint = .ok digest) :
    (evidence.map RelationPassSummary.relationId).Nodup ∧ digest.all isEvidenceFingerprint = true := by
  unfold boundedEvidenceFingerprint at h
  by_cases hnil : evidence = []
  · rw [if_pos hnil] at h
    obtain rfl := Except.ok.inj h
    rw [hnil]
    exact ⟨List.nodup_nil, rfl⟩
  · rw [if_neg hnil] at h
    obtain ⟨_, hnodup, h⟩ := bind_eq_ok.mp h
    obtain rfl := Except.ok.inj h
    exact ⟨not_not.mp (refuseIf_eq_ok.mp hnodup), hashing.digest_hex _⟩

theorem exists_boundedEvidenceFingerprint {evidence : List RelationPassSummary}
    (h : (evidence.map RelationPassSummary.relationId).Nodup) (fingerprint : Text) :
    ∃ digest, boundedEvidenceFingerprint hashing evidence fingerprint = .ok digest := by
  unfold boundedEvidenceFingerprint
  by_cases hnil : evidence = []
  · rw [if_pos hnil]
    exact ⟨_, rfl⟩
  · rw [if_neg hnil, refuseIf_bind_neg (not_not.mpr h)]
    exact ⟨_, rfl⟩

structure PublicMetadata (rt : PythonRuntime) (m : RelationshipMetadata) : Prop where
  relationCount_le : m.relationCount ≤ publicJsonMaxCount
  relationship_code : isValidatedCode rt m.relationshipFingerprint = true

theorem settledAssurance_eq_ok {verified failed : ℕ} {digest : Option Text} {granted : Bool} {a : RelationalAssurance}
    (hsettled : verified + failed ≤ m.relationCount) (hdigest : digest.all isEvidenceFingerprint = true) :
    settledAssurance rt m verified failed digest granted = .ok a ↔ PublicMetadata rt m ∧
      a = assuranceFromCounts m.relationCount verified failed m.relationshipFingerprint digest granted := by
  rw [settledAssurance, newRelationalAssurance_eq_ok, accepts_assuranceFromCounts hsettled hdigest]
  constructor
  · intro h
    exact ⟨⟨h.1.1, h.1.2⟩, h.2⟩
  · intro h
    exact ⟨⟨h.1.relationCount_le, h.1.relationship_code⟩, h.2⟩

/-- A derived assurance by its counts, and by the binding where that matters. -/
structure Derived (m : RelationshipMetadata) (verified failed : ℕ) (granted : Bool) (a : RelationalAssurance) : Prop where
  settled_le : verified + failed ≤ m.relationCount
  counts : ∃ digest given, a = assuranceFromCounts m.relationCount verified failed m.relationshipFingerprint digest given ∧
    (verified = m.relationCount → 0 < m.relationCount → given = granted)

structure BoundedAccepted (rt : PythonRuntime) (m : RelationshipMetadata) (evidence : List RelationPassSummary)
    (binding : Option AuthoritativeVFPBinding) : Prop where
  length : evidence.length = m.relationCount
  ids_nodup : (evidence.map RelationPassSummary.relationId).Nodup
  binding_fits : ∀ b ∈ binding, BindingFits m none b
  metadata : PublicMetadata rt m

theorem length_idsOfSummaries (evidence : List RelationPassSummary) :
    (idsOfSummaries evidence true).length + (idsOfSummaries evidence false).length = evidence.length := by
  have hfailed : evidence.filter (fun s => s.verified = false) = evidence.filter fun s => !s.verified := by
    apply List.filter_congr
    intro s _
    cases s.verified <;> rfl
  have hverified : evidence.filter (fun s => s.verified = true) = evidence.filter fun s => s.verified := by
    apply List.filter_congr
    intro s _
    cases s.verified <;> rfl
  rw [idsOfSummaries, idsOfSummaries, List.length_map, List.length_map, hfailed, hverified]
  exact (List.length_eq_length_filter_add fun s : RelationPassSummary => s.verified).symm

variable {evidence : List RelationPassSummary} {binding : Option AuthoritativeVFPBinding} {a : RelationalAssurance}

theorem boundedDerivation_eq_ok (h : deriveRelationalAssuranceFromBoundedEvidence rt hashing m evidence binding = .ok a) :
    BoundedAccepted rt m evidence binding ∧
      Derived m (idsOfSummaries evidence true).length (idsOfSummaries evidence false).length binding.isSome a := by
  obtain ⟨_, hlength, h⟩ := bind_eq_ok.mp h
  obtain ⟨digest, hdigest, h⟩ := bind_eq_ok.mp h
  obtain ⟨granted, hgranted, h⟩ := bind_eq_ok.mp h
  have hlength' := not_not.mp (refuseIf_eq_ok.mp hlength)
  obtain ⟨hnodup, hhex⟩ := boundedEvidenceFingerprint_eq_ok hdigest
  obtain ⟨rfl, hfits⟩ := validatedAuthorityBinding_eq_ok.mp hgranted
  have hsum := length_idsOfSummaries evidence
  have hfailed : evidence.length - (idsOfSummaries evidence true).length = (idsOfSummaries evidence false).length := by omega
  rw [hfailed] at h
  have hsettled : (idsOfSummaries evidence true).length + (idsOfSummaries evidence false).length ≤ m.relationCount := by omega
  obtain ⟨hpublic, rfl⟩ := (settledAssurance_eq_ok hsettled hhex).mp h
  exact ⟨⟨hlength', hnodup, hfits, hpublic⟩, hsettled, digest, _, rfl, fun _ _ => rfl⟩

theorem exists_boundedDerivation (h : BoundedAccepted rt m evidence binding) :
    ∃ a, deriveRelationalAssuranceFromBoundedEvidence rt hashing m evidence binding = .ok a := by
  have hexists : ∃ digest, boundedEvidenceFingerprint hashing evidence m.relationshipFingerprint = .ok digest :=
    exists_boundedEvidenceFingerprint h.ids_nodup _
  obtain ⟨digest, hdigest⟩ := hexists
  have hhex := (boundedEvidenceFingerprint_eq_ok hdigest).2
  have hgranted : validatedAuthorityBinding m none binding = .ok binding.isSome :=
    validatedAuthorityBinding_eq_ok.mpr ⟨rfl, h.binding_fits⟩
  have hsum := length_idsOfSummaries evidence
  have hlength := h.length
  have hsettled : (idsOfSummaries evidence true).length + (evidence.length - (idsOfSummaries evidence true).length) ≤
      m.relationCount := by
    omega
  refine ⟨assuranceFromCounts m.relationCount (idsOfSummaries evidence true).length
    (evidence.length - (idsOfSummaries evidence true).length) m.relationshipFingerprint digest binding.isSome, ?_⟩
  rw [deriveRelationalAssuranceFromBoundedEvidence, refuseIf_bind_neg (not_not.mpr hlength), hdigest, ok_bind, hgranted, ok_bind]
  exact (settledAssurance_eq_ok hsettled hhex).mpr ⟨h.metadata, rfl⟩

structure ReportAccepted (rt : PythonRuntime) (m : RelationshipMetadata) (r : RelationshipVerificationReport)
    (binding : Option AuthoritativeVFPBinding) : Prop where
  bound : r.relations = [] ∨ r.relationshipFingerprint = m.relationshipFingerprint
  length : r.relations.length = m.relationCount
  binding_fits : ∀ b ∈ binding, BindingFits m (some r.relationshipFingerprint) b
  metadata : PublicMetadata rt m

theorem length_filter_status (relations : List RelationVerificationEvidence) :
    (relations.filter (·.status = .verified)).length + (relations.filter (·.status = .failed)).length +
      (relations.filter (·.status = .incomplete)).length = relations.length := by
  induction relations with
  | nil => rfl
  | cons e rest ih =>
    cases hstatus : e.status <;> simp [hstatus] <;> omega

variable {r : RelationshipVerificationReport}

theorem length_idsOf (r : RelationshipVerificationReport) :
    (r.idsOf .verified).length + (r.idsOf .failed).length + (r.idsOf .incomplete).length = r.relations.length := by
  simp only [RelationshipVerificationReport.idsOf, List.length_map]
  exact length_filter_status r.relations

theorem reportAuthority_eq_ok {verified : ℕ} {granted : Bool}
    (hfits : ∀ b ∈ binding, BindingFits m (some r.relationshipFingerprint) b) :
    reportAuthority m r binding verified = .ok granted ↔
      granted = (binding.isSome && decide (verified = m.relationCount ∧ 0 < m.relationCount)) := by
  unfold reportAuthority
  have hvalid : validatedAuthorityBinding m (some r.relationshipFingerprint) binding = .ok binding.isSome :=
    validatedAuthorityBinding_eq_ok.mpr ⟨rfl, hfits⟩
  cases binding with
  | none =>
    rw [hvalid]
    split_ifs <;> simp [eq_comm]
  | some b =>
    have hb := hfits b rfl
    rw [hvalid]
    by_cases hall : verified = m.relationCount ∧ 0 < m.relationCount
    · rw [if_pos ⟨hall.1, hall.2, hb.authoritative, hb.provenance⟩]
      simp [hall, eq_comm]
    · have hnot : ¬ (verified = m.relationCount ∧ 0 < m.relationCount ∧ m.authoritative = true ∧
          m.provenance ∈ authoritativeProvenances) := fun h => hall ⟨h.1, h.2.1⟩
      rw [if_neg hnot]
      simp [hall, eq_comm]

theorem deriveFromReport_eq_ok (hfits : ∀ b ∈ binding, BindingFits m (some r.relationshipFingerprint) b) :
    deriveFromReport rt m r binding = .ok a ↔ r.relationshipFingerprint = m.relationshipFingerprint ∧
      r.relations.length = m.relationCount ∧ PublicMetadata rt m ∧ a = assuranceFromCounts m.relationCount (r.idsOf .verified).length
        (r.idsOf .failed).length m.relationshipFingerprint (some r.evidenceFingerprint)
        (binding.isSome && decide ((r.idsOf .verified).length = m.relationCount ∧ 0 < m.relationCount)) := by
  have hsum := length_idsOf r
  have hhex : (some r.evidenceFingerprint).all isEvidenceFingerprint = true := r.fingerprint_hex
  constructor
  · intro h
    obtain ⟨_, hbound, h⟩ := bind_eq_ok.mp h
    obtain ⟨_, hlength, h⟩ := bind_eq_ok.mp h
    obtain ⟨_, hsettled, h⟩ := bind_eq_ok.mp h
    obtain ⟨granted, hgranted, h⟩ := bind_eq_ok.mp h
    have hsettled' := not_lt.mp (refuseIf_eq_ok.mp hsettled)
    obtain ⟨hpublic, rfl⟩ := (settledAssurance_eq_ok hsettled' hhex).mp h
    rw [(reportAuthority_eq_ok hfits).mp hgranted]
    exact ⟨not_not.mp (refuseIf_eq_ok.mp hbound), not_not.mp (refuseIf_eq_ok.mp hlength), hpublic, rfl⟩
  · intro h
    obtain ⟨hbound, hlength, hpublic, rfl⟩ := h
    have hsettled : (r.idsOf .verified).length + (r.idsOf .failed).length ≤ m.relationCount := by omega
    rw [deriveFromReport, refuseIf_bind_neg (not_not.mpr hbound), refuseIf_bind_neg (not_not.mpr hlength)]
    dsimp only
    rw [refuseIf_bind_neg (not_lt.mpr hsettled), (reportAuthority_eq_ok hfits).mpr rfl, ok_bind]
    exact (settledAssurance_eq_ok hsettled hhex).mpr ⟨hpublic, rfl⟩

theorem reportDerivation_eq_ok (h : deriveRelationalAssurance rt m (some r) binding = .ok a) :
    ReportAccepted rt m r binding ∧ Derived m (r.idsOf .verified).length (r.idsOf .failed).length binding.isSome a := by
  obtain ⟨granted, hgranted, h⟩ := bind_eq_ok.mp h
  have hfits := (validatedAuthorityBinding_eq_ok.mp hgranted).2
  have hsum := length_idsOf r
  dsimp only at h
  by_cases hnil : r.relations = []
  · rw [if_pos hnil] at h
    obtain ⟨_, hcount, h⟩ := bind_eq_ok.mp h
    have hcount' := not_not.mp (refuseIf_eq_ok.mp hcount)
    rw [hnil, List.length_nil] at hsum
    have hverified : (r.idsOf .verified).length = 0 := by omega
    have hfailed : (r.idsOf .failed).length = 0 := by omega
    obtain ⟨hpublic, rfl⟩ := (settledAssurance_eq_ok (Nat.zero_le _) rfl).mp h
    rw [hverified, hfailed]
    exact ⟨⟨.inl hnil, by rw [hnil, hcount', List.length_nil], hfits, hpublic⟩, Nat.zero_le _, none, false, rfl,
      fun _ hpos => absurd hcount' (Nat.ne_of_gt hpos)⟩
  · rw [if_neg hnil] at h
    obtain ⟨hbound, hlength, hpublic, rfl⟩ := (deriveFromReport_eq_ok hfits).mp h
    refine ⟨⟨.inr hbound, hlength, hfits, hpublic⟩, by omega, some r.evidenceFingerprint, _, rfl, ?_⟩
    intro hall hpos
    simp [hall, hpos]

theorem exists_reportDerivation (h : ReportAccepted rt m r binding) :
    ∃ a, deriveRelationalAssurance rt m (some r) binding = .ok a := by
  have hgranted : validatedAuthorityBinding m (some r.relationshipFingerprint) binding = .ok binding.isSome :=
    validatedAuthorityBinding_eq_ok.mpr ⟨rfl, h.binding_fits⟩
  have hlength := h.length
  rw [deriveRelationalAssurance, Option.map_some, hgranted, ok_bind]
  by_cases hnil : r.relations = []
  · rw [hnil, List.length_nil] at hlength
    rw [if_pos hnil, refuseIf_bind_neg (not_not.mpr hlength.symm)]
    exact ⟨_, (settledAssurance_eq_ok (Nat.zero_le _) rfl).mpr ⟨h.metadata, rfl⟩⟩
  · rw [if_neg hnil]
    exact ⟨_, (deriveFromReport_eq_ok h.binding_fits).mpr ⟨h.bound.resolve_left hnil, hlength, h.metadata, rfl⟩⟩

theorem noReport_eq_ok (h : deriveRelationalAssurance rt m none binding = .ok a) :
    a = assuranceFromCounts m.relationCount 0 0 m.relationshipFingerprint none false := by
  obtain ⟨_, -, h⟩ := bind_eq_ok.mp h
  exact ((settledAssurance_eq_ok (Nat.zero_le _) rfl).mp h).2

/-- Two assurances of one level and one set of counts. -/
structure SameStanding (a b : RelationalAssurance) : Prop where
  level : a.level = b.level
  declared : a.declaredRelations = b.declaredRelations
  verified : a.verifiedRelations = b.verifiedRelations
  failed : a.failedRelations = b.failedRelations
  incomplete : a.incompleteRelations = b.incompleteRelations

structure CountsCover (m : RelationshipMetadata) (a : RelationalAssurance) : Prop where
  declared : a.declaredRelations = m.relationCount
  total : a.verifiedRelations + a.failedRelations + a.incompleteRelations = a.declaredRelations

theorem level_assuranceFromCounts {relationCount verified failed : ℕ} {fingerprint : Text} {digest : Option Text}
    {granted : Bool} : (assuranceFromCounts relationCount verified failed fingerprint digest granted).level = .vfpMetadataVerified ↔
      0 < relationCount ∧ verified = relationCount ∧ failed = 0 ∧ granted = true := by
  unfold assuranceFromCounts
  dsimp only
  by_cases hnone : relationCount = 0
  · rw [if_pos hnone]
    simp [hnone]
  · rw [if_neg hnone]
    by_cases hall : verified = relationCount ∧ failed = 0
    · rw [if_pos hall]
      cases granted <;> simp [hall, Nat.pos_of_ne_zero hnone]
    · rw [if_neg hall]
      simp only [reduceCtorEq, false_iff]
      exact fun h => hall ⟨h.2.1, h.2.2.1⟩

theorem Derived.countsCover {verified failed : ℕ} {granted : Bool} (h : Derived m verified failed granted a) : CountsCover m a := by
  obtain ⟨hsettled, digest, given, rfl, -⟩ := h
  constructor
  · rfl
  · show verified + failed + (m.relationCount - verified - failed) = m.relationCount
    omega

theorem Derived.sameStanding {verified failed : ℕ} {granted : Bool} {b : RelationalAssurance}
    (ha : Derived m verified failed granted a) (hb : Derived m verified failed granted b) : SameStanding a b := by
  obtain ⟨-, digest, given, rfl, hgiven⟩ := ha
  obtain ⟨-, digest', given', rfl, hgiven'⟩ := hb
  refine ⟨?_, rfl, rfl, rfl, rfl⟩
  unfold assuranceFromCounts
  dsimp only
  split_ifs with hnone hall <;> simp_all [Nat.pos_iff_ne_zero]

/-- The strongest level needs every declared relation verified, none failed, and a binding. -/
theorem Derived.of_level {verified failed : ℕ} {granted : Bool} (h : Derived m verified failed granted a)
    (hlevel : a.level = .vfpMetadataVerified) :
    1 ≤ m.relationCount ∧ verified = m.relationCount ∧ failed = 0 ∧ granted = true := by
  obtain ⟨-, digest, given, rfl, hgiven⟩ := h
  obtain ⟨hpos, hverified, hfailed, hgranted⟩ := level_assuranceFromCounts.mp hlevel
  exact ⟨hpos, hverified, hfailed, hgiven hverified hpos ▸ hgranted⟩

/-- The engine's summaries and a report agree on which relations are verified and which failed. -/
structure EvidenceAgrees (evidence : List RelationPassSummary) (r : RelationshipVerificationReport) : Prop where
  verified : ∀ id, id ∈ idsOfSummaries evidence true ↔ id ∈ r.idsOf .verified
  failed : ∀ id, id ∈ idsOfSummaries evidence false ↔ id ∈ r.idsOf .failed

theorem nodup_idsOfSummaries (h : (evidence.map RelationPassSummary.relationId).Nodup) (verified : Bool) :
    (idsOfSummaries evidence verified).Nodup :=
  h.sublist (List.Sublist.map _ List.filter_sublist)

theorem nodup_idsOf (r : RelationshipVerificationReport) (status : VerificationStatus) : (r.idsOf status).Nodup :=
  r.ids_nodup.sublist (List.Sublist.map _ List.filter_sublist)

theorem EvidenceAgrees.lengths (h : EvidenceAgrees evidence r) (hn : (evidence.map RelationPassSummary.relationId).Nodup) :
    (idsOfSummaries evidence true).length = (r.idsOf .verified).length ∧
      (idsOfSummaries evidence false).length = (r.idsOf .failed).length := by
  have hverified := (List.perm_ext_iff_of_nodup (nodup_idsOfSummaries hn true) (nodup_idsOf r .verified)).mpr h.verified
  have hfailed := (List.perm_ext_iff_of_nodup (nodup_idsOfSummaries hn false) (nodup_idsOf r .failed)).mpr h.failed
  exact ⟨hverified.length_eq, hfailed.length_eq⟩

theorem EvidenceAgrees.sameStanding {b : RelationalAssurance} (h : EvidenceAgrees evidence r)
    (ha : deriveRelationalAssuranceFromBoundedEvidence rt hashing m evidence binding = .ok a)
    (hb : deriveRelationalAssurance rt m (some r) binding = .ok b) : SameStanding a b := by
  obtain ⟨haccepted, hderived⟩ := boundedDerivation_eq_ok ha
  obtain ⟨-, hderived'⟩ := reportDerivation_eq_ok hb
  obtain ⟨hverified, hfailed⟩ := h.lengths haccepted.ids_nodup
  rw [hverified, hfailed] at hderived
  exact hderived.sameStanding hderived'

theorem idsOf_incomplete (h : r.complete = true) : (r.idsOf .incomplete).length = 0 := by
  rw [RelationshipVerificationReport.idsOf, List.length_map, List.length_eq_zero_iff, List.filter_eq_nil_iff]
  intro e he
  simpa using List.all_eq_true.mp h e he

theorem EvidenceAgrees.returns_iff (h : EvidenceAgrees evidence r) (hn : (evidence.map RelationPassSummary.relationId).Nodup)
    (hcomplete : r.complete = true) (hbound : r.relationshipFingerprint = m.relationshipFingerprint) :
    (∃ a, deriveRelationalAssuranceFromBoundedEvidence rt hashing m evidence binding = .ok a) ↔
      ∃ b, deriveRelationalAssurance rt m (some r) binding = .ok b := by
  obtain ⟨hverified, hfailed⟩ := h.lengths hn
  have hsum := length_idsOfSummaries evidence
  have hsum' := length_idsOf r
  rw [idsOf_incomplete hcomplete] at hsum'
  have hlength : evidence.length = r.relations.length := by omega
  constructor
  · intro hreturns
    obtain ⟨a, ha⟩ := hreturns
    obtain ⟨haccepted, -⟩ := boundedDerivation_eq_ok ha
    have hfits : ∀ b ∈ binding, BindingFits m (some r.relationshipFingerprint) b := by
      intro b hb
      have hfit := haccepted.binding_fits b hb
      exact { hfit with report := fun fingerprint hmem => by rw [hfit.relationshipFingerprint, ← Option.some.inj hmem, hbound] }
    exact exists_reportDerivation ⟨.inr hbound, hlength ▸ haccepted.length, hfits, haccepted.metadata⟩
  · intro hreturns
    obtain ⟨b, hb⟩ := hreturns
    obtain ⟨haccepted, -⟩ := reportDerivation_eq_ok hb
    have hfits : ∀ b ∈ binding, BindingFits m none b := by
      intro b hb
      exact { haccepted.binding_fits b hb with report := fun fingerprint hmem => absurd hmem (Option.not_mem_none _) }
    exact exists_boundedDerivation ⟨hlength ▸ haccepted.length, hn, hfits, haccepted.metadata⟩

/-- The adapter has minted the binding for the same fingerprint, number of relations and schema version. -/
structure Authorizes (b : MintedBinding rt hashing) (m : RelationshipMetadata) : Prop where
  relationshipFingerprint : b.relationshipFingerprint = m.relationshipFingerprint
  relationCount : b.relationCount = m.relationCount
  metadataSchemaVersion : b.metadataSchemaVersion = m.metadataSchemaVersion

theorem exists_bindingFits {reportFingerprint : Option Text} (hsome : binding.isSome = true)
    (hfits : ∀ b ∈ binding, BindingFits m reportFingerprint b) : ∃ b, binding = some b ∧ BindingFits m reportFingerprint b := by
  obtain ⟨b, rfl⟩ := Option.isSome_iff_exists.mp hsome
  exact ⟨b, rfl, hfits b rfl⟩

/-- A binding that fits, where the adapter has minted whatever binding there is. -/
theorem exists_authorizes {minted : Option (MintedBinding rt hashing)} {reportFingerprint : Option Text}
    (h : ∃ b, minted.map MintedBinding.toAuthoritativeVFPBinding = some b ∧ BindingFits m reportFingerprint b) :
    ∃ b, minted = some b ∧ Authorizes b m := by
  obtain ⟨_, hbinding, hfit⟩ := h
  obtain ⟨b, rfl, rfl⟩ := Option.map_eq_some_iff.mp hbinding
  exact ⟨b, rfl, hfit.relationshipFingerprint, hfit.relationCount, hfit.metadataSchemaVersion⟩

/-- Every declared relation has a summary of its own, and all of them are verified. -/
structure SummariesVerified (m : RelationshipMetadata) (evidence : List RelationPassSummary) : Prop where
  length : evidence.length = m.relationCount
  ids_nodup : (evidence.map RelationPassSummary.relationId).Nodup
  verified : ∀ s ∈ evidence, s.verified = true

/-- The report is about the metadata, has an entry for every declared relation, and all of them are verified. -/
structure ReportVerified (m : RelationshipMetadata) (r : RelationshipVerificationReport) : Prop where
  relationshipFingerprint : r.relationshipFingerprint = m.relationshipFingerprint
  length : r.relations.length = m.relationCount
  verified : ∀ e ∈ r.relations, e.status = .verified

theorem boundedDerivation_trust (h : deriveRelationalAssuranceFromBoundedEvidence rt hashing m evidence binding = .ok a)
    (hlevel : a.level = .vfpMetadataVerified) :
    1 ≤ m.relationCount ∧ SummariesVerified m evidence ∧ ∃ b, binding = some b ∧ BindingFits m none b := by
  obtain ⟨haccepted, hderived⟩ := boundedDerivation_eq_ok h
  obtain ⟨hpos, hverified, -, hgranted⟩ := hderived.of_level hlevel
  refine ⟨hpos, ⟨haccepted.length, haccepted.ids_nodup, ?_⟩, exists_bindingFits hgranted haccepted.binding_fits⟩
  have hall : (evidence.filter fun s => s.verified = true).length = evidence.length := by
    rw [haccepted.length, ← hverified, idsOfSummaries, List.length_map]
  intro s hs
  simpa using List.length_filter_eq_length_iff.mp hall s hs

theorem reportDerivation_trust {report : Option RelationshipVerificationReport}
    (h : deriveRelationalAssurance rt m report binding = .ok a) (hlevel : a.level = .vfpMetadataVerified) :
    1 ≤ m.relationCount ∧ ∃ r, report = some r ∧ ReportVerified m r ∧
      ∃ b, binding = some b ∧ BindingFits m (some r.relationshipFingerprint) b := by
  cases report with
  | none =>
    have ha := noReport_eq_ok h
    rw [ha] at hlevel
    obtain ⟨hpos, hverified, -⟩ := level_assuranceFromCounts.mp hlevel
    omega
  | some r =>
    obtain ⟨haccepted, hderived⟩ := reportDerivation_eq_ok h
    obtain ⟨hpos, hverified, -, hgranted⟩ := hderived.of_level hlevel
    have hne : r.relations ≠ [] := by
      intro hnil
      have hlength := haccepted.length
      rw [hnil, List.length_nil] at hlength
      omega
    have hall : (r.relations.filter fun e => e.status = .verified).length = r.relations.length := by
      rw [haccepted.length, ← hverified, RelationshipVerificationReport.idsOf, List.length_map]
    refine ⟨hpos, r, rfl, ⟨haccepted.bound.resolve_left hne, haccepted.length, ?_⟩,
      exists_bindingFits hgranted haccepted.binding_fits⟩
    intro e he
    simpa using List.length_filter_eq_length_iff.mp hall e he

theorem noReport_countsCover (h : deriveRelationalAssurance rt m none binding = .ok a) : CountsCover m a := by
  rw [noReport_eq_ok h]
  constructor
  · rfl
  · show 0 + 0 + (m.relationCount - 0 - 0) = m.relationCount
    omega

end Results

/-- The strongest level is derived from verified evidence of every declared relation and a binding that fits the metadata, so
that a binding of the adapter has been minted for the same metadata; the counts cover the declared relations; and both
derivations make the same of the same evidence, which they accept together when it is complete. -/
theorem relationalAssurance_derivations (rt : PythonRuntime) (hashing : HexDigest) (m : RelationshipMetadata)
    (binding : Option AuthoritativeVFPBinding) :
    (∀ evidence a, deriveRelationalAssuranceFromBoundedEvidence rt hashing m evidence binding = .ok a → CountsCover m a ∧
        (a.level = .vfpMetadataVerified →
          1 ≤ m.relationCount ∧ SummariesVerified m evidence ∧ ∃ b, binding = some b ∧ BindingFits m none b)) ∧
      (∀ report a, deriveRelationalAssurance rt m report binding = .ok a → CountsCover m a ∧
        (a.level = .vfpMetadataVerified → 1 ≤ m.relationCount ∧ ∃ r, report = some r ∧ ReportVerified m r ∧
          ∃ b, binding = some b ∧ BindingFits m (some r.relationshipFingerprint) b)) ∧
      (∀ (minted : Option (MintedBinding rt hashing)) (a : RelationalAssurance),
        binding = minted.map MintedBinding.toAuthoritativeVFPBinding → a.level = .vfpMetadataVerified →
          ((∃ evidence, deriveRelationalAssuranceFromBoundedEvidence rt hashing m evidence binding = .ok a) ∨
            ∃ report, deriveRelationalAssurance rt m report binding = .ok a) → ∃ b, minted = some b ∧ Authorizes b m) ∧
      ∀ evidence r, EvidenceAgrees evidence r →
        (∀ a b, deriveRelationalAssuranceFromBoundedEvidence rt hashing m evidence binding = .ok a →
          deriveRelationalAssurance rt m (some r) binding = .ok b → SameStanding a b) ∧
        ((evidence.map RelationPassSummary.relationId).Nodup → r.complete = true →
          r.relationshipFingerprint = m.relationshipFingerprint →
            ((∃ a, deriveRelationalAssuranceFromBoundedEvidence rt hashing m evidence binding = .ok a) ↔
              ∃ b, deriveRelationalAssurance rt m (some r) binding = .ok b)) := by
  refine ⟨?_, ?_, ?_, ?_⟩
  · intro evidence a h
    exact ⟨(boundedDerivation_eq_ok h).2.countsCover, boundedDerivation_trust h⟩
  · intro report a h
    refine ⟨?_, reportDerivation_trust h⟩
    cases report with
    | none => exact noReport_countsCover h
    | some r => exact (reportDerivation_eq_ok h).2.countsCover
  · intro minted a hbinding hlevel hderived
    rw [hbinding] at hderived
    rcases hderived with ⟨evidence, h⟩ | ⟨report, h⟩
    · exact exists_authorizes (boundedDerivation_trust h hlevel).2.2
    · obtain ⟨-, _, -, -, hfits⟩ := reportDerivation_trust h hlevel
      exact exists_authorizes hfits
  · intro evidence r hagrees
    exact ⟨fun a b ha hb => hagrees.sameStanding ha hb, hagrees.returns_iff⟩

section Orders

def zeroDigest : Text := List.replicate 64 '0'

def zeroHashing : HexDigest where
  digest _ := zeroDigest
  digest_hex _ := by decide

def ordersMembers : List RelationMember :=
  [⟨"a.dbf".toList, ['I', 'D'], .primary, 1, .i, 4, numericMemberEncoding, false⟩,
    ⟨"b.dbf".toList, ['I', 'D'], .foreign, 1, .i, 4, numericMemberEncoding, false⟩]

def ordersRelation (relationId : Text) : RelationGroup :=
  ⟨relationId, ordersMembers, .exactValue, .externalVfpMetadata, none, .identity, none, none⟩

def ordersMetadata (relationCount : ℕ) : RelationshipMetadata where
  metadataSchemaVersion := relationshipMetadataSchemaVersion
  provenance := Vocabulary.value Provenance.externalVfpMetadata
  relationshipFingerprint := zeroDigest
  relationCount := relationCount
  authoritative := true
  externalMetadataSchemaVersion := none
  producerId := none
  producerVersion := none
  authoritySummary := none

def ordersBinding : MintedBinding asciiRuntime zeroHashing where
  relationshipFingerprint := zeroDigest
  relationCount := 1
  metadataSchemaVersion := relationshipMetadataSchemaVersion
  document := { groups := [ordersRelation ['r']] }
  minted := ⟨⟨ordersMetadata 1, zeroDigest, 1, relationshipMetadataSchemaVersion⟩, by decide +kernel, rfl⟩

def ordersSummary (relationId : Text) (verified : Bool) : RelationPassSummary :=
  ⟨relationId, verified, 1, 1, 0, 0, 1, 1, 1, 0, verified, verified⟩

/-- One verified relation with the binding of its document is given the strongest level, for which the adapter minted it. -/
theorem relationalAssurance_derivations_orders :
    ∃ a, deriveRelationalAssuranceFromBoundedEvidence asciiRuntime zeroHashing (ordersMetadata 1) [ordersSummary ['r'] true]
        (some ordersBinding.toAuthoritativeVFPBinding) = .ok a ∧ a.level = .vfpMetadataVerified ∧
      SummariesVerified (ordersMetadata 1) [ordersSummary ['r'] true] ∧ Authorizes ordersBinding (ordersMetadata 1) := by
  obtain ⟨a, ha, hlevel⟩ : ∃ a, deriveRelationalAssuranceFromBoundedEvidence asciiRuntime zeroHashing (ordersMetadata 1)
      [ordersSummary ['r'] true] (some ordersBinding.toAuthoritativeVFPBinding) = .ok a ∧ a.level = .vfpMetadataVerified :=
    ⟨⟨.vfpMetadataVerified, 1, 1, 0, 0, some zeroDigest, some zeroDigest, some evidenceSchemaVersion,
      some relationalAssuranceScopeNote⟩, by decide +kernel, rfl⟩
  obtain ⟨htrust, -, hminted, -⟩ := relationalAssurance_derivations asciiRuntime zeroHashing (ordersMetadata 1)
    (some ordersBinding.toAuthoritativeVFPBinding)
  obtain ⟨b, hb, hauthorizes⟩ := hminted (some ordersBinding) a rfl hlevel (Or.inl ⟨_, ha⟩)
  obtain rfl := Option.some.inj hb
  exact ⟨a, ha, hlevel, ((htrust _ a ha).2 hlevel).2.1, hauthorizes⟩

def partialReport : RelationshipVerificationReport where
  relationshipFingerprint := zeroDigest
  relations := [⟨['r'], .failed⟩, ⟨['s'], .incomplete⟩]
  evidenceFingerprint := zeroDigest
  ids_nodup := by decide
  ids_sorted := by decide
  fingerprint_hex := by decide

/-- On partial evidence the two derivations differ: the report is settled as incomplete, the engine's summaries are refused. -/
theorem relationalAssurance_partialEvidence :
    EvidenceAgrees [ordersSummary ['r'] false] partialReport ∧
      partialReport.relationshipFingerprint = (ordersMetadata 2).relationshipFingerprint ∧
      deriveRelationalAssurance asciiRuntime (ordersMetadata 2) (some partialReport) none =
        .ok ⟨.incomplete, 2, 0, 1, 1, some zeroDigest, some zeroDigest, some evidenceSchemaVersion,
          some relationalAssuranceScopeNote⟩ ∧
      deriveRelationalAssuranceFromBoundedEvidence asciiRuntime zeroHashing (ordersMetadata 2) [ordersSummary ['r'] false] none =
        .error (evidenceFailure "RELATIONSHIP_EVIDENCE_RELATION_COUNT_MISMATCH") := by
  refine ⟨⟨fun id => ?_, fun id => ?_⟩, rfl, by decide +kernel, by decide +kernel⟩
  · simp [idsOfSummaries, ordersSummary, RelationshipVerificationReport.idsOf, partialReport]
  · simp [idsOfSummaries, ordersSummary, RelationshipVerificationReport.idsOf, partialReport]

end Orders
end DbfAnonymizer.Relationships
