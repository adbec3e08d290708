import DbfAnonymizer.Lib.JsonRoundTrip
import DbfAnonymizer.Transfer.PathComponents
import DbfAnonymizer.Transfer.BundleSoundness

/-! The manifest of a bundle satisfies the contract it is read back under. -/
namespace DbfAnonymizer.Transfer
open Lib Relationships Engine Verification

def isPlain (c : Char) : Bool := 33 ≤ c.toNat && c.toNat < 127 && c != '/' && c != '\\'

theorem toNat_of_isPlain {c : Char} (h : isPlain c = true) : 33 ≤ c.toNat ∧ c.toNat < 127 ∧ c ≠ '/' ∧ c ≠ '\\' := by
  simp only [isPlain, Bool.and_eq_true, decide_eq_true_eq, bne_iff_ne] at h
  exact ⟨h.1.1.1, h.1.1.2, h.1.2, h.2⟩

theorem isWhitespace_of_isPlain {c : Char} (h : isPlain c = true) : isWhitespace c = false := by
  have hrange := toNat_of_isPlain h
  simp only [isWhitespace, TextChar.codePoint_char, Bool.or_eq_false_iff, Bool.and_eq_false_iff,
    decide_eq_false_iff_not, beq_eq_false_iff_ne]
  omega

theorem dropWhile_of_forall {p : Char → Bool} {s : Text} (h : ∀ c ∈ s, p c = false) : s.dropWhile p = s := by
  cases s with
  | nil => rfl
  | cons c s => simp [h c (List.mem_cons_self ..)]

section Tokens
variable {rt : PythonRuntime} {value : Text}

theorem strip_of_plain (h : value.all isPlain = true) : strip value = value := by
  have hclean : ∀ c ∈ value, isWhitespace c = false := by
    intro c hc
    exact isWhitespace_of_isPlain (List.all_eq_true.mp h c hc)
  have hreverse : ∀ c ∈ value.reverse, isWhitespace c = false := by
    intro c hc
    exact hclean c (List.mem_reverse.mp hc)
  unfold strip
  rw [dropWhile_of_forall hclean, dropWhile_of_forall hreverse, List.reverse_reverse]

theorem isPrintable_of_plain (h : value.all isPlain = true) : ∀ c ∈ value, rt.isPrintable c = true := by
  intro c hc
  have hrange := toNat_of_isPlain (List.all_eq_true.mp h c hc)
  exact rt.isPrintable_ascii c (by omega) hrange.2.1

theorem isValidatedCode_of_plain (h : value.all isPlain = true) (hne : value ≠ [])
    (hlength : value.length ≤ publicJsonMaxTokenLength) : isValidatedCode rt value = true := by
  have hprintable : ∀ c ∈ value, rt.isPrintable c = true := isPrintable_of_plain h
  have hslash : '/' ∉ value := fun hc => (toNat_of_isPlain (List.all_eq_true.mp h _ hc)).2.2.1 rfl
  have hbackslash : '\\' ∉ value := fun hc => (toNat_of_isPlain (List.all_eq_true.mp h _ hc)).2.2.2 rfl
  have hcodes : value.all (fun c => !isWhitespace c && rt.isPrintable c) = true := by
    apply List.all_eq_true.mpr
    intro c hc
    rw [isWhitespace_of_isPlain (List.all_eq_true.mp h c hc), hprintable c hc]
    rfl
  simp [isValidatedCode, hne, hlength, strip_of_plain h, hcodes, hslash, hbackslash]

theorem lower_of_plain (h : value.all isPlain = true) : rt.lower value = value.map Char.toLower := by
  apply rt.lower_ascii
  apply List.all_eq_true.mpr
  intro c hc
  have hrange := toNat_of_isPlain (List.all_eq_true.mp h c hc)
  rw [decide_eq_true_eq]
  omega

theorem purePosixPath_of_plain (h : value.all isPlain = true) :
    (purePosixPath (rt.lower value)).root = [] ∧
      ∀ part ∈ (purePosixPath (rt.lower value)).parts, part = value.map Char.toLower := by
  have hclean : ∀ c ∈ value.map Char.toLower, isPosixSeparator c = false := by
    intro c hc
    obtain ⟨d, hd, rfl⟩ := List.mem_map.mp hc
    have hplain := toNat_of_isPlain (List.all_eq_true.mp h d hd)
    have hlower := toNat_toLower d
    rw [isPosixSeparator, beq_eq_false_iff_ne]
    intro heq
    rw [heq] at hlower
    change 47 = _ at hlower
    split_ifs at hlower with hupper
    · omega
    · exact hplain.2.2.1 (Char.toNat_inj.mp hlower.symm)
  have hhead : (value.map Char.toLower).head? ≠ some '/' := by
    intro hslash
    have hfalse := hclean '/' (List.mem_of_head? hslash)
    cases hfalse
  rw [lower_of_plain h]
  constructor
  · exact root_of_head hhead
  · intro part hpart
    have hmem := (List.mem_filter.mp hpart).1
    rw [List.splitOnP_eq_singleton hclean, List.mem_singleton] at hmem
    exact hmem

theorem isManifestToken_of_plain (h : value.all isPlain = true) (hlength : value.length ≤ maxTokenLength)
    (hdot : value.head? ≠ some '.') : isManifestToken rt value = true := by
  have hprintable : ∀ c ∈ value, rt.isPrintable c = true := isPrintable_of_plain h
  have hpath : (purePosixPath (rt.lower value)).root = [] ∧ _ := purePosixPath_of_plain h
  have hplain : ∀ c ∈ value, 33 ≤ c.toNat ∧ c.toNat < 127 ∧ c ≠ '/' ∧ c ≠ '\\' := by
    intro c hc
    exact toNat_of_isPlain (List.all_eq_true.mp h c hc)
  have hcharacters : value.all (fun c => c != '\x00' && rt.isPrintable c && c != '\\') = true := by
    apply List.all_eq_true.mpr
    intro c hc
    have hnul : c ≠ '\x00' := by
      intro heq
      have hrange := (hplain c hc).1
      rw [heq] at hrange
      exact absurd hrange (by decide)
    simp [hnul, hprintable c hc, (hplain c hc).2.2.2]
  have hhead : value.head? ≠ some '/' := by
    intro hslash
    exact (hplain '/' (List.mem_of_head? hslash)).2.2.1 rfl
  have hparent : ['.', '.'] ∉ (purePosixPath (rt.lower value)).parts := by
    intro hmem
    have hmap := hpath.2 _ hmem
    cases value with
    | nil => cases hmap
    | cons c value =>
      rw [List.map_cons, List.cons.injEq] at hmap
      have hlower := toNat_toLower c
      rw [← hmap.1] at hlower
      change 46 = _ at hlower
      split_ifs at hlower with hupper
      · omega
      · apply hdot
        have hc : c = '.' := Char.toNat_inj.mp hlower.symm
        rw [hc, List.head?_cons]
  have hspaces : value.any isWhitespace = false := by
    apply List.any_eq_false.mpr
    intro c hc
    rw [isWhitespace_of_isPlain (List.all_eq_true.mp h c hc)]
    decide
  simp [isManifestToken, hlength, hcharacters, hhead, hpath.1, hparent, strip_of_plain h, hspaces]

theorem all_isPlain_of_hex (h : value.all isLowerHex = true) : value.all isPlain = true := by
  apply List.all_eq_true.mpr
  intro c hc
  have hhex := List.all_eq_true.mp h c hc
  simp only [isLowerHex, Bool.or_eq_true, Bool.and_eq_true, decide_eq_true_eq, Char.le_def, UInt32.le_iff_toNat_le] at hhex
  have hrange : 48 ≤ c.toNat ∧ c.toNat ≤ 57 ∨ 97 ≤ c.toNat ∧ c.toNat ≤ 102 := hhex
  have hslash : c ≠ '/' := by
    intro heq
    rw [heq] at hrange
    exact absurd hrange (by decide)
  have hbackslash : c ≠ '\\' := by
    intro heq
    rw [heq] at hrange
    exact absurd hrange (by decide)
  simp only [isPlain, Bool.and_eq_true, decide_eq_true_eq, bne_iff_ne]
  exact ⟨⟨⟨by omega, by omega⟩, hslash⟩, hbackslash⟩

theorem isValidatedCode_of_digest (h : isEvidenceFingerprint value = true) : isValidatedCode rt value = true := by
  simp only [isEvidenceFingerprint, Bool.and_eq_true, beq_iff_eq] at h
  apply isValidatedCode_of_plain
  · exact all_isPlain_of_hex h.2
  · intro hnil
    simp [hnil] at h
  · rw [h.1]
    decide

end Tokens

section Assurance
variable {rt : PythonRuntime} {fail : String → Raised}

@[simp] theorem jsonCount?_natCast (n : ℕ) : jsonCount? (.int n : Json) = some n := by
  simp [jsonCount?]

@[simp] theorem jsonOptionalText?_optionalText (value : Option Text) :
    jsonOptionalText? (optionalText value) = some value := by
  cases value <;> rfl

theorem levelConsistent_assurance (facts : RelationFacts rt) :
    levelConsistent facts.assurance.level facts.assurance.declaredRelations facts.assurance.verifiedRelations
      facts.assurance.failedRelations facts.assurance.incompleteRelations = true := by
  have hsettled := facts.settled_le
  unfold RelationFacts.assurance assuranceFromCounts
  dsimp only
  by_cases hnone : facts.relationCount = 0
  · rw [if_pos hnone]
    simp only [levelConsistent, Bool.and_eq_true, beq_iff_eq]
    omega
  · rw [if_neg hnone]
    by_cases hall : facts.verified = facts.relationCount ∧ facts.failed = 0
    · rw [if_pos hall]
      have hfacts : 0 < facts.relationCount ∧ facts.verified = facts.relationCount ∧ facts.failed = 0 := by omega
      cases facts.authoritativeVerified <;> simp [levelConsistent, hfacts]
    · rw [if_neg hall]
      simp only [levelConsistent, Bool.and_eq_true, bne_iff_ne, Bool.not_eq_true', Bool.and_eq_false_iff,
        beq_eq_false_iff_ne]
      omega

/-- The constructor's only conditions on derived counts with a digest are a bounded total and a relationship code. -/
theorem accepts_assuranceFromCounts {relationCount verified failed : ℕ} {relationshipFingerprint : Text}
    {evidenceFingerprint : Option Text} {authoritativeVerified : Bool} (hsettled : verified + failed ≤ relationCount)
    (hdigest : evidenceFingerprint.all isEvidenceFingerprint = true) :
    (assuranceFromCounts relationCount verified failed relationshipFingerprint evidenceFingerprint
      authoritativeVerified).accepts rt = true ↔
        relationCount ≤ publicJsonMaxCount ∧ isValidatedCode rt relationshipFingerprint = true := by
  have hevidence : evidenceFingerprint.all (isValidatedCode rt) = true := by
    cases hfingerprint : evidenceFingerprint with
    | none => rfl
    | some digest =>
      rw [hfingerprint] at hdigest
      exact isValidatedCode_of_digest hdigest
  have hversion : isValidatedCode rt evidenceSchemaVersion = true :=
    isValidatedCode_of_plain (by decide) (by decide) (by decide)
  have hnote : isValidatedCode rt relationalAssuranceScopeNote = true :=
    isValidatedCode_of_plain (by decide) (by decide) (by decide)
  have hcounts : relationCount ≤ publicJsonMaxCount → verified ≤ publicJsonMaxCount ∧ failed ≤ publicJsonMaxCount ∧
      relationCount - verified - failed ≤ publicJsonMaxCount := by
    omega
  have htotal : verified + failed + (relationCount - verified - failed) ≤ relationCount := by omega
  constructor
  · intro h
    simp only [RelationalAssurance.accepts, assuranceFromCounts, Option.all_some, Bool.and_eq_true] at h
    obtain ⟨⟨⟨⟨⟨⟨⟨⟨hcount, -⟩, -⟩, -⟩, -⟩, -⟩, hcode⟩, -⟩, -⟩ := h
    exact ⟨of_decide_eq_true hcount, hcode⟩
  · intro h
    simp [RelationalAssurance.accepts, assuranceFromCounts, hevidence, hversion, hnote, h.1, h.2, hcounts h.1, htotal]

theorem accepts_assurance (facts : RelationFacts rt) : facts.assurance.accepts rt = true :=
  (accepts_assuranceFromCounts facts.settled_le facts.evidence_digest).mpr ⟨facts.relationCount_le, facts.relationship_code⟩

theorem manifestAssurance_published (facts : RelationFacts rt) :
    manifestAssurance rt fail (.obj (assuranceEntry facts.assurance)) = .ok facts.assurance := by
  have hkeys : hasExactKeys (assuranceEntry facts.assurance) manifestAssuranceKeys = true := rfl
  have hpairs : assuranceOfPairs rt (assuranceEntry facts.assurance) = some facts.assurance := by
    have hlevel : valueAt (assuranceEntry facts.assurance) "level" = some (.str facts.assurance.level.value) := rfl
    have hdeclared : valueAt (assuranceEntry facts.assurance) "declared_relations" =
      some (.int facts.assurance.declaredRelations) := rfl
    have hverified : valueAt (assuranceEntry facts.assurance) "verified_relations" =
      some (.int facts.assurance.verifiedRelations) := rfl
    have hfailed : valueAt (assuranceEntry facts.assurance) "failed_relations" =
      some (.int facts.assurance.failedRelations) := rfl
    have hincomplete : valueAt (assuranceEntry facts.assurance) "incomplete_relations" =
      some (.int facts.assurance.incompleteRelations) := rfl
    have hevidence : valueAt (assuranceEntry facts.assurance) "evidence_fingerprint" =
      some (optionalText facts.assurance.evidenceFingerprint) := rfl
    have hrelationship : valueAt (assuranceEntry facts.assurance) "relationship_fingerprint" =
      some (.str facts.relationshipFingerprint) := rfl
    have hversion : valueAt (assuranceEntry facts.assurance) "evidence_schema_version" =
      some (.str evidenceSchemaVersion) := rfl
    have hnote : valueAt (assuranceEntry facts.assurance) "scope_note" =
      some (.str relationalAssuranceScopeNote) := rfl
    have hsum : facts.assurance.verifiedRelations + facts.assurance.failedRelations +
        facts.assurance.incompleteRelations = facts.assurance.declaredRelations := by
      have hsettled := facts.settled_le
      change facts.verified + facts.failed + (facts.relationCount - facts.verified - facts.failed) = facts.relationCount
      omega
    have hconsistent := levelConsistent_assurance facts
    have haccepts := accepts_assurance facts
    unfold assuranceOfPairs
    rw [hlevel, hdeclared, hverified, hfailed, hincomplete, hevidence, hrelationship, hversion, hnote]
    simp only [Option.bind_eq_bind, Option.bind_some, jsonText?, TextChar.plain_char, RelationalAssuranceLevel.ofValue_value,
      jsonCount?_natCast, jsonOptionalText?_optionalText]
    exact if_pos ⟨hsum, facts.evidence_digest, facts.relationship_token, trivial, trivial, hconsistent, haccepts⟩
  have hexact : ¬ hasExactKeys (assuranceEntry facts.assurance) manifestAssuranceKeys = false := by simp [hkeys]
  simp only [manifestAssurance, refuseIf_bind_neg hexact, hpairs]

end Assurance

section Contract
variable {rt : PythonRuntime} {fail : String → Raised} {sha256 : List UInt8 → Text}

def declaredArtifact (rt : PythonRuntime) (sha256 : List UInt8 → Text) (artifact : StagedArtifact) :
    Text × DeclaredArtifact :=
  (rt.casefold artifact.path,
    ⟨artifact.path, artifact.artifactType, artifact.content.length, sha256 artifact.content, artifact.recordCount,
      artifact.schemaFingerprint⟩)

/-- What creation has checked of an artifact when it writes the artifact's entry. -/
structure Publishable (rt : PythonRuntime) (fail : String → Raised) (artifact : StagedArtifact) : Prop where
  normalized : normalizedArtifactPath rt fail artifact.path = .ok artifact.path
  permitted : isForbiddenArtifact rt artifact.path = false
  typed : artifact.artifactType.extension <:+ rt.casefold artifact.path
  facts : logicalFacts artifact.artifactType (some (optionalCount artifact.recordCount))
    (some (optionalText artifact.schemaFingerprint)) = some (artifact.recordCount, artifact.schemaFingerprint)

theorem Publishable.path_ne {artifact : StagedArtifact} (h : Publishable rt fail artifact) :
    artifact.path ≠ transferManifestFilename := by
  intro heq
  have htyped := h.typed
  rw [heq, casefold_transferManifestFilename] at htyped
  cases hartifact : artifact.artifactType with
  | dbf =>
    rw [hartifact] at htyped
    exact absurd htyped (by decide)
  | fpt =>
    rw [hartifact] at htyped
    exact absurd htyped (by decide)

theorem declareArtifact_published {artifact : StagedArtifact} (h : Publishable rt fail artifact)
    (hsha : ∀ content, (sha256 content).length = 64) {declared : List (Text × DeclaredArtifact)}
    (hfresh : rt.casefold artifact.path ∉ declared.map (·.1)) :
    declareArtifact rt fail declared (.obj (artifactEntry sha256 artifact)) =
      .ok (declared ++ [declaredArtifact rt sha256 artifact]) := by
  have hkeys : hasExactKeys (artifactEntry sha256 artifact) manifestArtifactKeys = true := rfl
  have htype : artifactTypeOf (valueAt (artifactEntry sha256 artifact) "artifact_type") = some artifact.artifactType := by
    change artifactTypeOf (some (.str artifact.artifactType.value)) = _
    cases artifact.artifactType <;> rfl
  have hpath : valueAt (artifactEntry sha256 artifact) "path" = some (.str artifact.path) := rfl
  have hsize : valueAt (artifactEntry sha256 artifact) "size_bytes" = some (.int artifact.content.length) := rfl
  have hdigest : valueAt (artifactEntry sha256 artifact) "sha256" = some (.str (sha256 artifact.content)) := rfl
  have hcount : valueAt (artifactEntry sha256 artifact) "record_count" = some (optionalCount artifact.recordCount) := rfl
  have hschema : valueAt (artifactEntry sha256 artifact) "schema_fingerprint" =
    some (optionalText artifact.schemaFingerprint) := rfl
  have hother : ¬ ∃ other ∈ [ArtifactType.dbf, .fpt], other.extension <:+ rt.casefold artifact.path ∧
      artifact.artifactType ≠ other := by
    intro hexists
    obtain ⟨other, -, hsuffix, hne⟩ := hexists
    exact hne (extension_unique h.typed hsuffix)
  have hbounded : ¬ (sha256 artifact.content = [] ∨ maxTokenLength < (sha256 artifact.content).length) := by
    have hlength := hsha artifact.content
    intro hrefused
    rcases hrefused with hnil | hlong
    · rw [hnil] at hlength
      cases hlength
    · rw [hlength] at hlong
      exact absurd hlong (by decide)
  unfold declareArtifact
  simp only [htype, hkeys, hpath, h.normalized, ok_bind]
  rw [refuseIf_bind_neg (by simp), refuseIf_bind_neg h.path_ne, refuseIf_bind_neg (by simp [h.permitted]),
    refuseIf_bind_neg (not_not.mpr h.typed), refuseIf_bind_neg hother, refuseIf_bind_neg hfresh]
  simp only [hsize, hdigest, hcount, hschema, h.facts, Option.bind_some, jsonCount?_natCast, jsonText?,
    TextChar.plain_char]
  rw [refuseIf_bind_neg hbounded]
  rfl

theorem declareArtifacts_published {artifacts : List StagedArtifact} (h : ∀ a ∈ artifacts, Publishable rt fail a)
    (hsha : ∀ content, (sha256 content).length = 64) {declared : List (Text × DeclaredArtifact)}
    (hkeys : (declared.map (·.1) ++ artifacts.map fun a => rt.casefold a.path).Nodup) :
    (artifacts.map fun a => Json.obj (artifactEntry sha256 a)).foldlM (declareArtifact rt fail) declared =
      .ok (declared ++ artifacts.map (declaredArtifact rt sha256)) := by
  induction artifacts generalizing declared with
  | nil => simp
  | cons artifact artifacts ih =>
    have hfresh : rt.casefold artifact.path ∉ declared.map (·.1) := by
      rw [List.nodup_append] at hkeys
      intro hmem
      exact hkeys.2.2 _ hmem _ (List.mem_cons_self ..) rfl
    have hfirst := declareArtifact_published (h artifact (List.mem_cons_self ..)) hsha hfresh
    rw [List.map_cons, List.foldlM_cons, hfirst, ok_bind, ih]
    · rw [List.append_assoc]
      rfl
    · exact fun a ha => h a (List.mem_cons_of_mem _ ha)
    · rw [List.map_append, List.append_assoc]
      exact hkeys

end Contract

section Manifest
variable {rt : PythonRuntime} {bridge : DbfBridge} {osError : Raised} {fail : String → Raised}
  {sha256 : List UInt8 → Text}

theorem isManifestToken_datasetId (dataset : PublishedDataset rt bridge osError) :
    isManifestToken rt dataset.datasetId = true := by
  have hdigits := dataset.digits_hex
  apply isManifestToken_of_plain
  · have hplain := all_isPlain_of_hex hdigits.2
    rw [PublishedDataset.datasetId, List.all_append, hplain]
    rfl
  · rw [PublishedDataset.datasetId, List.length_append, hdigits.1]
    decide
  · have hhead : dataset.datasetId.head? = some 'd' := rfl
    rw [hhead]
    decide

theorem exists_manifestToken (dataset : PublishedDataset rt bridge osError) (versions : PackageVersions rt)
    (artifacts : List StagedArtifact) : ∀ key ∈ manifestScalars, ∃ token,
      valueAt (dataset.manifest sha256 versions artifacts) key = some (.str token) ∧ isManifestToken rt token = true := by
  intro key hkey
  simp only [manifestScalars, List.mem_cons, List.not_mem_nil, or_false] at hkey
  rcases hkey with rfl | rfl | rfl | rfl | rfl | rfl | rfl | rfl | rfl
  · exact ⟨transferManifestSchemaVersion, rfl, isManifestToken_of_plain (by decide) (by decide) (by decide)⟩
  · exact ⟨versions.package, rfl, versions.package_token⟩
  · exact ⟨versions.dbfbridge, rfl, versions.dbfbridge_token⟩
  · exact ⟨transferProfileDataOnly, rfl, isManifestToken_of_plain (by decide) (by decide) (by decide)⟩
  · exact ⟨classificationPseudonymized, rfl, isManifestToken_of_plain (by decide) (by decide) (by decide)⟩
  · exact ⟨dataset.datasetId, rfl, isManifestToken_datasetId dataset⟩
  · exact ⟨indexStateDataOnly, rfl, isManifestToken_of_plain (by decide) (by decide) (by decide)⟩
  · exact ⟨dataStateStandalone, rfl, isManifestToken_of_plain (by decide) (by decide) (by decide)⟩
  · exact ⟨verificationStatusCreated, rfl, isManifestToken_of_plain (by decide) (by decide) (by decide)⟩

theorem validateManifestContract_published (dataset : PublishedDataset rt bridge osError) (versions : PackageVersions rt)
    (hsha : ∀ content, (sha256 content).length = 64) {artifacts : List StagedArtifact} (hne : artifacts ≠ [])
    (hlength : artifacts.length ≤ maxManifestArtifacts) (h : ∀ a ∈ artifacts, Publishable rt fail a)
    (hkeys : (artifacts.map fun a => rt.casefold a.path).Nodup) :
    validateManifestContract rt fail (dataset.manifest sha256 versions artifacts) =
      .ok (artifacts.map (declaredArtifact rt sha256)) := by
  have hexact : hasExactKeys (dataset.manifest sha256 versions artifacts) manifestTopLevelKeys = true := rfl
  have htokens : (manifestScalars.forM fun key => do
      let _ ← boundedManifestToken rt fail (valueAt (dataset.manifest sha256 versions artifacts) key)
      return () : Except Raised Unit) = .ok () := by
    rw [forM_eq_ok_iff]
    intro key hkey
    obtain ⟨token, hvalue, htoken⟩ := exists_manifestToken dataset versions artifacts key hkey
    rw [hvalue]
    simp [boundedManifestToken, htoken]
  have hentries : valueAt (dataset.manifest sha256 versions artifacts) "artifacts" =
    some (.arr (artifacts.map fun a => .obj (artifactEntry sha256 a))) := rfl
  have hdatasetId : ∃ datasetId ∈ (valueAt (dataset.manifest sha256 versions artifacts) "dataset_id").bind jsonText?,
      "ds-".toList <+: datasetId ∧ datasetId.length = 3 + 16 := by
    refine ⟨dataset.datasetId, rfl, List.prefix_append _ _, ?_⟩
    rw [PublishedDataset.datasetId, List.length_append, dataset.digits_hex.1]
    rfl
  unfold validateManifestContract
  rw [hexact, refuseIf_bind_neg (by simp), htokens, ok_bind]
  dsimp only
  have hscalar : ∀ (key : String) (token : Text),
      valueAt (dataset.manifest sha256 versions artifacts) key = some (.str token) →
        ¬ (valueAt (dataset.manifest sha256 versions artifacts) key).bind jsonText? ≠ some token := by
    intro key token hvalue
    rw [hvalue]
    simp [jsonText?]
  rw [refuseIf_bind_neg (hscalar "schema_version" _ rfl), refuseIf_bind_neg (hscalar "profile" _ rfl),
    refuseIf_bind_neg (hscalar "classification" _ rfl), refuseIf_bind_neg (hscalar "index_state" _ rfl),
    refuseIf_bind_neg (hscalar "data_state" _ rfl), refuseIf_bind_neg (hscalar "verification_status" _ rfl),
    refuseIf_bind_neg (not_not.mpr hdatasetId), hentries]
  dsimp only
  rw [refuseIf_bind_neg (by simpa using hne), refuseIf_bind_neg (by simpa using hlength)]
  exact declareArtifacts_published h hsha hkeys

theorem decodeAscii_asciiBytes {text : Text} (h : Json.AsciiText text) : decodeAscii (asciiBytes text) = some text := by
  have hbyte : ∀ c ∈ text, (UInt8.ofNat c.toNat).toNat = c.toNat := by
    intro c hc
    have hlt := h c hc
    simp only [UInt8.toNat_ofNat']
    omega
  have hall : (asciiBytes text).all (· < 128) = true := by
    apply List.all_eq_true.mpr
    intro b hb
    obtain ⟨c, hc, rfl⟩ := List.mem_map.mp hb
    have hlt := h c hc
    rw [decide_eq_true_eq, UInt8.lt_iff_toNat_lt, hbyte c hc]
    exact hlt
  have hid : ∀ c ∈ text, Char.ofNat (UInt8.ofNat c.toNat).toNat = c := by
    intro c hc
    rw [hbyte c hc, Char.ofNat_toNat]
  unfold decodeAscii
  rw [if_pos hall, asciiBytes, List.map_map]
  exact congrArg some ((List.map_congr_left hid).trans (List.map_id' text))

theorem kept_obj {pairs : List (Text × Json)} (hkeys : (pairs.map (·.1)).Nodup)
    (hvalues : ∀ p ∈ pairs, Json.Kept (rejectPairs fail) p.2) : Json.Kept (rejectPairs fail) (.obj pairs) :=
  ⟨if_pos hkeys, Json.keptPairs_iff.mpr hvalues⟩

theorem kept_optionalText (value : Option Text) : Json.Kept (rejectPairs fail) (optionalText value) := by
  cases value <;> trivial

theorem kept_optionalCount (value : Option ℕ) : Json.Kept (rejectPairs fail) (optionalCount value) := by
  cases value <;> trivial

theorem kept_artifactEntry (artifact : StagedArtifact) :
    Json.Kept (rejectPairs fail) (.obj (artifactEntry sha256 artifact)) := by
  apply kept_obj
  · change ["artifact_type".toList, "path".toList, "record_count".toList, "schema_fingerprint".toList, "sha256".toList,
      "size_bytes".toList].Nodup
    decide
  · simp [artifactEntry, Json.Kept, kept_optionalText, kept_optionalCount]

theorem kept_assuranceEntry (assurance : RelationalAssurance) :
    Json.Kept (rejectPairs fail) (.obj (assuranceEntry assurance)) := by
  apply kept_obj
  · change ["declared_relations".toList, "evidence_fingerprint".toList, "evidence_schema_version".toList,
      "failed_relations".toList, "incomplete_relations".toList, "level".toList, "relationship_fingerprint".toList,
      "scope_note".toList, "verified_relations".toList].Nodup
    decide
  · simp [assuranceEntry, Json.Kept, kept_optionalText]

theorem kept_manifest (dataset : PublishedDataset rt bridge osError) (versions : PackageVersions rt)
    (artifacts : List StagedArtifact) :
    Json.Kept (rejectPairs fail) (.obj (dataset.manifest sha256 versions artifacts)) := by
  have hartifacts : Json.Kept (rejectPairs fail) (.arr (artifacts.map fun a => .obj (artifactEntry sha256 a))) := by
    apply Json.keptItems_iff.mpr
    intro entry hentry
    obtain ⟨artifact, -, rfl⟩ := List.mem_map.mp hentry
    exact kept_artifactEntry artifact
  apply kept_obj
  · change ["artifacts".toList, "assurance".toList, "classification".toList, "data_state".toList, "dataset_id".toList,
      "dbfbridge_version".toList, "index_state".toList, "package_version".toList, "profile".toList,
      "schema_version".toList, "verification_status".toList].Nodup
    decide
  · have hassurance : Json.Kept (rejectPairs fail) (.obj (assuranceEntry dataset.relations.assurance)) :=
      kept_assuranceEntry dataset.relations.assurance
    simpa [PublishedDataset.manifest, buildManifest, Json.Kept] using ⟨hartifacts, hassurance⟩

theorem strictJsonLoads_published (dataset : PublishedDataset rt bridge osError) (versions : PackageVersions rt)
    (artifacts : List StagedArtifact) :
    strictJsonLoads fail (dataset.manifestBytes sha256 versions artifacts) =
      .ok (dataset.manifest sha256 versions artifacts) := by
  have hkept : Json.Kept (rejectPairs fail) (.obj (dataset.manifest sha256 versions artifacts)) :=
    kept_manifest dataset versions artifacts
  have hdecoded : decodeAscii (dataset.manifestBytes sha256 versions artifacts) = some _ :=
    decodeAscii_asciiBytes (Json.asciiText_dumps _ (Json.written_of_kept _ hkept))
  unfold strictJsonLoads
  rw [hdecoded]
  dsimp only
  rw [Json.loads_dumps hkept]
  rfl

end Manifest
end DbfAnonymizer.Transfer
