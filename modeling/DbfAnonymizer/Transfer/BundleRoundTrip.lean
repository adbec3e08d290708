import DbfAnonymizer.Transfer.StagedBundle

/-! Where paths are looked up exactly, the verifier accepts a staged bundle whose paths are their own foldings. -/
namespace DbfAnonymizer.Transfer
open Lib Relationships Engine Verification

variable {rt : PythonRuntime} {bridge : DbfBridge} {sha256 : List UInt8 → Text} {osError : Raised}
  {fail : String → Raised}

theorem BundleTree.exact_opens {files : List TreeFile} (h : (files.map TreeFile.path).Nodup) {f : TreeFile}
    (hf : f ∈ files) : (BundleTree.exact rt files h).opens f.path = some f := by
  have hsome : (files.find? fun g => g.path = f.path).isSome = true := by
    rw [List.find?_isSome]
    exact ⟨f, hf, by simp⟩
  obtain ⟨g, hg⟩ := Option.isSome_iff_exists.mp hsome
  have hpath : g.path = f.path := by simpa using List.find?_some hg
  have heq : g = f := List.inj_on_of_nodup_map h (List.mem_of_find?_eq_some hg) hf hpath
  exact heq ▸ hg

theorem BundleTree.exact_visible {files : List TreeFile} (h : (files.map TreeFile.path).Nodup) (f : TreeFile) :
    (BundleTree.exact rt files h).visible f = true :=
  List.all_eq_true.mpr fun _ _ => rfl

theorem iterBundleInventory_exact {files : List TreeFile} (h : (files.map TreeFile.path).Nodup)
    (hregular : ∀ f ∈ files, f.regular = true) :
    iterBundleInventory rt fail (.exact rt files h) = .ok (files.map TreeFile.path) := by
  have hvisible : files.filter (BundleTree.exact rt files h).visible = files :=
    List.filter_eq_self.mpr fun f _ => BundleTree.exact_visible h f
  have hwalk : (BundleTree.exact rt files h).walk.mapM inspectEntry = .ok (files.map fun f => (f.path, f.content)) := by
    unfold BundleTree.walk
    change ((files.filter (BundleTree.exact rt files h).visible).map _).mapM inspectEntry = _
    rw [hvisible, mapM_eq_ok_iff, List.forall₂_map_left_iff, List.forall₂_map_right_iff, List.forall₂_same]
    intro f hf
    rw [if_pos (hregular f hf)]
    rfl
  unfold iterBundleInventory
  rw [hwalk]
  simp

theorem casefoldInventory_of_nodup {paths : List Text} (h : (paths.map rt.casefold).Nodup) :
    casefoldInventory rt fail paths = .ok (paths.map fun p => (rt.casefold p, p)) := by
  have hrun : ∃ actual, casefoldInventory rt fail paths = .ok actual ∧
      actual = paths.map fun p => (rt.casefold p, p) := by
    unfold casefoldInventory
    refine exists_foldlM_ok paths (fun done actual => actual = done.map fun p => (rt.casefold p, p)) ?_ rfl
    intro done path rest actual hsplit hdone
    have hfresh : rt.casefold path ∉ actual.map (·.1) := by
      rw [hsplit, List.map_append, List.map_cons, List.nodup_append] at h
      rw [hdone, List.map_map]
      intro hmem
      exact h.2.2 _ hmem _ (List.mem_cons_self ..) rfl
    refine ⟨actual ++ [(rt.casefold path, path)], ?_, ?_⟩
    · rw [refuseIf_bind_neg hfresh]
      rfl
    · rw [hdone, List.map_append]
      rfl
  obtain ⟨actual, hactual, heq⟩ := hrun
  exact hactual.trans (congrArg Except.ok heq)

section Files
variable {dataset : PublishedDataset rt bridge osError} {versions : PackageVersions rt} {artifacts : List StagedArtifact}

theorem stagedArtifactFile_path {a : StagedArtifact} (h : NormalPath a.path) : (stagedArtifactFile a).path = a.path :=
  h.intercalate_parts

theorem manifestFile_path (manifestBytes : List UInt8) : (manifestFile manifestBytes).path = transferManifestFilename :=
  List.intercalate_singleton

theorem Staged.paths (h : Staged dataset sha256 fail artifacts) :
    (dataset.stagedFiles sha256 versions artifacts).map TreeFile.path =
      artifacts.map (·.path) ++ [transferManifestFilename] := by
  have hartifacts : (artifacts.map stagedArtifactFile).map TreeFile.path = artifacts.map (·.path) := by
    rw [List.map_map]
    exact List.map_congr_left fun a ha => stagedArtifactFile_path (h.normal a ha)
  rw [PublishedDataset.stagedFiles, List.map_append, hartifacts, List.map_singleton, manifestFile_path]

theorem casefold_paths (artifacts : List StagedArtifact) :
    (artifacts.map (·.path) ++ [transferManifestFilename]).map rt.casefold =
      artifacts.map (fun a => rt.casefold a.path) ++ [transferManifestFilename] := by
  rw [List.map_append, List.map_map, List.map_singleton, casefold_transferManifestFilename]
  rfl

theorem Staged.keys_notMem (h : Staged dataset sha256 fail artifacts) :
    transferManifestFilename ∉ artifacts.map fun a => rt.casefold a.path := by
  intro hmem
  obtain ⟨a, ha, hkey⟩ := List.mem_map.mp hmem
  have htyped := (h.publishable a ha).typed
  rw [hkey] at htyped
  cases hartifact : a.artifactType with
  | dbf =>
    rw [hartifact] at htyped
    exact absurd htyped (by decide)
  | fpt =>
    rw [hartifact] at htyped
    exact absurd htyped (by decide)

theorem Staged.all_keys_nodup (h : Staged dataset sha256 fail artifacts) :
    ((artifacts.map (·.path) ++ [transferManifestFilename]).map rt.casefold).Nodup := by
  rw [casefold_paths, List.nodup_append]
  refine ⟨h.keys_nodup, List.nodup_singleton _, ?_⟩
  intro key hkey other hother heq
  rw [List.mem_singleton] at hother
  exact h.keys_notMem (hother ▸ heq ▸ hkey)

theorem Staged.files_nodup (h : Staged dataset sha256 fail artifacts) :
    ((dataset.stagedFiles sha256 versions artifacts).map TreeFile.path).Nodup := by
  rw [h.paths]
  exact h.all_keys_nodup.of_map

/-- The tree that the copy and manifest steps leave in the staging area. -/
def Staged.tree (h : Staged dataset sha256 fail artifacts) (versions : PackageVersions rt) : BundleTree rt :=
  .exact rt (dataset.stagedFiles sha256 versions artifacts) h.files_nodup

theorem Staged.opens_artifact (h : Staged dataset sha256 fail artifacts) {a : StagedArtifact} (ha : a ∈ artifacts) :
    (h.tree versions).opens a.path = some (stagedArtifactFile a) := by
  have hmem : stagedArtifactFile a ∈ dataset.stagedFiles sha256 versions artifacts :=
    List.mem_append_left _ (List.mem_map_of_mem ha)
  have hopens : (h.tree versions).opens (stagedArtifactFile a).path = some (stagedArtifactFile a) :=
    BundleTree.exact_opens h.files_nodup hmem
  rwa [stagedArtifactFile_path (h.normal a ha)] at hopens

theorem Staged.opens_manifest (h : Staged dataset sha256 fail artifacts) :
    (h.tree versions).opens transferManifestFilename =
      some (manifestFile (dataset.manifestBytes sha256 versions artifacts)) := by
  have hmem : manifestFile (dataset.manifestBytes sha256 versions artifacts) ∈
      dataset.stagedFiles sha256 versions artifacts := List.mem_append_right _ (List.mem_singleton_self _)
  have hopens : (h.tree versions).opens (manifestFile (dataset.manifestBytes sha256 versions artifacts)).path = some _ :=
    BundleTree.exact_opens h.files_nodup hmem
  rwa [manifestFile_path] at hopens

theorem Staged.inventory (h : Staged dataset sha256 fail artifacts) :
    iterBundleInventory rt fail (h.tree versions) = .ok (artifacts.map (·.path) ++ [transferManifestFilename]) := by
  have hregular : ∀ f ∈ dataset.stagedFiles sha256 versions artifacts, f.regular = true := by
    intro f hf
    rcases List.mem_append.mp hf with hartifact | hmanifest
    · obtain ⟨a, -, rfl⟩ := List.mem_map.mp hartifact
      rfl
    · rw [List.mem_singleton.mp hmanifest]
      rfl
  rw [Staged.tree, iterBundleInventory_exact h.files_nodup hregular, h.paths]

theorem Staged.openContent (h : Staged dataset sha256 fail artifacts) {a : StagedArtifact} (ha : a ∈ artifacts) :
    Transfer.openContent osError (h.tree versions) a.path = .ok a.content := by
  unfold Transfer.openContent
  rw [h.opens_artifact ha]
  rfl

theorem Staged.readSourceTable (h : Staged dataset sha256 fail artifacts) {a : StagedArtifact} (ha : a ∈ artifacts)
    {schema : TableSchema} (htable : StagedTable bridge sha256 a schema) :
    Transfer.readSourceTable bridge osError (h.tree versions) a.path = .ok schema := by
  unfold Transfer.readSourceTable
  rw [h.openContent ha, ok_bind, htable.read]

theorem declaredArtifact_own {a : StagedArtifact} (hkey : rt.casefold a.path = a.path) :
    declaredArtifact rt sha256 a =
      (a.path, ⟨a.path, a.artifactType, a.content.length, sha256 a.content, a.recordCount, a.schemaFingerprint⟩) := by
  rw [declaredArtifact, hkey]

theorem Staged.verifyArtifact (h : Staged dataset sha256 fail artifacts)
    (hown : ∀ path ∈ dataset.tablePaths, rt.casefold path = path) {a : StagedArtifact} (ha : a ∈ artifacts) :
    Transfer.verifyArtifact rt bridge sha256 osError fail (h.tree versions) (artifacts.map (declaredArtifact rt sha256))
      (declaredArtifact rt sha256 a) = .ok () := by
  have hopen : Transfer.openContent osError (h.tree versions) a.path = .ok a.content := h.openContent ha
  rw [declaredArtifact_own (h.own hown a ha)]
  unfold Transfer.verifyArtifact
  dsimp only
  rw [hopen, ok_bind, refuseIf_bind_neg (by simp)]
  cases hartifact : a.artifactType with
  | fpt => rfl
  | dbf =>
    obtain ⟨schema, htable, hcompanion⟩ := h.table a ha hartifact
    have hstreamed : streamTableRecords bridge schema a.content
        (((h.tree versions).opens (withSuffix a.path fptSuffix)).map (·.content)) = .ok schema.recordCount := by
      unfold streamTableRecords
      split_ifs with hmemo
      · obtain ⟨fpt, hfpt, hpath, hinline⟩ := hcompanion hmemo
        rw [← hpath, h.opens_artifact hfpt]
        exact hinline
      · exact htable.streamed
    have hdeclared : ¬ (schema.hasMemoFields = true ∧
        rt.casefold (withSuffix a.path fptSuffix) ∉ (artifacts.map (declaredArtifact rt sha256)).map (·.1)) := by
      intro hmissing
      obtain ⟨fpt, hfpt, hpath, -⟩ := hcompanion hmissing.1
      apply hmissing.2
      rw [← hpath, List.map_map]
      exact List.mem_map_of_mem (f := fun a => rt.casefold a.path) hfpt
    dsimp only
    rw [h.readSourceTable ha htable, ok_bind, refuseIf_bind_neg (by simp [htable.count_eq]),
      refuseIf_bind_neg (by simp [htable.fingerprint_eq]), hstreamed, ok_bind,
      refuseIf_bind_neg (by simp [htable.count_eq]), refuseIf_eq_ok]
    exact hdeclared

theorem Staged.companionExpectation (h : Staged dataset sha256 fail artifacts) (versions : PackageVersions rt)
    (hown : ∀ path ∈ dataset.tablePaths, rt.casefold path = path) {a : StagedArtifact} (ha : a ∈ artifacts) :
    ∃ expected, Transfer.companionExpectation rt bridge osError (h.tree versions) (declaredArtifact rt sha256 a) =
      .ok expected ∧ ∀ schema, a.artifactType = .dbf → StagedTable bridge sha256 a schema →
        schema.hasMemoFields = true → expected = some (rt.casefold (withSuffix a.path fptSuffix)) := by
  rw [declaredArtifact_own (h.own hown a ha)]
  unfold Transfer.companionExpectation
  dsimp only
  cases hartifact : a.artifactType with
  | fpt => exact ⟨none, rfl, fun _ hdbf => nomatch hdbf⟩
  | dbf =>
    obtain ⟨schema, htable, -⟩ := h.table a ha hartifact
    dsimp only
    rw [h.readSourceTable ha htable, ok_bind]
    refine ⟨_, rfl, ?_⟩
    intro schema' _ htable' hmemo
    have hsame : schema = schema' := Except.ok.inj (htable.read.symm.trans htable'.read)
    rw [hsame, if_pos hmemo]

theorem Staged.nonempty (h : Staged dataset sha256 fail artifacts) : artifacts ≠ [] := by
  obtain ⟨path, tablePaths, htables⟩ := List.exists_cons_of_ne_nil dataset.tables_nonempty
  obtain ⟨a, ha, -⟩ := h.tables path (htables ▸ List.mem_cons_self ..)
  exact List.ne_nil_of_mem ha

theorem normalizedArtifactPath_manifest :
    normalizedArtifactPath rt fail transferManifestFilename = .ok transferManifestFilename := rfl

theorem Staged.companions (h : Staged dataset sha256 fail artifacts) (versions : PackageVersions rt)
    (hown : ∀ path ∈ dataset.tablePaths, rt.casefold path = path) :
    ∃ companions, (artifacts.map (declaredArtifact rt sha256)).mapM
        (Transfer.companionExpectation rt bridge osError (h.tree versions)) = .ok companions ∧
      ∀ item ∈ artifacts.map (declaredArtifact rt sha256), item.2.artifactType = .fpt → some item.1 ∈ companions := by
  have hall : ∀ item ∈ artifacts.map (declaredArtifact rt sha256), ∃ expected,
      Transfer.companionExpectation rt bridge osError (h.tree versions) item = .ok expected := by
    intro item hitem
    obtain ⟨a, ha, rfl⟩ := List.mem_map.mp hitem
    obtain ⟨expected, hexpected, -⟩ := h.companionExpectation versions hown ha
    exact ⟨expected, hexpected⟩
  obtain ⟨companions, hcompanions⟩ := exists_mapM_ok hall
  refine ⟨companions, hcompanions, ?_⟩
  intro item hitem hfpt
  obtain ⟨a, ha, rfl⟩ := List.mem_map.mp hitem
  obtain ⟨table, htable, hdbf, hpath, schema, hstaged, hmemo⟩ := h.memo a ha hfpt
  obtain ⟨expected, hexpected, hcompanion⟩ := h.companionExpectation versions hown htable
  obtain ⟨companion, hmem, heq⟩ := exists_of_mapM_ok hcompanions (List.mem_map_of_mem htable)
  rw [hexpected] at heq
  rw [← Except.ok.inj heq, hcompanion schema hdbf hstaged hmemo, ← hpath] at hmem
  exact hmem

theorem Staged.accepted (h : Staged dataset sha256 fail artifacts) (hsha : ∀ content, (sha256 content).length = 64)
    (hown : ∀ path ∈ dataset.tablePaths, rt.casefold path = path)
    (hsize : (dataset.manifestBytes sha256 versions artifacts).length ≤ maxManifestBytes) :
    verifyBundleCore rt bridge sha256 osError fail (h.tree versions) =
      .ok ("bundle-".toList ++ sha256 (dataset.manifestBytes sha256 versions artifacts), dataset.relations.assurance,
        artifacts.length) := by
  have hmember : rt.casefold transferManifestFilename ∈ artifacts.map (·.path) ++ [transferManifestFilename] := by
    rw [casefold_transferManifestFilename]
    exact List.mem_append_right _ (List.mem_singleton_self _)
  have hpermitted : ((artifacts.map (·.path) ++ [transferManifestFilename]).forM fun relativePath =>
      refuseIf (relativePath ≠ transferManifestFilename ∧ isForbiddenArtifact rt relativePath = true)
        (fail "TRANSFER_FORBIDDEN_ARTIFACT")) = .ok () := by
    rw [forM_eq_ok_iff]
    intro path hpath
    rw [refuseIf_eq_ok]
    rcases List.mem_append.mp hpath with hartifact | hmanifest
    · obtain ⟨a, ha, rfl⟩ := List.mem_map.mp hartifact
      simp [(h.publishable a ha).permitted]
    · simp [List.mem_singleton.mp hmanifest]
  have hopen : Transfer.openContent (fail "TRANSFER_BUNDLE_UNREADABLE") (h.tree versions) transferManifestFilename =
      .ok (dataset.manifestBytes sha256 versions artifacts) := by
    unfold Transfer.openContent
    rw [h.opens_manifest]
    rfl
  have hcontract := validateManifestContract_published dataset versions hsha h.nonempty h.length_le h.publishable
    h.keys_nodup
  have hinventory : casefoldInventory rt fail (artifacts.map (·.path) ++ [transferManifestFilename]) = _ :=
    casefoldInventory_of_nodup h.all_keys_nodup
  have hportable : (((artifacts.map (·.path) ++ [transferManifestFilename]).map fun p => (rt.casefold p, p)).forM
      fun item => do
        let _ ← normalizedArtifactPath rt fail item.2
        return () : Except Raised Unit) = .ok () := by
    rw [forM_eq_ok_iff]
    intro item hitem
    obtain ⟨path, hpath, rfl⟩ := List.mem_map.mp hitem
    rcases List.mem_append.mp hpath with hartifact | hmanifest
    · obtain ⟨a, ha, rfl⟩ := List.mem_map.mp hartifact
      rw [(h.publishable a ha).normalized]
      rfl
    · rw [List.mem_singleton.mp hmanifest, normalizedArtifactPath_manifest]
      rfl
  have hverified : (((artifacts.map (declaredArtifact rt sha256)).insertionSort fun a b => a.1 ≤ b.1).forM
      (Transfer.verifyArtifact rt bridge sha256 osError fail (h.tree versions)
        (artifacts.map (declaredArtifact rt sha256)))) = .ok () := by
    rw [forM_eq_ok_iff]
    intro item hitem
    obtain ⟨a, ha, rfl⟩ := List.mem_map.mp ((List.mem_insertionSort _).mp hitem)
    exact h.verifyArtifact hown ha
  obtain ⟨companions, hcompanions, howned⟩ := h.companions versions hown
  have hunexpected : ¬ ∃ item ∈ artifacts.map (declaredArtifact rt sha256), item.2.artifactType = .fpt ∧
      some item.1 ∉ companions := by
    intro hexists
    obtain ⟨item, hitem, hfpt, hmissing⟩ := hexists
    exact hmissing (howned item hitem hfpt)
  have hactual : ((artifacts.map (·.path) ++ [transferManifestFilename]).map fun p => (rt.casefold p, p)).map (·.1) =
      (artifacts.map (declaredArtifact rt sha256)).map (·.1) ++ [rt.casefold transferManifestFilename] := by
    rw [casefold_transferManifestFilename, List.map_map, List.map_map]
    exact casefold_paths artifacts
  have hexact : ¬ ((∃ item ∈ (artifacts.map (·.path) ++ [transferManifestFilename]).map fun p => (rt.casefold p, p),
      item.1 ∉ (artifacts.map (declaredArtifact rt sha256)).map (·.1) ++ [rt.casefold transferManifestFilename]) ∨
      ∃ key ∈ (artifacts.map (declaredArtifact rt sha256)).map (·.1) ++ [rt.casefold transferManifestFilename],
        key ∉ ((artifacts.map (·.path) ++ [transferManifestFilename]).map fun p => (rt.casefold p, p)).map (·.1)) := by
    rw [← hactual]
    intro hmismatch
    rcases hmismatch with hextra | hmissing
    · obtain ⟨item, hitem, hnot⟩ := hextra
      exact hnot (List.mem_map_of_mem hitem)
    · obtain ⟨key, hkey, hnot⟩ := hmissing
      exact hnot hkey
  have hassurance : (valueAt (dataset.manifest sha256 versions artifacts) "assurance").getD .null =
    .obj (assuranceEntry dataset.relations.assurance) := rfl
  unfold verifyBundleCore
  rw [h.inventory, ok_bind, refuseIf_bind_neg (not_not.mpr hmember), hpermitted, ok_bind, hopen, ok_bind,
    refuseIf_bind_neg (not_lt.mpr hsize), strictJsonLoads_published, ok_bind, hcontract, ok_bind, hinventory, ok_bind,
    hportable, ok_bind]
  dsimp only
  rw [refuseIf_bind_neg hexact, hverified, ok_bind, hcompanions, ok_bind, refuseIf_bind_neg hunexpected, hassurance,
    manifestAssurance_published, ok_bind, List.length_map]
  rfl

/-- An artifact that is found under its key was written there. -/
theorem Staged.own_of_opens (h : Staged dataset sha256 fail artifacts) {a : StagedArtifact} (ha : a ∈ artifacts)
    (hopens : (h.tree versions).opens (rt.casefold a.path) = some (stagedArtifactFile a)) :
    rt.casefold a.path = a.path := by
  have hpath : (stagedArtifactFile a).path = rt.casefold a.path := by simpa using List.find?_some hopens
  rw [← hpath]
  exact stagedArtifactFile_path (h.normal a ha)

theorem Staged.manifest_bounded (h : Staged dataset sha256 fail artifacts) {result : Text × RelationalAssurance × ℕ}
    (haccepted : verifyBundleCore rt bridge sha256 osError fail (h.tree versions) = .ok result) :
    (dataset.manifestBytes sha256 versions artifacts).length ≤ maxManifestBytes := by
  obtain ⟨manifest, declared, -, hbundle⟩ := verifyBundleCore_eq_ok haccepted
  obtain ⟨f, hopens, hlength⟩ := hbundle.manifest_bounded
  rw [h.opens_manifest] at hopens
  rw [← Option.some.inj hopens] at hlength
  exact hlength

end Files

/-- The verifier accepts what creation stages, finds every artifact where it was written and reads the published
assurance back, exactly when the paths of the tables are their own foldings and the manifest is not too large. -/
theorem verifyBundleCore_staged (dataset : PublishedDataset rt bridge osError) (versions : PackageVersions rt)
    (hsha : ∀ content, (sha256 content).length = 64) {artifacts : List StagedArtifact}
    (h : stageArtifacts bridge sha256 osError fail dataset.working dataset.tablePaths = .ok artifacts) :
    ((∃ fingerprint, verifyBundleCore rt bridge sha256 osError fail ((staged_of_stageArtifacts h).tree versions) =
        .ok (fingerprint, dataset.relations.assurance, artifacts.length)) ∧
      ∀ a ∈ artifacts,
        ((staged_of_stageArtifacts h).tree versions).opens (rt.casefold a.path) = some (stagedArtifactFile a)) ↔
    (∀ path ∈ dataset.tablePaths, rt.casefold path = path) ∧
      (dataset.manifestBytes sha256 versions artifacts).length ≤ maxManifestBytes := by
  have hstaged := staged_of_stageArtifacts h
  constructor
  · intro hround
    obtain ⟨⟨fingerprint, haccepted⟩, hfound⟩ := hround
    constructor
    · intro path hpath
      obtain ⟨a, ha, rfl⟩ := hstaged.tables path hpath
      exact hstaged.own_of_opens ha (hfound a ha)
    · exact hstaged.manifest_bounded haccepted
  · intro hcondition
    obtain ⟨hown, hsize⟩ := hcondition
    constructor
    · exact ⟨_, hstaged.accepted hsha hown hsize⟩
    · intro a ha
      rw [hstaged.own hown a ha]
      exact hstaged.opens_artifact ha

def transferFailure (detailCode : String) : Raised := .typed .transferFailed "create_transfer_bundle" detailCode

def lowerCodes : PublishedDataset asciiRuntime codesBridge schemaUnreadable :=
  codesDataset "codes.dbf".toList "codes.dbf".toList codesPath_normalized codesPath_suffix

def upperCodes : PublishedDataset asciiRuntime codesBridge schemaUnreadable :=
  codesDataset "CODES.DBF".toList "CODES.DBF".toList (by decide +kernel) (by decide)

def codesArtifact (path : Text) : StagedArtifact :=
  ⟨path, .dbf, codesTable, some 1, some (schemaDigest codesSha256 codesSchema)⟩

theorem lowerCodes_staged :
    stageArtifacts codesBridge codesSha256 schemaUnreadable transferFailure lowerCodes.working lowerCodes.tablePaths =
      .ok [codesArtifact "codes.dbf".toList] := by
  decide +kernel

theorem upperCodes_staged :
    stageArtifacts codesBridge codesSha256 schemaUnreadable transferFailure upperCodes.working upperCodes.tablePaths =
      .ok [codesArtifact "CODES.DBF".toList] := by
  decide +kernel

theorem length_codesSha256 (content : List UInt8) : (codesSha256 content).length = 64 := by
  unfold codesSha256
  split_ifs <;> rfl

/-- A lower-case path makes the round trip. -/
theorem lowerCodes_accepted :
    ∃ fingerprint, verifyBundleCore asciiRuntime codesBridge codesSha256 schemaUnreadable transferFailure
        ((staged_of_stageArtifacts lowerCodes_staged).tree releaseVersions) =
      .ok (fingerprint, noRelations.assurance, 1) := by
  have hround := verifyBundleCore_staged lowerCodes releaseVersions length_codesSha256 lowerCodes_staged
  have hcondition : (∀ path ∈ lowerCodes.tablePaths, asciiRuntime.casefold path = path) ∧
      (lowerCodes.manifestBytes codesSha256 releaseVersions [codesArtifact "codes.dbf".toList]).length ≤
        maxManifestBytes := by
    decide +kernel
  exact (hround.mpr hcondition).1

/-- The verifier looks for an upper-case table under its lower-case key, where there is none. -/
theorem upperCodes_refused :
    ¬ ∃ result, verifyBundleCore asciiRuntime codesBridge codesSha256 schemaUnreadable transferFailure
      ((staged_of_stageArtifacts upperCodes_staged).tree releaseVersions) = .ok result := by
  have hrefused : verifyBundleCore asciiRuntime codesBridge codesSha256 schemaUnreadable transferFailure
      ((staged_of_stageArtifacts upperCodes_staged).tree releaseVersions) = .error schemaUnreadable := by
    decide +kernel
  intro haccepted
  obtain ⟨result, hresult⟩ := haccepted
  rw [hrefused] at hresult
  cases hresult

end DbfAnonymizer.Transfer
