import DbfAnonymizer.Transfer.PublishedManifest

/-! What the copy step leaves in the staged tree. -/
namespace DbfAnonymizer.Transfer
open Lib Relationships Engine Verification

variable {rt : PythonRuntime} {bridge : DbfBridge} {sha256 : List UInt8 → Text} {osError : Raised}
  {fail : String → Raised}

def Contributes (bridge : DbfBridge) (working : BundleTree rt) (path : Text) (items : List (Text × ArtifactType)) :
    Prop :=
  ∃ f schema, working.opens path = some f ∧ bridge.readSchema f.content = .ok schema ∧
    items = (path, .dbf) :: if schema.hasMemoFields then [(withSuffix path fptSuffix, .fpt)] else []

theorem readSourceTable_eq_ok {tree : BundleTree rt} {path : Text} {schema : TableSchema}
    (h : readSourceTable bridge osError tree path = .ok schema) :
    ∃ f, tree.opens path = some f ∧ bridge.readSchema f.content = .ok schema := by
  obtain ⟨content, hopen, hschema⟩ := bind_eq_ok.mp h
  obtain ⟨f, hf, hcontent⟩ := openContent_eq_ok hopen
  exact ⟨f, hf, hcontent ▸ hschema⟩

theorem tablePayload_eq_ok {working : BundleTree rt} {path : Text} {items : List (Text × ArtifactType)}
    (h : tablePayload bridge osError working path = .ok items) : Contributes bridge working path items := by
  obtain ⟨schema, hread, hitems⟩ := bind_eq_ok.mp h
  obtain ⟨f, hf, hschema⟩ := readSourceTable_eq_ok hread
  exact ⟨f, schema, hf, hschema, (Except.ok.inj hitems).symm⟩

structure Allowed (rt : PythonRuntime) (fail : String → Raised) (path : Text) : Prop where
  normalized : normalizedArtifactPath rt fail path = .ok path
  permitted : isForbiddenArtifact rt path = false

theorem foldlM_allowArtifact_eq_ok {items : List (Text × ArtifactType)} {allowlist : List AllowedArtifact}
    (hnormal : ∀ item ∈ items, NormalPath item.1)
    (h : items.foldlM (allowArtifact fail rt) [] = .ok allowlist) :
    allowlist = items.map (fun item => ⟨rt.casefold item.1, item.1, item.2⟩) ∧
      (allowlist.map (·.casefolded)).Nodup ∧ ∀ item ∈ items, Allowed rt fail item.1 := by
  have hrun := foldlM_induction [] (fun done allowlist => (∀ item ∈ done, NormalPath item.1) →
    allowlist = done.map (fun item => ⟨rt.casefold item.1, item.1, item.2⟩) ∧
      (allowlist.map (·.casefolded)).Nodup ∧ ∀ item ∈ done, Allowed rt fail item.1) ?_ ?_ h
  · exact hrun hnormal
  · intro done item allowlist allowlist' hdone hstep hnormal
    obtain ⟨hlist, hnodup, hallowed⟩ := hdone fun other hother => hnormal other (List.mem_append_left _ hother)
    obtain ⟨normalized, hnormalized, hstep⟩ := bind_eq_ok.mp hstep
    obtain ⟨_, hpermitted, hstep⟩ := bind_eq_ok.mp hstep
    obtain ⟨_, hfresh, hstep⟩ := bind_eq_ok.mp hstep
    rw [refuseIf_eq_ok] at hpermitted hfresh
    have hitem := hnormal item (List.mem_append_right _ (List.mem_singleton_self item))
    have hsame : normalized = item.1 := by
      rw [(normalizedArtifactPath_eq_ok hnormalized).2, hitem.slashed, hitem.asPosix]
    rw [hsame] at hnormalized hpermitted hfresh hstep
    rw [← Except.ok.inj hstep]
    refine ⟨?_, ?_, ?_⟩
    · rw [List.map_append, hlist]
      rfl
    · rw [List.map_append, List.nodup_append]
      refine ⟨hnodup, by simp, ?_⟩
      intro key hkey other hother heq
      rw [List.map_singleton, List.mem_singleton] at hother
      rw [heq, hother] at hkey
      exact hfresh hkey
    · intro other hother
      rcases List.mem_append.mp hother with hold | hnew
      · exact hallowed other hold
      · rw [List.mem_singleton.mp hnew]
        exact ⟨hnormalized, by simpa using hpermitted⟩
  · exact fun _ => ⟨rfl, List.nodup_nil, by simp⟩

structure StagedTable (bridge : DbfBridge) (sha256 : List UInt8 → Text) (artifact : StagedArtifact)
    (schema : TableSchema) : Prop where
  read : bridge.readSchema artifact.content = .ok schema
  streamed : bridge.countSkipping artifact.content = .ok schema.recordCount
  count_eq : artifact.recordCount = some schema.recordCount
  fingerprint_eq : artifact.schemaFingerprint = some (schemaDigest sha256 schema)

structure Copied (bridge : DbfBridge) (sha256 : List UInt8 → Text) (working : BundleTree rt) (item : AllowedArtifact)
    (artifact : StagedArtifact) : Prop where
  path_eq : artifact.path = item.path
  type_eq : artifact.artifactType = item.artifactType
  content : ∃ f, working.opens item.path = some f ∧ f.content = artifact.content
  table : artifact.artifactType = .dbf → ∃ schema, StagedTable bridge sha256 artifact schema
  memo : artifact.artifactType = .fpt → artifact.recordCount = none ∧ artifact.schemaFingerprint = none

theorem stageArtifact_eq_ok {working : BundleTree rt} {item : AllowedArtifact} {artifact : StagedArtifact}
    (h : stageArtifact bridge sha256 osError fail working item = .ok artifact) :
    Copied bridge sha256 working item artifact := by
  unfold stageArtifact at h
  obtain ⟨content, hopen, h⟩ := bind_eq_ok.mp h
  have hcontent := openContent_eq_ok hopen
  cases hartifact : item.artifactType with
  | fpt =>
    rw [hartifact] at h
    rw [← Except.ok.inj h]
    constructor
    case path_eq => rfl
    case type_eq => exact hartifact.symm
    case content => exact hcontent
    case table => exact fun hdbf => nomatch hdbf
    case memo => exact fun _ => ⟨rfl, rfl⟩
  | dbf =>
    rw [hartifact] at h
    obtain ⟨schema, hread, h⟩ := bind_eq_ok.mp h
    obtain ⟨count, hcount, h⟩ := bind_eq_ok.mp h
    obtain ⟨streamed, hstreamed, hcount⟩ := bind_eq_ok.mp hcount
    obtain ⟨_, heq, hcount⟩ := bind_eq_ok.mp hcount
    rw [refuseIf_eq_ok, not_not] at heq
    rw [heq] at hstreamed hcount
    obtain ⟨f, hf, hschema⟩ := readSourceTable_eq_ok hread
    obtain ⟨g, hg, hgcontent⟩ := hcontent
    have hsame : f = g := Option.some.inj (hf.symm.trans hg)
    rw [hsame, hgcontent] at hschema
    rw [← Except.ok.inj h]
    constructor
    case path_eq => rfl
    case type_eq => exact hartifact.symm
    case content => exact ⟨g, hg, hgcontent⟩
    case table =>
      intro _
      exact ⟨schema, hschema, hstreamed, congrArg some (Except.ok.inj hcount).symm, rfl⟩
    case memo => exact fun hfpt => nomatch hfpt

def allowedItem (rt : PythonRuntime) (item : Text × ArtifactType) : AllowedArtifact :=
  ⟨rt.casefold item.1, item.1, item.2⟩

theorem PublishedDataset.normalPath (dataset : PublishedDataset rt bridge osError) {path : Text}
    (h : path ∈ dataset.tablePaths) : NormalPath path := by
  obtain ⟨value, hvalue⟩ := dataset.tables_normalized path h
  exact normalPath_of_normalized hvalue

theorem PublishedDataset.exists_base (dataset : PublishedDataset rt bridge osError) {path : Text}
    (h : path ∈ dataset.tablePaths) : ∃ base, TablePath rt path base :=
  exists_tablePath rt (dataset.normalPath h) (dataset.tables_dbf path h)

/-- An artifact that a table of the dataset is expected to contribute. -/
inductive Expected (dataset : PublishedDataset rt bridge osError) : Text × ArtifactType → Prop
  | table {path : Text} (h : path ∈ dataset.tablePaths) : Expected dataset (path, .dbf)
  | memo {path : Text} {f : TreeFile} {schema : TableSchema} (h : path ∈ dataset.tablePaths)
      (hf : dataset.working.opens path = some f) (hschema : bridge.readSchema f.content = .ok schema)
      (hmemo : schema.hasMemoFields = true) : Expected dataset (withSuffix path fptSuffix, .fpt)

theorem Expected.normalPath {dataset : PublishedDataset rt bridge osError} {item : Text × ArtifactType}
    (h : Expected dataset item) : NormalPath item.1 := by
  cases h with
  | table h => exact dataset.normalPath h
  | memo h =>
    obtain ⟨base, hbase⟩ := dataset.exists_base h
    rw [hbase.companion_eq]
    exact hbase.companion_normal

theorem Expected.typed {dataset : PublishedDataset rt bridge osError} {item : Text × ArtifactType}
    (h : Expected dataset item) : item.2.extension <:+ rt.casefold item.1 := by
  cases h with
  | table h =>
    obtain ⟨base, hbase⟩ := dataset.exists_base h
    rw [hbase.folded]
    exact List.suffix_append _ _
  | memo h =>
    obtain ⟨base, hbase⟩ := dataset.exists_base h
    rw [hbase.companion_eq, hbase.companion_folded]
    exact List.suffix_append _ _

theorem Expected.own {dataset : PublishedDataset rt bridge osError} {item : Text × ArtifactType}
    (h : Expected dataset item) (hown : ∀ path ∈ dataset.tablePaths, rt.casefold path = path) :
    rt.casefold item.1 = item.1 := by
  cases h with
  | @table path h => exact hown path h
  | @memo path f schema h =>
    obtain ⟨base, hbase⟩ := dataset.exists_base h
    rw [hbase.companion_eq]
    exact hbase.companion_own (hown path h)

theorem mem_flatten_of_contributes {dataset : PublishedDataset rt bridge osError}
    {payload : List (List (Text × ArtifactType))}
    (h : List.Forall₂ (Contributes bridge dataset.working) dataset.tablePaths payload) {item : Text × ArtifactType} :
    item ∈ payload.flatten ↔ Expected dataset item := by
  constructor
  · intro hitem
    obtain ⟨items, hitems, hmem⟩ := List.mem_flatten.mp hitem
    obtain ⟨path, hpath, f, schema, hf, hschema, heq⟩ := exists_of_forall₂_right h hitems
    rw [heq] at hmem
    rcases List.mem_cons.mp hmem with hhead | htail
    · rw [hhead]
      exact .table hpath
    · split_ifs at htail with hmemo
      · rw [List.mem_singleton.mp htail]
        exact .memo hpath hf hschema hmemo
      · cases htail
  · intro hexpected
    cases hexpected with
    | table hpath =>
      obtain ⟨items, hitems, f, schema, hf, hschema, heq⟩ := exists_of_forall₂_left h hpath
      apply List.mem_flatten.mpr
      exact ⟨items, hitems, heq ▸ List.mem_cons_self ..⟩
    | memo hpath hf hschema hmemo =>
      obtain ⟨items, hitems, g, schema', hg, hschema', heq⟩ := exists_of_forall₂_left h hpath
      rw [hf] at hg
      rw [← Option.some.inj hg, hschema] at hschema'
      rw [← Except.ok.inj hschema', if_pos hmemo] at heq
      apply List.mem_flatten.mpr
      exact ⟨items, hitems, heq ▸ List.mem_cons_of_mem _ (List.mem_singleton_self _)⟩

theorem length_flatten_le {working : BundleTree rt} {tablePaths : List Text} {payload : List (List (Text × ArtifactType))}
    (h : List.Forall₂ (Contributes bridge working) tablePaths payload) :
    payload.flatten.length ≤ 2 * tablePaths.length := by
  induction h with
  | nil => simp
  | @cons path items tablePaths payload hhead _ ih =>
    obtain ⟨f, schema, -, -, heq⟩ := hhead
    have hlength : items.length ≤ 2 := by
      rw [heq]
      split_ifs <;> simp
    rw [List.flatten_cons, List.length_append, List.length_cons]
    omega

/-- The copies of the expected artifacts, each under a key of its own. -/
structure CopiedPayload (dataset : PublishedDataset rt bridge osError) (sha256 : List UInt8 → Text)
    (fail : String → Raised) (artifacts : List StagedArtifact) : Prop where
  copied : ∀ item, Expected dataset item →
    ∃ a ∈ artifacts, Copied bridge sha256 dataset.working (allowedItem rt item) a
  origin : ∀ a ∈ artifacts, ∃ item, Expected dataset item ∧ Allowed rt fail item.1 ∧
    Copied bridge sha256 dataset.working (allowedItem rt item) a
  keys_nodup : (artifacts.map fun a => rt.casefold a.path).Nodup
  length_le : artifacts.length ≤ maxManifestArtifacts

theorem copiedPayload_of_stageArtifacts {dataset : PublishedDataset rt bridge osError} {artifacts : List StagedArtifact}
    (h : stageArtifacts bridge sha256 osError fail dataset.working dataset.tablePaths = .ok artifacts) :
    CopiedPayload dataset sha256 fail artifacts := by
  obtain ⟨allowlist, hallowlist, hcopies⟩ := bind_eq_ok.mp h
  obtain ⟨payload, hpayload, hallowlist⟩ := bind_eq_ok.mp hallowlist
  obtain ⟨allowlist', hfold, hallowlist⟩ := bind_eq_ok.mp hallowlist
  obtain ⟨_, _, hallowlist⟩ := bind_eq_ok.mp hallowlist
  rw [Except.ok.inj hallowlist] at hfold
  have hcontributes : List.Forall₂ (Contributes bridge dataset.working) dataset.tablePaths payload :=
    (mapM_eq_ok_iff.mp hpayload).imp fun _ _ => tablePayload_eq_ok
  have hexpected : ∀ item, item ∈ payload.flatten ↔ Expected dataset item :=
    fun _ => mem_flatten_of_contributes hcontributes
  have hnormal : ∀ item ∈ payload.flatten, NormalPath item.1 :=
    fun item hitem => ((hexpected item).mp hitem).normalPath
  obtain ⟨hlist, hkeys, hallowed⟩ := foldlM_allowArtifact_eq_ok hnormal hfold
  have hsorted : ∀ item, item ∈ allowlist.insertionSort (fun a b => a.casefolded ≤ b.casefolded) ↔ item ∈ allowlist :=
    fun item => List.mem_insertionSort _
  have hall := mapM_eq_ok_iff.mp hcopies
  constructor
  case copied =>
    intro item hitem
    have hmem : allowedItem rt item ∈ allowlist := by
      rw [hlist]
      exact List.mem_map_of_mem ((hexpected item).mpr hitem)
    obtain ⟨a, ha, hcopy⟩ := exists_of_forall₂_left hall ((hsorted _).mpr hmem)
    exact ⟨a, ha, stageArtifact_eq_ok hcopy⟩
  case origin =>
    intro a ha
    obtain ⟨allowed, hmem, hcopy⟩ := exists_of_forall₂_right hall ha
    have hmem := (hsorted _).mp hmem
    rw [hlist] at hmem
    obtain ⟨item, hitem, heq⟩ := List.mem_map.mp hmem
    refine ⟨item, (hexpected item).mp hitem, hallowed item hitem, ?_⟩
    rw [← heq] at hcopy
    exact stageArtifact_eq_ok hcopy
  case keys_nodup =>
    have hpaths : (allowlist.insertionSort fun a b => a.casefolded ≤ b.casefolded).map (·.path) =
        artifacts.map (·.path) := by
      rw [← List.forall₂_eq_eq_eq, List.forall₂_map_left_iff, List.forall₂_map_right_iff]
      exact hall.imp fun _ _ hcopy => (stageArtifact_eq_ok hcopy).path_eq.symm
    have hperm : (artifacts.map (·.path)).Perm (allowlist.map (·.path)) :=
      hpaths ▸ (List.perm_insertionSort _ allowlist).map _
    have hfolded : (allowlist.map (·.path)).map rt.casefold = allowlist.map (·.casefolded) := by
      rw [hlist, List.map_map, List.map_map, List.map_map]
      rfl
    have hkeysPerm := hperm.map rt.casefold
    rw [hfolded, List.map_map] at hkeysPerm
    exact hkeysPerm.nodup_iff.mpr hkeys
  case length_le =>
    have hlength := hall.length_eq
    have hcount := length_flatten_le hcontributes
    have htables := dataset.tables_bounded
    rw [List.length_insertionSort, hlist, List.length_map] at hlength
    unfold publicJsonMaxDatasetTables at htables
    unfold maxManifestArtifacts
    omega

/-- The artifacts of a staged bundle, against each other. -/
structure Staged (dataset : PublishedDataset rt bridge osError) (sha256 : List UInt8 → Text) (fail : String → Raised)
    (artifacts : List StagedArtifact) : Prop where
  publishable : ∀ a ∈ artifacts, Publishable rt fail a
  normal : ∀ a ∈ artifacts, NormalPath a.path
  keys_nodup : (artifacts.map fun a => rt.casefold a.path).Nodup
  length_le : artifacts.length ≤ maxManifestArtifacts
  tables : ∀ path ∈ dataset.tablePaths, ∃ a ∈ artifacts, a.path = path
  own : (∀ path ∈ dataset.tablePaths, rt.casefold path = path) → ∀ a ∈ artifacts, rt.casefold a.path = a.path
  table : ∀ a ∈ artifacts, a.artifactType = .dbf → ∃ schema, StagedTable bridge sha256 a schema ∧
    (schema.hasMemoFields = true → ∃ fpt ∈ artifacts, fpt.path = withSuffix a.path fptSuffix ∧
      bridge.countInline a.content (some fpt.content) = .ok schema.recordCount)
  memo : ∀ a ∈ artifacts, a.artifactType = .fpt → ∃ table ∈ artifacts, table.artifactType = .dbf ∧
    a.path = withSuffix table.path fptSuffix ∧
      ∃ schema, StagedTable bridge sha256 table schema ∧ schema.hasMemoFields = true

theorem logicalFacts_copied {working : BundleTree rt} {item : AllowedArtifact} {a : StagedArtifact}
    (h : Copied bridge sha256 working item a) :
    logicalFacts a.artifactType (some (optionalCount a.recordCount)) (some (optionalText a.schemaFingerprint)) =
      some (a.recordCount, a.schemaFingerprint) := by
  cases hartifact : a.artifactType with
  | fpt =>
    have hnone := h.memo hartifact
    rw [hnone.1, hnone.2]
    rfl
  | dbf =>
    obtain ⟨schema, htable⟩ := h.table hartifact
    have hcount := jsonCount?_natCast schema.recordCount
    rw [htable.count_eq, htable.fingerprint_eq]
    simp [logicalFacts, optionalCount, optionalText, schemaDigest]

theorem staged_of_stageArtifacts {dataset : PublishedDataset rt bridge osError} {artifacts : List StagedArtifact}
    (h : stageArtifacts bridge sha256 osError fail dataset.working dataset.tablePaths = .ok artifacts) :
    Staged dataset sha256 fail artifacts := by
  have hpayload := copiedPayload_of_stageArtifacts h
  constructor
  case publishable =>
    intro a ha
    obtain ⟨item, hexpected, hallowed, hcopy⟩ := hpayload.origin a ha
    have hpath : a.path = item.1 := hcopy.path_eq
    have htype : a.artifactType = item.2 := hcopy.type_eq
    constructor
    case normalized => exact hpath ▸ hallowed.normalized
    case permitted => exact hpath ▸ hallowed.permitted
    case typed =>
      rw [hpath, htype]
      exact hexpected.typed
    case facts => exact logicalFacts_copied hcopy
  case normal =>
    intro a ha
    obtain ⟨item, hexpected, -, hcopy⟩ := hpayload.origin a ha
    have hpath : a.path = item.1 := hcopy.path_eq
    exact hpath ▸ hexpected.normalPath
  case keys_nodup => exact hpayload.keys_nodup
  case length_le => exact hpayload.length_le
  case tables =>
    intro path hpath
    obtain ⟨a, ha, hcopy⟩ := hpayload.copied _ (.table hpath)
    exact ⟨a, ha, hcopy.path_eq⟩
  case own =>
    intro hown a ha
    obtain ⟨item, hexpected, -, hcopy⟩ := hpayload.origin a ha
    have hpath : a.path = item.1 := hcopy.path_eq
    rw [hpath]
    exact hexpected.own hown
  case table =>
    intro a ha hdbf
    obtain ⟨item, hexpected, -, hcopy⟩ := hpayload.origin a ha
    obtain ⟨schema, htable⟩ := hcopy.table hdbf
    refine ⟨schema, htable, ?_⟩
    intro hmemo
    have hpath : a.path = item.1 := hcopy.path_eq
    have htype : a.artifactType = item.2 := hcopy.type_eq
    obtain ⟨f, hf, hcontent⟩ := hcopy.content
    cases hexpected with
    | memo => cases hdbf.symm.trans htype
    | @table path hpathMem =>
      have hread : bridge.readSchema f.content = .ok schema := hcontent ▸ htable.read
      obtain ⟨fpt, hfpt, hfptCopy⟩ := hpayload.copied _ (.memo hpathMem hf hread hmemo)
      obtain ⟨g, hg, hgcontent⟩ := hfptCopy.content
      have hinline := dataset.memo_read path hpathMem f schema hf hread hmemo
      have hcompanion : dataset.working.opens (withSuffix path fptSuffix) = some g := hg
      rw [hcompanion, Option.map_some, hcontent, hgcontent] at hinline
      refine ⟨fpt, hfpt, ?_, hinline⟩
      rw [hpath]
      exact hfptCopy.path_eq
  case memo =>
    intro a ha hfpt
    obtain ⟨item, hexpected, -, hcopy⟩ := hpayload.origin a ha
    have hpath : a.path = item.1 := hcopy.path_eq
    have htype : a.artifactType = item.2 := hcopy.type_eq
    cases hexpected with
    | table => cases hfpt.symm.trans htype
    | @memo path f schema hpathMem hf hschema hmemo =>
      obtain ⟨table, htable, htableCopy⟩ := hpayload.copied _ (.table hpathMem)
      have htablePath : table.path = path := htableCopy.path_eq
      have htableType : table.artifactType = .dbf := htableCopy.type_eq
      obtain ⟨schema', hstaged⟩ := htableCopy.table htableType
      obtain ⟨g, hg, hgcontent⟩ := htableCopy.content
      have hsame : f = g := Option.some.inj (hf.symm.trans hg)
      have hread := hstaged.read
      rw [← hgcontent, ← hsame, hschema] at hread
      refine ⟨table, htable, htableType, ?_, schema', hstaged, ?_⟩
      · rw [hpath, htablePath]
      · rw [← Except.ok.inj hread]
        exact hmemo

end DbfAnonymizer.Transfer
