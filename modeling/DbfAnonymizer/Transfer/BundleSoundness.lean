import DbfAnonymizer.Transfer.Creation

/-! What an accepted bundle is: its tree, its manifest and its paths agree, as far as every directory is listed. -/
namespace DbfAnonymizer.Transfer
open Lib Relationships Engine Verification

section Inventory
variable {rt : PythonRuntime} {fail : String → Raised}

theorem iterBundleInventory_eq_ok {tree : BundleTree rt} {inventory : List Text}
    (h : iterBundleInventory rt fail tree = .ok inventory) :
    inventory = (tree.files.filter tree.visible).map TreeFile.path ∧
      ∀ f ∈ tree.files.filter tree.visible, f.regular = true := by
  unfold iterBundleInventory at h
  split at h
  · next entries hwalk =>
    have hinventory := Except.ok.inj h
    rw [BundleTree.walk, mapM_eq_ok_iff, List.forall₂_map_left_iff] at hwalk
    generalize tree.files.filter tree.visible = listed at hwalk ⊢
    have hregular : ∀ f ∈ listed, f.regular = true := by
      intro f hf
      obtain ⟨entry, -, hentry⟩ := exists_of_forall₂_left hwalk hf
      by_contra hirregular
      rw [if_neg hirregular] at hentry
      cases hentry
    have hentries : entries = listed.map fun f => (f.path, f.content) := by
      clear hinventory h
      induction hwalk with
      | nil => rfl
      | @cons f entry files entries hhead _ ih =>
        rw [if_pos (hregular f (List.mem_cons_self ..))] at hhead
        rw [List.map_cons, ih fun g hg => hregular g (List.mem_cons_of_mem f hg), ← Except.ok.inj hhead]
    refine ⟨?_, hregular⟩
    rw [← hinventory, hentries, List.map_map]
    rfl
  · cases h

theorem casefoldInventory_eq_ok {paths : List Text} {actual : List (Text × Text)}
    (h : casefoldInventory rt fail paths = .ok actual) :
    actual = paths.map (fun p => (rt.casefold p, p)) ∧ (paths.map rt.casefold).Nodup := by
  unfold casefoldInventory at h
  have hrun := foldlM_induction [] (fun done actual =>
    actual = done.map (fun p => (rt.casefold p, p)) ∧ (done.map rt.casefold).Nodup) ?_ ⟨rfl, List.nodup_nil⟩ h
  · simpa using hrun
  · intro done path inventory inventory' hdone hstep
    obtain ⟨_, hfresh, hnext⟩ := bind_eq_ok.mp hstep
    rw [refuseIf_eq_ok, hdone.1, List.map_map] at hfresh
    have hnext := Except.ok.inj hnext
    refine ⟨?_, ?_⟩
    · rw [← hnext, hdone.1, List.map_append]
      rfl
    · rw [List.map_append, List.nodup_append]
      refine ⟨hdone.2, by simp, ?_⟩
      intro key hkey other hother heq
      rw [List.map_singleton, List.mem_singleton] at hother
      exact hfresh (hother ▸ heq ▸ hkey)

end Inventory

section Contract
variable {rt : PythonRuntime} {fail : String → Raised}

def entryPath (entry : Json) : Option Text :=
  match entry with
  | .obj pairs => (valueAt pairs "path").bind jsonText?
  | _ => none

def manifestPaths (manifest : List (Text × Json)) : List Text :=
  match valueAt manifest "artifacts" with
  | some (.arr entries) => entries.filterMap entryPath
  | _ => []

/-- What the contract establishes of one declared artifact and its spelling. -/
structure Declares (rt : PythonRuntime) (fail : String → Raised) (rawPath : Text) (item : Text × DeclaredArtifact) :
    Prop where
  normalized : normalizedArtifactPath rt fail rawPath = .ok item.2.path
  key_eq : item.1 = rt.casefold item.2.path
  permitted : isForbiddenArtifact rt item.2.path = false
  /-- The type and the extension bind each other. -/
  typed : ∀ artifactType : ArtifactType, artifactType.extension <:+ item.1 ↔ item.2.artifactType = artifactType

theorem extension_unique {artifactType other : ArtifactType} {path : Text} (h : artifactType.extension <:+ path)
    (h' : other.extension <:+ path) : artifactType = other := by
  have hlength : artifactType.extension.length = other.extension.length := by
    cases artifactType <;> cases other <;> rfl
  have hextension : artifactType.extension = other.extension :=
    (List.suffix_of_suffix_length_le h h' hlength.le).eq_of_length hlength
  cases artifactType <;> cases other <;> first | rfl | exact absurd hextension (by decide)

theorem declareArtifact_eq_ok {declared declared' : List (Text × DeclaredArtifact)} {entry : Json}
    (h : declareArtifact rt fail declared entry = .ok declared') :
    ∃ rawPath item, entryPath entry = some rawPath ∧ Declares rt fail rawPath item ∧
      declared' = declared ++ [item] ∧ item.1 ∉ declared.map (·.1) := by
  unfold declareArtifact at h
  split at h
  · next pairs =>
    split at h
    · cases h
    · next artifactType htype =>
      obtain ⟨_, _, h⟩ := bind_eq_ok.mp h
      split at h
      · next rawPath hraw =>
        obtain ⟨artifactPath, hnormalized, h⟩ := bind_eq_ok.mp h
        obtain ⟨_, _, h⟩ := bind_eq_ok.mp h
        obtain ⟨_, hpermitted, h⟩ := bind_eq_ok.mp h
        obtain ⟨_, htyped, h⟩ := bind_eq_ok.mp h
        obtain ⟨_, _, h⟩ := bind_eq_ok.mp h
        obtain ⟨_, hfresh, h⟩ := bind_eq_ok.mp h
        rw [refuseIf_eq_ok] at hpermitted htyped hfresh
        split at h
        · next size digest recordCount schemaFingerprint _ _ _ =>
          obtain ⟨_, _, h⟩ := bind_eq_ok.mp h
          refine ⟨rawPath, _, ?_, ?_, (Except.ok.inj h).symm, hfresh⟩
          · simp [entryPath, hraw, jsonText?]
          · refine ⟨hnormalized, rfl, by simpa using hpermitted, ?_⟩
            intro other
            constructor
            · exact fun hother => extension_unique (not_not.mp htyped) hother
            · intro heq
              exact heq ▸ not_not.mp htyped
        · cases h
      · cases h
  · cases h

theorem validateManifestContract_eq_ok {manifest : List (Text × Json)} {declared : List (Text × DeclaredArtifact)}
    (h : validateManifestContract rt fail manifest = .ok declared) :
    List.Forall₂ (Declares rt fail) (manifestPaths manifest) declared ∧ (declared.map (·.1)).Nodup := by
  unfold validateManifestContract at h
  obtain ⟨_, _, h⟩ := bind_eq_ok.mp h
  obtain ⟨_, _, h⟩ := bind_eq_ok.mp h
  obtain ⟨_, _, h⟩ := bind_eq_ok.mp h
  obtain ⟨_, _, h⟩ := bind_eq_ok.mp h
  obtain ⟨_, _, h⟩ := bind_eq_ok.mp h
  obtain ⟨_, _, h⟩ := bind_eq_ok.mp h
  obtain ⟨_, _, h⟩ := bind_eq_ok.mp h
  obtain ⟨_, _, h⟩ := bind_eq_ok.mp h
  obtain ⟨_, _, h⟩ := bind_eq_ok.mp h
  split at h
  · next entries hartifacts =>
    obtain ⟨_, _, h⟩ := bind_eq_ok.mp h
    obtain ⟨_, _, h⟩ := bind_eq_ok.mp h
    have hpaths : manifestPaths manifest = entries.filterMap entryPath := by
      rw [manifestPaths, hartifacts]
    have hrun := foldlM_induction [] (fun done declared =>
      List.Forall₂ (Declares rt fail) (done.filterMap entryPath) declared ∧ (declared.map (·.1)).Nodup) ?_
      ⟨List.Forall₂.nil, List.nodup_nil⟩ h
    · rw [hpaths]
      simpa using hrun
    · intro done entry declared declared' hdone hstep
      obtain ⟨rawPath, item, hentry, hdeclares, hnext, hfresh⟩ := declareArtifact_eq_ok hstep
      rw [hnext, List.filterMap_append, List.map_append]
      constructor
      · apply List.rel_append hdone.1
        simp [hentry, hdeclares]
      · rw [List.nodup_append]
        refine ⟨hdone.2, by simp, ?_⟩
        intro key hkey other hother heq
        rw [List.map_singleton, List.mem_singleton] at hother
        exact hfresh (hother ▸ heq ▸ hkey)
  · cases h

end Contract

theorem casefold_transferManifestFilename (rt : PythonRuntime) :
    rt.casefold transferManifestFilename = transferManifestFilename := by
  rw [rt.casefold_ascii rfl]
  rfl

theorem transferManifestFilename_notMem {rt : PythonRuntime} {fail : String → Raised} {rawPaths : List Text}
    {declared : List (Text × DeclaredArtifact)} (h : List.Forall₂ (Declares rt fail) rawPaths declared) :
    transferManifestFilename ∉ declared.map (·.1) := by
  intro hmem
  obtain ⟨item, hitem, hkey⟩ := List.mem_map.mp hmem
  obtain ⟨rawPath, -, hdeclares⟩ := exists_of_forall₂_right h hitem
  have htyped := (hdeclares.typed item.2.artifactType).mpr rfl
  rw [hkey] at htyped
  cases hartifact : item.2.artifactType with
  | dbf =>
    rw [hartifact] at htyped
    exact absurd htyped (by decide)
  | fpt =>
    rw [hartifact] at htyped
    exact absurd htyped (by decide)

theorem isSuffix_casefold_withSuffix (rt : PythonRuntime) (path : Text) :
    ArtifactType.fpt.extension <:+ rt.casefold (withSuffix path fptSuffix) := by
  have hsuffix : rt.casefold fptSuffix = ArtifactType.fpt.extension := by
    rw [rt.casefold_ascii rfl]
    rfl
  unfold withSuffix PythonRuntime.casefold
  rw [List.flatMap_append]
  exact ⟨_, congrArg _ hsuffix.symm⟩

section Soundness
variable {rt : PythonRuntime} {bridge : DbfBridge} {sha256 : List UInt8 → Text} {osError : Raised}
  {fail : String → Raised} {tree : BundleTree rt}

theorem openContent_eq_ok {path : Text} {content : List UInt8} (h : openContent osError tree path = .ok content) :
    ∃ f, tree.opens path = some f ∧ f.content = content := by
  unfold openContent at h
  split at h
  · next f hf => exact ⟨f, hf, Except.ok.inj h⟩
  · cases h

/-- The table under a path has a schema with memo fields. -/
def HasMemo (bridge : DbfBridge) (osError : Raised) (tree : BundleTree rt) (path : Text) : Prop :=
  ∃ schema, readSourceTable bridge osError tree path = .ok schema ∧ schema.hasMemoFields = true

structure Verified (bridge : DbfBridge) (sha256 : List UInt8 → Text) (osError : Raised) (tree : BundleTree rt)
    (declared : List (Text × DeclaredArtifact)) (item : Text × DeclaredArtifact) : Prop where
  content : ∃ f, tree.opens item.1 = some f ∧ f.content.length = item.2.sizeBytes ∧ sha256 f.content = item.2.sha256
  companion : item.2.artifactType = .dbf → HasMemo bridge osError tree item.1 →
    rt.casefold (withSuffix item.1 fptSuffix) ∈ declared.map (·.1)

theorem verifyArtifact_eq_ok {declared : List (Text × DeclaredArtifact)} {item : Text × DeclaredArtifact}
    (h : verifyArtifact rt bridge sha256 osError fail tree declared item = .ok ()) :
    Verified bridge sha256 osError tree declared item := by
  unfold verifyArtifact at h
  obtain ⟨content, hopen, h⟩ := bind_eq_ok.mp h
  obtain ⟨_, hhash, h⟩ := bind_eq_ok.mp h
  obtain ⟨f, hf, hcontent⟩ := openContent_eq_ok hopen
  rw [refuseIf_eq_ok, not_or, not_not, not_not] at hhash
  constructor
  · exact ⟨f, hf, hcontent ▸ hhash.1, hcontent ▸ hhash.2⟩
  · intro hdbf hmemo
    obtain ⟨schema, hread, hfields⟩ := hmemo
    rw [hdbf] at h
    obtain ⟨schema', hread', h⟩ := bind_eq_ok.mp h
    obtain ⟨_, _, h⟩ := bind_eq_ok.mp h
    obtain ⟨_, _, h⟩ := bind_eq_ok.mp h
    obtain ⟨streamed, _, h⟩ := bind_eq_ok.mp h
    obtain ⟨_, _, h⟩ := bind_eq_ok.mp h
    rw [refuseIf_eq_ok, not_and, not_not] at h
    rw [hread] at hread'
    rw [← Except.ok.inj hread'] at h
    exact h hfields

theorem companionExpectation_eq_ok {item : Text × DeclaredArtifact} {key : Text}
    (h : companionExpectation rt bridge osError tree item = .ok (some key)) :
    item.2.artifactType = .dbf ∧ HasMemo bridge osError tree item.1 ∧
      key = rt.casefold (withSuffix item.1 fptSuffix) := by
  unfold companionExpectation at h
  cases hartifact : item.2.artifactType with
  | fpt =>
    rw [hartifact] at h
    cases h
  | dbf =>
    rw [hartifact] at h
    obtain ⟨schema, hread, h⟩ := bind_eq_ok.mp h
    have hkey := Except.ok.inj h
    split_ifs at hkey with hfields
    exact ⟨rfl, ⟨schema, hread, hfields⟩, (Option.some.inj hkey).symm⟩

/-- A bundle whose tree, manifest and tables agree. -/
structure SoundBundle (bridge : DbfBridge) (sha256 : List UInt8 → Text) (osError : Raised) (fail : String → Raised)
    (tree : BundleTree rt) (manifest : List (Text × Json)) (declared : List (Text × DeclaredArtifact)) : Prop where
  manifest_read : ∃ f ∈ tree.files, tree.opens transferManifestFilename = some f ∧
    strictJsonLoads fail f.content = .ok manifest
  declares : List.Forall₂ (Declares rt fail) (manifestPaths manifest) declared
  /-- The files are the manifest and the declared artifacts, one for one. -/
  exact : (tree.files.map fun f => rt.casefold f.path).Perm (transferManifestFilename :: declared.map (·.1))
  /-- No two files differ only in case. -/
  distinct : (tree.files.map fun f => rt.casefold f.path).Nodup
  regular : ∀ f ∈ tree.files, f.regular = true
  permitted : ∀ f ∈ tree.files, f.path ≠ transferManifestFilename → isForbiddenArtifact rt f.path = false
  content : ∀ item ∈ declared, ∃ f ∈ tree.files, rt.casefold f.path = item.1 ∧
    f.content.length = item.2.sizeBytes ∧ sha256 f.content = item.2.sha256
  memo_has_fpt : ∀ item ∈ declared, item.2.artifactType = .dbf → HasMemo bridge osError tree item.1 →
    ∃ fpt ∈ declared, fpt.2.artifactType = .fpt ∧ fpt.1 = rt.casefold (withSuffix item.1 fptSuffix)
  fpt_has_memo : ∀ fpt ∈ declared, fpt.2.artifactType = .fpt →
    ∃ item ∈ declared, item.2.artifactType = .dbf ∧ HasMemo bridge osError tree item.1 ∧
      fpt.1 = rt.casefold (withSuffix item.1 fptSuffix)
  portable_files : ∀ f ∈ tree.files, Portable rt f.path
  portable_declared : ∀ rawPath ∈ manifestPaths manifest, Portable rt rawPath

structure AcceptedBundle (bridge : DbfBridge) (sha256 : List UInt8 → Text) (osError : Raised) (fail : String → Raised)
    (tree : BundleTree rt) (manifest : List (Text × Json)) (declared : List (Text × DeclaredArtifact)) : Prop where
  listed_regular : ∀ f ∈ tree.files.filter tree.visible, f.regular = true
  listed_permitted : ∀ f ∈ tree.files.filter tree.visible, f.path ≠ transferManifestFilename →
    isForbiddenArtifact rt f.path = false
  manifest_bounded : ∃ f, tree.opens transferManifestFilename = some f ∧ f.content.length ≤ maxManifestBytes
  manifest_read : ∃ f ∈ tree.files, tree.opens transferManifestFilename = some f ∧
    strictJsonLoads fail f.content = .ok manifest
  declares : List.Forall₂ (Declares rt fail) (manifestPaths manifest) declared
  distinct_keys : (declared.map (·.1)).Nodup
  listed_distinct : ((tree.files.filter tree.visible).map fun f => rt.casefold f.path).Nodup
  listed_portable : ∀ f ∈ tree.files.filter tree.visible, Portable rt f.path
  listed_iff : ∀ key, key ∈ (tree.files.filter tree.visible).map (fun f => rt.casefold f.path) ↔
    key ∈ transferManifestFilename :: declared.map (·.1)
  verified : ∀ item ∈ declared, Verified bridge sha256 osError tree declared item
  owned : ∀ fpt ∈ declared, fpt.2.artifactType = .fpt →
    ∃ item ∈ declared, item.2.artifactType = .dbf ∧ HasMemo bridge osError tree item.1 ∧
      fpt.1 = rt.casefold (withSuffix item.1 fptSuffix)

theorem verifyBundleCore_eq_ok {result : Text × RelationalAssurance × ℕ}
    (h : verifyBundleCore rt bridge sha256 osError fail tree = .ok result) :
    ∃ manifest declared, validateManifestContract rt fail manifest = .ok declared ∧
      AcceptedBundle bridge sha256 osError fail tree manifest declared := by
  unfold verifyBundleCore at h
  obtain ⟨inventory, hinventory, h⟩ := bind_eq_ok.mp h
  obtain ⟨_, _, h⟩ := bind_eq_ok.mp h
  obtain ⟨_, hpermitted, h⟩ := bind_eq_ok.mp h
  obtain ⟨manifestBytes, hbytes, h⟩ := bind_eq_ok.mp h
  obtain ⟨_, hbounded, h⟩ := bind_eq_ok.mp h
  obtain ⟨manifest, hmanifest, h⟩ := bind_eq_ok.mp h
  obtain ⟨declared, hdeclared, h⟩ := bind_eq_ok.mp h
  obtain ⟨actual, hactual, h⟩ := bind_eq_ok.mp h
  obtain ⟨_, hportable, h⟩ := bind_eq_ok.mp h
  obtain ⟨_, hexact, h⟩ := bind_eq_ok.mp h
  obtain ⟨_, hverified, h⟩ := bind_eq_ok.mp h
  obtain ⟨companions, hcompanions, h⟩ := bind_eq_ok.mp h
  obtain ⟨_, howned, h⟩ := bind_eq_ok.mp h
  obtain ⟨hlisted, hregular⟩ := iterBundleInventory_eq_ok hinventory
  obtain ⟨hkeys, hdistinct⟩ := casefoldInventory_eq_ok hactual
  obtain ⟨hdeclares, hnodup⟩ := validateManifestContract_eq_ok hdeclared
  obtain ⟨f, hopens, hcontent⟩ := openContent_eq_ok hbytes
  rw [forM_eq_ok_iff] at hpermitted hportable hverified
  rw [refuseIf_eq_ok, not_or] at hexact
  rw [refuseIf_eq_ok] at howned
  rw [refuseIf_eq_ok, not_lt] at hbounded
  refine ⟨manifest, declared, hdeclared, ?_⟩
  constructor
  case listed_regular => exact hregular
  case listed_permitted =>
    intro f hf hpath
    have hchecked := hpermitted f.path (hlisted ▸ List.mem_map_of_mem hf)
    rw [refuseIf_eq_ok, not_and] at hchecked
    simpa using hchecked hpath
  case manifest_bounded => exact ⟨f, hopens, hcontent ▸ hbounded⟩
  case manifest_read => exact ⟨f, (tree.opens_mem _ f hopens).1, hopens, hcontent ▸ hmanifest⟩
  case declares => exact hdeclares
  case distinct_keys => exact hnodup
  case listed_distinct =>
    rw [hlisted, List.map_map] at hdistinct
    exact hdistinct
  case listed_portable =>
    intro f hf
    have hmem : (rt.casefold f.path, f.path) ∈ actual := by
      rw [hkeys, hlisted, List.map_map]
      exact List.mem_map_of_mem hf
    obtain ⟨normalized, hnormalized, -⟩ := bind_eq_ok.mp (hportable _ hmem)
    exact (normalizedArtifactPath_eq_ok hnormalized).1
  case listed_iff =>
    have hactualKeys : actual.map (·.1) = (tree.files.filter tree.visible).map fun f => rt.casefold f.path := by
      rw [hkeys, hlisted, List.map_map, List.map_map]
      rfl
    intro key
    rw [← hactualKeys]
    constructor
    · intro hkey
      obtain ⟨item, hitem, heq⟩ := List.mem_map.mp hkey
      have hexpected := not_not.mp fun hnot => hexact.1 ⟨item, hitem, hnot⟩
      rw [heq, casefold_transferManifestFilename, List.mem_append, List.mem_singleton] at hexpected
      exact List.mem_cons.mpr hexpected.symm
    · intro hkey
      refine not_not.mp fun hnot => hexact.2 ⟨key, ?_, hnot⟩
      rw [casefold_transferManifestFilename, List.mem_append, List.mem_singleton]
      exact (List.mem_cons.mp hkey).symm
  case verified =>
    intro item hitem
    exact verifyArtifact_eq_ok (hverified item ((List.mem_insertionSort _).mpr hitem))
  case owned =>
    intro fpt hfpt hartifact
    have hmem := not_not.mp fun hnot => howned ⟨fpt, hfpt, hartifact, hnot⟩
    obtain ⟨item, hitem, hexpectation⟩ := exists_of_mem_mapM_ok hcompanions hmem
    exact ⟨item, hitem, companionExpectation_eq_ok hexpectation⟩

theorem AcceptedBundle.sound {manifest : List (Text × Json)} {declared : List (Text × DeclaredArtifact)}
    (h : AcceptedBundle bridge sha256 osError fail tree manifest declared)
    (hvisible : ∀ f ∈ tree.files, tree.visible f = true) :
    SoundBundle bridge sha256 osError fail tree manifest declared := by
  have hlisted : tree.files.filter tree.visible = tree.files := List.filter_eq_self.mpr hvisible
  obtain ⟨hregular, hpermitted, _, hmanifest, hdeclares, hkeys, hdistinct, hportable, hiff, hverified, howned⟩ := h
  rw [hlisted] at hregular hpermitted hdistinct hportable hiff
  constructor
  case manifest_read => exact hmanifest
  case declares => exact hdeclares
  case exact =>
    have hexpected : (transferManifestFilename :: declared.map (·.1)).Nodup :=
      List.nodup_cons.mpr ⟨transferManifestFilename_notMem hdeclares, hkeys⟩
    exact (List.perm_ext_iff_of_nodup hdistinct hexpected).mpr hiff
  case distinct => exact hdistinct
  case regular => exact hregular
  case permitted => exact hpermitted
  case content =>
    intro item hitem
    obtain ⟨f, hopens, hsize, hdigest⟩ := (hverified item hitem).content
    obtain ⟨rawPath, -, hitemDeclares⟩ := exists_of_forall₂_right hdeclares hitem
    have hfile := tree.opens_mem item.1 f hopens
    refine ⟨f, hfile.1, ?_, hsize, hdigest⟩
    rw [hfile.2, hitemDeclares.key_eq, rt.casefold_casefold]
  case memo_has_fpt =>
    intro item hitem hdbf hmemo
    have hcompanion := (hverified item hitem).companion hdbf hmemo
    obtain ⟨fpt, hfpt, hkey⟩ := List.mem_map.mp hcompanion
    obtain ⟨rawPath, -, hfptDeclares⟩ := exists_of_forall₂_right hdeclares hfpt
    have htyped := (hfptDeclares.typed .fpt).mp (hkey ▸ isSuffix_casefold_withSuffix rt item.1)
    exact ⟨fpt, hfpt, htyped, hkey⟩
  case fpt_has_memo => exact howned
  case portable_files => exact hportable
  case portable_declared =>
    intro rawPath hraw
    obtain ⟨item, -, hitemDeclares⟩ := exists_of_forall₂_left hdeclares hraw
    exact (normalizedArtifactPath_eq_ok hitemDeclares.normalized).1

theorem AcceptedBundle.visible {manifest : List (Text × Json)} {declared : List (Text × DeclaredArtifact)}
    (h : AcceptedBundle bridge sha256 osError fail tree manifest declared)
    (hsound : SoundBundle bridge sha256 osError fail tree manifest declared) {f : TreeFile} (hf : f ∈ tree.files) :
    tree.visible f = true := by
  have hkey : rt.casefold f.path ∈ transferManifestFilename :: declared.map (·.1) :=
    hsound.exact.mem_iff.mp (List.mem_map_of_mem (f := fun f => rt.casefold f.path) hf)
  obtain ⟨g, hg, hsame⟩ := List.mem_map.mp ((h.listed_iff _).mpr hkey)
  have hlisted := List.mem_filter.mp hg
  have heq : g = f := List.inj_on_of_nodup_map hsound.distinct hlisted.1 hf hsame
  exact heq ▸ hlisted.2

/-- An accepted bundle is sound exactly when no file lies below a directory that cannot be listed. -/
theorem verifyBundleCore_sound {result : Text × RelationalAssurance × ℕ}
    (h : verifyBundleCore rt bridge sha256 osError fail tree = .ok result) :
    ∃ manifest declared, validateManifestContract rt fail manifest = .ok declared ∧
      (SoundBundle bridge sha256 osError fail tree manifest declared ↔
        ∀ f ∈ tree.files, tree.visible f = true) := by
  obtain ⟨manifest, declared, hdeclared, haccepted⟩ := verifyBundleCore_eq_ok h
  refine ⟨manifest, declared, hdeclared, ?_⟩
  constructor
  · exact fun hsound f hf => haccepted.visible hsound hf
  · exact haccepted.sound

end Soundness

def codesFiles : List TreeFile :=
  (codesDataset "codes.dbf".toList "codes.dbf".toList codesPath_normalized codesPath_suffix).stagedFiles codesSha256
    releaseVersions
    [⟨"codes.dbf".toList, .dbf, codesTable, some 1, some (schemaDigest codesSha256 codesSchema)⟩]

def codesBundle : BundleTree asciiRuntime := .exact asciiRuntime codesFiles (by decide +kernel)

def standaloneFailure (detailCode : String) : Raised := .typed .transferFailed "verify_transfer_bundle" detailCode

/-- The bundle above is accepted, and sound. -/
theorem codesBundle_sound :
    ∃ manifest declared, validateManifestContract asciiRuntime standaloneFailure manifest = .ok declared ∧
      SoundBundle codesBridge codesSha256 schemaUnreadable standaloneFailure codesBundle manifest declared := by
  have haccepted : verifyBundleCore asciiRuntime codesBridge codesSha256 schemaUnreadable standaloneFailure codesBundle =
      .ok ("bundle-7da7c19876c76d7aa16a6bfa4893710886dd22b7c8c3cc8f0575438ad957edb8".toList, noRelations.assurance, 1) := by
    decide +kernel
  obtain ⟨manifest, declared, hdeclared, hsound⟩ := verifyBundleCore_sound haccepted
  exact ⟨manifest, declared, hdeclared, hsound.mpr (by decide +kernel)⟩

def concealedBundle : BundleTree asciiRuntime where
  files := codesFiles ++ [⟨["private".toList, "dictionary.sqlite".toList], true, []⟩]
  listable directory := directory ≠ ["private".toList]
  opens := codesBundle.opens
  paths_nodup := by decide +kernel
  opens_mem p f h := by
    have hopened := codesBundle.opens_mem p f h
    exact ⟨List.mem_append_left _ hopened.1, hopened.2⟩

/-- A forbidden file below a directory that cannot be listed stays unseen. -/
theorem concealedBundle_accepted :
    verifyBundleCore asciiRuntime codesBridge codesSha256 schemaUnreadable standaloneFailure concealedBundle =
      .ok ("bundle-7da7c19876c76d7aa16a6bfa4893710886dd22b7c8c3cc8f0575438ad957edb8".toList, noRelations.assurance, 1) ∧
    ∀ manifest declared,
      ¬ SoundBundle codesBridge codesSha256 schemaUnreadable standaloneFailure concealedBundle manifest declared := by
  constructor
  · decide +kernel
  · intro manifest declared hsound
    have hvault : (⟨["private".toList, "dictionary.sqlite".toList], true, []⟩ : TreeFile) ∈ concealedBundle.files :=
      List.mem_append_right _ (List.mem_singleton_self _)
    have hpermitted := hsound.permitted _ hvault (by decide)
    exact absurd hpermitted (by decide +kernel)

end DbfAnonymizer.Transfer
