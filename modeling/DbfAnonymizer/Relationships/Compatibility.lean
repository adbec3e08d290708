import DbfAnonymizer.Relationships.Models
import DbfAnonymizer.Transforms.Text

/-! Compatibility of a whole relationship document, and what an accepted one promises. -/
namespace DbfAnonymizer.Relationships
open Transforms Lib

/-- The digests of the package: the relationship fingerprint and the numeric domain identity. -/
structure Hashing where
  relationshipFingerprint : RelationshipDocument → Text
  numericKeyDomainId : Text → Text → Text

/-- No two relations of the document share a numeric domain identity. -/
def Hashing.CollisionFree (hashing : Hashing) (d : RelationshipDocument) : Prop :=
  ∀ g ∈ d.groups, ∀ g' ∈ d.groups,
    hashing.numericKeyDomainId (hashing.relationshipFingerprint d) g.relationId =
      hashing.numericKeyDomainId (hashing.relationshipFingerprint d) g'.relationId →
    g.relationId = g'.relationId

def incompatible (detailCode : String) : Raised := .typed .policyInvalid "preflight" detailCode

def validateRelationGroupCompatibility (codecs : Codecs) (group : RelationGroup) : Except Raised Unit := do
  refuseIf (group.comparison ≠ .exactValue) (incompatible "RELATIONSHIP_COMPARISON_INCOMPATIBLE")
  refuseIf (1 < (group.members.map RelationMember.nullable).dedup.length)
    (incompatible "RELATIONSHIP_NULL_POLICY_INCONSISTENT")
  let textMembers := group.members.filter (!·.isNumericMember)
  let encodings := (textMembers.map RelationMember.encoding).dedup.insertionSort (· ≤ ·)
  refuseIf (textMembers ≠ [] ∧ candidateAlphabet codecs encodings = [])
    (incompatible "RELATIONSHIP_ENCODING_INCOMPATIBLE")
  refuseIf (group.numericStrategy = .reversibleBijective ∧ ¬ group.members.any RelationMember.isNumericMember)
    (incompatible "RELATIONSHIP_NUMERIC_STRATEGY_MEMBER_REQUIRED")

def resolvedNumericDomain (hashing : Hashing) (document : RelationshipDocument) (group : RelationGroup) :
    Except Raised Text :=
  if group.numericStrategy ≠ .reversibleBijective then
    .error (incompatible "RELATIONSHIP_NUMERIC_STRATEGY_IDENTITY_HAS_NO_DOMAIN")
  else if ¬ group.members.any RelationMember.isNumericMember then
    .error (incompatible "RELATIONSHIP_NUMERIC_STRATEGY_MEMBER_REQUIRED")
  else if group ∉ document.groups then .error (incompatible "RELATIONSHIP_GROUP_NOT_IN_DOCUMENT")
  else .ok (hashing.numericKeyDomainId (hashing.relationshipFingerprint document) group.relationId)

/-- The tables of the first scan: the first member of each column, and the columns by strategy. -/
structure OverlapScan where
  seen : List RelationMember
  numericIdentity : List (Text × Text)
  numericReversible : List (Text × Text)

def sameMetadata (a b : RelationMember) : Prop :=
  a.dbfType = b.dbfType ∧ a.byteWidth = b.byteWidth ∧ a.encoding = b.encoding ∧ a.nullable = b.nullable

instance (a b : RelationMember) : Decidable (sameMetadata a b) := by
  unfold sameMetadata
  infer_instance

/-- Files a member's column under its group's strategy. -/
def OverlapScan.file (scan : OverlapScan) (strategy : NumericStrategy) (member : RelationMember) : OverlapScan :=
  if member.isNumericMember then
    match strategy with
    | .reversibleBijective => { scan with numericReversible := scan.numericReversible ++ [member.column] }
    | .identity => { scan with numericIdentity := scan.numericIdentity ++ [member.column] }
  else scan

@[simp] theorem OverlapScan.file_seen (scan : OverlapScan) (strategy : NumericStrategy)
    (member : RelationMember) : (scan.file strategy member).seen = scan.seen := by
  unfold OverlapScan.file
  split_ifs
  · cases strategy <;> rfl
  · rfl

/-- Records one member's column, unless an earlier member declares it differently. -/
def scanMember (strategy : NumericStrategy) (scan : OverlapScan) (member : RelationMember) :
    Except Raised OverlapScan :=
  match scan.seen.find? (·.column = member.column) with
  | some previous =>
    if sameMetadata previous member then .ok (scan.file strategy member)
    else .error (incompatible "RELATIONSHIP_DOMAIN_CONFLICT")
  | none => .ok ({ scan with seen := scan.seen ++ [member] }.file strategy member)

def scanGroup (codecs : Codecs) (scan : OverlapScan) (group : RelationGroup) : Except Raised OverlapScan := do
  validateRelationGroupCompatibility codecs group
  group.members.foldlM (scanMember group.numericStrategy) scan

/-- The tables of the second scan: the domain of each reversible column, and the conflicts. -/
structure DomainScan where
  domains : List ((Text × Text) × Text)
  conflicts : List (Text × Text)

def scanDomain (hashing : Hashing) (document : RelationshipDocument) (group : RelationGroup)
    (scan : DomainScan) (member : RelationMember) : Except Raised DomainScan :=
  if !member.isNumericMember then .ok scan
  else do
    let domain ← resolvedNumericDomain hashing document group
    match scan.domains.find? (·.1 = member.column) with
    | none => return { scan with domains := scan.domains ++ [(member.column, domain)] }
    | some previous =>
      if previous.2 ≠ domain then return { scan with conflicts := scan.conflicts ++ [member.column] }
      else return scan

def scanGroupDomains (hashing : Hashing) (document : RelationshipDocument) (scan : DomainScan)
    (group : RelationGroup) : Except Raised DomainScan :=
  if group.numericStrategy ≠ .reversibleBijective then .ok scan
  else group.members.foldlM (scanDomain hashing document group) scan

def validateDocumentCompatibility (codecs : Codecs) (hashing : Hashing) (document : RelationshipDocument) :
    Except Raised Unit := do
  let scan ← document.groups.foldlM (scanGroup codecs) ⟨[], [], []⟩
  refuseIf (scan.numericReversible.any (· ∈ scan.numericIdentity) = true)
    (incompatible "RELATIONSHIP_NUMERIC_DOMAIN_CONFLICT")
  let domainScan ← document.groups.foldlM (scanGroupDomains hashing document) ⟨[], []⟩
  refuseIf (domainScan.conflicts ≠ []) (incompatible "RELATIONSHIP_NUMERIC_DOMAIN_CONFLICT")

section Overlap

/-- The first scan keeps one member per column, and every scanned member agrees with it. -/
structure OverlapInvariant (scanned : List RelationMember) (scan : OverlapScan) : Prop where
  columns_nodup : (scan.seen.map RelationMember.column).Nodup
  agrees : ∀ m ∈ scanned, ∃ first ∈ scan.seen, first.column = m.column ∧ sameMetadata first m

theorem scanMember_preserves {strategy : NumericStrategy} {scanned : List RelationMember}
    {scan scan' : OverlapScan} {m : RelationMember} (hi : OverlapInvariant scanned scan)
    (h : scanMember strategy scan m = .ok scan') : OverlapInvariant (scanned ++ [m]) scan' := by
  unfold scanMember at h
  cases hfind : scan.seen.find? (·.column = m.column) with
  | some first =>
    simp only [hfind] at h
    split_ifs at h with hsame
    have hmem := List.mem_of_find?_eq_some hfind
    have hcol : first.column = m.column := by simpa using List.find?_some hfind
    have heq : scan'.seen = scan.seen := by
      rw [← Except.ok.inj h, OverlapScan.file_seen]
    refine ⟨by rw [heq]; exact hi.columns_nodup, ?_⟩
    intro x hx
    rw [heq]
    rcases List.mem_append.mp hx with hx | hx
    · exact hi.agrees x hx
    · rw [List.mem_singleton.mp hx]
      exact ⟨first, hmem, hcol, hsame⟩
  | none =>
    simp only [hfind] at h
    have hnew : ∀ first ∈ scan.seen, first.column ≠ m.column := by simpa using List.find?_eq_none.mp hfind
    have heq : scan'.seen = scan.seen ++ [m] := by
      rw [← Except.ok.inj h, OverlapScan.file_seen]
    constructor
    · rw [heq, List.map_append, List.nodup_append]
      refine ⟨hi.columns_nodup, by simp, ?_⟩
      intro c hc c' hc' hcc
      obtain ⟨first, hfirst, rfl⟩ := List.mem_map.mp hc
      simp only [List.map_cons, List.map_nil, List.mem_singleton] at hc'
      exact hnew first hfirst (hcc.trans hc')
    · intro x hx
      rw [heq]
      rcases List.mem_append.mp hx with hx | hx
      · obtain ⟨first, hfirst, hrest⟩ := hi.agrees x hx
        exact ⟨first, List.mem_append_left _ hfirst, hrest⟩
      · rw [List.mem_singleton.mp hx]
        exact ⟨m, by simp, rfl, rfl, rfl, rfl, rfl⟩

theorem scanGroup_preserves {codecs : Codecs} {scanned : List RelationMember} {scan scan' : OverlapScan}
    {g : RelationGroup} (hi : OverlapInvariant scanned scan) (h : scanGroup codecs scan g = .ok scan') :
    OverlapInvariant (scanned ++ g.members) scan' := by
  unfold scanGroup at h
  obtain ⟨-, -, hfold⟩ := bind_eq_ok.mp h
  exact foldlM_induction _ OverlapInvariant (fun _ _ _ _ => scanMember_preserves) hi hfold

theorem sameMetadata_of_column_eq {codecs : Codecs} {hashing : Hashing} {d : RelationshipDocument}
    (h : validateDocumentCompatibility codecs hashing d = .ok ()) {g g' : RelationGroup}
    {m m' : RelationMember} (hg : g ∈ d.groups) (hm : m ∈ g.members) (hg' : g' ∈ d.groups)
    (hm' : m' ∈ g'.members) (hc : m.column = m'.column) : m.dbfType = m'.dbfType ∧ m.byteWidth = m'.byteWidth := by
  obtain ⟨scan, hscan, -⟩ := bind_eq_ok.mp h
  have hinv := foldlM_induction []
    (fun (done : List RelationGroup) scan => OverlapInvariant (done.flatMap RelationGroup.members) scan)
    (fun done g _ _ hi hstep => by
      rw [List.flatMap_append, List.flatMap_singleton]
      exact scanGroup_preserves hi hstep)
    (show OverlapInvariant (([] : List RelationGroup).flatMap RelationGroup.members) ⟨[], [], []⟩ from
      ⟨List.nodup_nil, by simp⟩) hscan
  obtain ⟨first, hf, hfc, hfm⟩ := hinv.agrees m (List.mem_flatMap.mpr ⟨g, by simpa using hg, hm⟩)
  obtain ⟨first', hf', hfc', hfm'⟩ := hinv.agrees m' (List.mem_flatMap.mpr ⟨g', by simpa using hg', hm'⟩)
  have hsame : first = first' :=
    List.inj_on_of_nodup_map hinv.columns_nodup hf hf' (hfc.trans (hc.trans hfc'.symm))
  subst hsame
  exact ⟨hfm.1.symm.trans hfm'.1, hfm.2.1.symm.trans hfm'.2.1⟩

end Overlap

section Domains

/-- While no conflict is recorded, every scanned column has exactly its group's domain. -/
structure DomainInvariant (scanned : List ((Text × Text) × Text)) (scan : DomainScan) : Prop where
  columns_nodup : (scan.domains.map Prod.fst).Nodup
  resolved : scan.conflicts = [] → ∀ entry ∈ scanned, entry ∈ scan.domains

def groupDomainEntries (hashing : Hashing) (document : RelationshipDocument) (g : RelationGroup) :
    List ((Text × Text) × Text) :=
  if g.numericStrategy = .reversibleBijective then
    (g.members.filter RelationMember.isNumericMember).map fun m =>
      (m.column, hashing.numericKeyDomainId (hashing.relationshipFingerprint document) g.relationId)
  else []

theorem resolvedNumericDomain_eq_ok {hashing : Hashing} {d : RelationshipDocument} {g : RelationGroup}
    {domain : Text} (h : resolvedNumericDomain hashing d g = .ok domain) :
    domain = hashing.numericKeyDomainId (hashing.relationshipFingerprint d) g.relationId := by
  unfold resolvedNumericDomain at h
  split_ifs at h
  exact (Except.ok.inj h).symm

theorem scanDomain_preserves {hashing : Hashing} {d : RelationshipDocument} {g : RelationGroup}
    {scanned : List ((Text × Text) × Text)} {scan scan' : DomainScan} {m : RelationMember}
    (hi : DomainInvariant scanned scan) (h : scanDomain hashing d g scan m = .ok scan') :
    DomainInvariant (scanned ++ ([m].filter RelationMember.isNumericMember).map fun m =>
      (m.column, hashing.numericKeyDomainId (hashing.relationshipFingerprint d) g.relationId)) scan' := by
  unfold scanDomain at h
  cases hnum : m.isNumericMember with
  | false =>
    simp only [hnum, Bool.not_false, if_true] at h
    cases h
    simpa [hnum] using hi
  | true =>
    simp only [hnum, Bool.not_true, Bool.false_eq_true, if_false] at h
    obtain ⟨domain, hdomain, h⟩ := bind_eq_ok.mp h
    rw [← resolvedNumericDomain_eq_ok hdomain]
    simp only [hnum, List.filter_cons_of_pos, List.filter_nil, List.map_cons, List.map_nil]
    cases hfind : scan.domains.find? (·.1 = m.column) with
    | none =>
      simp only [hfind, pure_eq_ok] at h
      cases h
      have hnew : ∀ e ∈ scan.domains, e.1 ≠ m.column := by simpa using List.find?_eq_none.mp hfind
      constructor
      · simp only [List.map_append, List.map_cons, List.map_nil, List.nodup_append]
        refine ⟨hi.columns_nodup, by simp, ?_⟩
        intro c hc c' hc' hcc
        obtain ⟨e, he, rfl⟩ := List.mem_map.mp hc
        exact hnew e he (hcc.trans (List.mem_singleton.mp hc'))
      · intro hconf entry hentry
        rcases List.mem_append.mp hentry with he | he
        · exact List.mem_append_left _ (hi.resolved hconf entry he)
        · exact List.mem_append_right _ he
    | some previous =>
      have hmem := List.mem_of_find?_eq_some hfind
      have hcol : previous.1 = m.column := by simpa using List.find?_some hfind
      simp only [hfind, pure_eq_ok] at h
      split_ifs at h with hne
      · cases h
        exact ⟨hi.columns_nodup, fun hconf => by simp at hconf⟩
      · cases h
        refine ⟨hi.columns_nodup, fun hconf entry hentry => ?_⟩
        rcases List.mem_append.mp hentry with he | he
        · exact hi.resolved hconf entry he
        · have heq : previous = (m.column, domain) := Prod.ext hcol (not_not.mp hne)
          rw [List.mem_singleton.mp he, ← heq]
          exact hmem

theorem scanGroupDomains_preserves {hashing : Hashing} {d : RelationshipDocument} {g : RelationGroup}
    {scanned : List ((Text × Text) × Text)} {scan scan' : DomainScan} (hi : DomainInvariant scanned scan)
    (h : scanGroupDomains hashing d scan g = .ok scan') :
    DomainInvariant (scanned ++ groupDomainEntries hashing d g) scan' := by
  unfold scanGroupDomains at h
  unfold groupDomainEntries
  split_ifs at h with hs
  · cases h
    rw [if_neg hs, List.append_nil]
    exact hi
  · rw [if_pos (not_not.mp hs)]
    have := foldlM_induction []
      (fun (done : List RelationMember) scan => DomainInvariant
        (scanned ++ (done.filter RelationMember.isNumericMember).map fun m =>
          (m.column, hashing.numericKeyDomainId (hashing.relationshipFingerprint d) g.relationId)) scan)
      (fun done m _ _ hdone hstep => by
        have hnext := scanDomain_preserves hdone hstep
        rwa [List.append_assoc, ← List.map_append, ← List.filter_append] at hnext)
      (show DomainInvariant (scanned ++ (([] : List RelationMember).filter
        RelationMember.isNumericMember).map _) scan by simpa using hi) h
    simpa using this

theorem numericKeyDomainId_eq_of_column_eq {codecs : Codecs} {hashing : Hashing} {d : RelationshipDocument}
    (h : validateDocumentCompatibility codecs hashing d = .ok ()) {g g' : RelationGroup}
    {m m' : RelationMember} (hg : g ∈ d.groups) (hr : g.numericStrategy = .reversibleBijective)
    (hm : m ∈ g.members) (hn : m.isNumericMember = true) (hg' : g' ∈ d.groups)
    (hr' : g'.numericStrategy = .reversibleBijective) (hm' : m' ∈ g'.members)
    (hn' : m'.isNumericMember = true) (hc : m.column = m'.column) :
    hashing.numericKeyDomainId (hashing.relationshipFingerprint d) g.relationId =
      hashing.numericKeyDomainId (hashing.relationshipFingerprint d) g'.relationId := by
  unfold validateDocumentCompatibility at h
  obtain ⟨scan, -, h⟩ := bind_eq_ok.mp h
  obtain ⟨-, -, h⟩ := bind_eq_ok.mp h
  obtain ⟨domainScan, hscan, h⟩ := bind_eq_ok.mp h
  have hconf : domainScan.conflicts = [] := not_not.mp (refuseIf_eq_ok.mp h)
  have hinv := foldlM_induction []
    (fun (done : List RelationGroup) scan =>
      DomainInvariant (done.flatMap (groupDomainEntries hashing d)) scan)
    (fun done g _ _ hi hstep => by
      rw [List.flatMap_append, List.flatMap_singleton]
      exact scanGroupDomains_preserves hi hstep)
    (show DomainInvariant (([] : List RelationGroup).flatMap (groupDomainEntries hashing d)) ⟨[], []⟩ from
      ⟨List.nodup_nil, by simp⟩) hscan
  have hentry : ∀ {g : RelationGroup} {m : RelationMember}, g ∈ d.groups →
      g.numericStrategy = .reversibleBijective → m ∈ g.members → m.isNumericMember = true →
      (m.column, hashing.numericKeyDomainId (hashing.relationshipFingerprint d) g.relationId) ∈
        domainScan.domains := by
    intro g m hg hr hm hn
    refine hinv.resolved hconf _ (List.mem_flatMap.mpr ⟨g, by simpa using hg, ?_⟩)
    rw [groupDomainEntries, if_pos hr]
    exact List.mem_map.mpr ⟨m, List.mem_filter.mpr ⟨hm, hn⟩, rfl⟩
  have he := hentry hg hr hm hn
  have he' := hentry hg' hr' hm' hn'
  exact (Prod.mk.inj (List.inj_on_of_nodup_map hinv.columns_nodup he he' hc)).2

end Domains
end DbfAnonymizer.Relationships
