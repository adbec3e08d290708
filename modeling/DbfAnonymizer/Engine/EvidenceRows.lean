import DbfAnonymizer.Engine.EvidenceReads
import DbfAnonymizer.Engine.EvidenceTotals
import DbfAnonymizer.Relationships.EvidenceCounts

/-! The key tuples of a relation's rows, and what a pass over a dataset observes of them. -/
namespace DbfAnonymizer.Engine
open Relationships Lib

/-- The key tuple of one row: no tuple when a component is NULL. -/
def sideTuple (fields : List Text) (values : Values) : Except Raised (Option (List KeyComponent)) := do
  let components ← fields.mapM fun field => keyComponent (values field)
  return if components.contains none then none else some components.reduceOption

def relationRows (r : RelationDirective) (role : SideRole) (tables : List (Text × List Values)) :
    Except Raised (List (Option (List KeyComponent))) := do
  let rows ← (tables.filter (·.1 = r.sideTable role)).mapM fun table =>
    table.2.mapM (sideTuple (r.sideFields role))
  return rows.flatten

theorem relationRows_cons (r : RelationDirective) (role : SideRole) (table : Text × List Values)
    (tables : List (Text × List Values)) : relationRows r role (table :: tables) =
      if r.sideTable role = table.1 then do
        let first ← table.2.mapM (sideTuple (r.sideFields role))
        let rest ← relationRows r role tables
        return first ++ rest
      else relationRows r role tables := by
  split_ifs with hpath
  · rw [relationRows, List.filter_cons_of_pos (by simp [hpath]), List.mapM_cons]
    cases table.2.mapM (sideTuple (r.sideFields role)) with
    | error e => rfl
    | ok first =>
      rw [ok_bind, ok_bind, relationRows]
      cases (tables.filter (·.1 = r.sideTable role)).mapM fun table => table.2.mapM (sideTuple (r.sideFields role)) <;>
        rfl
  · have hpath' : ¬ table.1 = r.sideTable role := fun he => hpath he.symm
    rw [relationRows, List.filter_cons_of_neg (by simpa using hpath')]
    rfl

/-- The in-memory reference: one accumulator over the same rows. -/
def referenceEvidence (r : RelationDirective) (tables : List (Text × List Values)) :
    Except Raised RelationEvidenceCounts := do
  let parents ← relationRows r .parent tables
  let foreigns ← relationRows r .foreign tables
  RelationshipEvidenceAccumulator.ofRows r.compositeArity parents foreigns

def observationOf (key : SideKey) (row : Option (List KeyComponent)) : RelationObservation :=
  ⟨key.1, key.2.1, key.2.2, row.map canonicalCompositeIdentity⟩

theorem observeSide_eq (side : EvidenceSide) (relationId : Text) (role : SideRole) (fields : List Text)
    (values : Values) : observeSide side relationId role fields values =
      (sideTuple fields values).map (observationOf (side, relationId, role)) := by
  unfold observeSide sideTuple
  cases fields.mapM fun field => keyComponent (values field) with
  | error e => rfl
  | ok components =>
    simp only [ok_bind, pure_eq_ok, Except.map, observationOf]
    split_ifs <;> rfl

theorem length_sideTuple {fields : List Text} {values : Values} {key : List KeyComponent}
    (h : sideTuple fields values = .ok (some key)) : key.length = fields.length := by
  obtain ⟨components, hc, h⟩ := bind_eq_ok.mp h
  have hlen : components.length = fields.length := (mapM_eq_ok_iff.mp hc).length_eq.symm
  rw [pure_eq_ok, Except.ok.injEq] at h
  split_ifs at h with hnone
  obtain rfl := Option.some.inj h
  rw [← hlen, List.reduceOption_length_eq_iff]
  intro x hx
  cases x with
  | none => exact absurd (List.contains_iff_mem.mpr hx) hnone
  | some c => rfl

section Relation
variable {relations : List RelationDirective} {r : RelationDirective} {role : SideRole} {side : EvidenceSide}
  {path : Text} {values : Values}

theorem filter_observedSides (hnodup : (relations.map RelationDirective.relationId).Nodup) (hr : r ∈ relations)
    (role : SideRole) (path : Text) :
    (observedSides relations path).filter (fun s => s.relationId = r.relationId ∧ s.role = role) =
      if r.sideTable role = path then [⟨r.relationId, role, r.sideFields role⟩] else [] := by
  obtain ⟨before, after, rfl⟩ := List.append_of_mem hr
  have hother : ∀ l : List RelationDirective, (∀ r' ∈ l, r'.relationId ≠ r.relationId) →
      (observedSides l path).filter (fun s => s.relationId = r.relationId ∧ s.role = role) = [] := by
    intro l hl
    rw [List.filter_eq_nil_iff]
    intro s hs
    obtain ⟨r', hr', role', -, rfl⟩ := mem_observedSides.mp hs
    simpa using fun h => absurd h (hl r' hr')
  rw [List.map_append, List.map_cons, List.nodup_append] at hnodup
  obtain ⟨-, hafter, hbefore⟩ := hnodup
  have hsplit : observedSides (before ++ r :: after) path =
      observedSides before path ++ (observedSides [r] path ++ observedSides after path) := by
    simp [observedSides, List.flatMap_append]
  rw [hsplit, List.filter_append, List.filter_append, hother before, hother after, List.nil_append, List.append_nil]
  · cases role with
    | parent =>
      by_cases h1 : r.parentTable = path <;> by_cases h2 : r.foreignTable = path <;>
        simp [observedSides, RelationDirective.sideTable, RelationDirective.sideFields, h1, h2]
    | foreign =>
      by_cases h1 : r.parentTable = path <;> by_cases h2 : r.foreignTable = path <;>
        simp [observedSides, RelationDirective.sideTable, RelationDirective.sideFields, h1, h2]
  · intro r' hr' h
    exact (List.nodup_cons.mp hafter).1 (h ▸ List.mem_map_of_mem hr')
  · intro r' hr' h
    exact hbefore _ (List.mem_map_of_mem hr') _ (by simp) h

theorem filter_observeRelations (role : SideRole) (hnodup : (relations.map RelationDirective.relationId).Nodup) (hr : r ∈ relations)
    {observed : List RelationObservation} (h : observeRelations side relations path values = .ok observed) :
    if r.sideTable role = path then
      ∃ row, sideTuple (r.sideFields role) values = .ok row ∧
        observed.filter (·.sideKey = (side, r.relationId, role)) = [observationOf (side, r.relationId, role) row]
    else observed.filter (·.sideKey = (side, r.relationId, role)) = [] := by
  have hsides := filter_observedSides hnodup hr role path
  have hall := mapM_eq_ok_iff.mp h
  generalize observedSides relations path = sides at hsides hall
  have hkeep : ∀ {s : ObservedSide} {o : RelationObservation},
      observeSide side s.relationId s.role s.fields values = .ok o →
      (o.sideKey = (side, r.relationId, role) ↔ s.relationId = r.relationId ∧ s.role = role) := by
    intro s o ho
    obtain ⟨components, -, ho⟩ := bind_eq_ok.mp ho
    rw [pure_eq_ok] at ho
    cases ho
    simp [RelationObservation.sideKey]
  have hfilter : List.Forall₂ (fun s o => observeSide side s.relationId s.role s.fields values = .ok o)
      (sides.filter fun s => s.relationId = r.relationId ∧ s.role = role)
      (observed.filter (·.sideKey = (side, r.relationId, role))) := by
    clear hsides h
    induction hall with
    | nil => exact .nil
    | @cons s o sides observed hs _ ih =>
      by_cases hk : s.relationId = r.relationId ∧ s.role = role
      · rw [List.filter_cons_of_pos (by simpa using hk), List.filter_cons_of_pos (by simpa using (hkeep hs).mpr hk)]
        exact .cons hs ih
      · have hno : ¬ o.sideKey = (side, r.relationId, role) := fun ho => hk ((hkeep hs).mp ho)
        rwa [List.filter_cons_of_neg (by simpa using hk), List.filter_cons_of_neg (by simpa using hno)]
  rw [hsides] at hfilter
  split_ifs at hfilter ⊢ with htable
  · obtain ⟨o, rest, ho, hrest, heq⟩ := List.forall₂_cons_left_iff.mp hfilter
    rw [List.forall₂_nil_left_iff.mp hrest] at heq
    rw [observeSide_eq] at ho
    cases hrow : sideTuple (r.sideFields role) values with
    | error e => simp [hrow, Except.map] at ho
    | ok row =>
      rw [hrow] at ho
      cases ho
      exact ⟨row, rfl, heq⟩
  · exact List.forall₂_nil_left_iff.mp hfilter

theorem filter_observeTable (role : SideRole) (hnodup : (relations.map RelationDirective.relationId).Nodup) (hr : r ∈ relations)
    {records : List Values} {observed : List (List RelationObservation)}
    (h : records.mapM (observeRelations side relations path) = .ok observed) :
    if r.sideTable role = path then
      ∃ rows, records.mapM (sideTuple (r.sideFields role)) = .ok rows ∧
        observed.flatten.filter (·.sideKey = (side, r.relationId, role)) =
          rows.map (observationOf (side, r.relationId, role))
    else observed.flatten.filter (·.sideKey = (side, r.relationId, role)) = [] := by
  have hall := mapM_eq_ok_iff.mp h
  clear h
  induction hall with
  | nil =>
    split_ifs
    · exact ⟨[], rfl, rfl⟩
    · rfl
  | @cons values o records observed hrecord _ ih =>
    have hone := filter_observeRelations role hnodup hr hrecord
    split_ifs at ih hone ⊢ with htable
    · obtain ⟨rows, hrows, hrest⟩ := ih
      obtain ⟨row, hrow, hfirst⟩ := hone
      refine ⟨row :: rows, ?_, ?_⟩
      · rw [List.mapM_cons, hrow, ok_bind, hrows, ok_bind, pure_eq_ok]
      · rw [List.flatten_cons, List.filter_append, hfirst, hrest]
        rfl
    · rw [List.flatten_cons, List.filter_append, hone, ih]
      rfl

/-- A pass observes of one side of one relation exactly the key tuples of its rows. -/
theorem filter_observeDataset (hnodup : (relations.map RelationDirective.relationId).Nodup) (hr : r ∈ relations)
    (role : SideRole) {tables : List (Text × List Values)} {observations : List RelationObservation}
    (hpass : observeDataset side relations tables = .ok observations) :
    ∃ rows, relationRows r role tables = .ok rows ∧
      observations.filter (·.sideKey = (side, r.relationId, role)) =
        rows.map (observationOf (side, r.relationId, role)) := by
  obtain ⟨observed, hobserved, h⟩ := bind_eq_ok.mp hpass
  cases h
  have hall := mapM_eq_ok_iff.mp hobserved
  clear hobserved hpass
  induction hall with
  | nil => exact ⟨[], rfl, rfl⟩
  | @cons table o tables observed htable _ ih =>
    obtain ⟨rows, hrows, hrest⟩ := ih
    obtain ⟨records, hrecords, ho⟩ := bind_eq_ok.mp htable
    cases ho
    have hone := filter_observeTable role hnodup hr hrecords
    rw [relationRows_cons]
    split_ifs at hone ⊢ with hpath
    · obtain ⟨first, hfirst, hfilter⟩ := hone
      refine ⟨first ++ rows, ?_, ?_⟩
      · rw [hfirst, ok_bind, hrows]
        rfl
      · rw [List.flatten_cons, List.filter_append, hfilter, hrest, List.map_append]
    · refine ⟨rows, hrows, ?_⟩
      rw [List.flatten_cons, List.filter_append, hone, hrest, List.nil_append]

theorem side_eq_of_mem_observeDataset {tables : List (Text × List Values)} {observations : List RelationObservation}
    (h : observeDataset side relations tables = .ok observations) : ∀ o ∈ observations, o.side = side := by
  obtain ⟨observed, hobserved, h⟩ := bind_eq_ok.mp h
  cases h
  intro o ho
  obtain ⟨l, hl, ho⟩ := List.mem_flatten.mp ho
  obtain ⟨table, -, htable⟩ := exists_of_mem_mapM_ok hobserved hl
  obtain ⟨records, hrecords, hflat⟩ := bind_eq_ok.mp htable
  cases hflat
  obtain ⟨l', hl', ho⟩ := List.mem_flatten.mp ho
  obtain ⟨values, -, hvalues⟩ := exists_of_mem_mapM_ok hrecords hl'
  obtain ⟨s, -, hs⟩ := exists_of_mem_mapM_ok hvalues ho
  obtain ⟨components, -, hs⟩ := bind_eq_ok.mp hs
  rw [pure_eq_ok] at hs
  cases hs
  rfl

theorem length_of_mem_relationRows {tables : List (Text × List Values)}
    {rows : List (Option (List KeyComponent))} (h : relationRows r role tables = .ok rows) {key : List KeyComponent}
    (hkey : some key ∈ rows) : key.length = (r.sideFields role).length := by
  obtain ⟨lists, hlists, h⟩ := bind_eq_ok.mp h
  cases h
  obtain ⟨l, hl, hkey⟩ := List.mem_flatten.mp hkey
  obtain ⟨table, -, htable⟩ := exists_of_mem_mapM_ok hlists hl
  obtain ⟨values, -, hvalues⟩ := exists_of_mem_mapM_ok htable hkey
  exact length_sideTuple hvalues

end Relation

section Plan
variable {policy : ResolvedPolicy} {hashing : Hashing} {tables : List (Text × TableSchema)} {plan : EnginePlan}

theorem length_parentMembers (A : AcceptedDocument) {g : RelationGroup} (hg : g ∈ A.document.groups) :
    g.parentMembers.length = g.foreignMembers.length := by
  have hperm : ∀ role, (g.membersForRole role).length = (g.membersOf role).length :=
    fun role => (List.perm_insertionSort _ _).length_eq
  have h := A.groups_accepted g hg
  unfold RelationGroup.postInit at h
  iterate 5 obtain ⟨-, -, h⟩ := bind_eq_ok.mp h
  obtain ⟨_, hone, h⟩ := bind_eq_ok.mp h
  iterate 3 obtain ⟨-, -, h⟩ := bind_eq_ok.mp h
  have hcount : g.parentCount = (g.membersOf .foreign).length := not_not.mp (refuseIf_eq_ok.mp h)
  have hroles : ¬ (KeyRole.primary ∈ g.roles ∧ KeyRole.candidate ∈ g.roles) := refuseIf_eq_ok.mp hone
  have hnone : ∀ role, role ∉ g.roles → g.membersOf role = [] := by
    intro role hrole
    rw [RelationGroup.membersOf, List.filter_eq_nil_iff]
    intro m hm hmr
    exact hrole (List.mem_map.mpr ⟨m, hm, by simpa using hmr⟩)
  have hor : g.parentCount = (g.membersOf .primary).length + (g.membersOf .candidate).length := by
    unfold RelationGroup.parentCount RelationGroup.membersOf
    induction g.members with
    | nil => rfl
    | cons m rest ih => cases hm : m.keyRole <;> simp [hm] at ih ⊢ <;> omega
  unfold RelationGroup.parentMembers RelationGroup.foreignMembers
  rw [hperm]
  split_ifs with hempty
  · have hprimary : (g.membersOf .primary).length = 0 := by
      rw [← hperm, List.isEmpty_iff.mp hempty]
      rfl
    rw [hperm]
    omega
  · have hprimary : KeyRole.primary ∈ g.roles := by
      by_contra hno
      have := hperm .primary
      rw [hnone _ hno] at this
      exact hempty (List.isEmpty_iff.mpr (List.length_eq_zero_iff.mp this))
    have hcandidate := hnone .candidate fun hc => hroles ⟨hprimary, hc⟩
    rw [hperm]
    rw [hcandidate] at hor
    simp only [List.length_nil] at hor
    omega

/-- The relations of a plan: distinct ids, and on both sides one field for each component. -/
structure ComparableRelations (relations : List RelationDirective) : Prop where
  ids_nodup : (relations.map RelationDirective.relationId).Nodup
  arity_pos : ∀ r ∈ relations, 0 < r.compositeArity
  arity_eq : ∀ r ∈ relations, ∀ role, (r.sideFields role).length = r.compositeArity

theorem comparableRelations_of_plan (A : AcceptedDocument)
    (hplan : buildEnginePlan policy hashing (some A.document) tables = .ok plan) :
    ComparableRelations plan.relations := by
  have hrelations := relations_of_buildEnginePlan hplan
  have hids : plan.relations.map RelationDirective.relationId =
      A.document.effectiveGroups.map RelationGroup.relationId := by
    have hall := mapM_eq_ok_iff.mp hrelations
    generalize A.document.effectiveGroups = groups at hall ⊢
    generalize plan.relations = relations at hall ⊢
    induction hall with
    | nil => rfl
    | @cons g r _ _ hr _ ih => rw [List.map_cons, List.map_cons, (relationDirective_side hr .parent).1, ih]
  have hgroups : (A.document.groups.map RelationGroup.relationId).Nodup := by
    have h := A.accepted
    unfold RelationshipDocument.postInit at h
    split_ifs at h with hnodup
    exact hnodup
  have hsub : A.document.effectiveGroups.Sublist A.document.groups := by
    unfold RelationshipDocument.effectiveGroups
    split_ifs
    · exact List.Sublist.refl _
    · exact List.filter_sublist
  have hsides : ∀ r ∈ plan.relations, ∃ g ∈ A.document.groups, r.parentFields.length = g.parentMembers.length ∧
      r.foreignFields.length = g.foreignMembers.length ∧ r.compositeArity = g.parentMembers.length ∧
        0 < g.parentMembers.length := by
    intro r hr
    obtain ⟨g, hg, hbuilt⟩ := exists_of_mem_mapM_ok hrelations hr
    refine ⟨g, hsub.subset hg, ?_⟩
    unfold relationDirective at hbuilt
    obtain ⟨domain, -, hbuilt⟩ := bind_eq_ok.mp hbuilt
    cases hp : g.parentMembers with
    | nil => simp [hp] at hbuilt
    | cons parent parents =>
      cases hf : g.foreignMembers with
      | nil => simp [hp, hf] at hbuilt
      | cons foreign foreigns =>
        simp only [hp, hf] at hbuilt
        cases hbuilt
        exact ⟨by simp, by simp, rfl, by simp⟩
  refine ⟨hids ▸ (hsub.map _).nodup hgroups, ?_, ?_⟩
  · intro r hr
    obtain ⟨g, -, -, -, harity, hpos⟩ := hsides r hr
    omega
  · intro r hr role
    obtain ⟨g, hg, hp, hf, harity, -⟩ := hsides r hr
    cases role with
    | parent => exact hp.trans harity.symm
    | foreign => exact hf.trans ((length_parentMembers A hg).symm.trans harity.symm)

end Plan
end DbfAnonymizer.Engine
