import DbfAnonymizer.Engine.Evidence
import DbfAnonymizer.Engine.MemberAgreement

/-! Which columns the evidence of a composite position is read from. -/
namespace DbfAnonymizer.Relationships.RelationGroup
open Lib

def memberKey (m : RelationMember) : ℕ ×ₗ Text ×ₗ Text :=
  toLex (m.compositeOrdinal, toLex (m.tablePath, m.fieldName))

theorem memberLE_iff {a b : RelationMember} : memberLE a b ↔ memberKey a ≤ memberKey b := by
  simp [memberLE, memberKey, Prod.Lex.le_iff]

instance : Std.Total memberLE where
  total a b := by
    rw [memberLE_iff, memberLE_iff]
    exact le_total _ _

instance : IsTrans RelationMember memberLE where
  trans _ _ _ hab hbc := memberLE_iff.mpr ((memberLE_iff.mp hab).trans (memberLE_iff.mp hbc))

theorem ordinals_membersForRole {g : RelationGroup} {role : KeyRole} (h : g.ordinalsContiguous role = true) :
    (g.membersForRole role).map RelationMember.compositeOrdinal =
      (List.range (g.membersForRole role).length).map (· + 1) := by
  have hperm : (g.membersForRole role).Perm (g.membersOf role) := List.perm_insertionSort _ _
  have hsorted : ((g.membersForRole role).map RelationMember.compositeOrdinal).Pairwise (· ≤ ·) := by
    rw [List.pairwise_map]
    refine (List.pairwise_insertionSort memberLE _).imp ?_
    rintro a b (hlt | ⟨heq, -⟩)
    · exact hlt.le
    · exact heq.le
  have heq : ((g.membersOf role).map RelationMember.compositeOrdinal).insertionSort (· ≤ ·) =
      (g.membersForRole role).map RelationMember.compositeOrdinal :=
    ((List.perm_insertionSort _ _).trans (hperm.map _).symm).eq_of_pairwise'
      (List.pairwise_insertionSort _ _) hsorted
  simpa [ordinalsContiguous, heq] using h

theorem getElem?_ordinal {g : RelationGroup} {role : KeyRole} (h : g.ordinalsContiguous role = true)
    {m : RelationMember} (hm : m ∈ g.membersForRole role) :
    (g.membersForRole role)[m.compositeOrdinal - 1]? = some m := by
  obtain ⟨i, hi, rfl⟩ := List.getElem_of_mem hm
  have hord : (g.membersForRole role)[i].compositeOrdinal = i + 1 := by
    have := congrArg (·[i]?) (ordinals_membersForRole h)
    simpa [hi] using this
  rw [hord, Nat.add_sub_cancel, List.getElem?_eq_getElem hi]

theorem ordinalsContiguous_of_postInit {g : RelationGroup} (h : g.postInit = .ok ()) (role : KeyRole) :
    g.ordinalsContiguous role = true := by
  unfold postInit at h
  iterate 8 obtain ⟨-, -, h⟩ := bind_eq_ok.mp h
  obtain ⟨_, hord, -⟩ := bind_eq_ok.mp h
  have hall := not_not.mp (refuseIf_eq_ok.mp hord)
  rw [List.all_eq_true] at hall
  exact hall role (by cases role <;> simp)

end DbfAnonymizer.Relationships.RelationGroup

namespace DbfAnonymizer.Engine
open Transforms Relationships Lib

def sideMembers (g : RelationGroup) : SideRole → List RelationMember
  | .parent => g.parentMembers
  | .foreign => g.foreignMembers

/-- The columns that a composite position of one side is read from, over all tables of a run. -/
def EnginePlan.columnsRead (plan : EnginePlan) (relationId : Text) (role : SideRole) (position : ℕ) :
    List (Text × Text) :=
  plan.tables.flatMap fun t => (observedSides plan.relations t.relativePath).filterMap fun s =>
    if s.relationId = relationId ∧ s.role = role then s.fields[position]?.map (t.relativePath, ·) else none

/-- Each position's evidence is read from the column of the member with that ordinal, and from no other. -/
def EvidenceFollowsMembers (document : RelationshipDocument) (plan : EnginePlan) : Prop :=
  ∀ g ∈ document.effectiveGroups, ∀ role, ∀ m ∈ sideMembers g role, ∀ column,
    column ∈ plan.columnsRead g.relationId role (m.compositeOrdinal - 1) ↔ column = m.column

/-- The members of one side of a relation all name one table. -/
def SidesInOneTable (document : RelationshipDocument) : Prop :=
  ∀ g ∈ document.effectiveGroups, ∀ role, ∀ m ∈ sideMembers g role, ∀ m' ∈ sideMembers g role,
    m.tablePath = m'.tablePath

section Reads
variable {policy : ResolvedPolicy} {hashing : Hashing} {document : RelationshipDocument}
  {codecs : Codecs} {tables : List (Text × TableSchema)} {plan : EnginePlan} {g : RelationGroup}

theorem mem_columnsRead {relationId : Text} {role : SideRole} {position : ℕ} {column : Text × Text} :
    column ∈ plan.columnsRead relationId role position ↔ ∃ t ∈ plan.tables, ∃ r ∈ plan.relations,
      r.relationId = relationId ∧ r.sideTable role = t.relativePath ∧
        ∃ field, (r.sideFields role)[position]? = some field ∧ column = (t.relativePath, field) := by
  unfold EnginePlan.columnsRead
  simp only [List.mem_flatMap, List.mem_filterMap]
  constructor
  · rintro ⟨t, ht, s, hs, hread⟩
    obtain ⟨r, hr, role', htable, rfl⟩ := mem_observedSides.mp hs
    split_ifs at hread with hc
    obtain ⟨hid, rfl⟩ := hc
    obtain ⟨field, hfield, rfl⟩ := Option.map_eq_some_iff.mp hread
    exact ⟨t, ht, r, hr, hid, htable, field, hfield, rfl⟩
  · rintro ⟨t, ht, r, hr, hid, htable, field, hfield, rfl⟩
    refine ⟨t, ht, _, mem_observedSides.mpr ⟨r, hr, role, htable, rfl⟩, ?_⟩
    simp [hid, hfield]

/-- A side is observed in the table of its first member, under the names of all its members. -/
theorem relationDirective_side {groups : List (RelationGroup × Text)} {r : RelationDirective}
    (h : relationDirective groups g = .ok r) (role : SideRole) : r.relationId = g.relationId ∧
      ∃ first ∈ (sideMembers g role).head?, r.sideTable role = first.tablePath ∧
        r.sideFields role = (sideMembers g role).map RelationMember.fieldName := by
  unfold relationDirective at h
  obtain ⟨domain, -, h⟩ := bind_eq_ok.mp h
  cases hp : g.parentMembers with
  | nil => simp [hp] at h
  | cons parent parents =>
    cases hf : g.foreignMembers with
    | nil => simp [hp, hf] at h
    | cons foreign foreigns =>
      simp only [hp, hf] at h
      cases h
      refine ⟨rfl, ?_⟩
      cases role with
      | parent => exact ⟨parent, by simp [sideMembers, hp], rfl, by simp [sideMembers, hp, RelationDirective.sideFields]⟩
      | foreign => exact ⟨foreign, by simp [sideMembers, hf], rfl, by simp [sideMembers, hf, RelationDirective.sideFields]⟩

theorem relations_of_buildEnginePlan (h : buildEnginePlan policy hashing (some document) tables = .ok plan) :
    document.effectiveGroups.mapM (relationDirective (numericGroups hashing document)) = .ok plan.relations := by
  unfold buildEnginePlan at h
  obtain ⟨directives, -, h⟩ := bind_eq_ok.mp h
  obtain ⟨relations, hrel, h⟩ := bind_eq_ok.mp h
  cases h
  exact hrel

theorem exists_keyRole_of_sideMembers (g : RelationGroup) (role : SideRole) :
    ∃ keyRole, sideMembers g role = g.membersForRole keyRole := by
  cases role with
  | parent =>
    unfold sideMembers RelationGroup.parentMembers
    split_ifs
    · exact ⟨_, rfl⟩
    · exact ⟨_, rfl⟩
  | foreign => exact ⟨_, rfl⟩

theorem mem_members_of_mem_sideMembers {role : SideRole} {m : RelationMember} (hm : m ∈ sideMembers g role) :
    m ∈ g.members := by
  obtain ⟨keyRole, hside⟩ := exists_keyRole_of_sideMembers g role
  rw [hside] at hm
  exact List.mem_of_mem_filter ((List.perm_insertionSort _ _).mem_iff.mp hm)

theorem getElem?_sideMembers (h : g.postInit = .ok ()) {role : SideRole} {m : RelationMember}
    (hm : m ∈ sideMembers g role) : (sideMembers g role)[m.compositeOrdinal - 1]? = some m := by
  obtain ⟨keyRole, hside⟩ := exists_keyRole_of_sideMembers g role
  rw [hside] at hm ⊢
  exact RelationGroup.getElem?_ordinal (RelationGroup.ordinalsContiguous_of_postInit h keyRole) hm

theorem exists_tableDirective_of_member (B : BoundDocument codecs hashing tables)
    (hplan : buildEnginePlan policy hashing (some B.document) tables = .ok plan)
    (hg : g ∈ B.document.effectiveGroups) {m : RelationMember} (hm : m ∈ g.members) :
    ∃ t ∈ plan.tables, t.relativePath = m.tablePath := by
  obtain ⟨b, -, hfact, -⟩ :=
    find?_bindings B.bound (RelationshipDocument.mem_groups_of_mem_effectiveGroups hg) hm
  have hcol : b.1 = m.column := by simpa using List.find?_some hfact
  obtain ⟨table, htable, hmem⟩ := List.mem_flatMap.mp (List.mem_of_find?_eq_some hfact)
  obtain ⟨field, -, rfl⟩ := List.mem_map.mp hmem
  obtain ⟨t, ht, hb⟩ := exists_tableBound hplan htable
  exact ⟨t, ht, hb.relativePath_eq.trans (Prod.mk.inj hcol).1⟩

/-- A position is read in the table of the side's first member, under the name of its own member. -/
theorem mem_columnsRead_iff (B : BoundDocument codecs hashing tables)
    (hplan : buildEnginePlan policy hashing (some B.document) tables = .ok plan)
    (hg : g ∈ B.document.effectiveGroups) {role : SideRole} {m : RelationMember} (hm : m ∈ sideMembers g role)
    {column : Text × Text} :
    column ∈ plan.columnsRead g.relationId role (m.compositeOrdinal - 1) ↔
      ∃ first ∈ (sideMembers g role).head?, column = (first.tablePath, m.fieldName) := by
  have hgroups := RelationshipDocument.mem_groups_of_mem_effectiveGroups hg
  have hat := getElem?_sideMembers (B.groups_accepted g hgroups) hm
  have hrelations := relations_of_buildEnginePlan hplan
  rw [mem_columnsRead]
  constructor
  · rintro ⟨t, -, r, hr, hid, htable, field, hfield, rfl⟩
    obtain ⟨g', hg', hbuilt⟩ := exists_of_mem_mapM_ok hrelations hr
    obtain ⟨hid', first, hfirst, hside, hfields⟩ := relationDirective_side hbuilt role
    obtain rfl : g' = g := B.toAcceptedDocument.relationId_inj
      (RelationshipDocument.mem_groups_of_mem_effectiveGroups hg') hgroups (hid'.symm.trans hid)
    refine ⟨first, hfirst, Prod.ext (htable.symm.trans hside) ?_⟩
    rw [hfields, List.getElem?_map, hat] at hfield
    exact (Option.some.inj hfield).symm
  · rintro ⟨first, hfirst, rfl⟩
    obtain ⟨r, hr, hbuilt⟩ := exists_of_mapM_ok hrelations hg
    obtain ⟨hid, first', hfirst', hside, hfields⟩ := relationDirective_side hbuilt role
    obtain rfl : first' = first := Option.some.inj (hfirst'.symm.trans hfirst)
    have hmember : first' ∈ g.members := mem_members_of_mem_sideMembers (List.mem_of_mem_head? hfirst)
    obtain ⟨t, ht, hpath⟩ := exists_tableDirective_of_member B hplan hg hmember
    refine ⟨t, ht, r, hr, hid, hside.trans hpath.symm, m.fieldName, ?_, by rw [hpath]⟩
    rw [hfields, List.getElem?_map, hat]
    rfl

/-- The evidence follows the members exactly when each side of a relation lives in one table. -/
theorem evidenceFollowsMembers_iff (B : BoundDocument codecs hashing tables)
    (hplan : buildEnginePlan policy hashing (some B.document) tables = .ok plan) :
    EvidenceFollowsMembers B.document plan ↔ SidesInOneTable B.document := by
  constructor
  · intro h g hg role m hm m' hm'
    have hown : ∀ x ∈ sideMembers g role, ∃ first ∈ (sideMembers g role).head?, x.tablePath = first.tablePath := by
      intro x hx
      have hread := (h g hg role x hx x.column).mpr rfl
      obtain ⟨first, hfirst, hcol⟩ := (mem_columnsRead_iff B hplan hg hx).mp hread
      exact ⟨first, hfirst, (Prod.mk.inj hcol).1⟩
    obtain ⟨first, hfirst, htable⟩ := hown m hm
    obtain ⟨first', hfirst', htable'⟩ := hown m' hm'
    obtain rfl : first' = first := Option.some.inj (hfirst'.symm.trans hfirst)
    exact htable.trans htable'.symm
  · intro h g hg role m hm column
    rw [mem_columnsRead_iff B hplan hg hm]
    constructor
    · rintro ⟨first, hfirst, rfl⟩
      exact Prod.ext (h g hg role first (List.mem_of_mem_head? hfirst) m hm) rfl
    · rintro rfl
      obtain ⟨first, hfirst⟩ : ∃ first, first ∈ (sideMembers g role).head? := by
        cases hside : sideMembers g role with
        | nil => simp [hside] at hm
        | cons first rest => exact ⟨first, rfl⟩
      exact ⟨first, hfirst, Prod.ext (h g hg role m hm first (List.mem_of_mem_head? hfirst)) rfl⟩

end Reads

section Split

theorem sameTypeOrders_evidenceFollowsMembers :
    ∃ plan, buildEnginePlan defaultPolicy plainHashing (some sameTypeOrders.document) (orderTables 'I' 4) =
      .ok plan ∧ EvidenceFollowsMembers sameTypeOrders.document plan := by
  obtain ⟨plan, hplan⟩ : ∃ plan, buildEnginePlan defaultPolicy plainHashing (some sameTypeOrders.document)
      (orderTables 'I' 4) = .ok plan := ⟨_, rfl⟩
  refine ⟨plan, hplan, (evidenceFollowsMembers_iff sameTypeOrders hplan).mpr ?_⟩
  have hsides : ∀ g ∈ sameTypeOrders.document.effectiveGroups, ∀ role ∈ [SideRole.parent, .foreign],
      ∀ m ∈ sideMembers g role, ∀ m' ∈ sideMembers g role, m.tablePath = m'.tablePath := by
    decide +kernel
  intro g hg role
  exact hsides g hg role (by cases role <;> simp)

def codeField (name : Text) : FieldInfo := { keyField 'C' 10 with name }

/-- Two key columns in each of the tables `p`, `c` and `x`. -/
def splitTables : List (Text × TableSchema) :=
  [parentPath, childPath, ['x', '.', 'd', 'b', 'f']].map fun path =>
    (path, keyTable [codeField ['A'], codeField ['B']])

def splitMember (tablePath : Text) (keyRole : KeyRole) (compositeOrdinal : ℕ) (fieldName : Text) :
    RelationMember where
  tablePath
  fieldName
  keyRole
  compositeOrdinal
  dbfType := .c
  byteWidth := 10
  encoding := ['c', 'p', '8', '5', '2']
  nullable := false

/-- A composite parent key whose second component lives in another table than the first. -/
def splitGroup : RelationGroup where
  relationId := ['r', '2']
  members :=
    [splitMember parentPath .primary 1 ['A'], splitMember ['x', '.', 'd', 'b', 'f'] .primary 2 ['B'],
      splitMember childPath .foreign 1 ['A'], splitMember childPath .foreign 2 ['B']]
  comparison := .exactValue
  provenance := .policyFile
  sourceDigest := none
  numericStrategy := .identity
  claimAssurance := none
  claimAuthority := none

def splitParents : BoundDocument singleByteCodecs plainHashing splitTables where
  toAcceptedDocument := .ofCanonical { groups := [splitGroup] } (by decide +kernel) (by decide +kernel) rfl
  compatible := by decide +kernel
  bindings := splitGroup.members.filterMap fun m => (fieldFacts splitTables).find? (·.1 = m.column)
  bound := by decide +kernel

/-- The second parent component is read from `p.dbf`, not from the member's own table. -/
theorem splitParents_misread :
    ∃ plan, buildEnginePlan defaultPolicy plainHashing (some splitParents.document) splitTables = .ok plan ∧
      (parentPath, ['B']) ∈ plan.columnsRead ['r', '2'] .parent 1 ∧
        ¬ EvidenceFollowsMembers splitParents.document plan := by
  obtain ⟨plan, hplan, hread⟩ : ∃ plan, buildEnginePlan defaultPolicy plainHashing
      (some splitParents.document) splitTables = .ok plan ∧
        (parentPath, ['B']) ∈ plan.columnsRead ['r', '2'] .parent 1 := ⟨_, rfl, by decide +kernel⟩
  refine ⟨plan, hplan, hread, ?_⟩
  intro h
  have hmember := h splitGroup (List.mem_singleton_self _) .parent
    (splitMember ['x', '.', 'd', 'b', 'f'] .primary 2 ['B']) (by decide +kernel) (parentPath, ['B'])
  exact absurd (hmember.mp hread) (by decide)

end Split
end DbfAnonymizer.Engine
