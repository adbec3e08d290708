import DbfAnonymizer.Engine.MemberAgreement
import DbfAnonymizer.Engine.PassTwo
import DbfAnonymizer.Relationships.NumericColumns

/-! One mapping domain for the numeric columns of a reversible relation, and none for identity columns. -/
namespace DbfAnonymizer.Engine
open Transforms Relationships Lib

/-- The directives that a plan has for the column of a member. -/
def EnginePlan.directivesOf (plan : EnginePlan) (m : RelationMember) : List FieldDirective :=
  (plan.tables.filter (·.relativePath = m.tablePath)).flatMap fun t =>
    t.transformed.filter (·.fieldName = m.fieldName)

theorem mem_directivesOf {plan : EnginePlan} {m : RelationMember} {d : FieldDirective} :
    d ∈ plan.directivesOf m ↔
      ∃ t ∈ plan.tables, t.relativePath = m.tablePath ∧ d ∈ t.transformed ∧ d.fieldName = m.fieldName := by
  simp only [EnginePlan.directivesOf, List.mem_flatMap, List.mem_filter, decide_eq_true_eq, and_assoc]

section Columns
variable {codecs : Codecs} {hashing : Hashing} {policy : ResolvedPolicy} {tables : List (Text × TableSchema)}
  {document : RelationshipDocument} {plan : EnginePlan} {g : RelationGroup} {m : RelationMember}
  {d d' : FieldDirective}

/-- A directive is numeric with the domain of a reversible group that lists its column, or it carries the
action of its own type. -/
theorem directive_cases (hplan : buildEnginePlan policy hashing (some document) tables = .ok plan)
    (hd : d ∈ plan.directivesOf m) :
    (∃ g₀ ∈ document.effectiveGroups, g₀.numericStrategy = .reversibleBijective ∧
        ∃ m₀ ∈ g₀.members, m₀.isNumericMember = true ∧ m₀.column = m.column ∧ d.numericDomainId =
          some (hashing.numericKeyDomainId (hashing.relationshipFingerprint document) g₀.relationId)) ∨
      (numericMemberOf (numericGroups hashing document) m.tablePath m.fieldName = none ∧
        d.numericDomainId = none ∧ d.dbfType.toUpper ∈ d.action.types) := by
  obtain ⟨t, ht, hpath, hmem, hname⟩ := mem_directivesOf.mp hd
  obtain ⟨table, -, hb⟩ := tableBound_of_mem hplan ht
  obtain ⟨field, -, hfield⟩ := exists_field_of_transformed hb hmem
  obtain ⟨hfname, -, htype, -, hcases⟩ := fieldDirective_eq_some hfield
  rw [← hb.relativePath_eq, hpath, ← hfname, hname] at hcases
  rcases hcases with ⟨entry, _, hfound, -, -, hdomain, -⟩ | ⟨hnone, -, hclass, hdomain, -⟩
  · obtain ⟨hentry, m₀, hm₀, hn₀, hc₀⟩ := numericMemberOf_eq_some hfound
    obtain ⟨hg₀, hr₀, hid⟩ := mem_numericGroups.mp hentry
    exact Or.inl ⟨entry.1, hg₀, hr₀, m₀, hm₀, hn₀, hc₀, hdomain.trans (congrArg some hid)⟩
  · have htypes := dbfType_mem_types hclass
    rw [← htype] at htypes
    exact Or.inr ⟨hnone, hdomain, htypes⟩

theorem numericDomainId_of_member (hplan : buildEnginePlan policy hashing (some document) tables = .ok plan)
    (h : validateDocumentCompatibility codecs hashing document = .ok ()) (hg : g ∈ document.effectiveGroups)
    (hr : g.numericStrategy = .reversibleBijective) (hm : m ∈ g.members) (hn : m.isNumericMember = true)
    (hd : d ∈ plan.directivesOf m) :
    d.numericDomainId =
      some (hashing.numericKeyDomainId (hashing.relationshipFingerprint document) g.relationId) := by
  rcases directive_cases hplan hd with ⟨g₀, hg₀, hr₀, m₀, hm₀, hn₀, hc₀, hdomain⟩ | ⟨hnone, -⟩
  · have hgroup := RelationshipDocument.mem_groups_of_mem_effectiveGroups hg
    have hgroup₀ := RelationshipDocument.mem_groups_of_mem_effectiveGroups hg₀
    rw [hdomain, numericKeyDomainId_eq_of_column_eq h hgroup₀ hr₀ hm₀ hn₀ hgroup hr hm hn hc₀]
  · have hentry : (g, hashing.numericKeyDomainId (hashing.relationshipFingerprint document) g.relationId) ∈
        numericGroups hashing document := mem_numericGroups.mpr ⟨hg, hr, rfl⟩
    obtain ⟨found, hfound⟩ := exists_numericMemberOf hentry hm hn
    rw [hnone] at hfound
    cases hfound

theorem dbfType_ne_of_identity (hplan : buildEnginePlan policy hashing (some document) tables = .ok plan)
    (h : validateDocumentCompatibility codecs hashing document = .ok ()) (hg : g ∈ document.groups)
    (hid : g.numericStrategy = .identity) (hm : m ∈ g.members) (hn : m.isNumericMember = true)
    (hd : d ∈ plan.directivesOf m) : d.numericDomainId = none ∧ d.dbfType ≠ m.dbfType.char := by
  rcases directive_cases hplan hd with ⟨g₀, hg₀, hr₀, m₀, hm₀, hn₀, hc₀, -⟩ | ⟨-, hdomain, htypes⟩
  · have hgroup₀ := RelationshipDocument.mem_groups_of_mem_effectiveGroups hg₀
    exact absurd hc₀ (column_ne_of_reversible_identity h hgroup₀ hr₀ hm₀ hn₀ hg hid hm hn)
  · refine ⟨hdomain, ?_⟩
    intro htype
    rw [htype] at htypes
    cases hmember : m.dbfType with
    | c => simp [RelationMember.isNumericMember, hmember] at hn
    | v => simp [RelationMember.isNumericMember, hmember] at hn
    | i =>
      rw [hmember] at htypes
      cases haction : d.action with
      | _ =>
        rw [haction] at htypes
        revert htypes
        decide
    | n =>
      rw [hmember] at htypes
      cases haction : d.action with
      | _ =>
        rw [haction] at htypes
        revert htypes
        decide

theorem textDirective_of_member (hplan : buildEnginePlan policy hashing (some document) tables = .ok plan)
    (h : validateDocumentCompatibility codecs hashing document = .ok ()) (hg : g ∈ document.groups)
    (hm : m ∈ g.members) (hn : m.isNumericMember = false) (hd : d ∈ plan.directivesOf m)
    (htype : d.dbfType = m.dbfType.char) : d.numericDomainId = none ∧ d.action = .pseudonymizeReversible := by
  rcases directive_cases hplan hd with ⟨g₀, hg₀, hr₀, m₀, hm₀, hn₀, hc₀, -⟩ | ⟨-, hdomain, htypes⟩
  · have hgroup₀ := RelationshipDocument.mem_groups_of_mem_effectiveGroups hg₀
    have hsame := (sameMetadata_of_column_eq h hgroup₀ hm₀ hg hm hc₀).1
    rw [RelationMember.isNumericMember, hsame] at hn₀
    rw [RelationMember.isNumericMember, hn₀] at hn
    cases hn
  · refine ⟨hdomain, ?_⟩
    rw [htype] at htypes
    cases hmember : m.dbfType with
    | i => simp [RelationMember.isNumericMember, hmember] at hn
    | n => simp [RelationMember.isNumericMember, hmember] at hn
    | c =>
      rw [hmember] at htypes
      cases haction : d.action with
      | pseudonymizeReversible => rfl
      | _ =>
        rw [haction] at htypes
        revert htypes
        decide
    | v =>
      rw [hmember] at htypes
      cases haction : d.action with
      | pseudonymizeReversible => rfl
      | _ =>
        rw [haction] at htypes
        revert htypes
        decide

theorem classify_text {field : FieldInfo} (htype : field.dbfType = 'C' ∨ field.dbfType = 'V') :
    classifyFieldCapability field policy = .refused ∨
      classifyFieldCapability field policy =
        if policy.textDefaultAction = .keep then .identity else .transform policy.textDefaultAction := by
  have hrule : ruleByDbfType field.dbfType.toUpper =
      some ⟨some ResolvedPolicy.textDefaultAction, false, false⟩ := by
    rcases htype with htype | htype
    · rw [htype]
      rfl
    · rw [htype]
      rfl
  have hsystem : field.dbfType ≠ '0' := by
    rcases htype with htype | htype
    · rw [htype]
      decide
    · rw [htype]
      decide
  unfold classifyFieldCapability
  rw [if_neg (fun h => hsystem h.1), hrule]
  dsimp only
  split_ifs
  all_goals simp

/-- A text column of a declared group has directives exactly when the policy pseudonymizes text. -/
theorem exists_textDirective_iff (hplan : buildEnginePlan policy hashing (some document) tables = .ok plan)
    (h : validateDocumentCompatibility codecs hashing document = .ok ())
    {bindings : List ((Text × Text) × FieldFact)}
    (hbound : bindRelationshipDocument codecs tables document = .ok bindings) (hg : g ∈ document.groups)
    (hm : m ∈ g.members) (hn : m.isNumericMember = false) :
    (∃ d ∈ plan.directivesOf m, d.dbfType = m.dbfType.char) ↔
      policy.textDefaultAction = .pseudonymizeReversible := by
  have hchar : m.dbfType.char = 'C' ∨ m.dbfType.char = 'V' := by
    cases hmember : m.dbfType with
    | c => exact Or.inl rfl
    | v => exact Or.inr rfl
    | i => simp [RelationMember.isNumericMember, hmember] at hn
    | n => simp [RelationMember.isNumericMember, hmember] at hn
  have hupper : m.dbfType.char.toUpper = m.dbfType.char := by
    rcases hchar with hchar | hchar
    · rw [hchar]
      rfl
    · rw [hchar]
      rfl
  constructor
  · intro hexists
    obtain ⟨d, hd, htype⟩ := hexists
    have haction := (textDirective_of_member hplan h hg hm hn hd htype).2
    obtain ⟨t, ht, hpath, hmem, hname⟩ := mem_directivesOf.mp hd
    obtain ⟨table, -, hb⟩ := tableBound_of_mem hplan ht
    obtain ⟨field, -, hfield⟩ := exists_field_of_transformed hb hmem
    obtain ⟨-, -, hdtype, -, hcases⟩ := fieldDirective_eq_some hfield
    rcases hcases with ⟨_, _, _, _, _, hdomain, _⟩ | ⟨-, -, hclass, -⟩
    · rw [(textDirective_of_member hplan h hg hm hn hd htype).1] at hdomain
      cases hdomain
    · have hfieldType : field.dbfType.toUpper = 'C' ∨ field.dbfType.toUpper = 'V' := by
        rw [← hdtype, htype]
        exact hchar
      rcases @classify_text policy { field with dbfType := field.dbfType.toUpper } hfieldType with hrefused | hpolicy
      · rw [hclass] at hrefused
        cases hrefused
      · rw [hclass] at hpolicy
        split_ifs at hpolicy with hkeep
        rw [← FieldCapability.transform.inj hpolicy, haction]
  · intro hpolicy
    obtain ⟨b, -, hfact, htype, -⟩ := find?_bindings hbound hg hm
    have hcol : b.1 = m.column := by simpa using List.find?_some hfact
    obtain ⟨table, htable, hmem⟩ := List.mem_flatMap.mp (List.mem_of_find?_eq_some hfact)
    obtain ⟨field, hfield, rfl⟩ := List.mem_map.mp hmem
    have hpath : table.1 = m.tablePath := (Prod.mk.inj hcol).1
    have hname : field.name = m.fieldName := (Prod.mk.inj hcol).2
    have hfieldType : field.dbfType.toUpper = m.dbfType.char := by
      rw [← hupper]
      exact congrArg Char.toUpper htype.symm
    obtain ⟨t, ht, hb⟩ := exists_tableBound hplan htable
    obtain ⟨directives, hmap, htrans⟩ := hb.transformed_eq
    obtain ⟨result, hresult, hdirective⟩ := exists_of_mapM_ok hmap hfield
    have hsome : ∃ d, result = some d := by
      unfold fieldDirective at hdirective
      have hclass := @classify_text policy { field with dbfType := field.dbfType.toUpper } (hfieldType ▸ hchar)
      rw [hpolicy] at hclass
      rcases hclass with hclass | hclass
      · rw [hclass] at hdirective
        cases hdirective
      · rw [hclass] at hdirective
        dsimp only at hdirective
        rw [if_neg (by decide)] at hdirective
        dsimp only at hdirective
        split at hdirective
        · obtain ⟨range, -, hdirective⟩ := bind_eq_ok.mp hdirective
          exact ⟨_, (Except.ok.inj hdirective).symm⟩
        · exact ⟨_, (Except.ok.inj hdirective).symm⟩
    obtain ⟨d, rfl⟩ := hsome
    have hspec := fieldDirective_eq_some hdirective
    refine ⟨d, mem_directivesOf.mpr ⟨t, ht, hb.relativePath_eq.trans hpath, ?_, hspec.1.trans hname⟩, ?_⟩
    · rw [htrans, List.reduceOption_mem_iff]
      exact hresult
    · exact hspec.2.2.1.trans hfieldType

theorem transformField_eq_of_numeric {domainId : Text} (h : d.numericDomainId = some domainId)
    (h' : d'.numericDomainId = some domainId) (sources : PassTwoSources) (value : Value) :
    transformField sources d value = transformField sources d' value := by
  rw [transformField, transformField, h, h']

theorem transformField_eq_of_text (h : d.numericDomainId = none ∧ d.action = .pseudonymizeReversible)
    (h' : d'.numericDomainId = none ∧ d'.action = .pseudonymizeReversible) (sources : PassTwoSources)
    (value : Value) : transformField sources d value = transformField sources d' value := by
  rw [transformField, transformField, h.1, h'.1, h.2, h'.2]

end Columns

/-- What a plan does to the columns of the declared relations. -/
structure ReversibleColumns (hashing : Hashing) (document : RelationshipDocument) (policy : ResolvedPolicy)
    (plan : EnginePlan) : Prop where
  /-- Parent and foreign numeric columns of an effective reversible group have directives, all with its domain. -/
  shared_domain : ∀ g ∈ document.effectiveGroups, g.numericStrategy = .reversibleBijective →
    ∀ m ∈ g.members, m.isNumericMember = true → plan.directivesOf m ≠ [] ∧ ∀ d ∈ plan.directivesOf m,
      d.numericDomainId = some (hashing.numericKeyDomainId (hashing.relationshipFingerprint document) g.relationId)
  /-- The numeric fields of an identity group have no directive. -/
  untouched : ∀ g ∈ document.groups, g.numericStrategy = .identity → ∀ m ∈ g.members, m.isNumericMember = true →
    ∀ d ∈ plan.directivesOf m, d.numericDomainId = none ∧ d.dbfType ≠ m.dbfType.char
  /-- On both sides of a numeric key pair pass two sends equal values to equal pseudonyms. -/
  numeric_pairs : ∀ g ∈ document.effectiveGroups, g.numericStrategy = .reversibleBijective →
    ∀ pair ∈ g.parentMembers.zip g.foreignMembers, pair.1.isNumericMember = true → pair.2.isNumericMember = true →
      ∀ d ∈ plan.directivesOf pair.1, ∀ d' ∈ plan.directivesOf pair.2, ∀ sources value,
        transformField sources d value = transformField sources d' value
  /-- The same for a text key pair, whose two sides are transformed together or not at all. -/
  text_pairs : ∀ g ∈ document.effectiveGroups, ∀ pair ∈ g.parentMembers.zip g.foreignMembers,
    pair.1.isNumericMember = false → pair.2.isNumericMember = false →
      ((∃ d ∈ plan.directivesOf pair.1, d.dbfType = pair.1.dbfType.char) ↔
        ∃ d' ∈ plan.directivesOf pair.2, d'.dbfType = pair.2.dbfType.char) ∧
      ∀ d ∈ plan.directivesOf pair.1, d.dbfType = pair.1.dbfType.char →
        ∀ d' ∈ plan.directivesOf pair.2, d'.dbfType = pair.2.dbfType.char → ∀ sources value,
          transformField sources d value = transformField sources d' value

theorem mem_members_of_pair {g : RelationGroup} {pair : RelationMember × RelationMember}
    (h : pair ∈ g.parentMembers.zip g.foreignMembers) : pair.1 ∈ g.members ∧ pair.2 ∈ g.members := by
  have hrole : ∀ {role : KeyRole} {m : RelationMember}, m ∈ g.membersForRole role → m ∈ g.members := by
    intro role m hm
    rw [RelationGroup.membersForRole, List.mem_insertionSort] at hm
    exact List.mem_of_mem_filter hm
  obtain ⟨hparent, hforeign⟩ := List.of_mem_zip h
  refine ⟨?_, hrole hforeign⟩
  unfold RelationGroup.parentMembers at hparent
  split_ifs at hparent
  · exact hrole hparent
  · exact hrole hparent

/-- The numeric columns of a compatible document have one treatment each, and every plan that is built for it on
bound tables gives each reversible group one domain. -/
theorem reversibleColumns_of_compatible {codecs : Codecs} {hashing : Hashing} (A : AcceptedDocument)
    (h : validateDocumentCompatibility codecs hashing A.document = .ok ()) :
    (hashing.CollisionFree A.document → ∀ g ∈ A.document.groups, ∀ g' ∈ A.document.groups,
      g.numericStrategy = .reversibleBijective → g'.numericStrategy = .reversibleBijective →
        ∀ m ∈ g.members, ∀ m' ∈ g'.members, m.isNumericMember = true → m'.isNumericMember = true →
          m.column = m'.column → g = g') ∧
      (∀ g ∈ A.document.groups, ∀ g' ∈ A.document.groups,
        g.numericStrategy = .reversibleBijective → g'.numericStrategy = .identity →
          ∀ m ∈ g.members, ∀ m' ∈ g'.members, m.isNumericMember = true → m'.isNumericMember = true →
            m.column ≠ m'.column) ∧
      ∀ tables bindings policy plan, bindRelationshipDocument codecs tables A.document = .ok bindings →
        buildEnginePlan policy hashing (some A.document) tables = .ok plan →
          ReversibleColumns hashing A.document policy plan := by
  refine ⟨?_, ?_, ?_⟩
  · intro hcf g hg g' hg' hr hr' m hm m' hm' hn hn' hc
    exact A.reversible_group_unique h hcf hg hr hm hn hg' hr' hm' hn' hc
  · intro g hg g' hg' hr hid m hm m' hm' hn hn'
    exact column_ne_of_reversible_identity h hg hr hm hn hg' hid hm' hn'
  · intro tables bindings policy plan hbound hplan
    have hgroup : ∀ {g : RelationGroup}, g ∈ A.document.effectiveGroups → g ∈ A.document.groups :=
      RelationshipDocument.mem_groups_of_mem_effectiveGroups
    constructor
    · intro g hg hr m hm hn
      constructor
      · obtain ⟨t, ht, hpath, d, hd, hname⟩ :=
          exists_numeric_directive ⟨A, h, bindings, hbound⟩ hplan hg hr hm hn
        exact List.ne_nil_of_mem (mem_directivesOf.mpr ⟨t, ht, hpath, hd, hname⟩)
      · intro d hd
        exact numericDomainId_of_member hplan h hg hr hm hn hd
    · intro g hg hid m hm hn d hd
      exact dbfType_ne_of_identity hplan h hg hid hm hn hd
    · intro g hg hr pair hpair hn hn' d hd d' hd' sources value
      obtain ⟨hm, hm'⟩ := mem_members_of_pair hpair
      have hdomain := numericDomainId_of_member hplan h hg hr hm hn hd
      have hdomain' := numericDomainId_of_member hplan h hg hr hm' hn' hd'
      exact transformField_eq_of_numeric hdomain hdomain' sources value
    · intro g hg pair hpair hn hn'
      obtain ⟨hm, hm'⟩ := mem_members_of_pair hpair
      constructor
      · rw [exists_textDirective_iff hplan h hbound (hgroup hg) hm hn,
          exists_textDirective_iff hplan h hbound (hgroup hg) hm' hn']
      · intro d hd htype d' hd' htype' sources value
        have htext := textDirective_of_member hplan h (hgroup hg) hm hn hd htype
        have htext' := textDirective_of_member hplan h (hgroup hg) hm' hn' hd' htype'
        exact transformField_eq_of_text htext htext' sources value

/-- An integer parent and child key share the domain of their relation. -/
theorem sameTypeOrders_columns :
    ∃ plan, buildEnginePlan defaultPolicy plainHashing (some sameTypeOrders.document) (orderTables 'I' 4) =
      .ok plan ∧ ReversibleColumns plainHashing sameTypeOrders.document defaultPolicy plan := by
  refine ⟨_, rfl, ?_⟩
  exact (reversibleColumns_of_compatible sameTypeOrders.toAcceptedDocument sameTypeOrders.compatible).2.2
    _ _ _ _ sameTypeOrders.bound rfl

end DbfAnonymizer.Engine
