import DbfAnonymizer.Engine.MemberRanges
import DbfAnonymizer.Relationships.NumericColumns

/-! When the engine's numeric directives carry the ranges the preflight derives. -/
namespace DbfAnonymizer.Engine
open Transforms Relationships Lib

section Plan
variable {policy : ResolvedPolicy} {hashing : Hashing} {document : Option RelationshipDocument}
  {tables : List (Text × TableSchema)} {groups : List (RelationGroup × Text)}
  {path encoding : Text} {field : FieldInfo} {d : FieldDirective}

theorem fieldDirective_eq_some (h : fieldDirective policy groups path encoding field = .ok (some d)) :
    d.fieldName = field.name ∧ d.byteWidth = field.length ∧ d.dbfType = field.dbfType.toUpper ∧
      d.encoding = encoding ∧
      ((∃ entry range, numericMemberOf groups path field.name = some entry ∧
          memberRangeOf entry.1 field.name = .ok range ∧ d.action = .pseudonymizeReversible ∧
          d.numericDomainId = some entry.2 ∧ d.numericMemberRange = some range) ∨
        (numericMemberOf groups path field.name = none ∧ d.action ≠ .keep ∧
          classifyFieldCapability { field with dbfType := field.dbfType.toUpper } policy = .transform d.action ∧
          d.numericDomainId = none ∧ d.numericMemberRange = none)) := by
  unfold fieldDirective at h
  cases hc : classifyFieldCapability { field with dbfType := field.dbfType.toUpper } policy with
  | writerManaged => simp [hc] at h
  | refused => simp [hc] at h
  | identity =>
    simp only [hc] at h
    cases hm : numericMemberOf groups path field.name with
    | none => simp [hm] at h
    | some entry =>
      simp only [hm] at h
      obtain ⟨range, hrange, h⟩ := bind_eq_ok.mp h
      cases h
      exact ⟨rfl, rfl, rfl, rfl, Or.inl ⟨entry, range, rfl, hrange, rfl, rfl, rfl⟩⟩
  | transform action =>
    simp only [hc] at h
    cases hm : numericMemberOf groups path field.name with
    | some entry =>
      simp only [hm] at h
      obtain ⟨range, hrange, h⟩ := bind_eq_ok.mp h
      cases h
      exact ⟨rfl, rfl, rfl, rfl, Or.inl ⟨entry, range, rfl, hrange, rfl, rfl, rfl⟩⟩
    | none =>
      simp only [hm] at h
      cases action <;> cases h <;> exact ⟨rfl, rfl, rfl, rfl, Or.inr ⟨rfl, by simp, rfl, rfl, rfl⟩⟩

theorem fieldDirective_ne_none {entry : RelationGroup × Text} {result : Option FieldDirective}
    (hm : numericMemberOf groups path field.name = some entry) (hz : field.dbfType.toUpper ≠ '0')
    (h : fieldDirective policy groups path encoding field = .ok result) : ∃ d, result = some d := by
  unfold fieldDirective at h
  simp only [hm] at h
  cases hc : classifyFieldCapability { field with dbfType := field.dbfType.toUpper } policy with
  | writerManaged =>
    unfold classifyFieldCapability at hc
    split_ifs at hc with h1 h2
    · exact absurd h1.1 hz
    · split at hc
      · cases hc
      · split_ifs at hc
        split at hc
        · cases hc
        · split_ifs at hc
  | refused => simp [hc] at h
  | identity =>
    simp only [hc] at h
    obtain ⟨range, -, h⟩ := bind_eq_ok.mp h
    exact ⟨_, (Except.ok.inj h).symm⟩
  | transform action =>
    simp only [hc] at h
    obtain ⟨range, -, h⟩ := bind_eq_ok.mp h
    exact ⟨_, (Except.ok.inj h).symm⟩

/-- Every table directive of a plan comes from one planned table, field by field. -/
structure TableBound (policy : ResolvedPolicy) (groups : List (RelationGroup × Text))
    (table : Text × TableSchema) (t : TableDirective) : Prop where
  relativePath_eq : t.relativePath = table.1
  transformed_eq : ∃ directives, table.2.fields.mapM (fieldDirective policy groups table.1 table.2.encoding) =
    .ok directives ∧ t.transformed = directives.reduceOption
  memoFields_eq : t.memoFields = (t.transformed.filter fun d =>
    d.numericDomainId = none ∧ d.action = .maskReversible).map FieldDirective.fieldName

theorem tableDirective_bound {table : Text × TableSchema} {t : TableDirective}
    (h : tableDirective policy groups table = .ok t) (relationFields : List Text) :
    TableBound policy groups table { t with relationFields } := by
  unfold tableDirective at h
  obtain ⟨directives, hd, h⟩ := bind_eq_ok.mp h
  cases h
  exact ⟨rfl, ⟨directives, hd, rfl⟩, rfl⟩

theorem tableBound_of_mem {plan : EnginePlan} (h : buildEnginePlan policy hashing document tables = .ok plan)
    {t : TableDirective} (ht : t ∈ plan.tables) :
    ∃ table ∈ tables, TableBound policy ((document.map (numericGroups hashing)).getD []) table t := by
  unfold buildEnginePlan at h
  obtain ⟨directives, hd, h⟩ := bind_eq_ok.mp h
  obtain ⟨relations, -, h⟩ := bind_eq_ok.mp h
  cases h
  obtain ⟨t', ht', rfl⟩ := List.mem_map.mp ht
  obtain ⟨table, htable, hbuilt⟩ := exists_of_mem_mapM_ok hd ht'
  exact ⟨table, htable, tableDirective_bound hbuilt _⟩

theorem exists_tableBound {plan : EnginePlan} (h : buildEnginePlan policy hashing document tables = .ok plan)
    {table : Text × TableSchema} (ht : table ∈ tables) :
    ∃ t ∈ plan.tables, TableBound policy ((document.map (numericGroups hashing)).getD []) table t := by
  unfold buildEnginePlan at h
  obtain ⟨directives, hd, h⟩ := bind_eq_ok.mp h
  obtain ⟨relations, -, h⟩ := bind_eq_ok.mp h
  cases h
  obtain ⟨t, htd, hbuilt⟩ := exists_of_mapM_ok hd ht
  exact ⟨_, List.mem_map_of_mem htd, tableDirective_bound hbuilt _⟩

theorem exists_field_of_transformed {table : Text × TableSchema} {t : TableDirective}
    (hb : TableBound policy groups table t) (hd : d ∈ t.transformed) :
    ∃ field ∈ table.2.fields, fieldDirective policy groups table.1 table.2.encoding field = .ok (some d) := by
  obtain ⟨directives, hmap, heq⟩ := hb.transformed_eq
  rw [heq, List.reduceOption_mem_iff] at hd
  exact exists_of_mem_mapM_ok hmap hd

end Plan

section Agreement
variable {codecs : Codecs} {hashing : Hashing} {tables : List (Text × TableSchema)}

/-- Every numeric directive of the plan carries the range that the preflight derives for its column. -/
def MemberRangesAgree (B : BoundDocument codecs hashing tables) (plan : EnginePlan) : Prop :=
  ∀ g ∈ B.document.effectiveGroups, g.numericStrategy = .reversibleBijective →
    ∀ m ∈ g.members, m.isNumericMember = true →
      ∀ t ∈ plan.tables, t.relativePath = m.tablePath → ∀ d ∈ t.transformed, d.fieldName = m.fieldName →
        ∃ range, preflightMemberRange B.bindings m = .ok (some range) ∧ d.numericMemberRange = some range

/-- Numeric members of one reversible group that share a field name have one type and width. -/
def SameNameSameShape (document : RelationshipDocument) : Prop :=
  ∀ g ∈ document.effectiveGroups, g.numericStrategy = .reversibleBijective →
    ∀ m ∈ g.members, m.isNumericMember = true → ∀ m' ∈ g.members, m'.isNumericMember = true →
      m.fieldName = m'.fieldName → sameShape m m'

theorem preflightMemberRange_eq (B : BoundDocument codecs hashing tables) {g : RelationGroup}
    {m : RelationMember} (hg : g ∈ B.document.groups) (hm : m ∈ g.members) (hn : m.isNumericMember = true) :
    preflightMemberRange B.bindings m = (numericMemberRange m).map some := by
  obtain ⟨b, hfind, -, htype, -⟩ := find?_bindings B.bound hg hm
  unfold preflightMemberRange numericMemberRange
  rw [hfind]
  cases ht : m.dbfType with
  | c => simp [RelationMember.isNumericMember, ht] at hn
  | v => simp [RelationMember.isNumericMember, ht] at hn
  | i => simp [← htype, ht, MemberType.char, Except.map]
  | n => simp [← htype, ht, MemberType.char]

theorem reversible_group_unique (B : BoundDocument codecs hashing tables)
    (hcf : hashing.CollisionFree B.document) {g g' : RelationGroup} {m m' : RelationMember}
    (hg : g ∈ B.document.groups) (hr : g.numericStrategy = .reversibleBijective) (hm : m ∈ g.members)
    (hn : m.isNumericMember = true) (hg' : g' ∈ B.document.groups)
    (hr' : g'.numericStrategy = .reversibleBijective) (hm' : m' ∈ g'.members)
    (hn' : m'.isNumericMember = true) (hc : m.column = m'.column) : g = g' :=
  B.toAcceptedDocument.reversible_group_unique B.compatible hcf hg hr hm hn hg' hr' hm' hn' hc

/-- A numeric directive carries the range of the first member of its name in the column's group. -/
theorem numericMemberRange_of_directive {policy : ResolvedPolicy} {document : RelationshipDocument}
    {plan : EnginePlan} (hplan : buildEnginePlan policy hashing (some document) tables = .ok plan)
    {g : RelationGroup} {m : RelationMember} (hg : g ∈ document.effectiveGroups)
    (hr : g.numericStrategy = .reversibleBijective) (hm : m ∈ g.members) (hn : m.isNumericMember = true)
    {t : TableDirective} (ht : t ∈ plan.tables) (hpath : t.relativePath = m.tablePath) {d : FieldDirective}
    (hd : d ∈ t.transformed) (hname : d.fieldName = m.fieldName) :
    ∃ g₀ ∈ document.effectiveGroups, g₀.numericStrategy = .reversibleBijective ∧
      ∃ m₀ ∈ g₀.members, m₀.isNumericMember = true ∧ m₀.column = m.column ∧
        ∃ range, memberRangeOf g₀ m.fieldName = .ok range ∧ d.numericMemberRange = some range := by
  obtain ⟨table, -, hb⟩ := tableBound_of_mem hplan ht
  obtain ⟨field, -, hfield⟩ := exists_field_of_transformed hb hd
  obtain ⟨hfname, -, -, -, hcases⟩ := fieldDirective_eq_some hfield
  have hcolumn : table.1 = m.tablePath ∧ field.name = m.fieldName :=
    ⟨hb.relativePath_eq.symm.trans hpath, hfname.symm.trans hname⟩
  rw [hcolumn.1, hcolumn.2] at hcases
  have hentry : (g, hashing.numericKeyDomainId (hashing.relationshipFingerprint document) g.relationId) ∈
      numericGroups hashing document := mem_numericGroups.mpr ⟨hg, hr, rfl⟩
  rcases hcases with ⟨entry, range, hfound, hrange, -, -, hd'⟩ | ⟨hnone, -⟩
  · obtain ⟨hmem, m₀, hm₀, hn₀, hc₀⟩ := numericMemberOf_eq_some hfound
    obtain ⟨he₀, hr₀, -⟩ := mem_numericGroups.mp hmem
    exact ⟨entry.1, he₀, hr₀, m₀, hm₀, hn₀, hc₀, range, hrange, hd'⟩
  · obtain ⟨found, hfound⟩ := exists_numericMemberOf hentry hm hn
    simp only [Option.map_some, Option.getD_some] at hnone
    rw [hnone] at hfound
    cases hfound

theorem exists_numeric_directive (B : BoundDocument codecs hashing tables) {policy : ResolvedPolicy}
    {plan : EnginePlan} (hplan : buildEnginePlan policy hashing (some B.document) tables = .ok plan)
    {g : RelationGroup} {m : RelationMember} (hg : g ∈ B.document.effectiveGroups)
    (hr : g.numericStrategy = .reversibleBijective) (hm : m ∈ g.members) (hn : m.isNumericMember = true) :
    ∃ t ∈ plan.tables, t.relativePath = m.tablePath ∧ ∃ d ∈ t.transformed, d.fieldName = m.fieldName := by
  obtain ⟨b, -, hfact, htype, -⟩ :=
    find?_bindings B.bound (RelationshipDocument.mem_groups_of_mem_effectiveGroups hg) hm
  have hcol : b.1 = m.column := by simpa using List.find?_some hfact
  obtain ⟨table, htable, hmem⟩ := List.mem_flatMap.mp (List.mem_of_find?_eq_some hfact)
  obtain ⟨field, hfield, rfl⟩ := List.mem_map.mp hmem
  have hpath : table.1 = m.tablePath := (Prod.mk.inj hcol).1
  have hname : field.name = m.fieldName := (Prod.mk.inj hcol).2
  obtain ⟨t, ht, hb⟩ := exists_tableBound hplan htable
  obtain ⟨directives, hmap, htrans⟩ := hb.transformed_eq
  obtain ⟨result, hresult, hdir⟩ := exists_of_mapM_ok hmap hfield
  have hentry : (g, hashing.numericKeyDomainId (hashing.relationshipFingerprint B.document) g.relationId) ∈
      numericGroups hashing B.document := mem_numericGroups.mpr ⟨hg, hr, rfl⟩
  obtain ⟨found, hfound⟩ := exists_numericMemberOf hentry hm hn
  rw [← hpath, ← hname] at hfound
  have hz : field.dbfType.toUpper ≠ '0' := by
    simp only at htype
    rw [← htype]
    cases ht : m.dbfType <;> simp [RelationMember.isNumericMember, ht] at hn <;> decide
  obtain ⟨d, rfl⟩ := fieldDirective_ne_none hfound hz hdir
  refine ⟨t, ht, hb.relativePath_eq.trans hpath, d, ?_, (fieldDirective_eq_some hdir).1.trans hname⟩
  rw [htrans, List.reduceOption_mem_iff]
  exact hresult

/-- The directives agree with the preflight exactly when one name means one shape in each group. -/
theorem memberRangesAgree_iff (B : BoundDocument codecs hashing tables) {policy : ResolvedPolicy}
    {plan : EnginePlan} (hplan : buildEnginePlan policy hashing (some B.document) tables = .ok plan)
    (hcf : hashing.CollisionFree B.document) :
    MemberRangesAgree B plan ↔ SameNameSameShape B.document := by
  have hmem : ∀ {g : RelationGroup}, g ∈ B.document.effectiveGroups → g ∈ B.document.groups :=
    fun hg => RelationshipDocument.mem_groups_of_mem_effectiveGroups hg
  constructor
  · intro h g hg hr m hm hn m' hm' hn' hname
    -- both columns are served by the first member of that name in this very group
    have hfirst : ∀ x ∈ g.members, x.isNumericMember = true → x.fieldName = m.fieldName →
        numericMemberRange x = memberRangeOf g m.fieldName := by
      intro x hx hxn hxname
      obtain ⟨t, ht, hpath, d, hd, hdname⟩ := exists_numeric_directive B hplan hg hr hx hxn
      obtain ⟨range, hpre, hdr⟩ := h g hg hr x hx hxn t ht hpath d hd hdname
      obtain ⟨g₀, hg₀, hr₀, m₀, hm₀, hn₀, hc₀, range', hrange', hdr'⟩ :=
        numericMemberRange_of_directive hplan hg hr hx hxn ht hpath hd hdname
      obtain rfl : g₀ = g :=
        reversible_group_unique B hcf (hmem hg₀) hr₀ hm₀ hn₀ (hmem hg) hr hx hxn hc₀
      obtain rfl : range = range' := Option.some.inj (hdr.symm.trans hdr')
      rw [preflightMemberRange_eq B (hmem hg) hx hxn] at hpre
      rw [← hxname, hrange']
      cases hown : numericMemberRange x with
      | error e => simp [hown, Except.map] at hpre
      | ok r => simpa [hown, Except.map] using hpre
    obtain ⟨r, hown⟩ := exists_numericMemberRange B.toAcceptedDocument (hmem hg) hm hn
    exact sameShape_of_numericMemberRange_eq B.toAcceptedDocument (hmem hg) hm (hmem hg) hm' hown
      (by rw [hfirst m' hm' hn' hname.symm, ← hfirst m hm hn rfl, hown])
  · intro h g hg hr m hm hn t ht hpath d hd hdname
    obtain ⟨g₀, hg₀, hr₀, m₀, hm₀, hn₀, hc₀, range, hrange, hdr⟩ :=
      numericMemberRange_of_directive hplan hg hr hm hn ht hpath hd hdname
    refine ⟨range, ?_, hdr⟩
    have hname₀ : m₀.fieldName = m.fieldName := (Prod.mk.inj hc₀).2
    obtain ⟨first, hf, hfn, hfname, hlookup⟩ := memberRangeOf_eq hm₀ hn₀ hname₀
    have hshape : sameShape first m₀ := h g₀ hg₀ hr₀ first hf hfn m₀ hm₀ hn₀ (hfname.trans hname₀.symm)
    have hsame := sameMetadata_of_column_eq B.compatible (hmem hg₀) hm₀ (hmem hg) hm hc₀
    have hown : numericMemberRange m = .ok range := by
      rw [← hrange, hlookup, numericMemberRange_eq_of_sameShape hshape]
      exact (numericMemberRange_eq_of_sameShape hsame).symm
    rw [preflightMemberRange_eq B (hmem hg) hm hn, hown]
    rfl

end Agreement

section Orders

def parentPath : Text := ['p', '.', 'd', 'b', 'f']
def childPath : Text := ['c', '.', 'd', 'b', 'f']

def keyField (dbfType : Char) (length : ℕ) : FieldInfo where
  name := ['I', 'D']
  dbfType
  length
  decimalCount := 0
  supported := true
  isBinary := false
  system := false
  nocptrans := false
  nullable := false
  isAutoincrement := false
  isMemo := false

def keyTable (fields : List FieldInfo) : TableSchema where
  fields
  encoding := ['c', 'p', '8', '5', '2']
  languageDriver := 100
  recordCount := 1
  hasStructuralCdx := false
  dbcBound := false
  dbcBacklinkPath := none
  isDatabaseContainer := false

/-- An integer parent key and a numeric child key of the given width, both named `ID`. -/
def orderTables (childType : Char) (childWidth : ℕ) : List (Text × TableSchema) :=
  [(parentPath, keyTable [keyField 'I' 4]), (childPath, keyTable [keyField childType childWidth])]

def orderMember (tablePath : Text) (keyRole : KeyRole) (dbfType : MemberType) (byteWidth : ℕ) :
    RelationMember where
  tablePath
  fieldName := ['I', 'D']
  keyRole
  compositeOrdinal := 1
  dbfType
  byteWidth
  encoding := numericMemberEncoding
  nullable := false

def orderGroup (childType : MemberType) (childWidth : ℕ) : RelationGroup where
  relationId := ['r', '1']
  members := [orderMember parentPath .primary .i 4, orderMember childPath .foreign childType childWidth]
  comparison := .exactValue
  provenance := .policyFile
  sourceDigest := none
  numericStrategy := .reversibleBijective
  claimAssurance := none
  claimAuthority := none

def orderDocument (childType : MemberType) (childWidth : ℕ) : RelationshipDocument where
  groups := [orderGroup childType childWidth]

def singleByteCodecs : Codecs := fun _ text => some (text.map fun c => UInt8.ofNat c.toNat)

def plainHashing : Hashing := ⟨fun _ => [], fun _ relationId => relationId⟩

theorem plainHashing_collisionFree (d : RelationshipDocument) : plainHashing.CollisionFree d := by
  intro g _ g' _ h
  exact h

def sameTypeOrders : BoundDocument singleByteCodecs plainHashing (orderTables 'I' 4) where
  toAcceptedDocument := .ofCanonical (orderDocument .i 4) (by decide +kernel) (by decide +kernel) rfl
  compatible := rfl
  bindings := fieldFacts (orderTables 'I' 4)
  bound := rfl

def mixedTypeOrders : BoundDocument singleByteCodecs plainHashing (orderTables 'N' 6) where
  toAcceptedDocument := .ofCanonical (orderDocument .n 6) (by decide +kernel) (by decide +kernel) rfl
  compatible := rfl
  bindings := fieldFacts (orderTables 'N' 6)
  bound := rfl

theorem sameTypeOrders_agree :
    ∃ plan, buildEnginePlan defaultPolicy plainHashing (some sameTypeOrders.document) (orderTables 'I' 4) =
      .ok plan ∧ MemberRangesAgree sameTypeOrders plan := by
  obtain ⟨plan, hplan⟩ : ∃ plan, buildEnginePlan defaultPolicy plainHashing (some sameTypeOrders.document)
      (orderTables 'I' 4) = .ok plan := ⟨_, rfl⟩
  refine ⟨plan, hplan, (memberRangesAgree_iff sameTypeOrders hplan (plainHashing_collisionFree _)).mpr ?_⟩
  intro g hg _ m hm _ m' hm' _ _
  obtain rfl := List.mem_singleton.mp hg
  rcases List.mem_pair.mp hm with rfl | rfl <;> rcases List.mem_pair.mp hm' with rfl | rfl <;> exact ⟨rfl, rfl⟩

/-- The child's `N(6)` key gets the parent's integer range. -/
theorem mixedTypeOrders_disagree :
    ∃ plan, buildEnginePlan defaultPolicy plainHashing (some mixedTypeOrders.document) (orderTables 'N' 6) =
      .ok plan ∧ ¬ MemberRangesAgree mixedTypeOrders plan := by
  refine ⟨_, rfl, ?_⟩
  intro h
  obtain ⟨range, hpre, hrange⟩ := h (orderGroup .n 6) (by decide) rfl (orderMember childPath .foreign .n 6)
    (by decide) rfl _ (List.mem_cons_of_mem _ List.mem_cons_self) rfl _ List.mem_cons_self rfl
  have hinteger : range = integerMember := Option.some.inj hrange.symm
  rw [hinteger] at hpre
  exact absurd hpre (by decide +kernel)

end Orders
end DbfAnonymizer.Engine
