import DbfAnonymizer.Engine.EvidenceReads
import DbfAnonymizer.Engine.NumericSafety
import DbfAnonymizer.Engine.ReversibleColumns
import DbfAnonymizer.Engine.TextResume
import DbfAnonymizer.Vault.FieldLedger
import DbfAnonymizer.Verification.Dataset

/-! A readable dataset together with the plan that was built from its schemas. -/
namespace DbfAnonymizer.Engine
open Transforms Relationships Vault Lib Verification

/-- What a field's value adds to the observed texts. -/
def FieldDirective.occurrence? (directive : FieldDirective) (value : Value) : Option TextOccurrence :=
  match directive.numericDomainId, directive.action, value with
  | none, .pseudonymizeReversible, .text (c :: rest) => some ⟨c :: rest, directive.byteWidth, directive.encoding⟩
  | _, _, _ => none

def recordOccurrences (directive : TableDirective) (record : DirectRecord) : List TextOccurrence :=
  directive.transformed.filterMap fun d => d.occurrence? (record.values d.fieldName)

def textOccurrences (plan : EnginePlan) (source : DatasetFiles) : List TextOccurrence :=
  plan.tables.flatMap fun t => (source.recordsOf t.relativePath).flatMap (recordOccurrences t)

/-- Every planned table is readable under the schema it was planned with, its field names are distinct, and
the distinct texts fit into one spool table. -/
structure PlannedDataset where
  policy : ResolvedPolicy
  hashing : Hashing
  document : Option RelationshipDocument
  tables : List (Text × TableSchema)
  plan : EnginePlan
  source : DatasetFiles
  built : buildEnginePlan policy hashing document tables = .ok plan
  readable : ∀ t ∈ tables, ∃ stored, source.table t.1 = some stored ∧ stored.schema = t.2
  names_nodup : ∀ t ∈ tables, (t.2.fields.map FieldInfo.name).Nodup
  few : (spoolOf (textOccurrences plan source)).observations.rows.length < 2 ^ 63

def PlannedDataset.scan (P : PlannedDataset) : TextScan := ⟨textOccurrences P.plan P.source, P.few⟩

/-- The planned paths are in the form in which the vault keeps them. -/
structure NormalDataset extends PlannedDataset where
  normal : ∀ t ∈ plan.tables, normalizeRelativePath t.relativePath = .ok t.relativePath

/-- Records as a reader presents them: each one carries its position. -/
def Positioned (records : List DirectRecord) : Prop := ∀ i, ∀ hi : i < records.length, records[i].physicalIndex = i

/-- A dataset as its inventory and its reader present it: no path twice, and every record at its position. -/
structure PresentedDataset extends NormalDataset where
  paths_nodup : (plan.tables.map TableDirective.relativePath).Nodup
  positioned : ∀ path stored, source.table path = some stored → Positioned stored.records

instance : Coe NormalDataset PlannedDataset := ⟨NormalDataset.toPlannedDataset⟩

instance : Coe PresentedDataset NormalDataset := ⟨PresentedDataset.toNormalDataset⟩

/-- A field of the table holds a NaN. Only a field that is kept can do so in a run that returns. -/
def PlannedDataset.HoldsNan (P : PlannedDataset) (t : TableDirective) : Prop :=
  ∃ stored, P.source.table t.relativePath = some stored ∧ stored.HoldsNan

/-- The domain identities of a plan, which are digests, do not collide. -/
structure DistinctDomains (plan : EnginePlan) (temporalDomainId : Text) : Prop where
  numeric_unique : ∀ r ∈ plan.relations, ∀ r' ∈ plan.relations, ∀ domainId, r.numericDomainId = some domainId →
    r'.numericDomainId = some domainId → r.numericDomain = r'.numericDomain
  numeric_ne_text : ∀ r ∈ plan.relations, r.numericDomainId ≠ some globalTextDomainId
  numeric_ne_temporal : ∀ r ∈ plan.relations, r.numericDomainId ≠ some temporalDomainId
  temporal_ne_text : temporalDomainId ≠ globalTextDomainId

theorem isSystemType_of_directive {policy : ResolvedPolicy} {groups : List (RelationGroup × Text)}
    {path encoding : Text} {field : FieldInfo} {d : FieldDirective}
    (h : fieldDirective policy groups path encoding field = .ok (some d)) : field.isSystemType = false := by
  by_contra hsystem
  rw [Bool.not_eq_false, FieldInfo.isSystemType, beq_iff_eq] at hsystem
  have hrule : ruleByDbfType '0'.toUpper = none := by decide
  unfold fieldDirective at h
  cases hc : classifyFieldCapability { field with dbfType := field.dbfType.toUpper } policy with
  | writerManaged => simp [hc] at h
  | refused => simp [hc] at h
  | identity =>
    unfold classifyFieldCapability at hc
    rw [hsystem, hrule] at hc
    split_ifs at hc
  | transform action =>
    unfold classifyFieldCapability at hc
    rw [hsystem, hrule] at hc
    split_ifs at hc

theorem relationDirective_domain {groups : List (RelationGroup × Text)} {g : RelationGroup} {r : RelationDirective}
    (h : relationDirective groups g = .ok r) : r.numericDomainId = (groups.find? (·.1 = g)).map Prod.snd ∧
      relationNumericDomain g r.numericDomainId = .ok r.numericDomain := by
  unfold relationDirective at h
  obtain ⟨domain, hdomain, h⟩ := bind_eq_ok.mp h
  cases hp : g.parentMembers with
  | nil => simp [hp] at h
  | cons parent parents =>
    cases hf : g.foreignMembers with
    | nil => simp [hp, hf] at h
    | cons foreign foreigns =>
      simp only [hp, hf] at h
      cases h
      exact ⟨rfl, hdomain⟩

theorem find?_numericGroups {hashing : Hashing} {document : RelationshipDocument} {entry : RelationGroup × Text}
    (h : entry ∈ numericGroups hashing document) :
    ((numericGroups hashing document).find? (·.1 = entry.1)).map Prod.snd = some entry.2 := by
  obtain ⟨-, -, hid⟩ := mem_numericGroups.mp h
  cases hfind : (numericGroups hashing document).find? (·.1 = entry.1) with
  | none =>
    have hother := List.find?_eq_none.mp hfind entry h
    simp at hother
  | some other =>
    have hsame : other.1 = entry.1 := by simpa using List.find?_some hfind
    obtain ⟨-, -, hother⟩ := mem_numericGroups.mp (List.mem_of_find?_eq_some hfind)
    rw [Option.map_some, hother, hid, hsame]

namespace PlannedDataset
variable {P : PlannedDataset} {t : TableDirective} {d : FieldDirective} {r : RelationDirective} {stored : StoredTable}

/-- The stored table behind a table of the plan. -/
structure Behind (P : PlannedDataset) (t : TableDirective) (stored : StoredTable) : Prop where
  stored_eq : P.source.table t.relativePath = some stored
  names_nodup : (stored.schema.fields.map FieldInfo.name).Nodup
  bound : TableBound P.policy ((P.document.map (numericGroups P.hashing)).getD [])
    (t.relativePath, stored.schema) t

theorem exists_behind (ht : t ∈ P.plan.tables) : ∃ stored, P.Behind t stored := by
  obtain ⟨table, htable, hbound⟩ := tableBound_of_mem P.built ht
  obtain ⟨stored, hstored, hschema⟩ := P.readable table htable
  have hpair : table = (t.relativePath, stored.schema) := Prod.ext hbound.relativePath_eq.symm hschema.symm
  refine ⟨stored, by rw [hbound.relativePath_eq, hstored], ?_, hpair ▸ hbound⟩
  rw [hschema]
  exact P.names_nodup table htable

theorem Behind.holdsNan_iff (h : P.Behind t stored) : P.HoldsNan t ↔ stored.HoldsNan := by
  simp [PlannedDataset.HoldsNan, h.stored_eq]

theorem Behind.exists_field (h : P.Behind t stored) (hd : d ∈ t.transformed) :
    ∃ field ∈ stored.schema.applicationFields, fieldDirective P.policy
      ((P.document.map (numericGroups P.hashing)).getD []) t.relativePath stored.schema.encoding field =
        .ok (some d) ∧ d.fieldName = field.name := by
  obtain ⟨field, hfield, hdirective⟩ := exists_field_of_transformed h.bound hd
  refine ⟨field, List.mem_filter.mpr ⟨hfield, ?_⟩, hdirective, (fieldDirective_eq_some hdirective).1⟩
  rw [decide_eq_true_eq]
  exact isSystemType_of_directive hdirective

theorem Behind.transformed_nodup (h : P.Behind t stored) : (t.transformed.map FieldDirective.fieldName).Nodup := by
  obtain ⟨directives, hmap, htransformed⟩ := h.bound.transformed_eq
  have hall := mapM_eq_ok_iff.mp hmap
  have hsublist : (t.transformed.map FieldDirective.fieldName).Sublist (stored.schema.fields.map FieldInfo.name) := by
    rw [htransformed]
    clear hmap htransformed
    generalize stored.schema.fields = fields at hall ⊢
    induction hall with
    | nil => exact List.Sublist.refl _
    | @cons field directive fields directives hhead _ ih =>
      cases directive with
      | none =>
        rw [List.reduceOption_cons_of_none]
        exact ih.cons _
      | some d =>
        rw [List.reduceOption_cons_of_some, List.map_cons, List.map_cons, (fieldDirective_eq_some hhead).1]
        exact ih.cons_cons _
  exact hsublist.nodup h.names_nodup

theorem exists_group (hr : r ∈ P.plan.relations) : ∃ document, P.document = some document ∧
    ∃ g ∈ document.effectiveGroups, relationDirective (numericGroups P.hashing document) g = .ok r := by
  have hbuilt := P.built
  cases hdocument : P.document with
  | none =>
    rw [hdocument] at hbuilt
    unfold buildEnginePlan at hbuilt
    obtain ⟨directives, -, hbuilt⟩ := bind_eq_ok.mp hbuilt
    obtain ⟨relations, hrelations, hbuilt⟩ := bind_eq_ok.mp hbuilt
    cases hrelations
    rw [← Except.ok.inj hbuilt] at hr
    cases hr
  | some document =>
    rw [hdocument] at hbuilt
    exact ⟨document, rfl, exists_of_mem_mapM_ok (relations_of_buildEnginePlan hbuilt) hr⟩

theorem built_of_relation (hr : r ∈ P.plan.relations) {domainId : Text} (hid : r.numericDomainId = some domainId) :
    ∃ D : BuiltNumericDomain, r.numericDomain = some D.domain := by
  obtain ⟨document, -, g, -, hrelation⟩ := exists_group hr
  obtain ⟨-, hdomain⟩ := relationDirective_domain hrelation
  rw [hid] at hdomain
  cases hbuilt : r.numericDomain with
  | none =>
    rw [hbuilt] at hdomain
    obtain ⟨ranges, -, hdomain⟩ := bind_eq_ok.mp hdomain
    obtain ⟨common, -, hdomain⟩ := bind_eq_ok.mp hdomain
    cases hdomain
  | some domain =>
    rw [hbuilt] at hdomain
    obtain ⟨D, hD, -⟩ := relationNumericDomain_built hdomain
    exact ⟨D, by rw [hD]⟩

theorem exists_relation_of_numeric (ht : t ∈ P.plan.tables) (hd : d ∈ t.transformed) {domainId : Text}
    (hdomain : d.numericDomainId = some domainId) : ∃ r ∈ P.plan.relations, r.numericDomainId = some domainId := by
  obtain ⟨stored, hbehind⟩ := exists_behind ht
  obtain ⟨field, -, hfield, -⟩ := hbehind.exists_field hd
  rcases (fieldDirective_eq_some hfield).2.2.2.2 with ⟨entry, _, hfound, -, -, hid, -⟩ | ⟨-, -, -, hnone, -⟩
  · cases hdocument : P.document with
    | none =>
      rw [hdocument] at hfound
      cases hfound
    | some document =>
      rw [hdocument] at hfound
      obtain ⟨hentry, -⟩ := numericMemberOf_eq_some hfound
      have hbuilt := P.built
      rw [hdocument] at hbuilt
      obtain ⟨r, hr, hrelation⟩ := exists_of_mapM_ok (relations_of_buildEnginePlan hbuilt) (mem_numericGroups.mp hentry).1
      refine ⟨r, hr, ?_⟩
      rw [(relationDirective_domain hrelation).1, find?_numericGroups hentry, ← hid, hdomain]
  · rw [hnone] at hdomain
    cases hdomain

end PlannedDataset
end DbfAnonymizer.Engine
