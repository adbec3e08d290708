import DbfAnonymizer.Policy
import DbfAnonymizer.Relationships.Compatibility
import DbfAnonymizer.Transforms.NumericKeys

/-! The engine's directives, bound from the policy, the table schemas and the declared relations. -/
namespace DbfAnonymizer.Engine
open Transforms Relationships Lib

structure FieldDirective where
  fieldName : Text
  action : Action
  dbfType : Char
  encoding : Text
  byteWidth : ℕ
  numericDomainId : Option Text
  numericMemberRange : Option NumericKeyMemberRange
  deriving DecidableEq, Repr

structure TableDirective where
  relativePath : Text
  transformed : List FieldDirective
  memoFields : List Text
  temporalFields : List Text
  relationFields : List Text
  structuralCdx : Bool
  recordCount : ℕ
  deriving DecidableEq, Repr

structure RelationDirective where
  relationId : Text
  compositeArity : ℕ
  parentTable : Text
  foreignTable : Text
  parentFields : List Text
  foreignFields : List Text
  numericDomainId : Option Text
  numericDomain : Option NumericKeyDomain
  deriving DecidableEq, Repr

structure EnginePlan where
  tables : List TableDirective
  relations : List RelationDirective
  textPresent : Bool
  numericPresent : Bool
  temporalPresent : Bool
  deriving DecidableEq, Repr

def pathFailure (detailCode : String) : Raised := .typed .pathInvalid "engine" detailCode

/-- The effective reversible groups with their numeric domain identities. -/
def numericGroups (hashing : Hashing) (document : RelationshipDocument) : List (RelationGroup × Text) :=
  (document.effectiveGroups.filter (·.numericStrategy = .reversibleBijective)).map fun g =>
    (g, hashing.numericKeyDomainId (hashing.relationshipFingerprint document) g.relationId)

/-- The reversible numeric group that lists a column, if any. -/
def numericMemberOf (groups : List (RelationGroup × Text)) (tablePath fieldName : Text) :
    Option (RelationGroup × Text) :=
  groups.find? fun entry => entry.1.members.any fun m =>
    m.isNumericMember && m.tablePath == tablePath && m.fieldName == fieldName

/-- The member range of a group's field, looked up by the field name alone. -/
def memberRangeOf (group : RelationGroup) (fieldName : Text) : Except Raised NumericKeyMemberRange :=
  go group.members
where
  go : List RelationMember → Except Raised NumericKeyMemberRange
    | [] => .error (pathFailure "ENGINE_NUMERIC_MEMBER_UNKNOWN")
    | m :: rest =>
      if m.fieldName = fieldName then
        match m.dbfType with
        | .i => .ok integerMember
        | .n => integralNumericMember m.byteWidth
        | _ => go rest
      else go rest

def fieldDirective (policy : ResolvedPolicy) (groups : List (RelationGroup × Text))
    (relativePath encoding : Text) (field : FieldInfo) : Except Raised (Option FieldDirective) :=
  let capability := classifyFieldCapability { field with dbfType := field.dbfType.toUpper } policy
  let directive (action : Action) : FieldDirective :=
    ⟨field.name, action, field.dbfType.toUpper, encoding, field.length, none, none⟩
  match capability with
  | .writerManaged => .ok none
  | .refused => .error (pathFailure "ENGINE_FIELD_UNSUPPORTED")
  | capability =>
    match numericMemberOf groups relativePath field.name with
    | some (group, domainId) => do
      let range ← memberRangeOf group field.name
      return some { directive .pseudonymizeReversible with
        numericDomainId := some domainId, numericMemberRange := some range }
    | none =>
      match capability with
      | .transform .keep => .error (pathFailure "ENGINE_ACTION_UNSUPPORTED")
      | .transform action => .ok (some (directive action))
      | _ => .ok none

def tableDirective (policy : ResolvedPolicy) (groups : List (RelationGroup × Text))
    (table : Text × TableSchema) : Except Raised TableDirective := do
  let directives ← table.2.fields.mapM (fieldDirective policy groups table.1 table.2.encoding)
  let transformed := directives.reduceOption
  let namesOf (action : Action) := (transformed.filter fun d => d.numericDomainId = none ∧ d.action = action).map
    FieldDirective.fieldName
  return {
    relativePath := table.1
    transformed
    memoFields := namesOf .maskReversible
    temporalFields := namesOf .shiftReversible
    relationFields := []
    structuralCdx := table.2.hasStructuralCdx
    recordCount := table.2.recordCount }

def numericMemberRange (m : RelationMember) : Except Raised NumericKeyMemberRange :=
  match m.dbfType with
  | .i => .ok integerMember
  | .n => integralNumericMember m.byteWidth
  | _ => .error (pathFailure "ENGINE_FIELD_UNSUPPORTED")

def relationNumericDomain (group : RelationGroup) : Option Text → Except Raised (Option NumericKeyDomain)
  | none => .ok none
  | some _ => do
    let ranges ← (group.members.filter RelationMember.isNumericMember).mapM numericMemberRange
    let domain ← numericKeyDomainFor ranges
    return some domain

/-- One relation's directive; each side's table is the table of its first member. -/
def relationDirective (groups : List (RelationGroup × Text)) (group : RelationGroup) :
    Except Raised RelationDirective := do
  let groupDomain := (groups.find? (·.1 = group)).map Prod.snd
  let domain ← relationNumericDomain group groupDomain
  match group.parentMembers, group.foreignMembers with
  | parent :: parents, foreign :: foreigns =>
    return {
      relationId := group.relationId
      compositeArity := (parent :: parents).length
      parentTable := parent.tablePath
      foreignTable := foreign.tablePath
      parentFields := (parent :: parents).map RelationMember.fieldName
      foreignFields := (foreign :: foreigns).map RelationMember.fieldName
      numericDomainId := groupDomain
      numericDomain := domain }
  | _, _ => throw .indexError

/-- The relation fields that pass one adds to a table's projection. -/
def relationFieldsOf (relations : List RelationDirective) (relativePath : Text) : List Text :=
  (relations.flatMap fun r =>
    (if r.parentTable = relativePath then r.parentFields else []) ++
      if r.foreignTable = relativePath then r.foreignFields else []).dedup.insertionSort (· ≤ ·)

def buildEnginePlan (policy : ResolvedPolicy) (hashing : Hashing) (document : Option RelationshipDocument)
    (tables : List (Text × TableSchema)) : Except Raised EnginePlan := do
  let groups := (document.map (numericGroups hashing)).getD []
  let directives ← tables.mapM (tableDirective policy groups)
  let relations ← ((document.map RelationshipDocument.effectiveGroups).getD []).mapM (relationDirective groups)
  let transformed := directives.flatMap TableDirective.transformed
  return {
    tables := directives.map fun t => { t with relationFields := relationFieldsOf relations t.relativePath }
    relations
    textPresent := transformed.any fun d => d.numericDomainId = none ∧ d.action = .pseudonymizeReversible
    numericPresent := transformed.any (·.numericDomainId.isSome)
    temporalPresent := transformed.any fun d => d.numericDomainId = none ∧ d.action = .shiftReversible }

end DbfAnonymizer.Engine
