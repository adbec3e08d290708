import Mathlib
import DbfAnonymizer.Errors

/-! Source field facts, the resolved policy and the field capability matrix. -/
namespace DbfAnonymizer

/-- The public schema facts of one field. -/
structure FieldInfo where
  name : Text
  dbfType : Char
  length : ℕ
  decimalCount : ℕ
  supported : Bool
  isBinary : Bool
  system : Bool
  nocptrans : Bool
  nullable : Bool
  isAutoincrement : Bool
  isMemo : Bool
  deriving DecidableEq, Repr

structure TableSchema where
  fields : List FieldInfo
  encoding : Text
  languageDriver : ℤ
  recordCount : ℕ
  hasStructuralCdx : Bool
  dbcBound : Bool
  dbcBacklinkPath : Option Text
  isDatabaseContainer : Bool
  deriving DecidableEq, Repr

/-- Type-0 fields are writer-owned system state, never application values. -/
def FieldInfo.isSystemType (field : FieldInfo) : Bool := field.dbfType.toUpper == '0'

def TableSchema.applicationFields (schema : TableSchema) : List FieldInfo :=
  schema.fields.filter (·.isSystemType = false)

def TableSchema.hasMemoFields (schema : TableSchema) : Bool := schema.fields.any FieldInfo.isMemo

inductive Action
  | pseudonymizeReversible | maskReversible | shiftReversible | keep
  deriving DecidableEq, Repr

/-- A validated policy merged over the defaults: the action each section selects. -/
structure ResolvedPolicy where
  textDefaultAction : Action
  memoText : Action
  memoBinary : Action
  temporalDate : Action
  temporalDatetime : Action
  text_valid : textDefaultAction = .pseudonymizeReversible ∨ textDefaultAction = .keep
  memoText_valid : memoText = .maskReversible ∨ memoText = .keep
  memoBinary_valid : memoBinary = .maskReversible ∨ memoBinary = .keep
  temporalDate_valid : temporalDate = .shiftReversible ∨ temporalDate = .keep
  temporalDatetime_valid : temporalDatetime = .shiftReversible ∨ temporalDatetime = .keep

def defaultPolicy : ResolvedPolicy where
  textDefaultAction := .pseudonymizeReversible
  memoText := .maskReversible
  memoBinary := .maskReversible
  temporalDate := .shiftReversible
  temporalDatetime := .shiftReversible
  text_valid := .inl rfl
  memoText_valid := .inl rfl
  memoBinary_valid := .inl rfl
  temporalDate_valid := .inl rfl
  temporalDatetime_valid := .inl rfl

/-- One row of the capability matrix; `action` is `none` where the class is kept as it is. -/
structure FieldCapabilityRule where
  action : Option (ResolvedPolicy → Action)
  binaryDescriptorAllowed : Bool
  nocptransAllowed : Bool

def ruleByDbfType (dbfType : Char) : Option FieldCapabilityRule :=
  if dbfType = 'C' ∨ dbfType = 'V' then some ⟨some ResolvedPolicy.textDefaultAction, false, false⟩
  else if dbfType = 'M' then some ⟨some ResolvedPolicy.memoText, false, false⟩
  else if dbfType = 'G' ∨ dbfType = 'P' then some ⟨some ResolvedPolicy.memoBinary, true, true⟩
  else if dbfType = 'D' then some ⟨some ResolvedPolicy.temporalDate, false, true⟩
  else if dbfType = 'T' then some ⟨some ResolvedPolicy.temporalDatetime, false, true⟩
  else if dbfType ∈ ['N', 'F', 'I', 'Y', 'B', 'L'] then some ⟨none, false, true⟩
  else none

/-- The verdict on a field: its transforming action, kept as it is, refused, or writer-managed. -/
inductive FieldCapability
  | transform (action : Action)
  | identity
  | refused
  | writerManaged
  deriving DecidableEq, Repr

def nullFlagsName : Text := ['_', 'N', 'U', 'L', 'L', 'F', 'L', 'A', 'G', 'S']

def classifyFieldCapability (field : FieldInfo) (policy : ResolvedPolicy) : FieldCapability :=
  if field.dbfType = '0' ∧ field.system ∧ field.name.map Char.toUpper = nullFlagsName then .writerManaged
  else if field.system ∨ ¬ field.supported then .refused
  else match ruleByDbfType field.dbfType.toUpper with
    | none => .refused
    | some rule =>
      if field.isBinary ∧ ¬ rule.binaryDescriptorAllowed then .refused
      else if field.nocptrans ∧ ¬ rule.nocptransAllowed then .refused
      else match rule.action with
        | none => .identity
        | some action => if action policy = .keep then .identity else .transform (action policy)

/-- The types an action transforms. -/
def Action.types : Action → List Char
  | .pseudonymizeReversible => ['C', 'V']
  | .maskReversible => ['M', 'G', 'P']
  | .shiftReversible => ['D', 'T']
  | .keep => []

theorem ruleByDbfType_action {dbfType : Char} {rule : FieldCapabilityRule} {policy : ResolvedPolicy}
    {select : ResolvedPolicy → Action} (h : ruleByDbfType dbfType = some rule)
    (ha : rule.action = some select) (hk : select policy ≠ .keep) : dbfType ∈ (select policy).types := by
  unfold ruleByDbfType at h
  split_ifs at h with h1 h2 h3 h4 h5 h6
  · cases h; cases ha
    rw [policy.text_valid.resolve_right hk]
    simpa [Action.types] using h1
  · cases h; cases ha
    rw [policy.memoText_valid.resolve_right hk]
    simp [Action.types, h2]
  · cases h; cases ha
    rw [policy.memoBinary_valid.resolve_right hk]
    rcases h3 with h3 | h3 <;> simp [Action.types, h3]
  · cases h; cases ha
    rw [policy.temporalDate_valid.resolve_right hk]
    simp [Action.types, h4]
  · cases h; cases ha
    rw [policy.temporalDatetime_valid.resolve_right hk]
    simp [Action.types, h5]
  · cases h; cases ha

theorem dbfType_mem_types {field : FieldInfo} {policy : ResolvedPolicy} {action : Action}
    (h : classifyFieldCapability field policy = .transform action) :
    field.dbfType.toUpper ∈ action.types := by
  unfold classifyFieldCapability at h
  split_ifs at h
  cases hrule : ruleByDbfType field.dbfType.toUpper with
  | none => simp [hrule] at h
  | some rule =>
    simp only [hrule] at h
    split_ifs at h
    cases ha : rule.action with
    | none => simp [ha] at h
    | some select =>
      simp only [ha] at h
      split_ifs at h with hk
      cases h
      exact ruleByDbfType_action hrule ha hk

end DbfAnonymizer
