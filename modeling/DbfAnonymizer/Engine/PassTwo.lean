import DbfAnonymizer.Engine.Directives
import DbfAnonymizer.Transforms.Memo
import DbfAnonymizer.Transforms.Temporal
import DbfAnonymizer.Vault.TemporalAllocation

/-! Pass two: every record rewritten through the rows that pass one committed. -/
namespace DbfAnonymizer.Engine
open Transforms Vault Lib

/-- What pass two reads from: the vault, the text domain of pass one and the persisted offset. `render` is
Python's `str` of a value that is no text. -/
structure PassTwoSources where
  vault : VaultState
  textDomainId : Option Text
  temporalOffset : Option ℤ
  render : Value → Text

def PassTwoSources.str (sources : PassTwoSources) : Value → Text
  | .text value => value
  | value => sources.render value

/-- The offset of the default temporal domain; pass two asks for it before any record. -/
def persistedTemporalOffset (vault : VaultState) (domainId : Text) : Except Raised ℤ :=
  match vault.temporalParameter (some domainId) with
  | none => .error (mappingFailure "ENGINE_TEMPORAL_OFFSET_MISSING")
  | some offset => .ok offset

/-- The sources that a plan asks for. -/
def passTwoSources (plan : EnginePlan) (vault : VaultState) (temporalDomainId : Text)
    (textDomainId : Option Text) (render : Value → Text) : Except Raised PassTwoSources := do
  let temporalOffset ← if plan.temporalPresent then
      (persistedTemporalOffset vault temporalDomainId).map some
    else pure none
  return ⟨vault, if plan.textPresent then textDomainId else none, temporalOffset, render⟩

/-- One field of one record. -/
def transformField (sources : PassTwoSources) (directive : FieldDirective) (value : Value) : Except Raised Value :=
  match directive.numericDomainId with
  | some domainId =>
    match value with
    | .null => .ok .null
    | .int original =>
      match sources.vault.numericPseudonym domainId original with
      | none => .error (mappingFailure "ENGINE_NUMERIC_MAPPING_MISSING")
      | some pseudonym => .ok (.int pseudonym)
    | _ => .error (mappingFailure "ENGINE_NUMERIC_VALUE_UNSUPPORTED")
  | none =>
    match directive.action with
    | .pseudonymizeReversible =>
      if value.isNullOrEmpty then .ok value
      else
        match sources.textDomainId with
        | none => .error .assertionError
        | some domainId =>
          match sources.vault.textPseudonym domainId (sources.str value) with
          | none => .error (mappingFailure "ENGINE_TEXT_MAPPING_MISSING")
          | some pseudonym => .ok (.text pseudonym)
    | .maskReversible => maskMemoValue directive.dbfType value
    | .shiftReversible =>
      match sources.temporalOffset with
      | none => .error (mappingFailure "ENGINE_TEMPORAL_OFFSET_MISSING")
      | some offset => temporalShift value offset
    | .keep => .ok value

/-- One directive after the other; each one writes its own field. -/
def transformValues (sources : PassTwoSources) (directives : List FieldDirective) (values : Values) :
    Except Raised Values :=
  directives.foldlM (fun values directive => do
    let value ← transformField sources directive (values directive.fieldName)
    return Function.update values directive.fieldName value) values

/-- The writer derives the system fields again, so their values are left out. -/
def withoutSystemFields (schema : TableSchema) (values : Values) : Values := fun name =>
  if name ∈ (schema.fields.filter FieldInfo.isSystemType).map FieldInfo.name then .null else values name

def transformRecord (sources : PassTwoSources) (schema : TableSchema) (directive : TableDirective)
    (record : DirectRecord) : Except Raised DirectRecord := do
  let values ← transformValues sources directive.transformed (withoutSystemFields schema record.values)
  return { record with values }

end DbfAnonymizer.Engine
