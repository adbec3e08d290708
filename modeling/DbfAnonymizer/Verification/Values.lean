import DbfAnonymizer.Transforms.Memo
import DbfAnonymizer.Transforms.Temporal
import DbfAnonymizer.Vault.State
import DbfAnonymizer.Verification.Findings

/-! The field-policy ledger check and the postcondition of one record pair. -/
namespace DbfAnonymizer.Verification
open Transforms Vault Lib

/-- The logical schema facts that both sides must share. -/
def schemaFacts (schema : TableSchema) : List (Text × Char × ℕ × ℕ × Bool) × Text × ℤ :=
  (schema.fields.map fun f => (f.name, f.dbfType.toUpper, f.length, f.decimalCount, f.isMemo),
    schema.encoding, schema.languageDriver)

/-- The ledger facts a schema expects of a field name; a repeated name keeps its last field. -/
def ledgerFacts (schema : TableSchema) (name : Text) : Option (Char × ℕ × Text) :=
  (schema.fields.reverse.find? fun f => f.name = name ∧ f.isSystemType = false).map fun f =>
    (f.dbfType.toUpper, f.length, schema.encoding)

/-- The domain an action may be bound to. -/
def domainAgrees (vault : VaultState) (action : Action) (domainId : Option Text) : Bool :=
  match action, domainId with
  | .keep, domainId => domainId.isNone
  | .maskReversible, domainId => domainId.isNone
  | .pseudonymizeReversible, none => false
  | .pseudonymizeReversible, some domainId =>
    vault.domainKind domainId == some .text || vault.domainKind domainId == some .numericKey
  | .shiftReversible, none => true
  | .shiftReversible, some domainId => vault.domainKind domainId == some .temporal

/-- The findings of one ledger row whose name has no earlier row. -/
def ledgerRowFindings (schema : TableSchema) (vault : VaultState) (row : FieldRow) : List FindingCode :=
  match ledgerFacts schema row.name with
  | none => [.policyBindingMismatch]
  | some facts =>
    failWhen ((row.dbfType, row.width, row.encoding) ≠ facts) .policyBindingMismatch ++
      match row.transformAction with
      | none => [.policyBindingMismatch]
      | some action => failWhen (domainAgrees vault action row.mappingDomainId = false) .policyBindingMismatch

/-- The ledger check: the bindings by name, and its findings. -/
def verifyFieldLedger (schema : TableSchema) (vault : VaultState) (rows : List FieldRow) :
    List FieldRow × List FindingCode :=
  let scanned := rows.foldl (fun (acc : List FieldRow × List FindingCode) row =>
    if row.name ∈ acc.1.map FieldRow.name then (acc.1, acc.2 ++ [.policyBindingMismatch])
    else (acc.1 ++ [row], acc.2 ++ ledgerRowFindings schema vault row)) ([], [])
  let names := schema.applicationFields.map FieldInfo.name
  (scanned.1, scanned.2 ++ names.dedup.flatMap fun name =>
    failWhen (name ∉ scanned.1.map FieldRow.name) .policyBindingMissing)

def verifyTextValue (vault : VaultState) (domainId : Text) (source output : Value) : List FindingCode :=
  if source.isNullOrEmpty then failWhen (output.pyEq source = false) .nullSemanticsMismatch
  else match output with
    | .text pseudonym =>
      if output.pyEq source then [.originalValueSurvived]
      else failWhen ((vault.textOriginal domainId pseudonym).map Value.text ≠ some source) .textMappingMismatch
    | _ => [.nullSemanticsMismatch]

def verifyNumericValue (vault : VaultState) (domainId : Text) (source output : Value) :
    Except Raised (List FindingCode) :=
  match source, output with
  | .null, output => .ok (failWhen (output ≠ .null) .nullSemanticsMismatch)
  | _, .null => .ok [.nullSemanticsMismatch]
  | source, .int pseudonym =>
    if (Value.int pseudonym).pyEq source then .ok [.originalValueSurvived]
    else match source with
      | .int original =>
        .ok (failWhen (vault.numericOriginal domainId pseudonym ≠ some original) .numericMappingMismatch)
      | _ => .error (.typeError "an exact integer key value must be an int (never bool/float)")
  | _, _ => .ok [.numericMappingMismatch]

def verifyMemoValue (vault : VaultState) (dbfType : Char) (source output : Value) (tableId : Text)
    (physicalIndex : ℕ) (fieldId : Text) : Except Raised (List FindingCode) :=
  if source = .null then .ok (failWhen (output ≠ .null) .nullSemanticsMismatch)
  else if output = .null then .ok [.nullSemanticsMismatch]
  else match vault.memoRecoveryRow tableId physicalIndex fieldId with
    | none => .ok [.memoRecoveryRowMissing]
    | some payload =>
      let sameKind : Bool := match payload, output with
        | .text _, .text _ => true
        | .binary _, .binary _ => true
        | _, _ => false
      if !sameKind ∨ payload.logical.pyEq source = false ∨ output.pyEq payload.logical then
        .ok [.memoPayloadMismatch]
      else do
        let mask ← maskMemoValue dbfType payload.logical
        return failWhen (output.pyEq mask = false) .memoPayloadMismatch

def verifyTemporalValue (vault : VaultState) (domainId : Option Text) (source output : Value) :
    Except Raised (List FindingCode) :=
  match vault.temporalParameter domainId with
  | none => .ok (failWhen (output.pyEq source = false) .temporalValueMismatch)
  | some offset =>
    if offset = 0 then .error (verificationFailure "VAULT_UNREADABLE")
    else do
      let shifted ← temporalShift source offset
      return failWhen (output.pyEq shifted = false) .temporalValueMismatch

/-- The postcondition of one field under its ledger binding. -/
def verifyFieldValue (vault : VaultState) (tableId : Text) (physicalIndex : ℕ) (binding : FieldRow)
    (source output : Value) : Except Raised (List FindingCode) :=
  match binding.transformAction with
  | none => .ok [.policyBindingMismatch]
  | some .keep => .ok (failWhen (source.pyEq output = false) .identityValueMismatch)
  | some .maskReversible =>
    verifyMemoValue vault binding.dbfType source output tableId physicalIndex binding.fieldId
  | some .shiftReversible => verifyTemporalValue vault binding.mappingDomainId source output
  | some .pseudonymizeReversible =>
    if binding.mappingDomainId.any (vault.domainKind · == some .numericKey) then
      verifyNumericValue vault (binding.mappingDomainId.getD []) source output
    else .ok (verifyTextValue vault (binding.mappingDomainId.getD []) source output)

def verifyRecordValues (schema : TableSchema) (vault : VaultState) (tableId : Text) (bindings : List FieldRow)
    (physicalIndex : ℕ) (source output : Values) : Except Raised (List FindingCode) := do
  let findings ← schema.applicationFields.mapM fun field =>
    match bindings.find? (·.name = field.name) with
    | none => .ok [.policyBindingMissing]
    | some binding =>
      verifyFieldValue vault tableId physicalIndex binding (source field.name) (output field.name)
  return findings.flatten

end DbfAnonymizer.Verification
