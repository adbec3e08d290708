import DbfAnonymizer.Verification.Dataset

/-! The self-verification of a staged recovery before it is published. -/
namespace DbfAnonymizer.Recovery
open Transforms Vault Lib Verification

def recoveryFailure (detailCode : String) : Raised := .typed .recoveryFailed "recover" detailCode

def refuseStaged (c : Prop) [Decidable c] : Except Raised Unit :=
  refuseIf c (recoveryFailure "RECOVERY_STAGED_INVALID")

/-- Whether the staged value is the original that the vault holds for the pseudonym. -/
def reverseAgrees (vault : VaultState) (domainId : Option Text) (staged pseudonymized : Value) : Bool :=
  if pseudonymized.isNullOrEmpty then staged.pyEq pseudonymized
  else match domainId with
    | none => false
    | some domainId =>
      if vault.domainKind domainId = some .numericKey then
        match staged, pseudonymized with
        | .int original, .int pseudonym => vault.numericOriginal domainId pseudonym = some original
        | _, _ => false
      else match staged, pseudonymized with
        | .text original, .text pseudonym => vault.textOriginal domainId pseudonym = some original
        | _, _ => false

def verifyStagedField (vault : VaultState) (tableId : Text) (physicalIndex : ℕ) (binding : FieldRow)
    (pseudonymized staged : Value) : Except Raised Unit :=
  match binding.transformAction with
  | none => .error (recoveryFailure "RECOVERY_LEDGER_INCOMPLETE")
  | some .keep => refuseStaged (staged.pyEq pseudonymized = false)
  | some .maskReversible =>
    if pseudonymized = .null then refuseStaged (staged ≠ .null)
    else match vault.memoRecoveryRow tableId physicalIndex binding.fieldId with
      | none => .error (recoveryFailure "RECOVERY_STAGED_INVALID")
      | some payload => refuseStaged (staged.pyEq payload.logical = false)
  | some .shiftReversible =>
    match binding.mappingDomainId.bind (vault.temporalParameter ∘ some) with
    | none => refuseStaged (staged.pyEq pseudonymized = false)
    | some offset =>
      if offset = 0 then .error (recoveryFailure "VAULT_UNREADABLE")
      else do
        let recovered ← temporalShift pseudonymized (-offset)
        refuseStaged (staged.pyEq recovered = false)
  | some .pseudonymizeReversible =>
    refuseStaged (reverseAgrees vault binding.mappingDomainId staged pseudonymized = false)

def verifyStagedPair (schema : TableSchema) (vault : VaultState) (tableId : Text) (bindings : List FieldRow)
    (pseudonymized staged : DirectRecord) : Except Raised (List Empty × Bool) := do
  refuseStaged (pseudonymized.physicalIndex ≠ staged.physicalIndex ∨ pseudonymized.deleted ≠ staged.deleted)
  schema.applicationFields.forM fun field =>
    match bindings.find? (·.name = field.name) with
    | none => .error .keyError
    | some binding =>
      verifyStagedField vault tableId pseudonymized.physicalIndex binding (pseudonymized.values field.name)
        (staged.values field.name)
  return ([], false)

/-- The number of record pairs of one staged table, or the refusal. -/
def verifyStagedTable (vault : VaultState) (bindings : List FieldRow) (relativePath : Text)
    (pseudonymized staged : StoredTable) : Except Raised ℕ := do
  refuseStaged (schemaFacts pseudonymized.schema ≠ schemaFacts staged.schema)
  match vault.tableId relativePath with
  | none => throw (recoveryFailure "RECOVERY_LEDGER_INCOMPLETE")
  | some tableId => do
    let run ← lockstep (verifyStagedPair pseudonymized.schema vault tableId bindings) pseudonymized.records
      staged.records
    refuseStaged (run.left.length ≠ 0 ∨ run.right.length ≠ 0)
    return run.scanned

/-- A staged recovery: both datasets, the field ledger by path, and the records written. -/
structure StagedRecovery where
  pseudonymized : DatasetFiles
  staged : DatasetFiles
  vault : VaultState
  ledger : List (Text × List FieldRow)
  expectedRecords : ℕ

namespace StagedRecovery
variable (R : StagedRecovery)

def paths : List Text := R.ledger.map Prod.fst

def verifyLedgerTable (entry : Text × List FieldRow) : Except Raised ℕ := do
  let pseudonymized ← R.pseudonymized.readTable entry.1
  let staged ← R.staged.readTable entry.1
  verifyStagedTable R.vault entry.2 entry.1 pseudonymized staged

def verifyStagedRecovery : Except Raised Unit := do
  let tables ← R.ledger.mapM fun entry => (R.pseudonymized.readTable entry.1).map (entry.1, ·)
  let expected := R.paths ++
    (tables.filter (·.2.schema.hasMemoFields)).map fun t => withSuffix t.1 fptSuffix
  refuseStaged (¬ (R.staged.paths ⊆ expected ∧ expected ⊆ R.staged.paths))
  let scanned ← R.ledger.mapM R.verifyLedgerTable
  refuseStaged (scanned.sum ≠ R.expectedRecords)

end StagedRecovery

theorem verifyStagedPair_eq_ok {schema : TableSchema} {vault : VaultState} {tableId : Text}
    {bindings : List FieldRow} (a b : DirectRecord) (findings : List Empty)
    (h : verifyStagedPair schema vault tableId bindings a b = .ok (findings, true)) : findings ≠ [] := by
  unfold verifyStagedPair at h
  obtain ⟨-, -, h⟩ := bind_eq_ok.mp h
  obtain ⟨-, -, h⟩ := bind_eq_ok.mp h
  cases h

theorem verifyStagedTable_eq_ok {vault : VaultState} {bindings : List FieldRow} {relativePath : Text}
    {pseudonymized staged : StoredTable} {scanned : ℕ}
    (h : verifyStagedTable vault bindings relativePath pseudonymized staged = .ok scanned) :
    LengthsTolerated pseudonymized staged ∧ scanned = staged.records.length := by
  unfold verifyStagedTable at h
  obtain ⟨-, -, h⟩ := bind_eq_ok.mp h
  cases htable : vault.tableId relativePath with
  | none => simp [htable] at h
  | some tableId =>
    simp only [htable] at h
    obtain ⟨run, hrun, h⟩ := bind_eq_ok.mp h
    obtain ⟨_, hrest, h⟩ := bind_eq_ok.mp h
    obtain rfl := Except.ok.inj h
    have hempty : run.findings = [] := by
      cases hf : run.findings with
      | nil => rfl
      | cons x _ => exact x.elim
    obtain ⟨-, rfl⟩ := (lockstep_eq_clean_iff verifyStagedPair_eq_ok).mp ⟨hrun, hempty⟩
    have hlengths := refuseIf_eq_ok.mp hrest
    simp only [Lockstep.clean, List.length_drop] at hlengths ⊢
    unfold LengthsTolerated
    omega

/-- A staged table whose record count differs from the pseudonymized one is refused. -/
theorem StagedRecovery.refused_of_lengths_ne (R : StagedRecovery)
    (htotal : R.expectedRecords = R.pseudonymized.recordTotal R.paths)
    (hne : ∃ path ∈ R.paths, (R.pseudonymized.recordsOf path).length ≠ (R.staged.recordsOf path).length) :
    ∃ e, R.verifyStagedRecovery = .error e := by
  cases hrun : R.verifyStagedRecovery with
  | error e => exact ⟨e, rfl⟩
  | ok u =>
    exfalso
    unfold verifyStagedRecovery at hrun
    obtain ⟨tables, -, hrun⟩ := bind_eq_ok.mp hrun
    obtain ⟨-, -, hrun⟩ := bind_eq_ok.mp hrun
    obtain ⟨scanned, hscanned, hrun⟩ := bind_eq_ok.mp hrun
    have hsum : scanned.sum = R.expectedRecords := not_not.mp (refuseIf_eq_ok.mp hrun)
    have hcounts : ∀ entry ∈ R.ledger, ∀ n, R.verifyLedgerTable entry = .ok n →
        n = (R.staged.recordsOf entry.1).length ∧
          (R.staged.recordsOf entry.1).length ≤ (R.pseudonymized.recordsOf entry.1).length := by
      intro entry _ n hn
      unfold verifyLedgerTable at hn
      obtain ⟨p, hp, hn⟩ := bind_eq_ok.mp hn
      obtain ⟨s, hs, hn⟩ := bind_eq_ok.mp hn
      obtain ⟨hlen, rfl⟩ := verifyStagedTable_eq_ok hn
      rw [DatasetFiles.recordsOf_eq (DatasetFiles.readTable_eq_ok.mp hp),
        DatasetFiles.recordsOf_eq (DatasetFiles.readTable_eq_ok.mp hs)]
      unfold LengthsTolerated at hlen
      omega
    have hmap : scanned = R.ledger.map fun entry => (R.staged.recordsOf entry.1).length :=
      mapM_ok_eq_map hscanned fun entry hentry n _ hn => (hcounts entry hentry n hn).1
    obtain ⟨path, hpath, hlength⟩ := hne
    obtain ⟨entry, hentry, rfl⟩ := List.mem_map.mp hpath
    have hle : ∀ entry ∈ R.ledger,
        (R.staged.recordsOf entry.1).length ≤ (R.pseudonymized.recordsOf entry.1).length := by
      intro entry hentry
      obtain ⟨n, -, hn⟩ := exists_of_mapM_ok hscanned hentry
      exact (hcounts entry hentry n hn).2
    have hlt := List.sum_lt_sum (fun entry : Text × List FieldRow => (R.staged.recordsOf entry.1).length)
      (fun entry => (R.pseudonymized.recordsOf entry.1).length) hle
      ⟨entry, hentry, lt_of_le_of_ne (hle entry hentry) (Ne.symm hlength)⟩
    rw [← hmap, hsum, htotal, DatasetFiles.recordTotal, paths, List.map_map] at hlt
    exact lt_irrefl _ hlt

end DbfAnonymizer.Recovery
