import DbfAnonymizer.Lib.Lockstep
import DbfAnonymizer.Verification.Values

/-! The streamed comparison of one table, and exactly when it has no finding. -/
namespace DbfAnonymizer.Verification
open Transforms Vault Lib

def dbcCoupled (schema : TableSchema) : Bool :=
  schema.dbcBound || schema.dbcBacklinkPath.isSome || schema.isDatabaseContainer

/-- Compares one record pair; differing physical positions end the comparison. -/
def verifyRecordPair (schema : TableSchema) (vault : VaultState) (tableId : Text) (bindings : List FieldRow)
    (source output : DirectRecord) : Except Raised (List FindingCode × Bool) :=
  if source.physicalIndex ≠ output.physicalIndex then .ok ([.recordOrderMismatch], true)
  else do
    let values ← verifyRecordValues schema vault tableId bindings source.physicalIndex source.values
      output.values
    return (failWhen (source.deleted ≠ output.deleted) .deletedMarkerMismatch ++ values, false)

/-- The failures of one table and the number of record pairs scanned. -/
def verifyTable (vault : VaultState) (relativePath : Text) (source output : StoredTable) :
    Except Raised (List FindingCode × ℕ) :=
  if dbcCoupled output.schema then .ok ([.outputDbcCouplingPresent], 0)
  else if schemaFacts source.schema ≠ schemaFacts output.schema then .ok ([.schemaMismatch], 0)
  else match vault.tableId relativePath with
    | none => .ok ([.policyBindingMissing], 0)
    | some tableId => do
      let ledger := verifyFieldLedger source.schema vault (vault.fieldRows tableId)
      let run ← lockstep (verifyRecordPair source.schema vault tableId ledger.1) source.records output.records
      return (ledger.2 ++ run.findings ++
        failWhen (run.left.length ≠ 0 ∨ run.right.length ≠ 0) .recordCountMismatch, run.scanned)

/-- Everything that the comparison checks of a table apart from the lengths of its streams. -/
structure CleanTable (vault : VaultState) (relativePath : Text) (source output : StoredTable) : Prop where
  uncoupled : dbcCoupled output.schema = false
  sameSchema : schemaFacts source.schema = schemaFacts output.schema
  registered : ∃ tableId, vault.tableId relativePath = some tableId ∧
    (verifyFieldLedger source.schema vault (vault.fieldRows tableId)).2 = [] ∧
      ∀ p ∈ source.records.zip output.records,
        verifyRecordPair source.schema vault tableId
          (verifyFieldLedger source.schema vault (vault.fieldRows tableId)).1 p.1 p.2 = .ok ([], false)

/-- The streams have one length, or the source has exactly one record more. -/
def LengthsTolerated (source output : StoredTable) : Prop :=
  source.records.length = output.records.length ∨ source.records.length = output.records.length + 1

theorem verifyRecordPair_stop {schema : TableSchema} {vault : VaultState} {tableId : Text}
    {bindings : List FieldRow} (a b : DirectRecord) (findings : List FindingCode)
    (h : verifyRecordPair schema vault tableId bindings a b = .ok (findings, true)) : findings ≠ [] := by
  unfold verifyRecordPair at h
  split_ifs at h with hindex
  · cases h
    simp
  · obtain ⟨values, -, h⟩ := bind_eq_ok.mp h
    cases h

theorem verifyTable_clean_iff {vault : VaultState} {relativePath : Text} {source output : StoredTable}
    {scanned : ℕ} :
    verifyTable vault relativePath source output = .ok ([], scanned) ↔
      CleanTable vault relativePath source output ∧ LengthsTolerated source output ∧
        scanned = output.records.length := by
  unfold verifyTable
  constructor
  · intro h
    split_ifs at h with hdbc hschema
    · cases h
    · cases h
    · cases htable : vault.tableId relativePath with
      | none => simp [htable] at h
      | some tableId =>
        simp only [htable] at h
        obtain ⟨run, hrun, h⟩ := bind_eq_ok.mp h
        obtain ⟨hfindings, rfl⟩ := Prod.mk.inj (Except.ok.inj h)
        obtain ⟨hchecked, hcount⟩ := List.append_eq_nil_iff.mp hfindings
        obtain ⟨hledger, hpairs⟩ := List.append_eq_nil_iff.mp hchecked
        obtain ⟨hall, rfl⟩ := (lockstep_eq_clean_iff verifyRecordPair_stop).mp ⟨hrun, hpairs⟩
        rw [failWhen_eq_nil] at hcount
        simp only [Lockstep.clean, List.length_drop] at hcount ⊢
        have hlengths : LengthsTolerated source output := by
          unfold LengthsTolerated
          omega
        refine ⟨⟨Bool.eq_false_iff.mpr hdbc, not_not.mp hschema, tableId, htable, hledger, hall⟩, hlengths, ?_⟩
        unfold LengthsTolerated at hlengths
        omega
  · rintro ⟨⟨hdbc, hschema, tableId, htable, hledger, hall⟩, hlengths, rfl⟩
    obtain ⟨hrun, hnil⟩ := (lockstep_eq_clean_iff verifyRecordPair_stop).mpr ⟨hall, rfl⟩
    have hmin : min source.records.length output.records.length = output.records.length := by
      unfold LengthsTolerated at hlengths
      omega
    have hcount : failWhen ((source.records.drop (output.records.length + 1)).length ≠ 0 ∨
        (output.records.drop source.records.length).length ≠ 0) FindingCode.recordCountMismatch = [] := by
      rw [failWhen_eq_nil, List.length_drop, List.length_drop]
      unfold LengthsTolerated at hlengths
      omega
    simp only [hdbc, hschema, htable, hrun, hledger, ok_bind, pure_eq_ok]
    simp [Lockstep.clean, hmin] at hcount ⊢
    exact hcount

end DbfAnonymizer.Verification
