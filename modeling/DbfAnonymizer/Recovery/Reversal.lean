import DbfAnonymizer.Lib.Growth
import DbfAnonymizer.Recovery.Staged
import DbfAnonymizer.Vault.FieldImage

/-! The recovery of a pseudonymized dataset: its authority's ledger, and every value reversed through the vault. -/
namespace DbfAnonymizer.Recovery
open Transforms Vault Lib Verification

/-- The offset of a shifted field's domain. A stored zero is no offset. -/
def reverseOffset (vault : VaultState) (row : FieldRow) : Except Raised (Option ℤ) :=
  match row.mappingDomainId.bind (vault.temporalParameter ∘ some) with
  | none => .ok none
  | some offset => if offset = 0 then .error (recoveryFailure "VAULT_UNREADABLE") else .ok (some offset)

/-- The original of one pseudonymized value. -/
def reverseValue (vault : VaultState) (tableId : Text) (physicalIndex : ℕ) (row : FieldRow) (value : Value) :
    Except Raised Value :=
  match row.transformAction with
  | none => .error (recoveryFailure "RECOVERY_LEDGER_INCOMPLETE")
  | some .keep => .ok value
  | some .maskReversible =>
    if value = .null then .ok .null
    else match vault.memoRecoveryRow tableId physicalIndex row.fieldId with
      | none => .error (recoveryFailure "RECOVERY_RECOVERY_ROW_MISSING")
      | some payload => .ok payload.logical
  | some .shiftReversible => do
    match ← reverseOffset vault row with
    | none => return .null
    | some offset => temporalShift value (-offset)
  | some .pseudonymizeReversible =>
    if value.isNullOrEmpty then .ok value
    else match row.mappingDomainId with
      | none => .error (recoveryFailure "RECOVERY_MAPPING_MISSING")
      | some domainId =>
        if vault.domainKind domainId = some .numericKey then
          match value with
          | .int pseudonym => (required (recoveryFailure "RECOVERY_MAPPING_MISSING")
              (vault.numericOriginal domainId pseudonym)).map .int
          | _ => .error (recoveryFailure "RECOVERY_MAPPING_INVALID")
        else match value with
          | .text pseudonym => (required (recoveryFailure "RECOVERY_MAPPING_MISSING")
              (vault.textOriginal domainId pseudonym)).map .text
          | _ => .error (recoveryFailure "RECOVERY_MAPPING_INVALID")

def recoveredField (vault : VaultState) (tableId : Text) (bindings : List FieldRow) (record : DirectRecord)
    (values : Values) (field : FieldInfo) : Except Raised Values :=
  match bindings.find? (·.name = field.name) with
  | none => .error .keyError
  | some row => do
    let value ← reverseValue vault tableId record.physicalIndex row (record.values field.name)
    return Function.update values field.name value

/-- One recovered record. The writer numbers the records itself. -/
def recoveredRecord (vault : VaultState) (schema : TableSchema) (tableId : Text) (bindings : List FieldRow)
    (record : DirectRecord) : Except Raised DirectRecord := do
  let values ← schema.applicationFields.foldlM (recoveredField vault tableId bindings record) fun _ => .null
  return ⟨0, record.deleted, values⟩

def recoverTable (vault : VaultState) (bindings : List FieldRow) (relativePath : Text) (table : StoredTable) :
    Except Raised (List DirectRecord) :=
  match vault.tableId relativePath with
  | none => .error (recoveryFailure "RECOVERY_LEDGER_INCOMPLETE")
  | some tableId => table.records.mapM (recoveredRecord vault table.schema tableId bindings)

/-- The ledger of every table in the vault, each checked against the pseudonymized table. -/
def recoveryLedger (vault : VaultState) (pseudonymized : DatasetFiles) : Except Raised (List (Text × List FieldRow)) :=
  ((vault.tables.map Prod.fst).insertionSort (· ≤ ·)).mapM fun relativePath => do
    let table ← pseudonymized.readTable relativePath
    let ledger := verifyFieldLedger table.schema vault (vault.fieldRows ((vault.tableId relativePath).getD []))
    refuseIf (ledger.2 ≠ []) (recoveryFailure "RECOVERY_LEDGER_INCOMPLETE")
    return (relativePath, ledger.1)

/-- The recovered records of every table, which must be as many as the run wrote. -/
def recoverTables (vault : VaultState) (pseudonymized : DatasetFiles) (expectedRecords : ℕ)
    (ledger : List (Text × List FieldRow)) : Except Raised (List (Text × List DirectRecord)) := do
  let recovered ← ledger.mapM fun entry => do
    let table ← pseudonymized.readTable entry.1
    let records ← recoverTable vault entry.2 entry.1 table
    return (entry.1, records)
  refuseIf ((recovered.map fun r => r.2.length).sum ≠ expectedRecords) (recoveryFailure "RECOVERY_RECORD_COUNT_MISMATCH")
  return recovered

def recoverDataset (vault : VaultState) (pseudonymized : DatasetFiles) (expectedRecords : ℕ) :
    Except Raised (List (Text × List DirectRecord)) := do
  let ledger ← recoveryLedger vault pseudonymized
  recoverTables vault pseudonymized expectedRecords ledger

section Image
variable {vault : VaultState} {tableId : Text} {physicalIndex : ℕ} {row : FieldRow} {original written : Value}

theorem reverseValue_image (h : FieldImage vault tableId physicalIndex row original written) :
    reverseValue vault tableId physicalIndex row written = .ok original := by
  unfold reverseValue
  cases h with
  | kept _ haction => simp only [haction]
  | blank _ haction _ hblank => simp only [haction, hblank, if_true]
  | text original pseudonym domainId haction hdomain hkind _ hpseudonym _ hstored =>
    have hvalue : (Value.text pseudonym).isNullOrEmpty = false := by simp [Value.isNullOrEmpty, hpseudonym]
    simp [haction, hvalue, hdomain, hkind, hstored, required, Except.map]
  | nullKey domainId haction => simp [haction, Value.isNullOrEmpty]
  | key original pseudonym domainId haction hdomain hkind _ hstored =>
    simp [haction, Value.isNullOrEmpty, hdomain, hkind, hstored, required, Except.map]
  | nullMemo haction => simp [haction]
  | memo payload _ haction hstored hmask _ =>
    obtain ⟨masked, rfl, -⟩ := maskMemoValue_kind hmask
    have hnull : masked.logical ≠ .null := by cases masked <;> exact Value.noConfusion
    simp only [haction, hnull, if_false, hstored]
  | shifted _ _ domainId offset haction hdomain hstored hne hshift =>
    have hreverse := temporalRecover_of_shift hshift
    simp only [haction, reverseOffset, hdomain, Option.bind_some, Function.comp_apply, hstored, hne, if_false, ok_bind]
    exact hreverse

/-- The staged verification accepts a value beside what stands for it, and refuses a kept NaN. -/
theorem verifyStagedField_image (h : FieldImage vault tableId physicalIndex row original written) :
    verifyStagedField vault tableId physicalIndex row written original = refuseStaged (original = .nan) := by
  by_cases hnan : original = .nan
  · obtain ⟨haction, rfl⟩ := h.of_nan hnan
    rw [verifyStagedField, haction, hnan]
    rfl
  have haccepted : refuseStaged (original = .nan) = .ok () := refuseIf_eq_ok.mpr hnan
  rw [haccepted]
  unfold verifyStagedField refuseStaged
  cases h with
  | kept _ haction => simp [haction, refuseIf, hnan]
  | blank _ haction _ hblank => simp [haction, refuseIf, reverseAgrees, hblank, hnan]
  | text original pseudonym domainId haction hdomain hkind _ hpseudonym _ hstored =>
    have hvalue : (Value.text pseudonym).isNullOrEmpty = false := by simp [Value.isNullOrEmpty, hpseudonym]
    simp [haction, refuseIf, reverseAgrees, hvalue, hdomain, hkind, hstored]
  | nullKey domainId haction => simp [haction, refuseIf, reverseAgrees, Value.isNullOrEmpty]
  | key original pseudonym domainId haction hdomain hkind _ hstored =>
    simp [haction, refuseIf, reverseAgrees, Value.isNullOrEmpty, hdomain, hkind, hstored]
  | nullMemo haction => simp [haction, refuseIf]
  | memo payload _ haction hstored hmask _ =>
    obtain ⟨masked, rfl, -⟩ := maskMemoValue_kind hmask
    have hnull : masked.logical ≠ .null := by cases masked <;> exact Value.noConfusion
    simp [haction, hnull, hstored, refuseIf, hnan]
  | shifted _ _ domainId offset haction hdomain hstored hne hshift =>
    have hreverse : temporalShift written (-offset) = .ok original := temporalRecover_of_shift hshift
    simp [haction, hdomain, hstored, hne, hreverse, refuseIf, hnan]

end Image

section Records
variable {vault : VaultState} {schema : TableSchema} {tableId : Text} {bindings : List FieldRow} {record : DirectRecord}

theorem recoveredRecord_image {original : DirectRecord} (h : RecordImage vault tableId bindings schema original record) :
    recoveredRecord vault schema tableId bindings record = .ok ⟨0, original.deleted, fun name =>
      if name ∈ schema.applicationFields.map FieldInfo.name then original.values name else .null⟩ := by
  have hfold : ∀ (fields : List FieldInfo) (values : Values), fields ⊆ schema.applicationFields →
      fields.foldlM (recoveredField vault tableId bindings record) values =
        .ok fun name => if name ∈ fields.map FieldInfo.name then original.values name else values name := by
    intro fields
    induction fields with
    | nil =>
      intro values _
      simp
    | cons field fields ih =>
      intro values hfields
      obtain ⟨hfield, hrest⟩ := List.cons_subset.mp hfields
      obtain ⟨row, hrow, himage⟩ := h.fields field hfield
      have hfirst : recoveredField vault tableId bindings record values field =
          .ok (Function.update values field.name (original.values field.name)) := by
        rw [recoveredField, hrow]
        dsimp only
        rw [h.physicalIndex_eq, reverseValue_image himage]
        rfl
      rw [List.foldlM_cons, hfirst, ok_bind, ih _ hrest, Except.ok.injEq]
      funext name
      by_cases hmem : name ∈ fields.map FieldInfo.name
      · rw [if_pos hmem, List.map_cons, if_pos (List.mem_cons_of_mem _ hmem)]
      · by_cases hname : name = field.name
        · rw [if_neg hmem, hname, Function.update_self, List.map_cons, if_pos List.mem_cons_self]
        · have hnone : name ∉ (field :: fields).map FieldInfo.name := List.not_mem_cons_of_ne_of_not_mem hname hmem
          rw [if_neg hmem, if_neg hnone, Function.update_of_ne hname]
  unfold recoveredRecord
  rw [hfold _ _ (List.Subset.refl _), h.deleted_eq]
  rfl

/-- The staged verification accepts a record with the original's values beside what stands for the original, unless
one of the values is a NaN. -/
theorem verifyStagedPair_image {original staged : DirectRecord}
    (h : RecordImage vault tableId bindings schema original record) (hindex : staged.physicalIndex = original.physicalIndex)
    (hdeleted : staged.deleted = original.deleted)
    (hvalues : ∀ field ∈ schema.applicationFields, staged.values field.name = original.values field.name) :
    (¬ original.HoldsNan schema → verifyStagedPair schema vault tableId bindings record staged = .ok ([], false)) ∧
      (original.HoldsNan schema → verifyStagedPair schema vault tableId bindings record staged =
        .error (recoveryFailure "RECOVERY_STAGED_INVALID")) := by
  have hplace : ¬ (record.physicalIndex ≠ staged.physicalIndex ∨ record.deleted ≠ staged.deleted) := by
    rw [h.physicalIndex_eq, h.deleted_eq, hindex, hdeleted]
    simp
  let check (field : FieldInfo) : Except Raised Unit :=
    match bindings.find? (·.name = field.name) with
    | none => .error .keyError
    | some binding =>
      verifyStagedField vault tableId record.physicalIndex binding (record.values field.name) (staged.values field.name)
  have hcheck : ∀ field ∈ schema.applicationFields, check field = refuseStaged (original.values field.name = .nan) := by
    intro field hfield
    obtain ⟨row, hrow, himage⟩ := h.fields field hfield
    dsimp only [check]
    rw [hrow]
    dsimp only
    rw [h.physicalIndex_eq, hvalues field hfield]
    exact verifyStagedField_image himage
  have hpair : verifyStagedPair schema vault tableId bindings record staged =
      (schema.applicationFields.forM check >>= fun _ => .ok ([], false)) := by
    unfold verifyStagedPair refuseStaged
    rw [refuseIf_bind_neg hplace]
    rfl
  rw [hpair]
  constructor
  · intro hnone
    have hall : schema.applicationFields.forM check = .ok () := by
      rw [forM_eq_ok_iff]
      intro field hfield
      rw [hcheck field hfield]
      exact refuseIf_eq_ok.mpr fun hnan => hnone ⟨field, hfield, hnan⟩
    rw [hall, ok_bind]
  · intro hnan
    obtain ⟨field, hfield, hnan⟩ := hnan
    have hrefused : schema.applicationFields.forM check = .error (recoveryFailure "RECOVERY_STAGED_INVALID") := by
      apply forM_eq_error
      · intro field hfield
        rw [hcheck field hfield, refuseStaged, refuseIf]
        split_ifs
        · exact Or.inr rfl
        · exact Or.inl rfl
      · refine ⟨field, hfield, ?_⟩
        rw [hcheck field hfield, refuseStaged, refuseIf, if_pos hnan]
    rw [hrefused, error_bind]

theorem verifyStagedTable_of_pairs {relativePath : Text} {pseudonymized staged : StoredTable}
    (hfacts : schemaFacts pseudonymized.schema = schemaFacts staged.schema)
    (htable : vault.tableId relativePath = some tableId)
    (hpairs : List.Forall₂ (fun a b => verifyStagedPair pseudonymized.schema vault tableId bindings a b = .ok ([], false))
      pseudonymized.records staged.records) :
    verifyStagedTable vault bindings relativePath pseudonymized staged = .ok staged.records.length := by
  have hlength := hpairs.length_eq
  obtain ⟨hrun, -⟩ := (lockstep_eq_clean_iff verifyStagedPair_eq_ok).mpr
    ⟨fun p hp => (List.forall₂_iff_zip.mp hpairs).2 hp, rfl⟩
  let run : Lockstep Empty DirectRecord DirectRecord := .clean pseudonymized.records staged.records
  have hrest : ¬ (run.left.length ≠ 0 ∨ run.right.length ≠ 0) := by simp [run, Lockstep.clean, hlength]
  unfold verifyStagedTable refuseStaged
  rw [refuseIf_bind_neg (not_not.mpr hfacts), htable]
  dsimp only
  rw [hrun, ok_bind, refuseIf_bind_neg hrest]
  simp [Lockstep.clean, hlength]

theorem verifyStagedTable_of_refused {relativePath : Text} {pseudonymized staged : StoredTable} {e : Raised}
    (hfacts : schemaFacts pseudonymized.schema = schemaFacts staged.schema)
    (htable : vault.tableId relativePath = some tableId)
    (hpairs : ∀ p ∈ pseudonymized.records.zip staged.records,
      verifyStagedPair pseudonymized.schema vault tableId bindings p.1 p.2 = .ok ([], false) ∨
        verifyStagedPair pseudonymized.schema vault tableId bindings p.1 p.2 = .error e)
    (hrefused : ∃ p ∈ pseudonymized.records.zip staged.records,
      verifyStagedPair pseudonymized.schema vault tableId bindings p.1 p.2 = .error e) :
    verifyStagedTable vault bindings relativePath pseudonymized staged = .error e := by
  unfold verifyStagedTable refuseStaged
  rw [refuseIf_bind_neg (not_not.mpr hfacts), htable]
  dsimp only
  rw [lockstep_eq_error hpairs hrefused, error_bind]

end Records
end DbfAnonymizer.Recovery
