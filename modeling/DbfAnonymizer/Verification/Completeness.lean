import DbfAnonymizer.Lib.Outcome
import DbfAnonymizer.Vault.FieldImage
import DbfAnonymizer.Verification.Tables
import DbfAnonymizer.Verification.ValueSoundness

/-! What the verification passes: complete ledgers, and values that were mapped through the vault. -/
namespace DbfAnonymizer.Verification
open Transforms Vault Lib

section Scan
variable {schema : TableSchema} {vault : VaultState} {rows : List FieldRow}

theorem verifyFieldLedger_of_nodup (hnodup : (rows.map FieldRow.name).Nodup)
    (hnames : ∀ field ∈ schema.applicationFields, field.name ∈ rows.map FieldRow.name) :
    verifyFieldLedger schema vault rows = (rows, rows.flatMap (ledgerRowFindings schema vault)) := by
  have hscan : ∀ (rest done : List FieldRow) (findings : List FindingCode), ((done ++ rest).map FieldRow.name).Nodup →
      rest.foldl (fun (acc : List FieldRow × List FindingCode) row =>
        if row.name ∈ acc.1.map FieldRow.name then (acc.1, acc.2 ++ [.policyBindingMismatch])
        else (acc.1 ++ [row], acc.2 ++ ledgerRowFindings schema vault row)) (done, findings) =
          (done ++ rest, findings ++ rest.flatMap (ledgerRowFindings schema vault)) := by
    intro rest
    induction rest with
    | nil => simp
    | cons row rest ih =>
      intro done findings hdone
      have hfresh : row.name ∉ done.map FieldRow.name := by
        rw [List.map_append, List.nodup_append] at hdone
        exact fun hmem => hdone.2.2 _ hmem row.name (by simp) rfl
      rw [List.foldl_cons, if_neg hfresh, ih (done ++ [row]) _ (by simpa using hdone)]
      simp
  have hmissing : (schema.applicationFields.map FieldInfo.name).dedup.flatMap (fun name =>
      failWhen (name ∉ rows.map FieldRow.name) .policyBindingMissing) = [] := by
    rw [List.flatMap_eq_nil_iff]
    intro name hname
    obtain ⟨field, hfield, rfl⟩ := List.mem_map.mp (List.mem_dedup.mp hname)
    rw [failWhen_eq_nil, not_not]
    exact hnames field hfield
  have hall := hscan rows [] [] (by simpa using hnodup)
  rw [List.nil_append, List.nil_append] at hall
  unfold verifyFieldLedger
  dsimp only
  rw [hall]
  dsimp only
  rw [hmissing, List.append_nil]

theorem ledgerFacts_of_mem (hnodup : (schema.fields.map FieldInfo.name).Nodup) {field : FieldInfo}
    (hfield : field ∈ schema.applicationFields) :
    ledgerFacts schema field.name = some (field.dbfType.toUpper, field.length, schema.encoding) := by
  obtain ⟨hmem, hsystem⟩ := List.mem_filter.mp hfield
  unfold ledgerFacts
  cases hfind : schema.fields.reverse.find? fun f => f.name = field.name ∧ f.isSystemType = false with
  | none =>
    have hnone := List.find?_eq_none.mp hfind field (List.mem_reverse.mpr hmem)
    simp [hsystem] at hnone
  | some other =>
    have hother := List.mem_reverse.mp (List.mem_of_find?_eq_some hfind)
    have hname := List.find?_some hfind
    rw [decide_eq_true_eq] at hname
    rw [List.inj_on_of_nodup_map hnodup hother hmem hname.1, Option.map_some]

theorem applicationFields_congr {schema' : TableSchema} (h : schemaFacts schema = schemaFacts schema') :
    schema'.applicationFields.map FieldInfo.name = schema.applicationFields.map FieldInfo.name ∧
      ledgerFacts schema' = ledgerFacts schema := by
  rw [schemaFacts, schemaFacts, Prod.mk.injEq, Prod.mk.injEq] at h
  obtain ⟨hfields, hencoding, -⟩ := h
  have hall : List.Forall₂ (fun f g : FieldInfo => f.name = g.name ∧ f.dbfType.toUpper = g.dbfType.toUpper ∧
      f.length = g.length) schema.fields schema'.fields := by
    rw [← List.forall₂_eq_eq_eq, List.forall₂_map_left_iff, List.forall₂_map_right_iff] at hfields
    refine hfields.imp ?_
    intro f g hfg
    rw [Prod.mk.injEq, Prod.mk.injEq, Prod.mk.injEq] at hfg
    exact ⟨hfg.1, hfg.2.1, hfg.2.2.1⟩
  have hsystem : ∀ f g : FieldInfo, f.dbfType.toUpper = g.dbfType.toUpper → f.isSystemType = g.isSystemType := by
    intro f g htype
    rw [FieldInfo.isSystemType, FieldInfo.isSystemType, htype]
  constructor
  · unfold TableSchema.applicationFields
    clear hfields
    generalize schema.fields = fields at hall ⊢
    generalize schema'.fields = fields' at hall ⊢
    induction hall with
    | nil => rfl
    | @cons f g fields fields' hhead _ ih =>
      rw [List.filter_cons, List.filter_cons, hsystem f g hhead.2.1]
      split_ifs
      · rw [List.map_cons, List.map_cons, ih, hhead.1]
      · exact ih
  · funext name
    unfold ledgerFacts
    rw [hencoding]
    have hreverse := List.rel_reverse hall
    clear hfields hall
    generalize schema.fields.reverse = fields at hreverse ⊢
    generalize schema'.fields.reverse = fields' at hreverse ⊢
    induction hreverse with
    | nil => rfl
    | @cons f g fields fields' hhead _ ih =>
      rw [List.find?_cons, List.find?_cons, hsystem f g hhead.2.1, hhead.1]
      split
      · rw [Option.map_some, Option.map_some, hhead.2.1, hhead.2.2]
      · exact ih

theorem verifyFieldLedger_congr {schema' : TableSchema} (h : schemaFacts schema = schemaFacts schema') :
    verifyFieldLedger schema' vault rows = verifyFieldLedger schema vault rows := by
  obtain ⟨hnames, hfacts⟩ := applicationFields_congr h
  unfold verifyFieldLedger ledgerRowFindings
  rw [hnames, hfacts]

end Scan

section Values
variable {vault : VaultState} {domainId tableId fieldId : Text} {physicalIndex : ℕ} {dbfType : Char} {source output : Value}

theorem verifyTextValue_kept (h : source.isNullOrEmpty = true) : verifyTextValue vault domainId source source = [] := by
  have hnan : source ≠ .nan := by
    intro hsource
    simp [hsource, Value.isNullOrEmpty] at h
  unfold verifyTextValue
  rw [if_pos h, (Value.pyEq_self source).mpr hnan]
  rfl

theorem verifyTextValue_mapped {original pseudonym : Text} (hne : pseudonym ≠ original)
    (hstored : vault.textOriginal domainId pseudonym = some original) (hempty : original ≠ []) :
    verifyTextValue vault domainId (.text original) (.text pseudonym) = [] := by
  have hvalue : (Value.text original).isNullOrEmpty = false := by simp [Value.isNullOrEmpty, hempty]
  have hdiffer : (Value.text pseudonym).pyEq (.text original) = false := by
    rw [Bool.eq_false_iff, Ne, Value.pyEq_text_right]
    simpa using hne
  unfold verifyTextValue
  rw [hvalue, if_neg Bool.false_ne_true]
  dsimp only
  rw [hdiffer, if_neg Bool.false_ne_true, failWhen_eq_nil, hstored]
  exact not_not.mpr rfl

theorem verifyNumericValue_mapped {original pseudonym : ℤ} (hne : pseudonym ≠ original)
    (hstored : vault.numericOriginal domainId pseudonym = some original) :
    verifyNumericValue vault domainId (.int original) (.int pseudonym) = .ok [] := by
  have hdiffer : (Value.int pseudonym).pyEq (.int original) = false := by simp [Value.pyEq, Value.number?, hne]
  unfold verifyNumericValue
  simp [hdiffer, hstored]

theorem verifyMemoValue_masked {payload : MemoPayload}
    (hstored : vault.memoRecoveryRow tableId physicalIndex fieldId = some payload)
    (hmask : maskMemoValue dbfType payload.logical = .ok output) (hne : output ≠ payload.logical) :
    verifyMemoValue vault dbfType payload.logical output tableId physicalIndex fieldId = .ok [] := by
  have hdiffer : output.pyEq payload.logical = false := by
    rw [Bool.eq_false_iff, pyEq_comm]
    exact fun heq => hne (eq_of_pyEq (logical_number? payload) heq).symm
  obtain ⟨mask, rfl, hkind⟩ := maskMemoValue_kind hmask
  unfold verifyMemoValue
  rcases hkind with ⟨a, b, rfl, rfl⟩ | ⟨a, b, rfl, rfl⟩
  all_goals
    rw [if_neg Value.noConfusion, if_neg Value.noConfusion, hstored]
    dsimp only [MemoPayload.logical] at hdiffer hmask
    simp [MemoPayload.logical, hdiffer, hmask]

theorem verifyTemporalValue_shifted {offset : ℤ} (hstored : vault.temporalParameter (some domainId) = some offset)
    (hne : offset ≠ 0) (hshift : temporalShift source offset = .ok output) :
    verifyTemporalValue vault (some domainId) source output = .ok [] := by
  unfold verifyTemporalValue
  rw [hstored]
  simp [hne, hshift, ne_nan_of_temporalShift hshift]

/-- What stands for a value passes the check of its field; a kept NaN does not, for it is not equal to itself. -/
theorem verifyFieldValue_image {row : FieldRow} (h : FieldImage vault tableId physicalIndex row source output) :
    verifyFieldValue vault tableId physicalIndex row source output =
      .ok (failWhen (source = .nan) .identityValueMismatch) := by
  by_cases hnan : source = .nan
  · obtain ⟨haction, rfl⟩ := h.of_nan hnan
    rw [verifyFieldValue, haction, hnan]
    rfl
  rw [failWhen_eq_nil.mpr hnan]
  unfold verifyFieldValue
  cases h with
  | kept _ haction =>
    rw [haction]
    simp [hnan]
  | blank _ haction hkind hblank =>
    rw [haction]
    have hnumeric : row.mappingDomainId.any (vault.domainKind · == some .numericKey) = false := by
      cases hdomain : row.mappingDomainId with
      | none => rfl
      | some domainId => simp [hkind domainId hdomain]
    simp only [hnumeric, Bool.false_eq_true, if_false, verifyTextValue_kept hblank]
  | text original pseudonym domainId haction hdomain hkind horiginal _ hne hstored =>
    simp only [haction, hdomain, Option.any_some, hkind]
    rw [if_neg (by decide), Option.getD_some, verifyTextValue_mapped hne hstored horiginal]
  | nullKey domainId haction hdomain hkind => simp [haction, hdomain, hkind, verifyNumericValue]
  | key original pseudonym domainId haction hdomain hkind hne hstored =>
    simp [haction, hdomain, hkind, verifyNumericValue_mapped hne hstored]
  | nullMemo haction => simp [haction, verifyMemoValue]
  | memo payload _ haction hstored hmask hne =>
    rw [haction]
    exact verifyMemoValue_masked hstored hmask hne
  | shifted _ _ domainId offset haction hdomain hstored hne hshift =>
    rw [haction]
    dsimp only
    rw [hdomain]
    exact verifyTemporalValue_shifted hstored hne hshift

/-- A record that stands for another passes the comparison with it, unless one of its values is a NaN. -/
theorem verifyRecordPair_image {schema : TableSchema} {rows : List FieldRow} {record back : DirectRecord}
    (h : RecordImage vault tableId rows schema record back) :
    verifyRecordPair schema vault tableId rows record back = .ok ([], false) ↔ ¬ record.HoldsNan schema := by
  let finding (field : FieldInfo) := failWhen (record.values field.name = .nan) FindingCode.identityValueMismatch
  have hvalues : verifyRecordValues schema vault tableId rows record.physicalIndex record.values back.values =
      .ok (schema.applicationFields.map finding).flatten := by
    unfold verifyRecordValues
    apply bind_eq_ok.mpr
    refine ⟨schema.applicationFields.map finding, mapM_eq_ok_map ?_, rfl⟩
    intro field hfield
    obtain ⟨row, hrow, himage⟩ := h.fields field hfield
    rw [hrow]
    exact verifyFieldValue_image himage
  have hclean : (schema.applicationFields.map finding).flatten = [] ↔ ¬ record.HoldsNan schema := by
    simp [finding, failWhen_eq_nil, DirectRecord.HoldsNan]
  unfold verifyRecordPair
  rw [if_neg (not_not.mpr h.physicalIndex_eq.symm), hvalues, ← hclean]
  simp [h.deleted_eq, failWhen]

end Values
end DbfAnonymizer.Verification
