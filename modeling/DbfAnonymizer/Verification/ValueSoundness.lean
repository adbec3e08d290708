import DbfAnonymizer.Lib.Outcome
import DbfAnonymizer.Verification.Values

/-! The values that the verifier passes meet the postcondition of their field, for every vault. -/
namespace DbfAnonymizer.Verification
open Transforms Vault Lib

/-- A pseudonymized text: NULL and the empty text are kept, any other value is replaced by a text whose row
has it as the original. -/
def TextPostcondition (vault : VaultState) (domainId : Text) (source output : Value) : Prop :=
  ((source = .null ∨ source = .text []) ∧ output = source) ∨
    ∃ original pseudonym, source = .text original ∧ output = .text pseudonym ∧ output ≠ source ∧
      vault.textOriginal domainId pseudonym = some original

def NumericPostcondition (vault : VaultState) (domainId : Text) (source output : Value) : Prop :=
  (source = .null ∧ output = .null) ∨
    ∃ original pseudonym, source = .int original ∧ output = .int pseudonym ∧ output ≠ source ∧
      vault.numericOriginal domainId pseudonym = some original

/-- A masked memo: the stored payload is the source, and the output is its mask, which is something else. -/
def MemoPostcondition (vault : VaultState) (dbfType : Char) (tableId : Text) (physicalIndex : ℕ) (fieldId : Text)
    (source output : Value) : Prop :=
  (source = .null ∧ output = .null) ∨
    (output ≠ .null ∧ ∃ payload, vault.memoRecoveryRow tableId physicalIndex fieldId = some payload ∧
      payload.logical = source ∧ maskMemoValue dbfType payload.logical = .ok output ∧ output ≠ payload.logical)

/-- A shifted value under the offset that the vault gives for the domain, and the source itself without one.
For a field without a domain that is the offset of the first temporal row. -/
def TemporalPostcondition (vault : VaultState) (domainId : Option Text) (source output : Value) : Prop :=
  match vault.temporalParameter domainId with
  | some offset => temporalShift source offset = .ok output
  | none => output.pyEq source = true

/-- What the ledger binding of a field asks of an output value. -/
def FieldPostcondition (vault : VaultState) (tableId : Text) (physicalIndex : ℕ) (binding : FieldRow)
    (source output : Value) : Prop :=
  match binding.transformAction with
  | none => False
  | some .keep => source.pyEq output = true
  | some .maskReversible =>
    MemoPostcondition vault binding.dbfType tableId physicalIndex binding.fieldId source output
  | some .shiftReversible => TemporalPostcondition vault binding.mappingDomainId source output
  | some .pseudonymizeReversible =>
    if binding.mappingDomainId.any (vault.domainKind · == some .numericKey) then
      NumericPostcondition vault (binding.mappingDomainId.getD []) source output
    else TextPostcondition vault (binding.mappingDomainId.getD []) source output

section PyEq
variable {a b : Value}

theorem pyEq_comm : a.pyEq b = b.pyEq a := by
  unfold Value.pyEq
  cases a.number? with
  | none =>
    cases b.number? with
    | none =>
      rw [Bool.eq_iff_iff, decide_eq_true_iff, decide_eq_true_iff]
      constructor
      · intro h
        exact ⟨h.2 ▸ h.1, h.2.symm⟩
      · intro h
        exact ⟨h.2 ▸ h.1, h.2.symm⟩
    | some y => rfl
  | some x =>
    cases b.number? with
    | none => rfl
    | some y => simp [eq_comm]

theorem eq_of_pyEq (hnumber : a.number? = none) (h : a.pyEq b = true) : a = b := by
  unfold Value.pyEq at h
  rw [hnumber] at h
  cases hb : b.number? with
  | none =>
    rw [hb] at h
    exact (of_decide_eq_true h).2
  | some y =>
    rw [hb] at h
    cases h

theorem logical_number? (payload : MemoPayload) : payload.logical.number? = none := by
  cases payload with
  | text value => rfl
  | binary value => rfl

theorem number?_of_temporalShift {offset : ℤ} (h : temporalShift a offset = .ok b) : b.number? = none := by
  cases a with
  | null =>
    cases h
    rfl
  | datetime day time =>
    cases hs : CalendarDay.shift day offset with
    | error e => simp [temporalShift, hs, Except.map] at h
    | ok day' =>
      simp only [temporalShift, hs, Except.map, Except.ok.injEq] at h
      rw [← h]
      rfl
  | date day =>
    cases hs : CalendarDay.shift day offset with
    | error e => simp [temporalShift, hs, Except.map] at h
    | ok day' =>
      simp only [temporalShift, hs, Except.map, Except.ok.injEq] at h
      rw [← h]
      rfl
  | _ => cases h

end PyEq

section Values
variable {vault : VaultState} {domainId tableId fieldId : Text} {physicalIndex : ℕ} {dbfType : Char}
  {source output : Value}

theorem textPostcondition_of_clean (h : verifyTextValue vault domainId source output = []) :
    TextPostcondition vault domainId source output := by
  unfold verifyTextValue at h
  by_cases hempty : source.isNullOrEmpty = true
  · rw [if_pos hempty, failWhen_eq_nil, Bool.not_eq_false] at h
    have hkept : source = .null ∨ source = .text [] := by simpa [Value.isNullOrEmpty] using hempty
    refine Or.inl ⟨hkept, ?_⟩
    rcases hkept with rfl | rfl
    · exact (Value.pyEq_null_right output).mp h
    · exact (Value.pyEq_text_right output []).mp h
  · rw [if_neg hempty] at h
    cases output with
    | text pseudonym =>
      dsimp only at h
      by_cases hsurvived : (Value.text pseudonym).pyEq source = true
      · rw [if_pos hsurvived] at h
        cases h
      · rw [if_neg hsurvived, failWhen_eq_nil, not_not] at h
        obtain ⟨original, horiginal, hsource⟩ := Option.map_eq_some_iff.mp h
        refine Or.inr ⟨original, pseudonym, hsource.symm, rfl, ?_, horiginal⟩
        intro heq
        rw [heq] at hsurvived
        exact hsurvived ((Value.pyEq_self source).mpr (by rw [← hsource]; exact Value.noConfusion))
    | _ => cases h

theorem numericPostcondition_of_clean (h : verifyNumericValue vault domainId source output = .ok []) :
    NumericPostcondition vault domainId source output := by
  unfold verifyNumericValue at h
  split at h
  · rw [Except.ok.injEq, failWhen_eq_nil, not_not] at h
    exact Or.inl ⟨rfl, h⟩
  · cases h
  · next pseudonym hsource =>
    by_cases hsurvived : (Value.int pseudonym).pyEq source = true
    · rw [if_pos hsurvived] at h
      cases h
    · rw [if_neg hsurvived] at h
      split at h
      · next original =>
        rw [Except.ok.injEq, failWhen_eq_nil, not_not] at h
        refine Or.inr ⟨original, pseudonym, rfl, rfl, ?_, h⟩
        intro heq
        rw [heq] at hsurvived
        exact hsurvived ((Value.pyEq_self _).mpr Value.noConfusion)
      · cases h
  · cases h

theorem memo_mask_number? {payload : MemoPayload} {mask : Value}
    (h : maskMemoValue dbfType payload.logical = .ok mask) : mask.number? = none := by
  unfold maskMemoValue at h
  split at h
  · cases h
  · cases payload with
    | text value =>
      dsimp only [MemoPayload.logical] at h
      split at h
      · cases h
      · rw [← Except.ok.inj h]
        rfl
    | binary value =>
      rw [← Except.ok.inj h]
      rfl

theorem memoPostcondition_of_clean
    (h : verifyMemoValue vault dbfType source output tableId physicalIndex fieldId = .ok []) :
    MemoPostcondition vault dbfType tableId physicalIndex fieldId source output := by
  unfold verifyMemoValue at h
  by_cases hsource : source = .null
  · rw [if_pos hsource, Except.ok.injEq, failWhen_eq_nil, not_not] at h
    exact Or.inl ⟨hsource, h⟩
  · by_cases houtput : output = .null
    · rw [if_neg hsource, if_pos houtput] at h
      cases h
    · rw [if_neg hsource, if_neg houtput] at h
      cases hpayload : vault.memoRecoveryRow tableId physicalIndex fieldId with
      | none =>
        rw [hpayload] at h
        cases h
      | some payload =>
        rw [hpayload] at h
        dsimp only at h
        split_ifs at h with hmatch
        · cases h
        · rw [not_or, not_or, Bool.not_eq_false] at hmatch
          obtain ⟨mask, hmask, h⟩ := bind_eq_ok.mp h
          rw [pure_eq_ok, Except.ok.injEq, failWhen_eq_nil, Bool.not_eq_false, pyEq_comm] at h
          have hlogical : payload.logical = source := eq_of_pyEq (logical_number? payload) hmatch.2.1
          have hequal : mask = output := eq_of_pyEq (memo_mask_number? hmask) h
          subst hequal
          refine Or.inr ⟨houtput, payload, hpayload, hlogical, hmask, ?_⟩
          intro heq
          rw [heq] at hmatch
          have hnan : source ≠ .nan := by
            rw [← hlogical]
            cases payload <;> exact Value.noConfusion
          rw [hlogical] at hmatch
          exact hmatch.2.2 ((Value.pyEq_self source).mpr hnan)

theorem temporalPostcondition_of_clean {domain : Option Text}
    (h : verifyTemporalValue vault domain source output = .ok []) :
    TemporalPostcondition vault domain source output := by
  unfold verifyTemporalValue at h
  unfold TemporalPostcondition
  split at h
  · next hnone =>
    rw [Except.ok.injEq, failWhen_eq_nil, Bool.not_eq_false] at h
    rw [hnone]
    exact h
  · next offset hoffset =>
    split_ifs at h with hzero
    obtain ⟨shifted, hshifted, h⟩ := bind_eq_ok.mp h
    rw [pure_eq_ok, Except.ok.injEq, failWhen_eq_nil, Bool.not_eq_false, pyEq_comm] at h
    have hequal : shifted = output := eq_of_pyEq (number?_of_temporalShift hshifted) h
    rw [hoffset, ← hequal]
    exact hshifted

theorem fieldPostcondition_of_clean {binding : FieldRow}
    (h : verifyFieldValue vault tableId physicalIndex binding source output = .ok []) :
    FieldPostcondition vault tableId physicalIndex binding source output := by
  unfold verifyFieldValue at h
  unfold FieldPostcondition
  cases haction : binding.transformAction with
  | none =>
    rw [haction] at h
    cases h
  | some action =>
    rw [haction] at h
    cases action with
    | keep =>
      dsimp only at h
      rw [Except.ok.injEq, failWhen_eq_nil, Bool.not_eq_false] at h
      exact h
    | maskReversible => exact memoPostcondition_of_clean h
    | shiftReversible => exact temporalPostcondition_of_clean h
    | pseudonymizeReversible =>
      dsimp only at h ⊢
      split_ifs at h ⊢ with hnumeric
      · exact numericPostcondition_of_clean h
      · exact textPostcondition_of_clean (Except.ok.inj h)

theorem null_iff_of_fieldPostcondition {binding : FieldRow}
    (h : FieldPostcondition vault tableId physicalIndex binding source output) :
    output = .null ↔ source = .null := by
  unfold FieldPostcondition at h
  cases haction : binding.transformAction with
  | none =>
    rw [haction] at h
    exact h.elim
  | some action =>
    rw [haction] at h
    cases action with
    | keep =>
      constructor
      · intro houtput
        rw [houtput] at h
        exact (Value.pyEq_null_right source).mp h
      · intro hsource
        rw [hsource, pyEq_comm] at h
        exact (Value.pyEq_null_right output).mp h
    | maskReversible =>
      rcases h with ⟨hsource, houtput⟩ | ⟨houtput, payload, -, hlogical, -⟩
      · exact iff_of_true houtput hsource
      · refine iff_of_false houtput ?_
        rw [← hlogical]
        cases payload with
        | text value => exact Value.noConfusion
        | binary value => exact Value.noConfusion
    | shiftReversible =>
      dsimp only [TemporalPostcondition] at h
      split at h
      · next offset hoffset =>
        cases source with
        | null =>
          cases h
          exact iff_of_true rfl rfl
        | _ =>
          refine iff_of_false ?_ Value.noConfusion
          intro hnull
          rw [hnull] at h
          have hback := temporalRecover_of_shift h
          cases hback
      · constructor
        · intro houtput
          rw [houtput, pyEq_comm] at h
          exact (Value.pyEq_null_right source).mp h
        · intro hsource
          rw [hsource] at h
          exact (Value.pyEq_null_right output).mp h
    | pseudonymizeReversible =>
      dsimp only at h
      split_ifs at h with hnumeric
      · rcases h with ⟨hsource, houtput⟩ | ⟨original, pseudonym, rfl, rfl, -⟩
        · exact iff_of_true houtput hsource
        · exact iff_of_false Value.noConfusion Value.noConfusion
      · rcases h with ⟨hkept, houtput⟩ | ⟨original, pseudonym, rfl, rfl, -⟩
        · rw [houtput]
        · exact iff_of_false Value.noConfusion Value.noConfusion

end Values

/-- Each value that the per-value check passes meets the postcondition of its field, and is NULL exactly when the
source is; a record without findings has passed on every application field. -/
theorem verifyRecordValues_sound (schema : TableSchema) (vault : VaultState) (tableId : Text)
    (bindings : List FieldRow) (physicalIndex : ℕ) (source output : Values) :
    (∀ field ∈ schema.applicationFields, ∀ binding, bindings.find? (·.name = field.name) = some binding →
      verifyFieldValue vault tableId physicalIndex binding (source field.name) (output field.name) = .ok [] →
        FieldPostcondition vault tableId physicalIndex binding (source field.name) (output field.name) ∧
          (output field.name = .null ↔ source field.name = .null)) ∧
    (verifyRecordValues schema vault tableId bindings physicalIndex source output = .ok [] →
      ∀ field ∈ schema.applicationFields, ∃ binding, bindings.find? (·.name = field.name) = some binding ∧
        FieldPostcondition vault tableId physicalIndex binding (source field.name) (output field.name) ∧
          (output field.name = .null ↔ source field.name = .null)) := by
  have hvalue : ∀ field binding,
      verifyFieldValue vault tableId physicalIndex binding (source field) (output field) = .ok [] →
        FieldPostcondition vault tableId physicalIndex binding (source field) (output field) ∧
          (output field = .null ↔ source field = .null) := by
    intro field binding hclean
    have hpost := fieldPostcondition_of_clean hclean
    exact ⟨hpost, null_iff_of_fieldPostcondition hpost⟩
  refine ⟨fun field _ binding _ hclean => hvalue field.name binding hclean, ?_⟩
  intro hclean field hfield
  obtain ⟨findings, hfindings, hflat⟩ := bind_eq_ok.mp hclean
  rw [pure_eq_ok, Except.ok.injEq, List.flatten_eq_nil_iff] at hflat
  obtain ⟨found, hmem, hfound⟩ := exists_of_mapM_ok hfindings hfield
  have hempty : found = [] := hflat found hmem
  subst hempty
  cases hbinding : bindings.find? (·.name = field.name) with
  | none =>
    rw [hbinding] at hfound
    cases hfound
  | some binding =>
    rw [hbinding] at hfound
    exact ⟨binding, rfl, hvalue field.name binding hfound⟩

def mappedSchema : TableSchema where
  fields := [⟨['C'], 'C', 8, 0, true, false, false, false, false, false, false⟩,
    ⟨['D'], 'D', 8, 0, true, false, false, false, false, false, false⟩]
  encoding := []
  languageDriver := 0
  recordCount := 1
  hasStructuralCdx := false
  dbcBound := false
  dbcBacklinkPath := none
  isDatabaseContainer := false

def mappedVault : VaultState :=
  { VaultState.empty with
    mappingDomains := [(['c'], .text), (['d'], .temporal)]
    textMappings := fun _ => ((addTextMapping .empty ['A'] ['B'] 1).toOption).getD .empty
    temporalParameters := [(['d'], 1)] }

def mappedRows : List FieldRow :=
  [⟨['f'], ['t'], ['C'], 'C', 8, [], some .pseudonymizeReversible, some ['c']⟩,
    ⟨['g'], ['t'], ['D'], 'D', 8, [], some .shiftReversible, some ['d']⟩]

def mappedSource : Values := fun name => if name = ['C'] then .text ['A'] else .date ⟨1, by decide, by decide⟩

def mappedOutput : Values := fun name => if name = ['C'] then .text ['B'] else .date ⟨2, by decide, by decide⟩

theorem mappedRecord_sound : ∀ field ∈ mappedSchema.applicationFields, ∃ binding,
    mappedRows.find? (·.name = field.name) = some binding ∧
      FieldPostcondition mappedVault ['t'] 0 binding (mappedSource field.name) (mappedOutput field.name) ∧
        (mappedOutput field.name = .null ↔ mappedSource field.name = .null) :=
  (verifyRecordValues_sound mappedSchema mappedVault ['t'] mappedRows 0 mappedSource mappedOutput).2 rfl

def unboundShift : FieldRow := ⟨['f'], ['t'], ['D'], 'D', 8, [], some .shiftReversible, none⟩

def oneOffsetVault : VaultState :=
  { VaultState.empty with mappingDomains := [(['d'], .temporal)], temporalParameters := [(['d'], 1)] }

def boundText : FieldRow := ⟨['f'], ['t'], ['C'], 'C', 8, [], some .pseudonymizeReversible, some ['d']⟩

def blankPseudonymVault : VaultState :=
  { VaultState.empty with
    mappingDomains := [(['d'], .text)]
    textMappings := fun _ => ((addTextMapping .empty ['A'] [] 0).toOption).getD .empty }

/-- Passed values outside the postcondition as stated: a field without a domain whose value is shifted, a value
that is not empty under an empty output, and an empty memo under its mask. -/
theorem stated_postcondition_fails :
    (verifyFieldValue oneOffsetVault ['t'] 0 unboundShift (.date ⟨1, by decide, by decide⟩)
        (.date ⟨2, by decide, by decide⟩) = .ok [] ∧ unboundShift.mappingDomainId = none) ∧
      verifyFieldValue blankPseudonymVault ['t'] 0 boundText (.text ['A']) (.text []) = .ok [] ∧
      verifyFieldValue { VaultState.empty with memoRecovery := [((['t'], 0, ['f']), .text [])] } ['t'] 0
        ⟨['f'], ['t'], ['M'], 'M', 10, [], some .maskReversible, none⟩ (.text []) (.text memoTextMask) = .ok [] :=
  ⟨⟨rfl, rfl⟩, rfl, rfl⟩

end DbfAnonymizer.Verification
