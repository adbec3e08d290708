import DbfAnonymizer.Transforms.Memo
import DbfAnonymizer.Transforms.Temporal
import DbfAnonymizer.Vault.State

/-! An original value and the value that stands for it, as the vault and the ledger row of its field relate them. -/
namespace DbfAnonymizer.Vault
open Transforms Lib

section Image
variable (vault : VaultState) (tableId : Text) (physicalIndex : ℕ) (row : FieldRow)

/-- One case for each way in which a field's value is written. -/
inductive FieldImage : Value → Value → Prop
  | kept (value : Value) (haction : row.transformAction = some .keep) : FieldImage value value
  | blank (value : Value) (haction : row.transformAction = some .pseudonymizeReversible)
      (hkind : ∀ domainId, row.mappingDomainId = some domainId → vault.domainKind domainId = some .text)
      (hblank : value.isNullOrEmpty = true) : FieldImage value value
  | text (original pseudonym domainId : Text) (haction : row.transformAction = some .pseudonymizeReversible)
      (hdomain : row.mappingDomainId = some domainId) (hkind : vault.domainKind domainId = some .text)
      (horiginal : original ≠ []) (hpseudonym : pseudonym ≠ []) (hne : pseudonym ≠ original)
      (hstored : vault.textOriginal domainId pseudonym = some original) : FieldImage (.text original) (.text pseudonym)
  | nullKey (domainId : Text) (haction : row.transformAction = some .pseudonymizeReversible)
      (hdomain : row.mappingDomainId = some domainId) (hkind : vault.domainKind domainId = some .numericKey) :
      FieldImage .null .null
  | key (original pseudonym : ℤ) (domainId : Text) (haction : row.transformAction = some .pseudonymizeReversible)
      (hdomain : row.mappingDomainId = some domainId) (hkind : vault.domainKind domainId = some .numericKey)
      (hne : pseudonym ≠ original) (hstored : vault.numericOriginal domainId pseudonym = some original) :
      FieldImage (.int original) (.int pseudonym)
  | nullMemo (haction : row.transformAction = some .maskReversible) : FieldImage .null .null
  | memo (payload : MemoPayload) (mask : Value) (haction : row.transformAction = some .maskReversible)
      (hstored : vault.memoRecoveryRow tableId physicalIndex row.fieldId = some payload)
      (hmask : maskMemoValue row.dbfType payload.logical = .ok mask) (hne : mask ≠ payload.logical) :
      FieldImage payload.logical mask
  | shifted (value value' : Value) (domainId : Text) (offset : ℤ) (haction : row.transformAction = some .shiftReversible)
      (hdomain : row.mappingDomainId = some domainId)
      (hstored : vault.temporalParameter (some domainId) = some offset) (hne : offset ≠ 0)
      (hshift : temporalShift value offset = .ok value') : FieldImage value value'

end Image

theorem FieldImage.of_nan {vault : VaultState} {tableId : Text} {physicalIndex : ℕ} {row : FieldRow}
    {source output : Value} (h : FieldImage vault tableId physicalIndex row source output) (hnan : source = .nan) :
    row.transformAction = some .keep ∧ output = source := by
  cases h with
  | kept _ haction => exact ⟨haction, rfl⟩
  | blank _ _ _ hblank => simp [hnan, Value.isNullOrEmpty] at hblank
  | memo payload => cases payload <;> cases hnan
  | shifted _ _ _ _ _ _ _ _ hshift =>
    rw [hnan] at hshift
    cases hshift
  | _ => cases hnan

/-- A record and the one that stands for it: the same place, the same marker, and an image of each application value
under the row that its field is bound to. -/
structure RecordImage (vault : VaultState) (tableId : Text) (rows : List FieldRow) (schema : TableSchema)
    (record back : DirectRecord) : Prop where
  physicalIndex_eq : back.physicalIndex = record.physicalIndex
  deleted_eq : back.deleted = record.deleted
  fields : ∀ field ∈ schema.applicationFields, ∃ row, rows.find? (·.name = field.name) = some row ∧
    FieldImage vault tableId record.physicalIndex row (record.values field.name) (back.values field.name)

theorem RecordImage.congr {vault : VaultState} {tableId : Text} {rows : List FieldRow} {schema schema' : TableSchema}
    {record back : DirectRecord} (h : RecordImage vault tableId rows schema record back)
    (hnames : schema'.applicationFields.map FieldInfo.name = schema.applicationFields.map FieldInfo.name) :
    RecordImage vault tableId rows schema' record back := by
  refine ⟨h.physicalIndex_eq, h.deleted_eq, ?_⟩
  intro field hfield
  have hmem : field.name ∈ schema.applicationFields.map FieldInfo.name := hnames ▸ List.mem_map_of_mem hfield
  obtain ⟨other, hother, hname⟩ := List.mem_map.mp hmem
  rw [← hname]
  exact h.fields other hother

theorem maskMemoValue_kind {dbfType : Char} {payload : MemoPayload} {mask : Value}
    (h : maskMemoValue dbfType payload.logical = .ok mask) : ∃ masked : MemoPayload, mask = masked.logical ∧
      ((∃ a b, payload = .text a ∧ masked = .text b) ∨ ∃ a b, payload = .binary a ∧ masked = .binary b) := by
  unfold maskMemoValue at h
  cases payload with
  | text value =>
    unfold MemoPayload.logical memoSafeMask at h
    dsimp only at h
    split_ifs at h
    all_goals
      cases h
      exact ⟨.text _, rfl, Or.inl ⟨_, _, rfl, rfl⟩⟩
  | binary value =>
    unfold MemoPayload.logical memoSafeMask at h
    dsimp only at h
    split_ifs at h
    all_goals
      cases h
      exact ⟨.binary _, rfl, Or.inr ⟨_, _, rfl, rfl⟩⟩

end DbfAnonymizer.Vault
