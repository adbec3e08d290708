import DbfAnonymizer.Vault.MemoRuns
import DbfAnonymizer.Vault.TemporalShift

/-! The vault only ever gains rows: the order in which a later vault lies above an earlier one. -/
namespace DbfAnonymizer.Vault
open Transforms Lib

/-- Every table of the earlier vault is a prefix of the later one's. -/
structure VaultState.Grows (a b : VaultState) : Prop where
  tables : a.tables <+: b.tables
  fields : a.fields <+: b.fields
  mappingDomains : a.mappingDomains <+: b.mappingDomains
  textMappings : ∀ domainId, (a.textMappings domainId).table.rows <+: (b.textMappings domainId).table.rows
  numericKeyMappings : ∀ domainId, (a.numericKeyMappings domainId).rows <+: (b.numericKeyMappings domainId).rows
  temporalParameters : a.temporalParameters <+: b.temporalParameters
  memoRecovery : a.memoRecovery <+: b.memoRecovery

instance : Preorder VaultState where
  le := VaultState.Grows
  le_refl a :=
    ⟨List.prefix_refl _, List.prefix_refl _, List.prefix_refl _, fun _ => List.prefix_refl _,
      fun _ => List.prefix_refl _, List.prefix_refl _, List.prefix_refl _⟩
  le_trans a b c h h' :=
    ⟨h.tables.trans h'.tables, h.fields.trans h'.fields, h.mappingDomains.trans h'.mappingDomains,
      fun d => (h.textMappings d).trans (h'.textMappings d),
      fun d => (h.numericKeyMappings d).trans (h'.numericKeyMappings d),
      h.temporalParameters.trans h'.temporalParameters, h.memoRecovery.trans h'.memoRecovery⟩

namespace VaultState
variable {a b : VaultState}

theorem map_find?_of_prefix {α β : Type*} {p : α → Bool} {f : α → β} {l l' : List α} {y : β} (h : l <+: l')
    (hy : (l.find? p).map f = some y) : (l'.find? p).map f = some y := by
  obtain ⟨x, hx, rfl⟩ := Option.map_eq_some_iff.mp hy
  rw [h.find?_eq_some hx, Option.map_some]

theorem tableId_mono (h : a ≤ b) {path tableId : Text} (ha : a.tableId path = some tableId) :
    b.tableId path = some tableId := map_find?_of_prefix h.tables ha

theorem domainKind_mono (h : a ≤ b) {domainId : Text} {kind : DomainKind} (ha : a.domainKind domainId = some kind) :
    b.domainKind domainId = some kind := map_find?_of_prefix h.mappingDomains ha

theorem temporalParameter_mono (h : a ≤ b) {domainId : Text} {offset : ℤ}
    (ha : a.temporalParameter (some domainId) = some offset) : b.temporalParameter (some domainId) = some offset :=
  map_find?_of_prefix h.temporalParameters ha

theorem memoRow_mono (h : a ≤ b) {locator : MemoLocator} {payload : MemoPayload}
    (ha : a.memoRow locator = some payload) : b.memoRow locator = some payload :=
  map_find?_of_prefix h.memoRecovery ha

theorem textPseudonym_mono (h : a ≤ b) {domainId original pseudonym : Text}
    (ha : a.textPseudonym domainId original = some pseudonym) : b.textPseudonym domainId original = some pseudonym :=
  BijectiveTable.valueOf?_eq_some_iff.mpr
    ((h.textMappings domainId).subset (BijectiveTable.valueOf?_eq_some_iff.mp ha))

theorem numericPseudonym_mono (h : a ≤ b) {domainId : Text} {original pseudonym : ℤ}
    (ha : a.numericPseudonym domainId original = some pseudonym) :
    b.numericPseudonym domainId original = some pseudonym :=
  BijectiveTable.valueOf?_eq_some_iff.mpr
    ((h.numericKeyMappings domainId).subset (BijectiveTable.valueOf?_eq_some_iff.mp ha))

end VaultState

section Units
variable {vault vault' : VaultState} {locator : MemoLocator} {payload : MemoPayload} {control : UnitControl}

theorem storeMemo_frame {u : Unit} (h : storeMemo locator payload vault = .ok (u, vault')) :
    ∃ added, vault' = { vault with memoRecovery := vault.memoRecovery ++ added } := by
  unfold storeMemo at h
  obtain ⟨row, -, h⟩ := bind_eq_ok.mp h
  cases row with
  | some stored =>
    obtain ⟨_, -, h⟩ := bind_eq_ok.mp h
    cases h
    exact ⟨[], by simp⟩
  | none =>
    obtain ⟨added, hadded, h⟩ := bind_eq_ok.mp h
    cases h
    exact ⟨_, (addMemoRecovery_eq_ok hadded).2⟩

theorem persistMemoRecovery_frame {dbfType : Char} {value output : Value}
    (h : persistMemoRecovery control locator dbfType value vault = (.ok output, vault')) :
    ∃ added, vault' = { vault with memoRecovery := vault.memoRecovery ++ added } := by
  rcases (persistMemoRecovery_eq_ok h).2 with ⟨-, -, rfl⟩ | ⟨payload, -, -, hstored⟩
  · exact ⟨[], by simp⟩
  · exact storeMemo_frame hstored

/-- A finalized shift domain leaves the vault as it was, or with the two rows of a fresh offset. -/
theorem finalize_frame {domain domain' : TemporalShiftDomain} {randomBelow : ℤ → ℤ} {result : Option ℤ}
    (h : domain.finalize randomBelow control vault = (.ok (result, domain'), vault')) :
    vault' = vault ∨ ∃ offset, result = some offset ∧ offset ≠ 0 ∧ vault.domainKind domain.domainId = none ∧
      vault' = withTemporalRows vault domain.domainId offset := by
  unfold TemporalShiftDomain.finalize at h
  split at h
  · cases h
    exact Or.inl rfl
  · dsimp only [temporalFeasibleInterval] at h
    split_ifs at h with hcount
    · cases h
    · split at h
      · cases h
      · next offset stored hunit =>
        split_ifs at h with hrange
        · cases h
          obtain ⟨-, -, hbody⟩ := transaction_eq_ok.mp hunit
          unfold TemporalShiftDomain.allocateOffset at hbody
          obtain ⟨persisted, -, hbody⟩ := bind_eq_ok.mp hbody
          cases persisted with
          | some stored =>
            cases hbody
            exact Or.inl rfl
          | none =>
            obtain ⟨fresh, hfresh, hbody⟩ := bind_eq_ok.mp hbody
            obtain ⟨created, hcreated, hbody⟩ := bind_eq_ok.mp hbody
            obtain ⟨parameters, hparameters, hbody⟩ := bind_eq_ok.mp hbody
            cases hbody
            obtain ⟨hkind, rfl⟩ := createDomain_eq_ok hcreated
            obtain ⟨hne, -, rfl⟩ := setTemporalParameter_eq_ok hparameters
            exact Or.inr ⟨_, rfl, hne, hkind, rfl⟩
        · cases h

end Units

section Frames
variable {vault : VaultState}

theorem le_withMemoRecovery (added : List ((Text × ℕ × Text) × MemoPayload)) :
    vault ≤ { vault with memoRecovery := vault.memoRecovery ++ added } :=
  { le_refl vault with memoRecovery := List.prefix_append _ _ }

theorem le_withTemporalRows (domainId : Text) (offset : ℤ) : vault ≤ withTemporalRows vault domainId offset :=
  { le_refl vault with
    mappingDomains := List.prefix_append _ _
    temporalParameters := List.prefix_append _ _ }

theorem le_withTextMappings {domainId : Text} {mappings : TextMappings}
    (h : (vault.textMappings domainId).table.rows <+: mappings.table.rows) :
    vault ≤ { vault with textMappings := Function.update vault.textMappings domainId mappings } :=
  { le_refl vault with
    textMappings := by
      intro other
      by_cases hother : other = domainId
      · subst hother
        simpa using h
      · simp [hother] }

end Frames
end DbfAnonymizer.Vault
