import DbfAnonymizer.Vault.TemporalAllocation

/-! What a finalized shift domain does to the values it observed, over every run of calls. -/
namespace DbfAnonymizer.Vault
open Transforms Lib

/-- A nonzero offset that keeps every observed day in the calendar. -/
def FeasibleOffset (observed : List Value) (offset : ℤ) : Prop :=
  offset ≠ 0 ∧ ∀ value ∈ observed, ∀ day, temporalOrdinal value = .ok day →
    logicalMinOrdinal ≤ day + offset ∧ day + offset ≤ logicalMaxOrdinal

section Persisted
variable {vault vault' : VaultState} {domainId : Text} {offset : ℤ}

theorem persistedTemporalState_eq_some (h : persistedTemporalState vault domainId = .ok (some offset)) :
    vault.domainKind domainId = some .temporal ∧ vault.temporalParameter (some domainId) = some offset ∧
      offset ≠ 0 := by
  unfold persistedTemporalState at h
  split at h
  · cases h
  · next hkind =>
    split at h
    · next stored hstored =>
      split_ifs at h with hzero
      cases h
      exact ⟨hkind, hstored, hzero⟩
    · cases h
  · cases h

theorem persistedTemporalState_eq_none :
    persistedTemporalState vault domainId = .ok none ↔ vault.domainKind domainId = none := by
  unfold persistedTemporalState
  split
  · next h => simp [h]
  · next h =>
    split
    · split_ifs <;> simp [h]
    · simp [h]
  · next kind _ h => simp [h]

theorem createDomain_eq_ok {kind : DomainKind} (h : createDomain vault kind domainId = .ok vault') :
    vault.domainKind domainId = none ∧
      vault' = { vault with mappingDomains := vault.mappingDomains ++ [(domainId, kind)] } := by
  unfold createDomain at h
  split_ifs at h with hsome
  rw [Bool.not_eq_true, Option.isSome_eq_false_iff, Option.isNone_iff_eq_none] at hsome
  exact ⟨hsome, (Except.ok.inj h).symm⟩

theorem setTemporalParameter_eq_ok (h : setTemporalParameter vault domainId offset = .ok vault') :
    offset ≠ 0 ∧ vault.temporalParameter (some domainId) = none ∧
      vault' = { vault with temporalParameters := vault.temporalParameters ++ [(domainId, offset)] } := by
  unfold setTemporalParameter at h
  split_ifs at h with hzero hrejected
  rw [not_or, Bool.not_eq_true, Option.isSome_eq_false_iff, Option.isNone_iff_eq_none] at hrejected
  exact ⟨hzero, hrejected.1, (Except.ok.inj h).symm⟩

def withTemporalRows (vault : VaultState) (domainId : Text) (offset : ℤ) : VaultState := { vault with
  mappingDomains := vault.mappingDomains ++ [(domainId, .temporal)]
  temporalParameters := vault.temporalParameters ++ [(domainId, offset)] }

theorem persisted_withTemporalRows (hkind : vault.domainKind domainId = none)
    (hparameter : vault.temporalParameter (some domainId) = none) (hne : offset ≠ 0) :
    persistedTemporalState (withTemporalRows vault domainId offset) domainId = .ok (some offset) := by
  have hk : vault.mappingDomains.find? (·.1 = domainId) = none := by
    simpa [VaultState.domainKind] using hkind
  have hp : vault.temporalParameters.find? (·.1 = domainId) = none := by
    simpa [VaultState.temporalParameter] using hparameter
  simp [persistedTemporalState, withTemporalRows, VaultState.domainKind, VaultState.temporalParameter,
    List.find?_append, hk, hp, hne]

end Persisted

namespace TemporalShiftDomain
variable {domain domain' : TemporalShiftDomain} {vault vault' : VaultState} {randomBelow : ℤ → ℤ}
  {control : UnitControl} {lower upper offset : ℤ}

theorem allocateOffset_eq_ok (h : domain.allocateOffset randomBelow lower upper vault = .ok (offset, vault')) :
    persistedTemporalState vault' domain.domainId = .ok (some offset) ∧
      ((persistedTemporalState vault domain.domainId = .ok (some offset) ∧ vault' = vault) ∨
        (vault.domainKind domain.domainId = none ∧
          temporalOffsetAt lower upper (randomBelow (temporalNonzeroCount lower upper)) = .ok offset)) := by
  unfold allocateOffset at h
  obtain ⟨persisted, hpersisted, h⟩ := bind_eq_ok.mp h
  cases persisted with
  | some stored =>
    dsimp only at h
    rw [pure_eq_ok, Except.ok.injEq, Prod.mk.injEq] at h
    obtain ⟨rfl, rfl⟩ := h
    exact ⟨hpersisted, Or.inl ⟨hpersisted, rfl⟩⟩
  | none =>
    obtain ⟨fresh, hfresh, h⟩ := bind_eq_ok.mp h
    obtain ⟨created, hcreated, h⟩ := bind_eq_ok.mp h
    obtain ⟨stored, hstored, h⟩ := bind_eq_ok.mp h
    rw [pure_eq_ok, Except.ok.injEq, Prod.mk.injEq] at h
    obtain ⟨rfl, rfl⟩ := h
    obtain ⟨hkind, rfl⟩ := createDomain_eq_ok hcreated
    obtain ⟨hne, hparameter, rfl⟩ := setTemporalParameter_eq_ok hstored
    exact ⟨persisted_withTemporalRows hkind hparameter hne, Or.inr ⟨hkind, hfresh⟩⟩

theorem allocateOffset_fresh (hkind : vault.domainKind domain.domainId = none)
    (hparameter : vault.temporalParameter (some domain.domainId) = none)
    (h : temporalOffsetAt lower upper (randomBelow (temporalNonzeroCount lower upper)) = .ok offset) :
    domain.allocateOffset randomBelow lower upper vault =
      .ok (offset, withTemporalRows vault domain.domainId offset) := by
  have hk : vault.mappingDomains.find? (·.1 = domain.domainId) = none := by
    simpa [VaultState.domainKind] using hkind
  have hp : vault.temporalParameters.find? (·.1 = domain.domainId) = none := by
    simpa [VaultState.temporalParameter] using hparameter
  have hne : offset ≠ 0 := (offset_of_temporalOffsetAt h).1
  have hcreated : createDomain vault .temporal domain.domainId = .ok { vault with
      mappingDomains := vault.mappingDomains ++ [(domain.domainId, .temporal)] } := by
    simp [createDomain, hkind]
  rw [allocateOffset, persistedTemporalState_eq_none.mpr hkind, ok_bind]
  dsimp only
  rw [h, ok_bind, hcreated, ok_bind, setTemporalParameter, if_neg hne, if_neg, ok_bind, pure_eq_ok, withTemporalRows]
  simp [VaultState.domainKind, VaultState.temporalParameter, List.find?_append, hk, hp]

theorem finalize_eq_ok {low : ℤ} {result : Option ℤ} (hlow : domain.minOrdinal = some low)
    (h : domain.finalize randomBelow control vault = (.ok (result, domain'), vault')) :
    ∃ offset, result = some offset ∧ domain' = { domain with offset := some offset, finalized := true } ∧
      logicalMinOrdinal - low ≤ offset ∧ offset ≤ logicalMaxOrdinal - domain.maxOrdinal ∧
      persistedTemporalState vault' domain.domainId = .ok (some offset) ∧
      ((persistedTemporalState vault domain.domainId = .ok (some offset) ∧ vault' = vault) ∨
        vault.domainKind domain.domainId = none) := by
  rw [finalize, hlow] at h
  dsimp only [temporalFeasibleInterval] at h
  split_ifs at h with hcount
  · cases h
  · split at h
    · cases h
    · next offset stored hunit =>
      split_ifs at h with hrange
      · rw [Prod.mk.injEq, Except.ok.injEq, Prod.mk.injEq] at h
        obtain ⟨⟨hresult, hdomain⟩, rfl⟩ := h
        obtain ⟨-, -, hbody⟩ := transaction_eq_ok.mp hunit
        obtain ⟨hpersisted, hcases⟩ := allocateOffset_eq_ok hbody
        rw [← hlow] at hdomain
        refine ⟨offset, hresult.symm, hdomain.symm, hrange.1, hrange.2, hpersisted, ?_⟩
        exact hcases.imp_right And.left
      · cases h

theorem finalize_error {e : Raised} (h : domain.finalize randomBelow control vault = (.error e, vault')) :
    vault' = vault := by
  unfold finalize at h
  split at h
  · cases h
  · next low hlow =>
    dsimp only [temporalFeasibleInterval] at h
    split_ifs at h with hcount
    · exact (Prod.mk.inj h).2.symm
    · split at h
      · next stored hunit =>
        have hstored := transaction_error hunit
        rw [← (Prod.mk.inj h).2, hstored]
      · next offset stored hunit =>
        split_ifs at h with hrange
        · cases h
        · obtain ⟨-, -, hbody⟩ := transaction_eq_ok.mp hunit
          obtain ⟨-, hcases⟩ := allocateOffset_eq_ok hbody
          cases hcases with
          | inl hreused => rw [← (Prod.mk.inj h).2, hreused.2]
          | inr hfresh => exact absurd (offset_of_temporalOffsetAt hfresh.2).2 hrange

theorem finalize_persisted (h : persistedTemporalState vault domain.domainId = .ok (some offset)) :
    (domain.finalize randomBelow control vault).2 = vault := by
  cases hresult : domain.finalize randomBelow control vault with
  | mk result vault' =>
    cases result with
    | error e => exact finalize_error hresult
    | ok pair =>
      cases hlow : domain.minOrdinal with
      | none =>
        rw [finalize, hlow] at hresult
        exact (Prod.mk.inj hresult).2.symm
      | some low =>
        obtain ⟨_, _, _, _, _, _, hcases⟩ := finalize_eq_ok hlow hresult
        cases hcases with
        | inl hreused => exact hreused.2
        | inr hnone =>
          have hkind := (persistedTemporalState_eq_some h).1
          rw [hnone] at hkind
          cases hkind

theorem finalize_domainId {result : Option ℤ}
    (h : domain.finalize randomBelow control vault = (.ok (result, domain'), vault')) :
    domain'.domainId = domain.domainId := by
  cases hlow : domain.minOrdinal with
  | none =>
    rw [finalize, hlow] at h
    dsimp only at h
    rw [Prod.mk.injEq, Except.ok.injEq, Prod.mk.injEq] at h
    rw [← h.1.2]
  | some low =>
    obtain ⟨_, _, hdomain, _⟩ := finalize_eq_ok hlow h
    rw [hdomain]

/-- Without a nonzero offset in the interval the finalization is refused before any unit. -/
theorem finalize_onlyZero {low : ℤ} (hlow : domain.minOrdinal = some low)
    (hcount : temporalNonzeroCount (logicalMinOrdinal - low) (logicalMaxOrdinal - domain.maxOrdinal) ≤ 0) :
    domain.finalize randomBelow control vault = (.error temporalOnlyZeroFeasible, vault) := by
  rw [finalize, hlow]
  exact if_pos hcount

theorem persistedTemporalState_error {e : Raised} (h : persistedTemporalState vault domain.domainId = .error e) :
    e = vaultStateFailure "TEMPORAL_STATE_INVALID" := by
  unfold persistedTemporalState at h
  split at h
  · cases h
  · split at h
    · split_ifs at h
      exact (Except.error.inj h).symm
    · exact (Except.error.inj h).symm
  · exact (Except.error.inj h).symm

theorem allocateOffset_error {e : Raised}
    (hselected : temporalOffsetAt lower upper (randomBelow (temporalNonzeroCount lower upper)) = .ok offset)
    (h : domain.allocateOffset randomBelow lower upper vault = .error e) :
    ∃ detailCode, e = vaultStateFailure detailCode := by
  cases hpersisted : persistedTemporalState vault domain.domainId with
  | error e' =>
    rw [allocateOffset, hpersisted, error_bind, Except.error.injEq] at h
    exact ⟨_, h ▸ persistedTemporalState_error hpersisted⟩
  | ok persisted =>
    cases persisted with
    | some stored =>
      rw [allocateOffset, hpersisted, ok_bind] at h
      cases h
    | none =>
      have hkind := persistedTemporalState_eq_none.mp hpersisted
      have hcreated : createDomain vault .temporal domain.domainId = .ok { vault with
          mappingDomains := vault.mappingDomains ++ [(domain.domainId, .temporal)] } := by
        simp [createDomain, hkind]
      rw [allocateOffset, hpersisted, ok_bind] at h
      dsimp only at h
      rw [hselected, ok_bind, hcreated, ok_bind, setTemporalParameter,
        if_neg (offset_of_temporalOffsetAt hselected).1] at h
      split_ifs at h with hrejected
      · rw [error_bind, Except.error.injEq] at h
        exact ⟨_, h.symm⟩
      · cases h

theorem finalize_fresh {low index : ℤ} (hlow : domain.minOrdinal = some low)
    (hkind : vault.domainKind domain.domainId = none)
    (hparameter : vault.temporalParameter (some domain.domainId) = none)
    (hindex : randomBelow (temporalNonzeroCount (logicalMinOrdinal - low)
      (logicalMaxOrdinal - domain.maxOrdinal)) = index)
    (h : temporalOffsetAt (logicalMinOrdinal - low) (logicalMaxOrdinal - domain.maxOrdinal) index = .ok offset) :
    domain.finalize randomBelow .sound vault =
      (.ok (some offset, { domain with offset := some offset, finalized := true }),
        withTemporalRows vault domain.domainId offset) := by
  have hrange := offset_of_temporalOffsetAt h
  have hcount := temporalNonzeroCount_pos_iff.mpr ⟨offset, hrange⟩
  rw [← hindex] at h
  have hbody := allocateOffset_fresh hkind hparameter h
  have hunit : transaction .sound vault (domain.allocateOffset randomBelow (logicalMinOrdinal - low)
      (logicalMaxOrdinal - domain.maxOrdinal)) =
        (.ok offset, withTemporalRows vault domain.domainId offset) :=
    transaction_eq_ok.mpr ⟨rfl, rfl, hbody⟩
  rw [finalize, hlow]
  dsimp only [temporalFeasibleInterval]
  rw [if_neg (by omega), hunit]
  exact if_pos hrange.2

theorem finalize_reused {low : ℤ} (hlow : domain.minOrdinal = some low)
    (hpersisted : persistedTemporalState vault domain.domainId = .ok (some offset))
    (hrange : logicalMinOrdinal - low ≤ offset ∧ offset ≤ logicalMaxOrdinal - domain.maxOrdinal) :
    domain.finalize randomBelow .sound vault =
      (.ok (some offset, { domain with offset := some offset, finalized := true }), vault) := by
  have hcount := temporalNonzeroCount_pos_iff.mpr ⟨offset, (persistedTemporalState_eq_some hpersisted).2.2, hrange⟩
  have hbody : domain.allocateOffset randomBelow (logicalMinOrdinal - low) (logicalMaxOrdinal - domain.maxOrdinal) vault =
      .ok (offset, vault) := by
    rw [allocateOffset, hpersisted]
    rfl
  rw [finalize, hlow]
  dsimp only [temporalFeasibleInterval]
  rw [if_neg (by omega), transaction_eq_ok.mpr ⟨rfl, rfl, hbody⟩]
  exact if_pos hrange

theorem observe_eq_ok {value : Value} (h : domain.observe value = .ok domain') :
    domain.finalized = false ∧ (value = .null ∧ domain' = domain ∨
      ∃ day, temporalOrdinal value = .ok day ∧
        ((domain.minOrdinal = none ∧ domain' = { domain with minOrdinal := some day, maxOrdinal := day }) ∨
          ∃ low, domain.minOrdinal = some low ∧
            domain' = { domain with minOrdinal := some (min day low), maxOrdinal := max day domain.maxOrdinal })) := by
  unfold observe at h
  obtain ⟨_, hopen, h⟩ := bind_eq_ok.mp h
  rw [refuseIf_eq_ok, Bool.not_eq_true] at hopen
  refine ⟨hopen, ?_⟩
  split_ifs at h with hnull
  · exact Or.inl ⟨hnull, (Except.ok.inj h).symm⟩
  · right
    obtain ⟨day, hday, h⟩ := bind_eq_ok.mp h
    refine ⟨day, hday, ?_⟩
    split at h
    · next hnone => exact Or.inl ⟨hnone, (Except.ok.inj h).symm⟩
    · next low hlow =>
      refine Or.inr ⟨low, hlow, ?_⟩
      have hmin : (if day < low then day else low) = min day low := by
        split_ifs
        all_goals omega
      have hmax : (if domain.maxOrdinal < day then day else domain.maxOrdinal) = max day domain.maxOrdinal := by
        split_ifs
        all_goals omega
      rw [← Except.ok.inj h, hmin, hmax]

end TemporalShiftDomain

namespace TemporalSession
variable {s : TemporalSession} {offset : ℤ}

/-- The retained extrema are days of observed values and bound all of them; an offset in the instance is the
persisted one; and a finalized instance has an offset in the interval, or has observed NULLs only. -/
structure Sound (s : TemporalSession) : Prop where
  bounded : ∀ value ∈ s.observed, value = .null ∨ ∃ day low, temporalOrdinal value = .ok day ∧
    s.domain.minOrdinal = some low ∧ low ≤ day ∧ day ≤ s.domain.maxOrdinal
  attained : ∀ low, s.domain.minOrdinal = some low →
    (∃ value ∈ s.observed, temporalOrdinal value = .ok low) ∧
      ∃ value ∈ s.observed, temporalOrdinal value = .ok s.domain.maxOrdinal
  persisted : ∀ offset, s.domain.offset = some offset →
    persistedTemporalState s.vault s.domain.domainId = .ok (some offset)
  empty_finalized : s.domain.empty = true → s.domain.finalized = true ∧ s.domain.minOrdinal = none
  ready : s.domain.finalized = true → s.domain.empty = false →
    ∃ offset low, s.domain.offset = some offset ∧ s.domain.minOrdinal = some low ∧
      logicalMinOrdinal - low ≤ offset ∧ offset ≤ logicalMaxOrdinal - s.domain.maxOrdinal

theorem sound_start (domainId : Text) (vault : VaultState) : (start domainId vault).Sound where
  bounded := by
    intro value hvalue
    cases hvalue
  attained := by
    intro low hlow
    cases hlow
  persisted := by
    intro offset hoffset
    cases hoffset
  empty_finalized := by
    intro h
    cases h
  ready := by
    intro h
    cases h

theorem persisted_call (c : TemporalCall)
    (h : persistedTemporalState s.vault s.domain.domainId = .ok (some offset)) :
    persistedTemporalState (s.call c).vault s.domain.domainId = .ok (some offset) := by
  cases c with
  | reopen => exact h
  | observe value =>
    rw [call]
    split
    · exact h
    · exact h
  | finalize randomBelow control =>
    have hvault : (s.domain.finalize randomBelow control s.vault).2 = s.vault :=
      TemporalShiftDomain.finalize_persisted h
    rw [call]
    split
    · next hresult =>
      rw [hresult] at hvault
      dsimp only at hvault ⊢
      rw [hvault]
      exact h
    · next hresult =>
      rw [hresult] at hvault
      dsimp only at hvault ⊢
      rw [hvault]
      exact h
  | recover value => exact h

theorem call_domainId (c : TemporalCall) : (s.call c).domain.domainId = s.domain.domainId := by
  cases c with
  | reopen => rfl
  | observe value =>
    rw [call]
    split
    · next domain hdomain =>
      obtain ⟨-, hcases⟩ := TemporalShiftDomain.observe_eq_ok hdomain
      rcases hcases with ⟨-, rfl⟩ | ⟨day, -, ⟨-, rfl⟩ | ⟨low, -, rfl⟩⟩
      all_goals rfl
    · rfl
  | finalize randomBelow control =>
    rw [call]
    split
    · next hresult => exact TemporalShiftDomain.finalize_domainId hresult
    · rfl
  | recover value =>
    rw [call]
    unfold TemporalShiftDomain.recover
    split_ifs
    · rfl
    · split
      · rfl
      · split
        all_goals rfl

theorem Sound.observe (h : s.Sound) {value : Value} {domain : TemporalShiftDomain}
    (hdomain : s.domain.observe value = .ok domain) :
    Sound { s with domain, observed := s.observed ++ [value] } := by
  obtain ⟨hopen, hcases⟩ := TemporalShiftDomain.observe_eq_ok hdomain
  have hnotEmpty : s.domain.empty = false := by
    by_contra hempty
    have hfinal := (h.empty_finalized (by simpa using hempty)).1
    rw [hopen] at hfinal
    cases hfinal
  obtain ⟨rfl, rfl⟩ | ⟨day, hday, ⟨hnone, rfl⟩ | ⟨low, hlow, rfl⟩⟩ := hcases
  · refine ⟨?_, ?_, h.persisted, h.empty_finalized, h.ready⟩
    · intro v hv
      rcases List.mem_append.mp hv with hv | hv
      · exact h.bounded v hv
      · exact Or.inl (List.mem_singleton.mp hv)
    · intro low hlow
      obtain ⟨⟨v, hv, hvlow⟩, w, hw, hwhigh⟩ := h.attained low hlow
      exact ⟨⟨v, List.mem_append_left _ hv, hvlow⟩, w, List.mem_append_left _ hw, hwhigh⟩
  · have hmem : value ∈ s.observed ++ [value] := List.mem_append_right _ (by simp)
    refine ⟨?_, ?_, h.persisted, ?_, ?_⟩
    · intro v hv
      rcases List.mem_append.mp hv with hv | hv
      · rcases h.bounded v hv with hnull | ⟨_, low, _, hsome, _⟩
        · exact Or.inl hnull
        · rw [hnone] at hsome
          cases hsome
      · rw [List.mem_singleton.mp hv]
        exact Or.inr ⟨day, day, hday, rfl, le_rfl, le_rfl⟩
    · intro low hlow
      rw [← Option.some.inj hlow]
      exact ⟨⟨value, hmem, hday⟩, value, hmem, hday⟩
    · intro hempty
      rw [hnotEmpty] at hempty
      cases hempty
    · intro hfinal
      rw [hopen] at hfinal
      cases hfinal
  · have hmem : value ∈ s.observed ++ [value] := List.mem_append_right _ (by simp)
    obtain ⟨⟨v, hv, hvlow⟩, w, hw, hwhigh⟩ := h.attained low hlow
    refine ⟨?_, ?_, h.persisted, ?_, ?_⟩
    · intro v hv
      rcases List.mem_append.mp hv with hv | hv
      · rcases h.bounded v hv with hnull | ⟨d, low', hd, hlow', hge, hle⟩
        · exact Or.inl hnull
        · rw [hlow, Option.some.injEq] at hlow'
          subst hlow'
          exact Or.inr ⟨d, min day low, hd, rfl, (min_le_right _ _).trans hge, hle.trans (le_max_right _ _)⟩
      · rw [List.mem_singleton.mp hv]
        exact Or.inr ⟨day, min day low, hday, rfl, min_le_left _ _, le_max_left _ _⟩
    · intro low' hlow'
      rw [← Option.some.inj hlow']
      constructor
      · rcases min_choice day low with hmin | hmin
        · exact ⟨value, hmem, hday.trans (congrArg Except.ok hmin.symm)⟩
        · exact ⟨v, List.mem_append_left _ hv, hvlow.trans (congrArg Except.ok hmin.symm)⟩
      · dsimp only
        rcases max_choice day s.domain.maxOrdinal with hmax | hmax
        · exact ⟨value, hmem, hday.trans (congrArg Except.ok hmax.symm)⟩
        · exact ⟨w, List.mem_append_left _ hw, hwhigh.trans (congrArg Except.ok hmax.symm)⟩
    · intro hempty
      rw [hnotEmpty] at hempty
      cases hempty
    · intro hfinal
      rw [hopen] at hfinal
      cases hfinal

theorem Sound.finalize (h : s.Sound) {randomBelow : ℤ → ℤ} {control : UnitControl} {result : Option ℤ}
    {domain : TemporalShiftDomain} {vault : VaultState}
    (hresult : s.domain.finalize randomBelow control s.vault = (.ok (result, domain), vault)) :
    Sound { s with domain, vault } := by
  cases hlow : s.domain.minOrdinal with
  | none =>
    rw [TemporalShiftDomain.finalize, hlow] at hresult
    dsimp only at hresult
    rw [Prod.mk.injEq, Except.ok.injEq, Prod.mk.injEq] at hresult
    obtain ⟨⟨-, rfl⟩, rfl⟩ := hresult
    refine ⟨?_, ?_, ?_, ?_, ?_⟩
    · rw [← hlow]
      exact h.bounded
    · intro low hsome
      cases hsome
    · intro offset hoffset
      cases hoffset
    · intro _
      exact ⟨rfl, rfl⟩
    · intro _ hempty
      cases hempty
  | some low =>
    obtain ⟨offset, -, rfl, hlower, hupper, hpersisted, -⟩ := TemporalShiftDomain.finalize_eq_ok hlow hresult
    refine ⟨h.bounded, h.attained, ?_, ?_, ?_⟩
    · intro offset' hoffset'
      rw [← Option.some.inj hoffset']
      exact hpersisted
    · intro hempty
      have hnone := (h.empty_finalized hempty).2
      rw [hlow] at hnone
      cases hnone
    · intro _ _
      exact ⟨offset, low, rfl, hlow, hlower, hupper⟩

theorem Sound.recover (h : s.Sound) (value : Value) :
    Sound { s with domain := (s.domain.recover s.vault value).2 } := by
  unfold TemporalShiftDomain.recover
  split_ifs
  · exact h
  · split
    · exact h
    · next hnone =>
      split
      · exact h
      · exact h
      · next offset hstored =>
        refine ⟨h.bounded, h.attained, ?_, h.empty_finalized, ?_⟩
        · intro offset' hoffset'
          rw [← Option.some.inj hoffset']
          exact hstored
        · intro hfinal hempty
          obtain ⟨_, _, hsome, _⟩ := h.ready hfinal hempty
          rw [hnone] at hsome
          cases hsome

theorem Sound.call (h : s.Sound) (c : TemporalCall) : (s.call c).Sound := by
  cases c with
  | reopen => exact sound_start _ _
  | observe value =>
    rw [TemporalSession.call]
    split
    · next hdomain => exact h.observe hdomain
    · exact h
  | finalize randomBelow control =>
    rw [TemporalSession.call]
    split
    · next hresult => exact h.finalize hresult
    · next hresult =>
      rw [TemporalShiftDomain.finalize_error hresult]
      exact h
  | recover value => exact h.recover value

theorem Sound.run (h : s.Sound) (calls : List TemporalCall) : (s.run calls).Sound := by
  induction calls generalizing s with
  | nil => exact h
  | cons c calls ih => exact ih (h.call c)

theorem persisted_run (calls : List TemporalCall)
    (h : persistedTemporalState s.vault s.domain.domainId = .ok (some offset)) :
    persistedTemporalState (s.run calls).vault (s.run calls).domain.domainId = .ok (some offset) := by
  induction calls generalizing s with
  | nil => exact h
  | cons c calls ih =>
    have hcall := persisted_call c h
    rw [← call_domainId c] at hcall
    exact ih hcall

def candidateCount (s : TemporalSession) : ℤ :=
  match s.domain.minOrdinal with
  | none => 0
  | some low => temporalNonzeroCount (logicalMinOrdinal - low) (logicalMaxOrdinal - s.domain.maxOrdinal)

theorem Sound.exists_low (h : s.Sound) (hobserved : ∃ value ∈ s.observed, value ≠ .null) :
    ∃ low, s.domain.minOrdinal = some low := by
  obtain ⟨value, hvalue, hnull⟩ := hobserved
  rcases h.bounded value hvalue with heq | ⟨_, low, _, hlow, _⟩
  · exact absurd heq hnull
  · exact ⟨low, hlow⟩

/-- The interval of the extrema holds exactly the offsets that suit every observed day. -/
theorem Sound.feasibleOffset_iff (h : s.Sound) {low : ℤ} (hlow : s.domain.minOrdinal = some low) :
    FeasibleOffset s.observed offset ↔
      offset ≠ 0 ∧ logicalMinOrdinal - low ≤ offset ∧ offset ≤ logicalMaxOrdinal - s.domain.maxOrdinal := by
  obtain ⟨⟨v, hv, hvlow⟩, w, hw, hwhigh⟩ := h.attained low hlow
  constructor
  · intro hfeasible
    have hmin := (hfeasible.2 v hv _ hvlow).1
    have hmax := (hfeasible.2 w hw _ hwhigh).2
    exact ⟨hfeasible.1, by omega, by omega⟩
  · intro hinterval
    refine ⟨hinterval.1, ?_⟩
    intro value hvalue day hday
    rcases h.bounded value hvalue with rfl | ⟨day', low', hday', hlow', hge, hle⟩
    · cases hday
    · rw [hday, Except.ok.injEq] at hday'
      rw [hlow, Option.some.injEq] at hlow'
      omega

theorem Sound.not_empty (h : s.Sound) {low : ℤ} (hlow : s.domain.minOrdinal = some low) :
    s.domain.empty = false := by
  by_contra hempty
  have hnone := (h.empty_finalized (by simpa using hempty)).2
  rw [hlow] at hnone
  cases hnone

theorem Sound.offset_of_finalized (h : s.Sound) (hfinal : s.domain.finalized = true)
    (hobserved : ∃ value ∈ s.observed, value ≠ .null) :
    ∃ offset, s.domain.offset = some offset ∧ FeasibleOffset s.observed offset ∧
      ∀ value, s.domain.shifted value = temporalShift value offset := by
  obtain ⟨low, hlow⟩ := h.exists_low hobserved
  have hempty := h.not_empty hlow
  obtain ⟨offset, low', hoffset, hlow', hlower, hupper⟩ := h.ready hfinal hempty
  rw [hlow, Option.some.injEq] at hlow'
  subst hlow'
  have hne := (persistedTemporalState_eq_some (h.persisted offset hoffset)).2.2
  refine ⟨offset, hoffset, (h.feasibleOffset_iff hlow).mpr ⟨hne, hlower, hupper⟩, ?_⟩
  intro value
  rw [TemporalShiftDomain.shifted, hempty, hfinal, hoffset]
  rfl

/-- What the domain promises in one state of a run. -/
structure Contract (s : TemporalSession) : Prop where
  /-- Observed values move to another day of the calendar, keep their time of day and are recovered. -/
  shifts : s.domain.finalized = true → ∀ value ∈ s.observed, value ≠ .null →
    ∃ value' day, s.domain.shifted value = .ok value' ∧ value' ≠ value ∧
      temporalOrdinal value' = .ok day ∧ logicalMinOrdinal ≤ day ∧ day ≤ logicalMaxOrdinal ∧
      timeOfDay? value' = timeOfDay? value ∧ (s.domain.recover s.vault value').1 = .ok value
  /-- Differences and the order of observed values are kept. -/
  preserves : s.domain.finalized = true → ∀ a ∈ s.observed, ∀ b ∈ s.observed, a ≠ .null → b ≠ .null →
    ∀ a' b', s.domain.shifted a = .ok a' → s.domain.shifted b = .ok b' →
      moment b' - moment a' = moment b - moment a ∧ (moment a' < moment b' ↔ moment a < moment b)
  /-- The offset that a finalization returns is the instance's and is persisted. -/
  persists : ∀ randomBelow control offset domain vault,
    s.domain.finalize randomBelow control s.vault = (.ok (some offset, domain), vault) →
      domain.offset = some offset ∧ domain.finalized = true ∧ domain.domainId = s.domain.domainId ∧
        persistedTemporalState vault domain.domainId = .ok (some offset)
  /-- A persisted offset that suits every observed day is returned, and the vault stays as it is. -/
  returns : ∀ offset, persistedTemporalState s.vault s.domain.domainId = .ok (some offset) →
    (∃ value ∈ s.observed, value ≠ .null) → FeasibleOffset s.observed offset → ∀ randomBelow,
      s.domain.finalize randomBelow .sound s.vault =
        (.ok (some offset, { s.domain with offset := some offset, finalized := true }), s.vault)
  /-- Whatever was shifted by a persisted offset is recovered in every later state, re-opened instances included. -/
  recovers : ∀ offset, persistedTemporalState s.vault s.domain.domainId = .ok (some offset) → ∀ later value value',
    temporalShift value offset = .ok value' →
      ((s.run later).domain.recover (s.run later).vault value').1 = .ok value
  /-- A persisted offset is never replaced, and every later finalization of observed days reuses it. -/
  reuses : ∀ offset, persistedTemporalState s.vault s.domain.domainId = .ok (some offset) → ∀ later,
    persistedTemporalState (s.run later).vault (s.run later).domain.domainId = .ok (some offset) ∧
      ((s.run later).domain.finalized = true → (∃ value ∈ (s.run later).observed, value ≠ .null) →
        (s.run later).domain.offset = some offset)
  /-- A persisted offset that takes an observed day out of the calendar is refused without a write. -/
  refuses : ∀ offset, persistedTemporalState s.vault s.domain.domainId = .ok (some offset) →
    ∀ value ∈ s.observed, ∀ day, temporalOrdinal value = .ok day →
      ¬ (logicalMinOrdinal ≤ day + offset ∧ day + offset ≤ logicalMaxOrdinal) →
        ∀ randomBelow control, ∃ e, s.domain.finalize randomBelow control s.vault = (.error e, s.vault)
  /-- On a fresh vault each feasible offset is taken by exactly one draw, and each draw takes one. -/
  selects : (∃ value ∈ s.observed, value ≠ .null) → s.vault.domainKind s.domain.domainId = none →
    s.vault.temporalParameter (some s.domain.domainId) = none →
      (∀ offset, FeasibleOffset s.observed offset → ∃! draw, (0 ≤ draw ∧ draw < s.candidateCount) ∧
        ((s.domain.finalize (fun _ => draw) .sound s.vault).1.map Prod.fst) = .ok (some offset)) ∧
      ∀ draw, 0 ≤ draw → draw < s.candidateCount → ∃ offset, FeasibleOffset s.observed offset ∧
        ((s.domain.finalize (fun _ => draw) .sound s.vault).1.map Prod.fst) = .ok (some offset)
  /-- With draws below their bound, the refusal of the zero offset means that no other offset is feasible. -/
  exhausted : (∃ value ∈ s.observed, value ≠ .null) →
    ∀ randomBelow : ℤ → ℤ, (∀ bound, 0 < bound → 0 ≤ randomBelow bound ∧ randomBelow bound < bound) →
      (s.domain.finalize randomBelow .sound s.vault = (.error temporalOnlyZeroFeasible, s.vault) ↔
        ¬ ∃ offset, FeasibleOffset s.observed offset)

theorem Sound.shifts (h : s.Sound) (hfinal : s.domain.finalized = true) {value : Value}
    (hvalue : value ∈ s.observed) (hnull : value ≠ .null) :
    ∃ value' day, s.domain.shifted value = .ok value' ∧ value' ≠ value ∧
      temporalOrdinal value' = .ok day ∧ logicalMinOrdinal ≤ day ∧ day ≤ logicalMaxOrdinal ∧
      timeOfDay? value' = timeOfDay? value ∧ (s.domain.recover s.vault value').1 = .ok value := by
  obtain ⟨offset, hoffset, hfeasible, hshifted⟩ := h.offset_of_finalized hfinal ⟨value, hvalue, hnull⟩
  rcases h.bounded value hvalue with heq | ⟨day, low, hday, _⟩
  · exact absurd heq hnull
  · have hrange := hfeasible.2 value hvalue day hday
    obtain ⟨value', hvalue'⟩ := exists_temporalShift hday hrange
    obtain ⟨day₀, hday₀, hday', htime, -⟩ := shift_of_temporalShift hnull hvalue'
    rw [hday, Except.ok.injEq] at hday₀
    subst hday₀
    refine ⟨value', day + offset, (hshifted value).trans hvalue', ?_, hday', hrange.1, hrange.2, htime, ?_⟩
    · intro heq
      rw [heq, hday, Except.ok.injEq] at hday'
      have hne := hfeasible.1
      omega
    · have hnull' : value' ≠ .null := by
        intro heq
        rw [heq] at hday'
        cases hday'
      rw [TemporalShiftDomain.recover, if_neg hnull', hoffset]
      exact temporalRecover_of_shift hvalue'

theorem Sound.preserves (h : s.Sound) (hfinal : s.domain.finalized = true) {a b a' b' : Value}
    (ha : a ∈ s.observed) (hanull : a ≠ .null) (hbnull : b ≠ .null)
    (ha' : s.domain.shifted a = .ok a') (hb' : s.domain.shifted b = .ok b') :
    moment b' - moment a' = moment b - moment a := by
  obtain ⟨offset, -, -, hshifted⟩ := h.offset_of_finalized hfinal ⟨a, ha, hanull⟩
  rw [hshifted] at ha' hb'
  obtain ⟨_, _, _, _, hamoment⟩ := shift_of_temporalShift hanull ha'
  obtain ⟨_, _, _, _, hbmoment⟩ := shift_of_temporalShift hbnull hb'
  rw [hamoment, hbmoment]
  ring

theorem Sound.persists {randomBelow : ℤ → ℤ} {control : UnitControl} {domain : TemporalShiftDomain} {vault : VaultState}
    (h : s.domain.finalize randomBelow control s.vault = (.ok (some offset, domain), vault)) :
    domain.offset = some offset ∧ domain.finalized = true ∧ domain.domainId = s.domain.domainId ∧
      persistedTemporalState vault domain.domainId = .ok (some offset) := by
  cases hlow : s.domain.minOrdinal with
  | none =>
    rw [TemporalShiftDomain.finalize, hlow] at h
    cases h
  | some low =>
    obtain ⟨offset', hresult, rfl, -, -, hpersisted, -⟩ := TemporalShiftDomain.finalize_eq_ok hlow h
    obtain rfl := Option.some.inj hresult
    exact ⟨rfl, rfl, rfl, hpersisted⟩

/-- An instance that knows an offset knows the persisted one, and one that knows none reads it. -/
theorem Sound.recovers (h : s.Sound) (hpersisted : persistedTemporalState s.vault s.domain.domainId = .ok (some offset))
    {value value' : Value} (hshift : temporalShift value offset = .ok value') :
    (s.domain.recover s.vault value').1 = .ok value := by
  have hback : temporalRecover value' offset = .ok value := temporalRecover_of_shift hshift
  unfold TemporalShiftDomain.recover
  split_ifs with hnull
  · rw [hnull] at hback
    exact hback
  · cases hoffset : s.domain.offset with
    | some offset' =>
      have hsame := h.persisted offset' hoffset
      rw [hpersisted, Except.ok.injEq, Option.some.injEq] at hsame
      rw [← hsame]
      exact hback
    | none =>
      dsimp only
      rw [hpersisted]
      exact hback

theorem Sound.refuses (h : s.Sound) (hpersisted : persistedTemporalState s.vault s.domain.domainId = .ok (some offset))
    (hobserved : ∃ value ∈ s.observed, value ≠ .null) (hinfeasible : ¬ FeasibleOffset s.observed offset)
    (randomBelow : ℤ → ℤ) (control : UnitControl) :
    ∃ e, s.domain.finalize randomBelow control s.vault = (.error e, s.vault) := by
  obtain ⟨low, hlow⟩ := h.exists_low hobserved
  have hvault : (s.domain.finalize randomBelow control s.vault).2 = s.vault :=
    TemporalShiftDomain.finalize_persisted hpersisted
  cases hresult : s.domain.finalize randomBelow control s.vault with
  | mk result vault' =>
    rw [hresult] at hvault
    dsimp only at hvault
    subst hvault
    cases result with
    | error e => exact ⟨e, rfl⟩
    | ok pair =>
      exfalso
      obtain ⟨offset', -, -, hlower, hupper, hstored, -⟩ := TemporalShiftDomain.finalize_eq_ok hlow hresult
      rw [hpersisted, Except.ok.injEq, Option.some.injEq] at hstored
      subst hstored
      have hne := (persistedTemporalState_eq_some hpersisted).2.2
      exact hinfeasible ((h.feasibleOffset_iff hlow).mpr ⟨hne, hlower, hupper⟩)

theorem Sound.selects (h : s.Sound) (hobserved : ∃ value ∈ s.observed, value ≠ .null)
    (hkind : s.vault.domainKind s.domain.domainId = none)
    (hparameter : s.vault.temporalParameter (some s.domain.domainId) = none) :
    (∀ offset, FeasibleOffset s.observed offset → ∃! draw, (0 ≤ draw ∧ draw < s.candidateCount) ∧
        ((s.domain.finalize (fun _ => draw) .sound s.vault).1.map Prod.fst) = .ok (some offset)) ∧
      ∀ draw, 0 ≤ draw → draw < s.candidateCount → ∃ offset, FeasibleOffset s.observed offset ∧
        ((s.domain.finalize (fun _ => draw) .sound s.vault).1.map Prod.fst) = .ok (some offset) := by
  obtain ⟨low, hlow⟩ := h.exists_low hobserved
  have hcount : s.candidateCount = temporalNonzeroCount (logicalMinOrdinal - low)
      (logicalMaxOrdinal - s.domain.maxOrdinal) := by
    rw [candidateCount, hlow]
  have hfinalize : ∀ {draw offset : ℤ}, temporalOffsetAt (logicalMinOrdinal - low)
      (logicalMaxOrdinal - s.domain.maxOrdinal) draw = .ok offset →
        ((s.domain.finalize (fun _ => draw) .sound s.vault).1.map Prod.fst) = .ok (some offset) := by
    intro draw offset hselected
    rw [TemporalShiftDomain.finalize_fresh hlow hkind hparameter rfl hselected]
    rfl
  constructor
  · intro offset hfeasible
    obtain ⟨hne, hlower, hupper⟩ := (h.feasibleOffset_iff hlow).mp hfeasible
    obtain ⟨draw, ⟨hdraw, hselected⟩, hunique⟩ := existsUnique_temporalOffsetAt hne hlower hupper
    refine ⟨draw, ⟨hcount ▸ hdraw, hfinalize hselected⟩, ?_⟩
    intro draw' hdraw'
    rw [hcount] at hdraw'
    obtain ⟨offset', hselected'⟩ := exists_temporalOffsetAt hdraw'.1.1 hdraw'.1.2
    have hsame := (hfinalize hselected').symm.trans hdraw'.2
    rw [Except.ok.injEq, Option.some.injEq] at hsame
    exact hunique draw' ⟨hdraw'.1, hsame ▸ hselected'⟩
  · intro draw hdraw0 hdraw
    rw [hcount] at hdraw
    obtain ⟨offset, hselected⟩ := exists_temporalOffsetAt hdraw0 hdraw
    exact ⟨offset, (h.feasibleOffset_iff hlow).mpr (offset_of_temporalOffsetAt hselected), hfinalize hselected⟩

theorem Sound.exhausted (h : s.Sound) (hobserved : ∃ value ∈ s.observed, value ≠ .null) {randomBelow : ℤ → ℤ}
    (hdraws : ∀ bound, 0 < bound → 0 ≤ randomBelow bound ∧ randomBelow bound < bound) :
    s.domain.finalize randomBelow .sound s.vault = (.error temporalOnlyZeroFeasible, s.vault) ↔
      ¬ ∃ offset, FeasibleOffset s.observed offset := by
  obtain ⟨low, hlow⟩ := h.exists_low hobserved
  have hnone : (∃ offset, FeasibleOffset s.observed offset) ↔ 0 < temporalNonzeroCount (logicalMinOrdinal - low)
      (logicalMaxOrdinal - s.domain.maxOrdinal) := by
    rw [temporalNonzeroCount_pos_iff]
    exact exists_congr fun offset => h.feasibleOffset_iff hlow
  rw [hnone]
  constructor
  · intro hrefused hcount
    have hdraw := hdraws _ hcount
    obtain ⟨offset, hselected⟩ := exists_temporalOffsetAt hdraw.1 hdraw.2
    rw [TemporalShiftDomain.finalize, hlow] at hrefused
    dsimp only [temporalFeasibleInterval] at hrefused
    rw [if_neg (by omega)] at hrefused
    cases hbody : s.domain.allocateOffset randomBelow (logicalMinOrdinal - low)
        (logicalMaxOrdinal - s.domain.maxOrdinal) s.vault with
    | error e =>
      obtain ⟨detailCode, rfl⟩ := TemporalShiftDomain.allocateOffset_error hselected hbody
      rw [transaction_sound_error hbody] at hrefused
      cases hrefused
    | ok pair =>
      rw [transaction_eq_ok.mpr ⟨rfl, rfl, hbody⟩] at hrefused
      dsimp only at hrefused
      split_ifs at hrefused
      · cases hrefused
      · cases hrefused
  · intro hcount
    exact TemporalShiftDomain.finalize_onlyZero hlow (by omega)

end TemporalSession

/-- Every state of every run of one temporal domain keeps the contract. -/
theorem temporalShiftDomain_contract (sha16 : Text → Text) (domainName : Option Text) (vault : VaultState)
    (calls : List TemporalCall) :
    ((TemporalSession.start (temporalDomainId sha16 domainName) vault).run calls).Contract := by
  have hsound := (TemporalSession.sound_start (temporalDomainId sha16 domainName) vault).run calls
  generalize (TemporalSession.start (temporalDomainId sha16 domainName) vault).run calls = s at hsound
  refine ⟨?_, ?_, ?_, ?_, ?_, ?_, ?_, hsound.selects, ?_⟩
  · intro hfinal value hvalue hnull
    exact hsound.shifts hfinal hvalue hnull
  · intro hfinal a ha b hb hanull hbnull a' b' ha' hb'
    have hdifference := hsound.preserves hfinal ha hanull hbnull ha' hb'
    exact ⟨hdifference, by omega⟩
  · intro randomBelow control offset domain vault hresult
    exact TemporalSession.Sound.persists hresult
  · intro offset hpersisted hobserved hfeasible randomBelow
    obtain ⟨low, hlow⟩ := hsound.exists_low hobserved
    exact TemporalShiftDomain.finalize_reused hlow hpersisted ((hsound.feasibleOffset_iff hlow).mp hfeasible).2
  · intro offset hpersisted later value value' hshift
    exact (hsound.run later).recovers (TemporalSession.persisted_run later hpersisted) hshift
  · intro offset hpersisted later
    have hlater := TemporalSession.persisted_run later hpersisted
    refine ⟨hlater, ?_⟩
    intro hfinal hobserved
    obtain ⟨offset', hoffset', -, -⟩ := (hsound.run later).offset_of_finalized hfinal hobserved
    have hstored := (hsound.run later).persisted offset' hoffset'
    rw [hlater, Except.ok.injEq] at hstored
    rw [hoffset', hstored]
  · intro offset hpersisted value hvalue day hday hrange randomBelow control
    have hnull : value ≠ .null := by
      intro heq
      rw [heq] at hday
      cases hday
    refine hsound.refuses hpersisted ⟨value, hvalue, hnull⟩ ?_ randomBelow control
    intro hfeasible
    exact hrange (hfeasible.2 value hvalue day hday)
  · intro hobserved randomBelow hdraws
    exact hsound.exhausted hobserved hdraws

example : ((TemporalSession.start [] .empty).run
    [.observe (.date ⟨1, by decide, by decide⟩), .finalize (fun _ => 0) .sound]).domain.offset = some 1 := by decide

end DbfAnonymizer.Vault
