import DbfAnonymizer.Engine.MemberAgreement
import DbfAnonymizer.Engine.NumericResume

/-! What every run over one vault keeps of a numeric domain's rows, wherever the runs stop. -/
namespace DbfAnonymizer.Engine
open Transforms Relationships Lib

/-- The rows of a domain are tokens of it, and none maps an original to itself. -/
structure MappingInvariant (domain : NumericKeyDomain) (mappings : BijectiveTable ℤ ℤ) : Prop where
  values_mem : ∀ v ∈ mappings.values, domain.containsPseudonym v = true
  no_fixed_point : ∀ row ∈ mappings.rows, row.2 ≠ row.1

/-- A finalization that stops in front of an observation. -/
def finalizeNumericUpTo (rng : Csprng) (domain : NumericKeyDomain) (stop : ℕ) (st : NumericState) :
    Except Raised (ℕ × NumericState) := do
  let occupied : ℤ := st.mappings.rows.length
  let remaining : ℤ := st.observed.numericUnpersistedCount
  if ← numericResidualFeasible domain occupied remaining st then
    allocateNumeric rng domain (st.observed.numericObservationStream.take stop) occupied remaining 0 st
  else throw (capacityFailure "ENGINE_NUMERIC_DOMAIN_EXHAUSTED")

/-- Runs over one vault, one after the other: each with observations and draws of its own, each
stopped anywhere. -/
inductive NumericRuns (domain : NumericKeyDomain) : BijectiveTable ℤ ℤ → BijectiveTable ℤ ℤ → Prop
  | start (mappings : BijectiveTable ℤ ℤ) : NumericRuns domain mappings mappings
  | run {earlier mappings : BijectiveTable ℤ ℤ} {rng : Csprng} {observed : NumericObservations}
      {draws stop count : ℕ} {st' : NumericState} (before : NumericRuns domain earlier mappings)
      (h : finalizeNumericUpTo rng domain stop ⟨mappings, observed, draws⟩ = .ok (count, st')) :
      NumericRuns domain earlier st'.mappings

theorem finalizeNumeric_eq_upTo (rng : Csprng) (domain : NumericKeyDomain) (st : NumericState) :
    finalizeNumeric rng domain st =
      finalizeNumericUpTo rng domain st.observed.numericObservationStream.length st := by
  unfold finalizeNumeric finalizeNumericUpTo
  rw [List.take_length]

/-- Bounds beyond 64 bits pass no entry test while there is an observation. -/
theorem numericResidualFeasible_unfit {domain : NumericKeyDomain} (hfit : ¬ FitsInt64 domain) {occ rem : ℤ}
    (hrem : 0 < rem) (st : NumericState) : numericResidualFeasible domain occ rem st ≠ .ok true := by
  have hspool : spoolValueFreeInDomain domain st =
      .error (.overflowError "Python int too large to convert to SQLite INTEGER") := by
    unfold spoolValueFreeInDomain bindInteger
    unfold FitsInt64 at hfit
    split_ifs with hlow hhigh
    · exact absurd ⟨hlow.1, hhigh.2⟩ hfit
    all_goals rfl
  unfold numericResidualFeasible
  simp only [hspool, error_bind]
  split_ifs <;> simp

section Search
variable {rng : Csprng} {domain : NumericKeyDomain} {st st' : NumericState} {original occupied remaining : ℤ}
  {candidate : ℤ} {draws : ℕ}

theorem selectNumericCandidate_safe (hf : FitsStrictly domain) (ha : Accounted domain st occupied remaining)
    (ho : original ∈ st.observed.rows)
    (h : selectNumericCandidate rng domain st original occupied remaining = .ok (candidate, draws)) :
    candidate ∈ freeTokens domain st.mappings ∧ candidate ∉ st.observed.rows ∧ candidate ≠ original := by
  by_cases hs : Selectable (domain.size - occupied) remaining
      (ownValuesFree domain st.mappings.values st.observed.rows).length
  · obtain ⟨c, d, he, hfree, hnot⟩ := selectNumericCandidate_commits rng hf ha ho hs
    rw [h] at he
    obtain rfl : candidate = c := congrArg Prod.fst (Except.ok.inj he)
    refine ⟨hfree, hnot, ?_⟩
    rintro rfl
    exact hnot ho
  · obtain ⟨detail, he⟩ := selectNumericCandidate_refuses rng hf ha ho hs
    rw [h] at he
    cases he

end Search

/-- What the loop has kept and added when it has handled a prefix of the stream. -/
structure SafelyExtended (domain : NumericKeyDomain) (handled : List ℤ) (st st' : NumericState) : Prop where
  invariant : MappingInvariant domain st'.mappings
  rows_prefix : st.mappings.rows <+: st'.mappings.rows
  handled_mapped : ∀ x ∈ handled, x ∈ st'.mappings.keys

section Loop
variable {rng : Csprng} {domain : NumericKeyDomain} {persisted mappings : BijectiveTable ℤ ℤ}
  {todo rest after : List ℤ} {value candidate occupied remaining : ℤ} {st st' : NumericState}

theorem MappingInvariant.insert (h : MappingInvariant domain st.mappings)
    (hm : st.mappings.insert? value candidate = some mappings) (hc : candidate ∈ freeTokens domain st.mappings)
    (hne : candidate ≠ value) : MappingInvariant domain mappings where
  values_mem := by
    intro v hv
    rw [BijectiveTable.values_of_insert? hm, List.mem_append, List.mem_singleton] at hv
    rcases hv with hv | rfl
    · exact h.values_mem v hv
    · exact (mem_freeTokens.mp hc).1
  no_fixed_point := by
    intro row hrow
    rw [(BijectiveTable.insert?_eq_some_iff.mp hm).2.2, List.mem_append, List.mem_singleton] at hrow
    rcases hrow with hrow | rfl
    · exact h.no_fixed_point row hrow
    · exact hne

theorem SafelyExtended.mem_keys {handled : List ℤ} (h : SafelyExtended domain handled st st') {x : ℤ}
    (hx : x ∈ st.mappings.keys) : x ∈ st'.mappings.keys :=
  (h.rows_prefix.map Prod.fst).subset hx

theorem allocateNumeric_safe (hf : FitsStrictly domain)
    (hl : LoopInvariant domain persisted (todo ++ after) occupied remaining st)
    (hi : MappingInvariant domain st.mappings) {allocated count : ℕ}
    (h : allocateNumeric rng domain todo occupied remaining allocated st = .ok (count, st')) :
    SafelyExtended domain todo st st' := by
  induction todo generalizing occupied remaining allocated st with
  | nil =>
    cases h
    exact ⟨hi, List.prefix_refl _, by simp⟩
  | cons value rest ih =>
    rw [allocateNumeric] at h
    cases hv : st.mappings.valueOf? value with
    | some pseudonym =>
      simp only [hv] at h
      have hkey : value ∈ st.mappings.keys :=
        BijectiveTable.mem_keys.mpr ⟨pseudonym, BijectiveTable.valueOf?_eq_some_iff.mp hv⟩
      have hrest := ih hl.reuse hi h
      refine ⟨hrest.invariant, hrest.rows_prefix, ?_⟩
      intro x hx
      rcases List.mem_cons.mp hx with rfl | hx
      · exact hrest.mem_keys hkey
      · exact hrest.handled_mapped x hx
    | none =>
      simp only [hv] at h
      obtain ⟨⟨candidate, draws⟩, hpick, h⟩ := bind_eq_ok.mp h
      have hobs : value ∈ st.observed.rows := hl.observed_perm.mem_iff.mpr (by simp)
      obtain ⟨hfree, hnot, hne⟩ := selectNumericCandidate_safe hf hl.accounted hobs hpick
      obtain ⟨mappings, hm⟩ :=
        BijectiveTable.exists_insert? (BijectiveTable.valueOf?_eq_none_iff.mp hv) (mem_freeTokens.mp hfree).2
      simp only [addNumericKeyMapping, hm, ok_bind] at h
      have hrest := ih (hl.commit draws hm hfree hnot) (hi.insert hm hfree hne) h
      have hrows : mappings.rows = st.mappings.rows ++ [(value, candidate)] :=
        (BijectiveTable.insert?_eq_some_iff.mp hm).2.2
      have hstep : st.mappings.rows <+: mappings.rows := hrows ▸ List.prefix_append _ _
      refine ⟨hrest.invariant, hstep.trans hrest.rows_prefix, ?_⟩
      intro x hx
      rcases List.mem_cons.mp hx with rfl | hx
      · exact hrest.mem_keys (by simp [BijectiveTable.keys, hrows])
      · exact hrest.handled_mapped x hx

end Loop

section Runs
variable {rng : Csprng} {observed : NumericObservations} {earlier mappings : BijectiveTable ℤ ℤ}
  {draws stop count : ℕ} {st' : NumericState}

theorem finalizeNumericUpTo_safe (D : BuiltNumericDomain) (hi : MappingInvariant D.domain mappings)
    (h : finalizeNumericUpTo rng D.domain stop ⟨mappings, observed, draws⟩ = .ok (count, st')) :
    SafelyExtended D.domain (observed.numericObservationStream.take stop) ⟨mappings, observed, draws⟩ st' := by
  unfold finalizeNumericUpTo at h
  obtain ⟨feasible, hfeasible, h⟩ := bind_eq_ok.mp h
  cases feasible with
  | false => simp at h
  | true =>
    simp only [if_true] at h
    by_cases hfit : FitsInt64 D.domain
    · have hstart : LoopInvariant D.domain mappings observed.numericObservationStream mappings.rows.length
          observed.rows.length ⟨mappings, observed, draws⟩ :=
        loopInvariant_start ⟨mappings, observed, draws⟩ (built_bounds_le D) hi.values_mem
      rw [← List.take_append_drop stop observed.numericObservationStream] at hstart
      exact allocateNumeric_safe (fitsStrictly_of_fitsInt64 D hfit) hstart hi h
    · have hempty : observed.rows = [] := by
        by_contra hne
        refine numericResidualFeasible_unfit hfit ?_ _ hfeasible
        exact_mod_cast List.length_pos_iff.mpr hne
      have hstream : observed.numericObservationStream = [] := by
        rw [NumericObservations.numericObservationStream, hempty, List.insertionSort_nil]
      simp only [hstream, List.take_nil, allocateNumeric] at h
      cases h
      exact ⟨hi, List.prefix_refl _, by simp [hstream]⟩

theorem NumericRuns.safe (D : BuiltNumericDomain) (hruns : NumericRuns D.domain earlier mappings)
    (hi : MappingInvariant D.domain earlier) :
    MappingInvariant D.domain mappings ∧ earlier.rows <+: mappings.rows := by
  induction hruns with
  | start => exact ⟨hi, List.prefix_refl _⟩
  | run before h ih =>
    obtain ⟨hbefore, hprefix⟩ := ih
    have hstep := finalizeNumericUpTo_safe D hbefore h
    exact ⟨hstep.invariant, hprefix.trans hstep.rows_prefix⟩

end Runs

section Group
variable {group : RelationGroup} {domainId : Text} {domain : NumericKeyDomain}

theorem relationNumericDomain_built (h : relationNumericDomain group (some domainId) = .ok (some domain)) :
    ∃ D : BuiltNumericDomain, D.domain = domain ∧
      (group.members.filter RelationMember.isNumericMember).mapM numericMemberRange = .ok D.members := by
  obtain ⟨ranges, hranges, h⟩ := bind_eq_ok.mp h
  obtain ⟨built, hbuilt, h⟩ := bind_eq_ok.mp h
  cases h
  refine ⟨⟨domain, ranges, ?_, hbuilt⟩, rfl, hranges⟩
  intro range hrange
  obtain ⟨m, -, hm⟩ := exists_of_mem_mapM_ok hranges hrange
  rcases numericMemberRange_eq_ok hm with ⟨-, rfl⟩ | ⟨-, hm⟩
  · exact .integer
  · exact .integral hm

theorem writable_of_containsPseudonym
    (h : relationNumericDomain group (some domainId) = .ok (some domain)) {m : RelationMember}
    (hm : m ∈ group.members) (hn : m.isNumericMember = true) :
    ∃ range, numericMemberRange m = .ok range ∧ ∀ v, domain.containsPseudonym v = true →
      range.pseudonymLow ≤ v ∧ v ≤ range.pseudonymHigh := by
  obtain ⟨D, rfl, hranges⟩ := relationNumericDomain_built h
  obtain ⟨range, hrange, hm'⟩ := exists_of_mapM_ok hranges (List.mem_filter.mpr ⟨hm, hn⟩)
  obtain ⟨-, -, -, hall, -⟩ := numericKeyDomainFor_eq_ok D.built
  have hbounds := hall range hrange
  refine ⟨range, hm', fun v hv => ?_⟩
  rw [NumericKeyDomain.containsPseudonym_iff] at hv
  omega

/-- What a returning finalization owes to the rows it found and to the group it serves. -/
structure SafelyMapped (group : RelationGroup) (domain : NumericKeyDomain) (observed : NumericObservations)
    (earlier mappings : BijectiveTable ℤ ℤ) : Prop where
  total : ∀ x ∈ observed.rows, ∃ p, mappings.valueOf? x = some p
  injective : ∀ x y p, mappings.valueOf? x = some p → mappings.valueOf? y = some p → x = y
  contained : ∀ x p, mappings.valueOf? x = some p → domain.containsPseudonym p = true
  no_fixed_point : ∀ x p, mappings.valueOf? x = some p → p ≠ x
  keeps_rows : earlier.rows <+: mappings.rows
  keeps_values : ∀ x p, earlier.valueOf? x = some p → mappings.valueOf? x = some p
  writable : ∀ m ∈ group.members, m.isNumericMember = true → ∃ range, numericMemberRange m = .ok range ∧
    ∀ x p, mappings.valueOf? x = some p → range.pseudonymLow ≤ p ∧ p ≤ range.pseudonymHigh

/-- Whatever runs came before and whatever is drawn, a finalization that returns leaves a safe mapping. -/
theorem finalizeNumeric_safe (hdomain : relationNumericDomain group (some domainId) = .ok (some domain))
    {earlier mappings : BijectiveTable ℤ ℤ} (hi : MappingInvariant domain earlier)
    (hruns : NumericRuns domain earlier mappings) (rng : Csprng) (observed : NumericObservations)
    (draws : ℕ) {count : ℕ} {st' : NumericState}
    (h : finalizeNumeric rng domain ⟨mappings, observed, draws⟩ = .ok (count, st')) :
    SafelyMapped group domain observed earlier st'.mappings := by
  obtain ⟨D, rfl, -⟩ := relationNumericDomain_built hdomain
  obtain ⟨hbefore, hprefix⟩ := hruns.safe D hi
  rw [finalizeNumeric_eq_upTo] at h
  have hrun := finalizeNumericUpTo_safe D hbefore h
  have hkeeps : earlier.rows <+: st'.mappings.rows := hprefix.trans hrun.rows_prefix
  have hcontained : ∀ x p, st'.mappings.valueOf? x = some p → D.domain.containsPseudonym p = true := by
    intro x p hp
    have hrow := BijectiveTable.valueOf?_eq_some_iff.mp hp
    exact hrun.invariant.values_mem p (BijectiveTable.mem_values.mpr ⟨x, hrow⟩)
  constructor
  case total =>
    intro x hx
    have hmem : x ∈ observed.numericObservationStream := (perm_numericObservationStream observed).mem_iff.mpr hx
    obtain ⟨p, hp⟩ := BijectiveTable.mem_keys.mp (hrun.handled_mapped x (by rwa [List.take_length]))
    exact ⟨p, BijectiveTable.valueOf?_eq_some_iff.mpr hp⟩
  case injective =>
    intro x y p hx hy
    have hkx := BijectiveTable.keyOf?_eq_some_iff.mpr (BijectiveTable.valueOf?_eq_some_iff.mp hx)
    have hky := BijectiveTable.keyOf?_eq_some_iff.mpr (BijectiveTable.valueOf?_eq_some_iff.mp hy)
    exact Option.some.inj (hkx.symm.trans hky)
  case contained => exact hcontained
  case no_fixed_point =>
    intro x p hp
    exact hrun.invariant.no_fixed_point (x, p) (BijectiveTable.valueOf?_eq_some_iff.mp hp)
  case keeps_rows => exact hkeeps
  case keeps_values =>
    intro x p hp
    exact BijectiveTable.valueOf?_eq_some_iff.mpr (hkeeps.subset (BijectiveTable.valueOf?_eq_some_iff.mp hp))
  case writable =>
    intro m hm hn
    obtain ⟨range, hrange, hwritable⟩ := writable_of_containsPseudonym hdomain hm hn
    exact ⟨range, hrange, fun x p hp => hwritable p (hcontained x p hp)⟩

/-- The digits that an Integer parent key and its `N(1, 0)` child key share. -/
def sharedDigits : NumericKeyDomain := ⟨0, 9, [integerMember, ⟨0, 9, 0, 9, some 0, some 9⟩]⟩

/-- Three digits, over an earlier run's row for one of them. -/
theorem threeDigits_safe : ∃ count st',
    finalizeNumeric default sharedDigits ⟨threeDigitsRows.mappings, threeDigits, 0⟩ = .ok (count, st') ∧
      SafelyMapped (orderGroup .n 1) sharedDigits threeDigits threeDigitsRows.mappings st'.mappings := by
  have hdomain : relationNumericDomain (orderGroup .n 1) (some ['r', '1']) = .ok (some sharedDigits) := rfl
  have hi : MappingInvariant sharedDigits threeDigitsRows.mappings := ⟨by decide, by decide⟩
  have hfits : FitsStrictly sharedDigits := ⟨by decide, by decide⟩
  obtain ⟨count, st', he, -⟩ := finalizeNumeric_completes ⟨threeDigitsRows.mappings, threeDigits, 0⟩ default
    hfits (by decide) hi.values_mem (finalizable_of_spare (by decide))
  exact ⟨count, st', he, finalizeNumeric_safe hdomain hi (.start _) default threeDigits 0 he⟩

end Group
end DbfAnonymizer.Engine
