import DbfAnonymizer.Engine.NumericFinalize

/-! Finalization against the pure kernel on a fresh domain, and against an earlier run's rows. -/
namespace DbfAnonymizer.Engine
open Transforms Lib

/-- The domain bounds bind as SQL parameters. -/
def FitsInt64 (domain : NumericKeyDomain) : Prop :=
  sqliteMinInteger ≤ domain.pseudonymLow ∧ domain.pseudonymHigh ≤ sqliteMaxInteger

section Domain
variable (D : BuiltNumericDomain)

theorem fitsStrictly_of_fitsInt64 (h : FitsInt64 D.domain) : FitsStrictly D.domain := by
  obtain ⟨h1, h2⟩ := h
  obtain ⟨h3, h4⟩ := D.bounds_ne
  exact ⟨lt_of_le_of_ne h1 (Ne.symm h3), lt_of_le_of_ne h2 h4⟩

theorem built_bounds_le : D.domain.pseudonymLow ≤ D.domain.pseudonymHigh := by
  have h1 := D.low_nonpos
  have h2 := D.nine_le_high
  omega

end Domain

section Start
variable {domain : NumericKeyDomain}

theorem perm_numericObservationStream (s : NumericObservations) : s.numericObservationStream.Perm s.rows :=
  List.perm_insertionSort _ s.rows

theorem loopInvariant_start (st : NumericState) (hb : domain.pseudonymLow ≤ domain.pseudonymHigh)
    (hv : ∀ v ∈ st.mappings.values, domain.containsPseudonym v = true) :
    LoopInvariant domain st.mappings st.observed.numericObservationStream st.mappings.rows.length
      st.observed.rows.length st where
  accounted := ⟨hb, hv, rfl, le_refl _⟩
  observed_perm := (perm_numericObservationStream st.observed).symm
  keys_iff _ _ := Iff.rfl
  values_iff _ _ := Iff.rfl

/-- The entry test and the per-original test, both from the state before the run. -/
def Finalizable (domain : NumericKeyDomain) (st : NumericState) : Prop :=
  LeavesCompletion (domain.size - st.mappings.rows.length) st.observed.rows.length
      (ownValuesFree domain st.mappings.values st.observed.rows).length ∧
    StreamSelectable domain st.mappings st.observed.numericObservationStream
      (domain.size - st.mappings.rows.length) st.observed.rows.length

theorem finalizeNumeric_completes (st : NumericState) (rng : Csprng) (hf : FitsStrictly domain)
    (hb : domain.pseudonymLow ≤ domain.pseudonymHigh)
    (hv : ∀ v ∈ st.mappings.values, domain.containsPseudonym v = true) (h : Finalizable domain st) :
    ∃ count st', finalizeNumeric rng domain st = .ok (count, st') ∧
      Completed domain st st' st.observed.numericObservationStream count := by
  obtain ⟨count, st', he, hc⟩ := allocateNumeric_completes rng hf (loopInvariant_start _ hb hv) h.2 0
  refine ⟨count, st', ?_, hc⟩
  simp only [finalizeNumeric, numericResidualFeasible_eq hf hb, NumericObservations.numericUnpersistedCount,
    h.1, decide_true, ok_bind, if_true, he, Nat.zero_add]

theorem finalizeNumeric_refuses (st : NumericState) (rng : Csprng) (hf : FitsStrictly domain)
    (hb : domain.pseudonymLow ≤ domain.pseudonymHigh)
    (hv : ∀ v ∈ st.mappings.values, domain.containsPseudonym v = true) (h : ¬ Finalizable domain st) :
    ∃ detail, finalizeNumeric rng domain st = .error (capacityFailure detail) := by
  simp only [finalizeNumeric, numericResidualFeasible_eq hf hb,
    NumericObservations.numericUnpersistedCount, ok_bind, decide_eq_true_eq]
  split_ifs with hfeas
  · have hs := fun hs => h ⟨hfeas, hs⟩
    exact allocateNumeric_refuses rng hf (loopInvariant_start _ hb hv) hs 0
  · exact ⟨"ENGINE_NUMERIC_DOMAIN_EXHAUSTED", rfl⟩

theorem length_ownValuesFree_le (domain : NumericKeyDomain) (occupied rows : List ℤ) :
    (ownValuesFree domain occupied rows).length ≤ rows.length := List.length_filter_le _ _

theorem unpersistedAmong_le (persisted : BijectiveTable ℤ ℤ) (observations : List ℤ) :
    unpersistedAmong persisted observations ≤ observations.length := List.length_filter_le _ _

/-- One spare token beyond the observed and the persisted originals is always enough. -/
theorem finalizable_of_spare
    (h : (st.observed.rows.length + st.mappings.rows.length : ℤ) < domain.size) :
    Finalizable domain st := by
  constructor
  · exact ⟨by omega, by omega, fun _ _ => by omega⟩
  · intro before value after he _
    have hlen := (perm_numericObservationStream st.observed).length_eq
    rw [he, List.length_append, List.length_cons] at hlen
    have h1 := unpersistedAmong_le st.mappings before
    have h2 := length_ownValuesFree_le domain st.mappings.values (value :: after)
    rw [List.length_cons] at h2
    exact ⟨⟨by omega, by omega, fun _ _ => by omega⟩, by omega⟩

end Start

section Fresh
variable {domain : NumericKeyDomain} {observed : NumericObservations}

def freshState (observed : NumericObservations) : NumericState := ⟨.empty, observed, 0⟩

theorem not_finalizable_of_full (hpos : 0 < observed.rows.length)
    (h : (observed.rows.length : ℤ) = domain.size) : ¬ Finalizable domain (freshState observed) := by
  rintro ⟨-, hs⟩
  have hlen := (perm_numericObservationStream observed).length_eq
  obtain ⟨before, value, he⟩ : ∃ before value, observed.numericObservationStream = before ++ [value] := by
    rcases List.eq_nil_or_concat observed.numericObservationStream with hnil | ⟨before, value, he⟩
    · simp [hnil] at hlen
      omega
    · exact ⟨before, value, by rw [he, List.concat_eq_append]⟩
  have hlast := (hs before value [] he (by simp [freshState])).1.2.1
  have hcount : unpersistedAmong (freshState observed).mappings before = before.length := by
    simp [unpersistedAmong, freshState]
  rw [hcount] at hlast
  rw [he, List.length_append, List.length_singleton] at hlen
  simp only [freshState, BijectiveTable.rows_empty, List.length_nil, Nat.cast_zero] at hlast
  omega

theorem finalizeNumeric_overflow (rng : Csprng) (h10 : 10 ≤ domain.size) (hfit : ¬ FitsInt64 domain)
    (hpos : 0 < observed.rows.length) (hle : (observed.rows.length : ℤ) ≤ domain.size) :
    ∃ message, finalizeNumeric rng domain (freshState observed) = .error (.overflowError message) := by
  refine ⟨"Python int too large to convert to SQLite INTEGER", ?_⟩
  have hspool : spoolValueFreeInDomain domain (freshState observed) =
      .error (.overflowError "Python int too large to convert to SQLite INTEGER") := by
    unfold spoolValueFreeInDomain bindInteger
    unfold FitsInt64 at hfit
    split_ifs with hlow hhigh
    · exact absurd ⟨hlow.1, hhigh.2⟩ hfit
    all_goals rfl
  unfold finalizeNumeric numericResidualFeasible
  simp only [freshState, BijectiveTable.rows_empty, List.length_nil, Nat.cast_zero, sub_zero,
    NumericObservations.numericUnpersistedCount]
  rw [if_neg (by omega), if_neg (by omega), if_pos (by omega)]
  simp only [freshState] at hspool
  simp only [hspool, error_bind]

/-- On a fresh domain the production finalization does, under every source of random draws, what
the kernel says: it maps every original, or it raises the capacity failure. -/
def FinalizationAgrees (domain : NumericKeyDomain) (observed : NumericObservations) : Prop :=
  ∀ rng : Csprng, match planNumericBijection domain observed.rows [] with
    | .ok true => ∃ count st', finalizeNumeric rng domain (freshState observed) = .ok (count, st') ∧
        ∀ x ∈ observed.rows, ∃ pseudonym, st'.mappings.valueOf? x = some pseudonym
    | .ok false => ∃ detail, finalizeNumeric rng domain (freshState observed) =
        .error (capacityFailure detail)
    | .error _ => False

theorem Completed.exists_valueOf? {st st' : NumericState} {count : ℕ}
    (h : Completed domain st st' st.observed.numericObservationStream count) {x : ℤ}
    (hx : x ∈ st.observed.rows) : ∃ pseudonym, st'.mappings.valueOf? x = some pseudonym := by
  obtain ⟨added, hrows, hkeys, -⟩ := h.extends_rows
  have hmem : x ∈ st'.mappings.keys := by
    by_cases hk : x ∈ st.mappings.keys
    · simp [BijectiveTable.keys, hrows, BijectiveTable.mem_keys.mp hk]
    · have : x ∈ added.map Prod.fst := by
        rw [hkeys]
        simp [hk, (perm_numericObservationStream st.observed).mem_iff, hx]
      simp only [BijectiveTable.keys, hrows, List.map_append, List.mem_append]
      exact Or.inr this
  obtain ⟨pseudonym, hp⟩ := BijectiveTable.mem_keys.mp hmem
  exact ⟨pseudonym, BijectiveTable.valueOf?_eq_some_iff.mpr hp⟩

theorem finalizationAgrees_of_spare (D : BuiltNumericDomain) (hfit : FitsInt64 D.domain)
    (h : (observed.rows.length : ℤ) < D.domain.size) : FinalizationAgrees D.domain observed := by
  intro rng
  rw [D.planNumericBijection_fresh observed.nodup, decide_eq_true (by omega)]
  obtain ⟨count, st', he, hc⟩ := finalizeNumeric_completes (freshState observed) rng
    (fitsStrictly_of_fitsInt64 D hfit) (built_bounds_le D) (by simp [freshState])
    (finalizable_of_spare (by simpa [freshState] using h))
  exact ⟨count, st', he, fun x hx => hc.exists_valueOf? hx⟩

theorem finalizationAgrees_of_excess (D : BuiltNumericDomain)
    (h : D.domain.size < observed.rows.length) : FinalizationAgrees D.domain observed := by
  intro rng
  rw [D.planNumericBijection_fresh observed.nodup, decide_eq_false (by omega)]
  refine ⟨"ENGINE_NUMERIC_DOMAIN_EXHAUSTED", ?_⟩
  unfold finalizeNumeric numericResidualFeasible
  simp only [freshState, BijectiveTable.rows_empty, List.length_nil, Nat.cast_zero, sub_zero,
    NumericObservations.numericUnpersistedCount]
  rw [if_pos (by omega)]
  rfl

theorem finalizationAgrees_of_empty (D : BuiltNumericDomain) (h : observed.rows = []) :
    FinalizationAgrees D.domain observed := by
  intro rng
  have hsize := D.ten_le_size
  rw [D.planNumericBijection_fresh observed.nodup, decide_eq_true (by simp [h]; omega)]
  refine ⟨0, freshState observed, ?_, by simp [h]⟩
  unfold finalizeNumeric numericResidualFeasible
  simp only [freshState, BijectiveTable.rows_empty, List.length_nil, Nat.cast_zero, sub_zero,
    NumericObservations.numericUnpersistedCount, h]
  rw [if_neg (by omega), if_neg (by omega)]
  simp [NumericObservations.numericObservationStream, h, allocateNumeric]

/-- A full domain is feasible for the kernel and exhausted for the engine. -/
theorem not_finalizationAgrees_of_full (D : BuiltNumericDomain) (hpos : 0 < observed.rows.length)
    (h : (observed.rows.length : ℤ) = D.domain.size) (rng : Csprng) :
    ¬ FinalizationAgrees D.domain observed := by
  intro hagree
  have hrun := hagree rng
  rw [D.planNumericBijection_fresh observed.nodup, decide_eq_true (by omega)] at hrun
  obtain ⟨count, st', he, -⟩ := hrun
  by_cases hfit : FitsInt64 D.domain
  · obtain ⟨detail, herr⟩ := finalizeNumeric_refuses (freshState observed) rng
      (fitsStrictly_of_fitsInt64 D hfit) (built_bounds_le D) (by simp [freshState])
      (not_finalizable_of_full hpos h)
    rw [herr] at he
    cases he
  · obtain ⟨message, herr⟩ := finalizeNumeric_overflow rng D.ten_le_size hfit hpos (by omega)
    rw [herr] at he
    cases he

/-- The agreement fails exactly on a full domain and on unfilled bounds beyond 64 bits. -/
theorem finalizationAgrees_iff (D : BuiltNumericDomain) (observed : NumericObservations) :
    FinalizationAgrees D.domain observed ↔
      observed.rows = [] ∨ D.domain.size < observed.rows.length ∨
        ((observed.rows.length : ℤ) < D.domain.size ∧ FitsInt64 D.domain) := by
  constructor
  · intro hagree
    by_contra hnot
    simp only [not_or, not_lt, not_and] at hnot
    obtain ⟨hne, hle, hfit⟩ := hnot
    have hpos : 0 < observed.rows.length := List.length_pos_iff.mpr hne
    rcases hle.lt_or_eq with hlt | heq
    · have hrun := hagree default
      rw [D.planNumericBijection_fresh observed.nodup, decide_eq_true hle] at hrun
      obtain ⟨count, st', he, -⟩ := hrun
      obtain ⟨message, herr⟩ := finalizeNumeric_overflow default D.ten_le_size (hfit hlt) hpos hle
      rw [herr] at he
      cases he
    · exact not_finalizationAgrees_of_full D hpos heq default hagree
  · rintro (hempty | hexcess | ⟨hspare, hfit⟩)
    · exact finalizationAgrees_of_empty D hempty
    · exact finalizationAgrees_of_excess D hexcess
    · exact finalizationAgrees_of_spare D hfit hspare

/-- The domain of a single `N(1, 0)` member: the ten digits. -/
def digitDomain : BuiltNumericDomain where
  domain := ⟨0, 9, [⟨0, 9, 0, 9, some 0, some 9⟩]⟩
  members := [⟨0, 9, 0, 9, some 0, some 9⟩]
  members_supported := by
    intro m hm
    rw [List.mem_singleton] at hm
    have hone : integralNumericMember 1 = .ok m := hm ▸ rfl
    exact .integral hone
  built := rfl

def tenDigits : NumericObservations := ⟨[0, 1, 2, 3, 4, 5, 6, 7, 8, 9], by decide⟩

/-- Ten observed digits fill the domain: the kernel accepts them and every run refuses. -/
theorem not_finalizationAgrees_tenDigits : ¬ FinalizationAgrees digitDomain.domain tenDigits :=
  not_finalizationAgrees_of_full digitDomain (by decide) (by decide) default

end Fresh
end DbfAnonymizer.Engine
