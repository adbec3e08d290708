import DbfAnonymizer.Engine.NumericCandidates

/-! One candidate search, and the allocation loop over a whole observation stream. -/
namespace DbfAnonymizer.Engine
open Transforms Lib

/-- The loop invariant: the counters bound the committed rows and the spooled ones. -/
structure Accounted (domain : NumericKeyDomain) (st : NumericState) (occupied remaining : ℤ) : Prop where
  bounds : domain.pseudonymLow ≤ domain.pseudonymHigh
  values_mem : ∀ v ∈ st.mappings.values, domain.containsPseudonym v = true
  occupied_eq : occupied = st.mappings.rows.length
  observed_le : (st.observed.rows.length : ℤ) ≤ remaining

/-- What a search needs in order to commit a token: a feasible rest, and a free token that is
no observed original's own value. -/
def Selectable (free remaining : ℤ) (own : ℕ) : Prop :=
  LeavesCompletion (free - 1) (remaining - 1) own ∧ own < free

instance (free remaining : ℤ) (own : ℕ) : Decidable (Selectable free remaining own) := by
  unfold Selectable
  infer_instance

theorem probeNumeric_cases {accept : ℤ → Except Raised Bool} {P : ℤ → Prop}
    [DecidablePred P] (ha : ∀ c, accept c = .ok (decide (P c))) (candidateAt : ℤ → ℤ) (rng : Csprng)
    (free : ℕ) (hfree : 0 < free) (budget draws : ℕ) :
    (∃ j < free, P (candidateAt j) ∧
        ∃ d, probeNumeric rng accept candidateAt free budget draws = .ok (some (candidateAt j), d)) ∨
      ∃ d, probeNumeric rng accept candidateAt free budget draws = .ok (none, d) := by
  induction budget generalizing draws with
  | zero => exact Or.inr ⟨draws, rfl⟩
  | succ budget ih =>
    simp only [probeNumeric, ha]
    by_cases hp : P (candidateAt (rng.next draws free))
    · refine Or.inl ⟨rng.next draws free, rng.next_lt draws free hfree, hp, draws + 1, ?_⟩
      simp [hp]
    · simpa [hp] using ih (draws + 1)

theorem walkNumeric_cases {accept : ℤ → Except Raised Bool} {P : ℤ → Prop} [DecidablePred P]
    (ha : ∀ c, accept c = .ok (decide (P c))) (candidateAt : ℤ → ℤ) (indices : List ℕ) :
    (∃ j ∈ indices, P (candidateAt j) ∧
        walkNumeric accept candidateAt indices = .ok (some (candidateAt j))) ∨
      (∀ j ∈ indices, ¬ P (candidateAt j)) ∧ walkNumeric accept candidateAt indices = .ok none := by
  induction indices with
  | nil => exact Or.inr ⟨by simp, rfl⟩
  | cons j rest ih =>
    simp only [walkNumeric, ha]
    by_cases hp : P (candidateAt j)
    · exact Or.inl ⟨j, by simp, hp, by simp [hp]⟩
    · rcases ih with ⟨k, hk, hpk, he⟩ | ⟨hall, he⟩
      · exact Or.inl ⟨k, by simp [hk], hpk, by simpa [hp] using he⟩
      · refine Or.inr ⟨?_, by simpa [hp] using he⟩
        simpa [hp] using hall

section Selection
variable {domain : NumericKeyDomain} {st : NumericState} {original occupied remaining : ℤ}

theorem acceptNumericCandidate_eq (occupied remaining : ℤ) (hf : FitsStrictly domain)
    (hb : domain.pseudonymLow ≤ domain.pseudonymHigh) (ho : original ∈ st.observed.rows) (c : ℤ) :
    acceptNumericCandidate domain st original occupied remaining c =
      .ok (decide (c ∉ st.observed.rows ∧ LeavesCompletion (domain.size - occupied - 1) (remaining - 1)
        (ownValuesFree domain st.mappings.values st.observed.rows).length)) := by
  unfold acceptNumericCandidate numericCandidateBlocked
  rw [numericResidualFeasible_eq hf hb, show domain.size - (occupied + 1) = domain.size - occupied - 1 by omega]
  by_cases he : c = original
  · subst he
    simp [ho]
  · by_cases hc : c ∈ st.observed.rows
    · simp [he, hc]
    · simp [he, hc]

theorem candidate_mem_freeTokens (hf : FitsStrictly domain) (ha : Accounted domain st occupied remaining)
    {j : ℤ} (hj : 0 ≤ j) (hlt : j < domain.size - occupied) :
    streamingJthFreeNumeric domain (numericOccupiedStream st.mappings) j ∈ freeTokens domain st.mappings := by
  have hcard := card_freeTokens ha.bounds ha.values_mem
  rw [streamingJthFreeNumeric_eq]
  obtain ⟨h1, h2, -⟩ := gapWalk_spec (pairwise_numericOccupiedStream hf st.mappings)
    (fun _ => lt_of_mem_numericOccupiedStream) hj
  have h3 := gapWalk_lt (t := domain.pseudonymHigh + 1) (pairwise_numericOccupiedStream hf st.mappings)
    (fun _ => lt_of_mem_numericOccupiedStream) hj
    (by rw [← freeTokens, hcard, ← ha.occupied_eq]; exact hlt)
  exact mem_freeBetween.mpr ⟨⟨h1, h3⟩, h2⟩

/-- When every free token is observed, or no rest can be completed, the search refuses. -/
theorem selectNumericCandidate_refuses (rng : Csprng) (hf : FitsStrictly domain)
    (ha : Accounted domain st occupied remaining) (ho : original ∈ st.observed.rows)
    (hs : ¬ Selectable (domain.size - occupied) remaining
      (ownValuesFree domain st.mappings.values st.observed.rows).length) :
    ∃ detail, selectNumericCandidate rng domain st original occupied remaining =
      .error (capacityFailure detail) := by
  unfold selectNumericCandidate
  by_cases hfree : domain.size - occupied < 1
  · exact ⟨"ENGINE_NUMERIC_DOMAIN_EXHAUSTED", by simp [hfree]⟩
  refine ⟨"ENGINE_NUMERIC_NO_COMPLETION", ?_⟩
  have hcard := card_freeTokens ha.bounds ha.values_mem
  have hnever : ∀ j : ℕ, (j : ℤ) < domain.size - occupied →
      ¬ (streamingJthFreeNumeric domain (numericOccupiedStream st.mappings) j ∉ st.observed.rows ∧
        LeavesCompletion (domain.size - occupied - 1) (remaining - 1)
          (ownValuesFree domain st.mappings.values st.observed.rows).length) := by
    rintro j hj ⟨hnot, hleaves⟩
    refine hs ⟨hleaves, ?_⟩
    have hmem := candidate_mem_freeTokens hf ha (j := j) (by omega) hj
    have hss : (freeTokens domain st.mappings).filter (· ∈ st.observed.rows) ⊂ freeTokens domain st.mappings :=
      Finset.filter_ssubset.mpr ⟨_, hmem, hnot⟩
    have hlt := Finset.card_lt_card hss
    rw [← length_ownValuesFree st.observed.nodup] at hlt
    rw [ha.occupied_eq]
    omega
  have hacc := acceptNumericCandidate_eq occupied remaining hf ha.bounds ho
  simp only [hfree, if_false]
  rcases probeNumeric_cases hacc (streamingJthFreeNumeric domain (numericOccupiedStream st.mappings))
      rng (domain.size - occupied).toNat (by omega) numericKeyProbeBudget st.draws with
    ⟨j, hj, hp, -⟩ | ⟨d, hd⟩
  · exact absurd hp (hnever j (by omega))
  rcases walkNumeric_cases hacc (streamingJthFreeNumeric domain (numericOccupiedStream st.mappings))
      (List.range (min (domain.size - occupied) (remaining + 2)).toNat) with ⟨j, hj, hp, -⟩ | ⟨-, hw⟩
  · have := List.mem_range.mp hj
    exact absurd hp (hnever j (by omega))
  · simp [hd, hw]

/-- Otherwise it commits a free token that is no observed original's own value. -/
theorem selectNumericCandidate_commits (rng : Csprng) (hf : FitsStrictly domain)
    (ha : Accounted domain st occupied remaining) (ho : original ∈ st.observed.rows)
    (hs : Selectable (domain.size - occupied) remaining
      (ownValuesFree domain st.mappings.values st.observed.rows).length) :
    ∃ candidate draws, selectNumericCandidate rng domain st original occupied remaining =
        .ok (candidate, draws) ∧
      candidate ∈ freeTokens domain st.mappings ∧ candidate ∉ st.observed.rows := by
  obtain ⟨hleaves, hown⟩ := hs
  have hfree : 1 ≤ domain.size - occupied := by have := hleaves.2.1; omega
  have hcard := card_freeTokens ha.bounds ha.values_mem
  rw [← ha.occupied_eq] at hcard
  have hacc := acceptNumericCandidate_eq occupied remaining hf ha.bounds ho
  unfold selectNumericCandidate
  simp only [show ¬ domain.size - occupied < 1 by omega, if_false]
  rcases probeNumeric_cases hacc (streamingJthFreeNumeric domain (numericOccupiedStream st.mappings))
      rng (domain.size - occupied).toNat (by omega) numericKeyProbeBudget st.draws with
    ⟨j, hj, hp, d, hd⟩ | ⟨d, hd⟩
  · refine ⟨_, d, ?_, candidate_mem_freeTokens hf ha (j := j) (by omega) (by omega), hp.1⟩
    simp [hd]
  rcases walkNumeric_cases hacc (streamingJthFreeNumeric domain (numericOccupiedStream st.mappings))
      (List.range (min (domain.size - occupied) (remaining + 2)).toNat) with ⟨j, hj, hp, hw⟩ | ⟨hall, -⟩
  · have := List.mem_range.mp hj
    refine ⟨_, d, ?_, candidate_mem_freeTokens hf ha (j := j) (by omega) (by omega), hp.1⟩
    simp [hd, hw]
  · -- the walk is one longer than the observed own values, so they cannot block all of it
    have hobs := ha.observed_le
    have hlen : (ownValuesFree domain st.mappings.values st.observed.rows).length ≤ st.observed.rows.length :=
      List.length_filter_le _ _
    obtain ⟨j, hj, hnot⟩ := exists_gapWalk_not_mem st.observed.rows
      (t := domain.pseudonymHigh + 1) (k := (min (domain.size - occupied) (remaining + 2)).toNat)
      (pairwise_numericOccupiedStream hf st.mappings) (fun _ => lt_of_mem_numericOccupiedStream)
      (by rw [← freeTokens]; omega)
      (by rw [← freeTokens, ← length_ownValuesFree st.observed.nodup]; omega)
    rw [← streamingJthFreeNumeric_eq] at hnot
    exact absurd ⟨hnot, hleaves⟩ (hall j (List.mem_range.mpr hj))

end Selection
end DbfAnonymizer.Engine
