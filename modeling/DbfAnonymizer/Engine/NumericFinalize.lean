import DbfAnonymizer.Engine.NumericSelection
import DbfAnonymizer.Transforms.NumericDomain

/-! Whole finalization runs of a numeric domain, on a fresh vault domain and on a resumed one. -/
namespace DbfAnonymizer.Engine
open Transforms Lib

/-- How many observations of a list an earlier run has not persisted. -/
def unpersistedAmong (persisted : BijectiveTable ℤ ℤ) (observations : List ℤ) : ℕ :=
  (observations.filter (· ∉ persisted.keys)).length

/-- Every unpersisted original of the stream is selectable when the loop reaches it. -/
def StreamSelectable (domain : NumericKeyDomain) (persisted : BijectiveTable ℤ ℤ) (stream : List ℤ)
    (free remaining : ℤ) : Prop :=
  ∀ before value after, stream = before ++ value :: after → value ∉ persisted.keys →
    Selectable (free - unpersistedAmong persisted before) (remaining - unpersistedAmong persisted before)
      (ownValuesFree domain persisted.values (value :: after)).length

section Stream
variable {domain : NumericKeyDomain} {persisted : BijectiveTable ℤ ℤ} {value : ℤ} {rest : List ℤ}
  {free remaining : ℤ}

theorem streamSelectable_reused (hv : value ∈ persisted.keys) :
    StreamSelectable domain persisted (value :: rest) free remaining ↔
      StreamSelectable domain persisted rest free remaining := by
  constructor
  · intro h before x after he hx
    have := h (value :: before) x after (by rw [he, List.cons_append]) hx
    simpa [unpersistedAmong, hv] using this
  · intro h before x after he hx
    cases before with
    | nil =>
      cases he
      exact absurd hv hx
    | cons y before =>
      cases he
      simpa [unpersistedAmong, hv] using h before x after rfl hx

theorem streamSelectable_fresh (hv : value ∉ persisted.keys) :
    StreamSelectable domain persisted (value :: rest) free remaining ↔
      Selectable free remaining (ownValuesFree domain persisted.values (value :: rest)).length ∧
        StreamSelectable domain persisted rest (free - 1) (remaining - 1) := by
  have hcount : ∀ before : List ℤ, (unpersistedAmong persisted (value :: before) : ℤ) =
      unpersistedAmong persisted before + 1 := by
    intro before
    simp [unpersistedAmong, hv]
  constructor
  · intro h
    refine ⟨by simpa [unpersistedAmong] using h [] value rest rfl hv, ?_⟩
    intro before x after he hx
    have := h (value :: before) x after (by rw [he, List.cons_append]) hx
    rw [hcount] at this
    rwa [show free - 1 - unpersistedAmong persisted before = free - (unpersistedAmong persisted before + 1) by
      omega, show remaining - 1 - unpersistedAmong persisted before =
        remaining - (unpersistedAmong persisted before + 1) by omega]
  · rintro ⟨hfirst, hrest⟩ before x after he hx
    cases before with
    | nil =>
      cases he
      simpa [unpersistedAmong] using hfirst
    | cons y before =>
      cases he
      rw [hcount]
      have := hrest before x after rfl hx
      rwa [show free - 1 - unpersistedAmong persisted before = free - (unpersistedAmong persisted before + 1) by
        omega, show remaining - 1 - unpersistedAmong persisted before =
          remaining - (unpersistedAmong persisted before + 1) by omega] at this

end Stream

/-- The state of the loop in front of a suffix of the stream, against the rows it started from. -/
structure LoopInvariant (domain : NumericKeyDomain) (persisted : BijectiveTable ℤ ℤ) (suffix : List ℤ)
    (occupied remaining : ℤ) (st : NumericState) : Prop where
  accounted : Accounted domain st occupied remaining
  observed_perm : st.observed.rows.Perm suffix
  keys_iff : ∀ x ∈ suffix, x ∈ st.mappings.keys ↔ x ∈ persisted.keys
  values_iff : ∀ x ∈ suffix, x ∈ st.mappings.values ↔ x ∈ persisted.values

namespace LoopInvariant
variable {domain : NumericKeyDomain} {persisted : BijectiveTable ℤ ℤ} {value : ℤ} {rest suffix : List ℤ}
  {occupied remaining : ℤ} {st : NumericState}

theorem length_ownValuesFree_eq (h : LoopInvariant domain persisted suffix occupied remaining st) :
    (ownValuesFree domain st.mappings.values st.observed.rows).length =
      (ownValuesFree domain persisted.values suffix).length := by
  have hperm := (h.observed_perm.filter fun y => domain.containsPseudonym y ∧ y ∉ st.mappings.values)
  rw [ownValuesFree, hperm.length_eq, ownValuesFree]
  congr 1
  refine List.filter_congr fun y hy => ?_
  simp only [h.values_iff y hy]

theorem drop_perm (h : LoopInvariant domain persisted (value :: rest) occupied remaining st) :
    (st.observed.dropNumericObservation value).rows.Perm rest := by
  have := h.observed_perm.erase value
  rwa [List.erase_cons_head] at this

theorem reuse (h : LoopInvariant domain persisted (value :: rest) occupied remaining st) :
    LoopInvariant domain persisted rest occupied remaining
      { st with observed := st.observed.dropNumericObservation value } where
  accounted :=
    { h.accounted with
      observed_le := by
        have h1 := h.drop_perm.length_eq
        have h2 := h.observed_perm.length_eq
        have h3 := h.accounted.observed_le
        simp only [List.length_cons] at h2
        simp only
        omega }
  observed_perm := h.drop_perm
  keys_iff x hx := h.keys_iff x (by simp [hx])
  values_iff x hx := h.values_iff x (by simp [hx])

theorem commit (h : LoopInvariant domain persisted (value :: rest) occupied remaining st)
    {candidate : ℤ} (draws : ℕ) {mappings : BijectiveTable ℤ ℤ}
    (hm : st.mappings.insert? value candidate = some mappings)
    (hc : candidate ∈ freeTokens domain st.mappings) (ho : candidate ∉ st.observed.rows) :
    LoopInvariant domain persisted rest (occupied + 1) (remaining - 1)
      { mappings, observed := st.observed.dropNumericObservation value, draws } where
  accounted :=
    { bounds := h.accounted.bounds
      values_mem := by
        intro v hv
        rw [BijectiveTable.values_of_insert? hm, List.mem_append, List.mem_singleton] at hv
        rcases hv with hv | rfl
        · exact h.accounted.values_mem v hv
        · exact (mem_freeTokens.mp hc).1
      occupied_eq := by
        have := h.accounted.occupied_eq
        simp only [(BijectiveTable.insert?_eq_some_iff.mp hm).2.2, List.length_append,
          List.length_singleton]
        omega
      observed_le := by
        have h1 := h.drop_perm.length_eq
        have h2 := h.observed_perm.length_eq
        have h3 := h.accounted.observed_le
        simp only [List.length_cons] at h2
        simp only
        omega }
  observed_perm := h.drop_perm
  keys_iff x hx := by
    have hnd := h.observed_perm.nodup_iff.mp st.observed.nodup
    have hxv : x ≠ value := fun he => (List.nodup_cons.mp hnd).1 (he ▸ hx)
    simp [BijectiveTable.keys_of_insert? hm, hxv, h.keys_iff x (by simp [hx])]
  values_iff x hx := by
    have hxc : x ≠ candidate := by
      rintro rfl
      exact ho (h.observed_perm.mem_iff.mpr (by simp [hx]))
    simp [BijectiveTable.values_of_insert? hm, hxc, h.values_iff x (by simp [hx])]

end LoopInvariant

/-- What a completed run leaves: the old rows, and one new row for each unpersisted observation. -/
structure Completed (domain : NumericKeyDomain) (st st' : NumericState) (observations : List ℤ)
    (count : ℕ) : Prop where
  extends_rows : ∃ added, st'.mappings.rows = st.mappings.rows ++ added ∧
    added.map Prod.fst = observations.filter (· ∉ st.mappings.keys) ∧ added.length = count
  values_mem : ∀ v ∈ st'.mappings.values, domain.containsPseudonym v = true

section Loop
variable {domain : NumericKeyDomain} {persisted : BijectiveTable ℤ ℤ} {suffix : List ℤ}
  {occupied remaining : ℤ} {st : NumericState}

theorem filter_keys_congr (h : LoopInvariant domain persisted suffix occupied remaining st) :
    suffix.filter (· ∉ st.mappings.keys) = suffix.filter (· ∉ persisted.keys) := by
  refine List.filter_congr fun x hx => ?_
  simp only [h.keys_iff x hx]

theorem allocateNumeric_completes (rng : Csprng) (hf : FitsStrictly domain)
    (h : LoopInvariant domain persisted suffix occupied remaining st)
    (hs : StreamSelectable domain persisted suffix (domain.size - occupied) remaining) (allocated : ℕ) :
    ∃ count st', allocateNumeric rng domain suffix occupied remaining allocated st =
      .ok (allocated + count, st') ∧ Completed domain st st' suffix count := by
  induction suffix generalizing occupied remaining allocated st with
  | nil => exact ⟨0, st, rfl, ⟨[], by simp, by simp, rfl⟩, h.accounted.values_mem⟩
  | cons value rest ih =>
    simp only [allocateNumeric]
    cases hv : st.mappings.valueOf? value with
    | some p =>
      have hkey : value ∈ st.mappings.keys := by
        by_contra hk
        simp [BijectiveTable.valueOf?_eq_none_iff.mpr hk] at hv
      have hper := (h.keys_iff value (by simp)).mp hkey
      obtain ⟨count, st', he, hext, hmem⟩ := ih h.reuse ((streamSelectable_reused hper).mp hs) allocated
      refine ⟨count, st', he, ?_, hmem⟩
      simpa [hkey] using hext
    | none =>
      have hkey := BijectiveTable.valueOf?_eq_none_iff.mp hv
      have hper : value ∉ persisted.keys := fun hk => hkey ((h.keys_iff value (by simp)).mpr hk)
      obtain ⟨hsel, hrest⟩ := (streamSelectable_fresh hper).mp hs
      rw [← h.length_ownValuesFree_eq] at hsel
      have hobs : value ∈ st.observed.rows := h.observed_perm.mem_iff.mpr (by simp)
      obtain ⟨candidate, draws, hpick, hc, ho⟩ :=
        selectNumericCandidate_commits rng hf h.accounted hobs hsel
      obtain ⟨mappings, hm⟩ := BijectiveTable.exists_insert? hkey (mem_freeTokens.mp hc).2
      have hinv := h.commit draws hm hc ho
      rw [show domain.size - occupied - 1 = domain.size - (occupied + 1) by omega] at hrest
      obtain ⟨count, st', he, ⟨added, hrows, hkeys, hlen⟩, hmem⟩ := ih hinv hrest (allocated + 1)
      refine ⟨count + 1, st', ?_, ⟨(value, candidate) :: added, ?_, ?_, by simp [hlen]⟩, hmem⟩
      · rw [show allocated + (count + 1) = allocated + 1 + count by omega]
        simp only [hpick, ok_bind, addNumericKeyMapping, hm, he]
      · simp [hrows, (BijectiveTable.insert?_eq_some_iff.mp hm).2.2]
      · rw [filter_keys_congr hinv] at hkeys
        rw [filter_keys_congr h]
        simp [hkeys, hper]

theorem allocateNumeric_refuses (rng : Csprng) (hf : FitsStrictly domain)
    (h : LoopInvariant domain persisted suffix occupied remaining st)
    (hs : ¬ StreamSelectable domain persisted suffix (domain.size - occupied) remaining) (allocated : ℕ) :
    ∃ detail, allocateNumeric rng domain suffix occupied remaining allocated st =
      .error (capacityFailure detail) := by
  induction suffix generalizing occupied remaining allocated st with
  | nil => exact absurd (fun before value after he => by simp at he) hs
  | cons value rest ih =>
    simp only [allocateNumeric]
    cases hv : st.mappings.valueOf? value with
    | some p =>
      have hkey : value ∈ st.mappings.keys := by
        by_contra hk
        simp [BijectiveTable.valueOf?_eq_none_iff.mpr hk] at hv
      have hper := (h.keys_iff value (by simp)).mp hkey
      exact ih h.reuse ((not_congr (streamSelectable_reused hper)).mp hs) allocated
    | none =>
      have hkey := BijectiveTable.valueOf?_eq_none_iff.mp hv
      have hper : value ∉ persisted.keys := fun hk => hkey ((h.keys_iff value (by simp)).mpr hk)
      have hobs : value ∈ st.observed.rows := h.observed_perm.mem_iff.mpr (by simp)
      by_cases hsel : Selectable (domain.size - occupied) remaining
          (ownValuesFree domain st.mappings.values st.observed.rows).length
      · obtain ⟨candidate, draws, hpick, hc, ho⟩ :=
          selectNumericCandidate_commits rng hf h.accounted hobs hsel
        obtain ⟨mappings, hm⟩ := BijectiveTable.exists_insert? hkey (mem_freeTokens.mp hc).2
        rw [h.length_ownValuesFree_eq] at hsel
        have hrest : ¬ StreamSelectable domain persisted rest (domain.size - (occupied + 1))
            (remaining - 1) := by
          rw [show domain.size - (occupied + 1) = domain.size - occupied - 1 by omega]
          exact fun hr => hs ((streamSelectable_fresh hper).mpr ⟨hsel, hr⟩)
        obtain ⟨detail, he⟩ := ih (h.commit draws hm hc ho) hrest (allocated + 1)
        exact ⟨detail, by simp only [hpick, ok_bind, addNumericKeyMapping, hm, he]⟩
      · obtain ⟨detail, he⟩ := selectNumericCandidate_refuses rng hf h.accounted hobs hsel
        exact ⟨detail, by simp only [he, error_bind]⟩

end Loop
end DbfAnonymizer.Engine
