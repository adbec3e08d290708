import DbfAnonymizer.Engine.NumericCapacity

/-! Running the finalization again over the rows an earlier run of the same observations left. -/
namespace DbfAnonymizer.Engine
open Transforms Lib

/-- What earlier runs over the same observations committed, wherever they stopped. -/
structure EarlierRows (domain : NumericKeyDomain) (observed : NumericObservations) where
  mappings : BijectiveTable ℤ ℤ
  keys_observed : ∀ x ∈ mappings.keys, x ∈ observed.rows
  values_mem : ∀ v ∈ mappings.values, domain.containsPseudonym v = true

section Resume
variable {domain : NumericKeyDomain} {observed : NumericObservations}

/-- The state in which a new run starts: the earlier rows, and every observation spooled again. -/
def EarlierRows.resumed (E : EarlierRows domain observed) (draws : ℕ) : NumericState :=
  ⟨E.mappings, observed, draws⟩

/-- Whatever is drawn, a new run keeps the earlier rows and adds one row for each missing original. -/
def ResumeCompletes (E : EarlierRows domain observed) : Prop :=
  ∀ rng draws, ∃ count st', finalizeNumeric rng domain (E.resumed draws) = .ok (count, st') ∧
    Completed domain (E.resumed draws) st' observed.numericObservationStream count

/-- The domain has room for the observations and the earlier rows together, or exactly that room
and in front of every missing original fewer observed own values than originals still counted. -/
def Resumable (E : EarlierRows domain observed) : Prop :=
  (observed.rows.length + E.mappings.rows.length : ℤ) < domain.size ∨
    (observed.rows.length + E.mappings.rows.length : ℤ) = domain.size ∧
      ∀ before value after, observed.numericObservationStream = before ++ value :: after →
        value ∉ E.mappings.keys →
        ((ownValuesFree domain E.mappings.values (value :: after)).length : ℤ) <
            observed.rows.length - unpersistedAmong E.mappings before ∧
          ((observed.rows.length : ℤ) - unpersistedAmong E.mappings before = 2 →
            (ownValuesFree domain E.mappings.values (value :: after)).length = 0)

theorem EarlierRows.unpersisted_add_rows (E : EarlierRows domain observed) :
    unpersistedAmong E.mappings observed.numericObservationStream + E.mappings.rows.length =
      observed.rows.length := by
  have hperm := perm_numericObservationStream observed
  have hkeys : (observed.numericObservationStream.filter (· ∈ E.mappings.keys)).Perm E.mappings.keys := by
    have hnd := hperm.nodup_iff.mpr observed.nodup
    refine (List.perm_ext_iff_of_nodup (hnd.filter _) E.mappings.keys_nodup).mpr fun x => ?_
    simp only [List.mem_filter, decide_eq_true_eq, hperm.mem_iff]
    exact ⟨And.right, fun h => ⟨E.keys_observed x h, h⟩⟩
  have hsplit := List.length_eq_length_filter_add (l := observed.numericObservationStream)
    (fun x => decide (x ∈ E.mappings.keys))
  rw [hkeys.length_eq, E.mappings.length_keys, hperm.length_eq] at hsplit
  simp only [unpersistedAmong, decide_not]
  omega

theorem finalizable_iff_resumable (E : EarlierRows domain observed) (draws : ℕ)
    (h10 : 10 ≤ domain.size) (hspare : (observed.rows.length : ℤ) + 1 ≤ domain.size) :
    Finalizable domain (E.resumed draws) ↔ Resumable E := by
  have htotal := E.unpersisted_add_rows
  constructor
  · rintro ⟨hentry, hstream⟩
    have hroom : (observed.rows.length : ℤ) ≤ domain.size - E.mappings.rows.length := hentry.1
    rcases hroom.lt_or_eq with hlt | heq
    · exact Or.inl (by omega)
    · refine Or.inr ⟨by omega, fun before value after he hv => ?_⟩
      obtain ⟨⟨-, -, h3⟩, hown⟩ := hstream before value after he hv
      simp only [EarlierRows.resumed] at h3 hown
      exact ⟨by omega, fun h2 => by omega⟩
  · rintro (hroom | ⟨hroom, hstream⟩)
    · exact finalizable_of_spare hroom
    · have hfive : (E.mappings.rows.length : ℤ) ≤ observed.rows.length := by omega
      refine ⟨⟨?_, ?_, ?_⟩, fun before value after he hv => ?_⟩
      · simp only [EarlierRows.resumed]; omega
      · simp only [EarlierRows.resumed]; omega
      · simp only [EarlierRows.resumed]; omega
      · simp only [EarlierRows.resumed] at he hv
        have hcount : unpersistedAmong E.mappings before + 1 ≤
            unpersistedAmong E.mappings observed.numericObservationStream := by
          simp [unpersistedAmong, he, hv, List.filter_append]
        obtain ⟨hown, htwo⟩ := hstream before value after he hv
        simp only [EarlierRows.resumed]
        exact ⟨⟨by omega, by omega, fun _ h => by omega⟩, by omega⟩

/-- With a spare token and 64-bit bounds, a new run completes exactly on the resumable rows. -/
theorem resumeCompletes_iff_resumable (D : BuiltNumericDomain) (E : EarlierRows D.domain observed)
    (hfit : FitsInt64 D.domain) (hspare : (observed.rows.length : ℤ) + 1 ≤ D.domain.size) :
    ResumeCompletes E ↔ Resumable E := by
  have hf := fitsStrictly_of_fitsInt64 D hfit
  have hb := built_bounds_le D
  constructor
  · intro hrun
    rw [← finalizable_iff_resumable E 0 D.ten_le_size hspare]
    by_contra hnot
    obtain ⟨count, st', he, -⟩ := hrun default 0
    obtain ⟨detail, herr⟩ := finalizeNumeric_refuses _ default hf hb E.values_mem hnot
    rw [herr] at he
    cases he
  · intro h rng draws
    exact finalizeNumeric_completes _ rng hf hb E.values_mem
      ((finalizable_iff_resumable E draws D.ten_le_size hspare).mpr h)

/-- The rows a completed run commits are earlier rows for the next one. -/
def Completed.earlierRows {count : ℕ} {st' : NumericState}
    (h : Completed domain (freshState observed) st' observed.numericObservationStream count) :
    EarlierRows domain observed where
  mappings := st'.mappings
  keys_observed := by
    obtain ⟨added, hrows, hkeys, -⟩ := h.extends_rows
    intro x hx
    have hmem : x ∈ added.map Prod.fst := by simpa [BijectiveTable.keys, hrows, freshState] using hx
    rw [hkeys] at hmem
    exact (perm_numericObservationStream observed).mem_iff.mp (List.mem_filter.mp hmem).1
  values_mem := h.values_mem

theorem Completed.length_rows {count : ℕ} {st' : NumericState}
    (h : Completed domain (freshState observed) st' observed.numericObservationStream count) :
    st'.mappings.rows.length = observed.rows.length := by
  obtain ⟨added, hrows, hkeys, -⟩ := h.extends_rows
  have hlen := congrArg List.length hkeys
  simp only [freshState, BijectiveTable.keys_empty, List.not_mem_nil, not_false_eq_true, decide_true,
    List.filter_true, List.length_map, (perm_numericObservationStream observed).length_eq] at hlen
  simp [hrows, freshState, hlen]

/-- A completed run can be repeated exactly when the domain is twice as large as its observations. -/
theorem Completed.resumable_earlierRows_iff {count : ℕ} {st' : NumericState}
    (h : Completed domain (freshState observed) st' observed.numericObservationStream count) :
    Resumable h.earlierRows ↔ 2 * (observed.rows.length : ℤ) ≤ domain.size := by
  have hlen : h.earlierRows.mappings.rows.length = observed.rows.length := h.length_rows
  have htotal := h.earlierRows.unpersisted_add_rows
  unfold Resumable
  rw [hlen] at htotal ⊢
  constructor
  · rintro (hlt | ⟨heq, -⟩) <;> omega
  · intro hle
    rcases hle.lt_or_eq with hlt | heq
    · exact Or.inl (by omega)
    · refine Or.inr ⟨by omega, fun before value after he hv => ?_⟩
      have hnone : unpersistedAmong h.earlierRows.mappings observed.numericObservationStream = 0 := by
        omega
      simp [unpersistedAmong, he, hv] at hnone

end Resume

def threeDigits : NumericObservations := ⟨[0, 1, 2], by decide⟩
def threeDigitsRows : EarlierRows digitDomain.domain threeDigits where
  mappings := ⟨[(1, 7)], by decide, by decide⟩
  keys_observed := by decide
  values_mem := by decide

theorem resumeCompletes_threeDigits : ResumeCompletes threeDigitsRows :=
  (resumeCompletes_iff_resumable digitDomain threeDigitsRows ⟨by decide, by decide⟩ (by decide)).mpr
    (Or.inl (by decide))

def sixDigits : NumericObservations := ⟨[0, 1, 2, 3, 4, 5], by decide⟩

/-- Six digits complete on a fresh domain, and the same six are refused on the next run. -/
theorem rerun_sixDigits_refused :
    ∃ rng count st', finalizeNumeric rng digitDomain.domain (freshState sixDigits) = .ok (count, st') ∧
      ∃ detail, finalizeNumeric rng digitDomain.domain ⟨st'.mappings, sixDigits, st'.draws⟩ =
        .error (capacityFailure detail) := by
  have hf : FitsStrictly digitDomain.domain := ⟨by decide, by decide⟩
  have hb : digitDomain.domain.pseudonymLow ≤ digitDomain.domain.pseudonymHigh := by decide
  obtain ⟨count, st', he, hc⟩ := finalizeNumeric_completes (freshState sixDigits) default hf hb
    (by simp [freshState]) (finalizable_of_spare (by decide))
  refine ⟨default, count, st', he, finalizeNumeric_refuses _ default hf hb hc.values_mem ?_⟩
  intro h
  have hlen := hc.length_rows
  have hroom := h.1.1
  simp only [hlen] at hroom
  exact absurd hroom (by decide)

end DbfAnonymizer.Engine
