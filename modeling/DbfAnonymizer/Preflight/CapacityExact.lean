import DbfAnonymizer.Preflight.CapacityScan

/-! The capacity verdict is the feasibility of the pseudonym assignment. -/
namespace DbfAnonymizer.Preflight
open Transforms Lib

def strictestWidth (observations : List (Text × ℕ)) (value : Text) : Option ℕ :=
  ((observations.filter (·.1 = value)).map Prod.snd).min?

/-- Every original can get its own token: distinct ones, of at most its strictest width, none its own. -/
def Feasible (alphabet : Text) (observations : List (Text × ℕ)) : Prop :=
  ∃ f : Text → Text, Set.InjOn f {value | value ∈ observations.map Prod.fst} ∧
    ∀ value ∈ observations.map Prod.fst, ∀ w ∈ strictestWidth observations value,
      isSafeToken (f value) alphabet = true ∧ (f value).length ≤ w ∧ f value ≠ value

theorem strictestWidth_spec {observations : List (Text × ℕ)} {value : Text}
    (h : value ∈ observations.map Prod.fst) :
    ∃ w, strictestWidth observations value = some w ∧ (value, w) ∈ observations ∧
      ∀ l, (value, l) ∈ observations → w ≤ l := by
  have hmem : ∀ l, l ∈ (observations.filter (·.1 = value)).map Prod.snd ↔ (value, l) ∈ observations := by
    intro l
    simp only [List.mem_map, List.mem_filter, decide_eq_true_eq]
    constructor
    · rintro ⟨p, ⟨hp, rfl⟩, rfl⟩
      exact hp
    · intro hp
      exact ⟨_, ⟨hp, rfl⟩, rfl⟩
  obtain ⟨p, hp, hvalue⟩ := List.mem_map.mp h
  have hseen : (value, p.2) ∈ observations := hvalue ▸ hp
  cases hmin : strictestWidth observations value with
  | none =>
    rw [strictestWidth, List.min?_eq_none_iff] at hmin
    have hcontra := (hmem p.2).mpr hseen
    rw [hmin] at hcontra
    cases hcontra
  | some w =>
    obtain ⟨hw, hle⟩ := List.min?_eq_some_iff.mp (show List.min? _ = some w from hmin)
    exact ⟨w, rfl, (hmem w).mp hw, fun l' hl' => hle l' ((hmem l').mpr hl')⟩

theorem feasible_iff_counted {alphabet : Text} (hnodup : alphabet.Nodup) (hbase : 2 ≤ alphabet.length)
    (observations : List (Text × ℕ)) :
    Feasible alphabet observations ↔ ∀ w, countWithin observations w ≤ tokenSpace w alphabet.length := by
  let ι := {value // value ∈ (observations.map Prod.fst).toFinset}
  have hspec : ∀ i : ι, ∃ w, strictestWidth observations i = some w ∧ (i.1, w) ∈ observations ∧
      ∀ l, (i.1, l) ∈ observations → w ≤ l := fun i => strictestWidth_spec (List.mem_toFinset.mp i.2)
  choose width hwidth hmem hle using hspec
  have hassign : Feasible alphabet observations ↔
      (tokenPools alphabet hnodup hbase).Assignable width (Subtype.val : ι → Text) := by
    constructor
    · rintro ⟨f, hinj, hf⟩
      refine ⟨fun i => f i, ?_, ?_⟩
      · intro i j hij
        exact Subtype.ext (hinj (List.mem_toFinset.mp i.2) (List.mem_toFinset.mp j.2) hij)
      · intro i
        obtain ⟨hsafe, hlength, hne⟩ := hf i (List.mem_toFinset.mp i.2) (width i) (hwidth i)
        exact ⟨mem_tokenPool.mpr ⟨hsafe, hlength⟩, hne⟩
    · rintro ⟨f, hinj, hf⟩
      refine ⟨fun value => if h : value ∈ (observations.map Prod.fst).toFinset then f ⟨value, h⟩ else [], ?_, ?_⟩
      · intro a ha b hb hab
        have ha' := List.mem_toFinset.mpr ha
        have hb' := List.mem_toFinset.mpr hb
        simp only [dif_pos ha', dif_pos hb'] at hab
        exact congrArg Subtype.val (hinj hab)
      · intro value hvalue w hw
        have hvalue' := List.mem_toFinset.mpr hvalue
        simp only [dif_pos hvalue']
        obtain ⟨hpool, hne⟩ := hf ⟨value, hvalue'⟩
        obtain ⟨hsafe, hlength⟩ := mem_tokenPool.mp hpool
        have hw' : width ⟨value, hvalue'⟩ = w := Option.some.inj ((hwidth ⟨value, hvalue'⟩).symm.trans hw)
        exact ⟨hsafe, hw' ▸ hlength, hne⟩
  rw [hassign, NestedPools.assignable_iff_counted Subtype.val_injective]
  apply forall_congr'
  intro w
  have hcount : countWithin observations w = (Finset.univ.filter fun i : ι => width i ≤ w).card := by
    rw [countWithin, ← Finset.card_image_of_injective _ (Subtype.val_injective (p := fun value : Text =>
      value ∈ (observations.map Prod.fst).toFinset))]
    congr 1
    ext value
    simp only [List.mem_toFinset, List.mem_map, List.mem_filter, decide_eq_true_eq, Finset.mem_image,
      Finset.mem_filter_univ]
    constructor
    · rintro ⟨p, ⟨hp, hw⟩, rfl⟩
      have hp' : p.1 ∈ (observations.map Prod.fst).toFinset := List.mem_toFinset.mpr (List.mem_map_of_mem hp)
      exact ⟨⟨p.1, hp'⟩, (hle ⟨p.1, hp'⟩ p.2 hp).trans hw, rfl⟩
    · rintro ⟨i, hi, rfl⟩
      exact ⟨_, ⟨hmem i, hi⟩, rfl⟩
  rw [hcount, ← card_tokenPool hnodup]
  rfl

theorem counted_of_widths {observations : List (Text × ℕ)} {widths : List ℕ} {base : ℕ}
    (hwidths : ∀ p ∈ observations, p.2 ∈ widths)
    (h : ∀ w ∈ widths, countWithin observations w ≤ tokenSpace w base) (w : ℕ) :
    countWithin observations w ≤ tokenSpace w base := by
  by_cases hsome : ∃ v ∈ widths, v ≤ w
  · have hne : (widths.toFinset.filter (· ≤ w)).Nonempty := by
      obtain ⟨v, hv, hvw⟩ := hsome
      exact ⟨v, Finset.mem_filter.mpr ⟨List.mem_toFinset.mpr hv, hvw⟩⟩
    obtain ⟨v, hv, hmax⟩ := Finset.exists_max_image _ id hne
    obtain ⟨hv, hvw⟩ := Finset.mem_filter.mp hv
    have hsame : countWithin observations w = countWithin observations v := by
      unfold countWithin
      congr 3
      apply List.filter_congr
      intro p hp
      rw [decide_eq_decide]
      constructor
      · intro hpw
        exact hmax p.2 (Finset.mem_filter.mpr ⟨List.mem_toFinset.mpr (hwidths p hp), hpw⟩)
      · exact fun hpv => hpv.trans hvw
    rw [hsame]
    exact (h v (List.mem_toFinset.mp hv)).trans (tokenSpace_mono base hvw)
  · have hnone : observations.filter (·.2 ≤ w) = [] := by
      rw [List.filter_eq_nil_iff]
      intro p hp
      rw [decide_eq_true_eq]
      exact fun hpw => hsome ⟨p.2, hwidths p hp, hpw⟩
    simp [countWithin, hnone]

section PhaseA
variable {sensitive : List SensitiveTable}

theorem length_observationsOf_le (fields : List (Text × ℕ)) (records : List DirectRecord) (w : ℕ) :
    ((observationsOf fields records).filter (·.2 ≤ w)).length ≤
      records.length * (fields.filter (·.2 ≤ w)).length := by
  have hrecord : ∀ (read : Text × ℕ → Option (Text × ℕ)), (∀ f p, read f = some p → p.2 = f.2) →
      ((fields.filterMap read).filter (·.2 ≤ w)).length ≤ (fields.filter (·.2 ≤ w)).length := by
    intro read hread
    induction fields with
    | nil => simp
    | cons f fields ih =>
      cases hf : read f with
      | none =>
        rw [List.filterMap_cons_none hf, List.filter_cons]
        split_ifs
        · exact ih.trans (Nat.le_succ _)
        · exact ih
      | some p =>
        rw [List.filterMap_cons_some hf, List.filter_cons, List.filter_cons, hread f p hf]
        split_ifs
        · exact Nat.succ_le_succ ih
        · exact ih
  unfold observationsOf
  rw [List.filter_flatMap, List.length_flatMap]
  induction records with
  | nil => simp
  | cons record records ih =>
    rw [List.map_cons, List.sum_cons, List.length_cons, Nat.succ_mul, Nat.add_comm]
    apply Nat.add_le_add ih
    apply hrecord
    intro f p hf
    cases hv : record.values f.1 with
    | text value =>
      simp only [hv] at hf
      split_ifs at hf
      obtain rfl := Option.some.inj hf
      rfl
    | _ => simp [hv] at hf

theorem countWithin_le_occurrenceUpperBound (h : ∀ t ∈ sensitive, t.records.length ≤ t.recordCount) (w : ℕ) :
    countWithin (observations sensitive) w ≤ occurrenceUpperBound sensitive w := by
  calc countWithin (observations sensitive) w ≤ ((observations sensitive).filter (·.2 ≤ w)).length := by
        unfold countWithin
        exact (List.toFinset_card_le _).trans (by simp)
    _ ≤ occurrenceUpperBound sensitive w := by
        unfold observations occurrenceUpperBound
        rw [List.filter_flatMap, List.length_flatMap]
        apply List.sum_le_sum
        intro t ht
        exact (length_observationsOf_le _ _ w).trans (Nat.mul_le_mul_right _ (h t ht))

/-- Phase A proves no width that the exact count would refuse. -/
theorem phaseA_sound (h : ∀ t ∈ sensitive, t.records.length ≤ t.recordCount) {base w : ℕ}
    (hw : w ∈ fieldWidths sensitive) (hproven : w ∉ tightWidths sensitive base) :
    countWithin (observations sensitive) w ≤ tokenSpace w base := by
  have hspace : tokenSpaceAtLeast w base (occurrenceUpperBound sensitive w) = true := by
    by_contra hnot
    apply hproven
    have htight : w ∈ (fieldWidths sensitive).filter fun w =>
        !tokenSpaceAtLeast w base (occurrenceUpperBound sensitive w) := by
      simpa [hw] using hnot
    unfold tightWidths
    dsimp only
    split_ifs
    · exact List.mem_cons_of_mem _ htight
    · exact htight
  have hle := countWithin_le_occurrenceUpperBound h w
  have := (tokenSpaceAtLeast_iff w base _).mp hspace
  omega

theorem tightWidths_eq {base : ℕ} (hbase : 2 ≤ base) :
    tightWidths sensitive base =
      (fieldWidths sensitive).filter fun w => !tokenSpaceAtLeast w base (occurrenceUpperBound sensitive w) := by
  unfold tightWidths
  rw [if_neg]
  intro h
  omega

theorem fieldWidths_pairwise : (fieldWidths sensitive).Pairwise (· ≤ ·) :=
  List.pairwise_insertionSort _ _

theorem fieldWidths_nodup : (fieldWidths sensitive).Nodup :=
  (List.perm_insertionSort _ _).nodup_iff.mpr (List.nodup_dedup _)

theorem le_maxTight {base : ℕ} (hbase : 2 ≤ base) {w : ℕ} (hw : w ∈ tightWidths sensitive base) :
    w ≤ (tightWidths sensitive base).getLast?.getD 0 := by
  have hsorted : (tightWidths sensitive base).Pairwise (· ≤ ·) := by
    rw [tightWidths_eq hbase]
    exact fieldWidths_pairwise.filter _
  rw [List.getLast?_eq_some_getLast (List.ne_nil_of_mem hw), Option.getD_some]
  exact hsorted.rel_getLast hw

theorem mem_observationsOf {fields : List (Text × ℕ)} {records : List DirectRecord} {p : Text × ℕ} :
    p ∈ observationsOf fields records ↔
      p.1 ≠ [] ∧ ∃ record ∈ records, ∃ field ∈ fields, record.values field.1 = .text p.1 ∧ field.2 = p.2 := by
  unfold observationsOf
  rw [List.mem_flatMap]
  constructor
  · rintro ⟨record, hrecord, hp⟩
    obtain ⟨field, hfield, hread⟩ := List.mem_filterMap.mp hp
    split at hread
    · split_ifs at hread with hvalue
      obtain rfl := Option.some.inj hread
      exact ⟨hvalue, record, hrecord, field, hfield, by assumption, rfl⟩
    · cases hread
  · rintro ⟨hvalue, record, hrecord, field, hfield, hread, hlength⟩
    refine ⟨record, hrecord, List.mem_filterMap.mpr ⟨field, hfield, ?_⟩⟩
    simp [hread, hvalue, hlength]

theorem mem_fieldWidths_of_observed {p : Text × ℕ} (hp : p ∈ observations sensitive) :
    p.2 ∈ fieldWidths sensitive := by
  obtain ⟨t, ht, hp⟩ := List.mem_flatMap.mp hp
  obtain ⟨-, record, -, field, hfield, -, hlength⟩ := mem_observationsOf.mp hp
  unfold fieldWidths
  rw [List.mem_insertionSort, List.mem_dedup, List.mem_flatMap]
  exact ⟨t, ht, List.mem_map.mpr ⟨field, hfield, hlength⟩⟩

theorem mem_streamed {maxTight : ℕ} {p : Text × ℕ} :
    p ∈ (sensitive.flatMap fun t => observationsOf (t.fields.filter (·.2 ≤ maxTight)) t.records) ↔
      p ∈ observations sensitive ∧ p.2 ≤ maxTight := by
  unfold observations
  simp only [List.mem_flatMap, mem_observationsOf, List.mem_filter, decide_eq_true_eq]
  constructor
  · rintro ⟨t, ht, hvalue, record, hrecord, field, ⟨hfield, hle⟩, hread, hlength⟩
    exact ⟨⟨t, ht, hvalue, record, hrecord, field, hfield, hread, hlength⟩, hlength ▸ hle⟩
  · rintro ⟨⟨t, ht, hvalue, record, hrecord, field, hfield, hread, hlength⟩, hle⟩
    exact ⟨t, ht, hvalue, record, hrecord, field, ⟨hfield, hlength ▸ hle⟩, hread, hlength⟩

end PhaseA

/-- Both phases together decide whether every width has room for its originals. -/
theorem capacityOfTables_eq {alphabet : Text} {sensitive : List SensitiveTable} (hbase : 2 ≤ alphabet.length)
    (hrecords : ∀ t ∈ sensitive, t.records.length ≤ t.recordCount)
    (hroom : ((observations sensitive).map Prod.fst).toFinset.card < maxExactValues) :
    (capacityOfTables alphabet sensitive = .ok ∧
      ∀ w, countWithin (observations sensitive) w ≤ tokenSpace w alphabet.length) ∨
    (capacityOfTables alphabet sensitive = .insufficient ∧
      ∃ w, tokenSpace w alphabet.length < countWithin (observations sensitive) w) := by
  have hproven : ∀ w ∈ fieldWidths sensitive, w ∉ tightWidths sensitive alphabet.length →
      countWithin (observations sensitive) w ≤ tokenSpace w alphabet.length := fun w hw => phaseA_sound hrecords hw
  unfold capacityOfTables
  dsimp only
  by_cases htight : tightWidths sensitive alphabet.length = []
  · rw [if_pos htight]
    refine Or.inl ⟨rfl, counted_of_widths (fun p => mem_fieldWidths_of_observed) ?_⟩
    intro w hw
    exact hproven w hw (by simp [htight])
  rw [if_neg htight]
  have hnodup : (tightWidths sensitive alphabet.length).Nodup := by
    rw [tightWidths_eq hbase]
    exact fieldWidths_nodup.filter _
  unfold scanTight
  dsimp only
  generalize hmax : (tightWidths sensitive alphabet.length).getLast?.getD 0 = maxTight
  generalize hstreamed :
    (sensitive.flatMap fun t => observationsOf (t.fields.filter (·.2 ≤ maxTight)) t.records) = streamed
  have hsubset : streamed ⊆ observations sensitive := by
    intro p hp
    rw [← hstreamed] at hp
    exact (mem_streamed.mp hp).1
  -- at a tight width the streamed fields show every original there is
  have hcount : ∀ w ∈ tightWidths sensitive alphabet.length,
      countWithin streamed w = countWithin (observations sensitive) w := by
    intro w hw
    apply countWithin_congr
    intro p hp
    rw [← hstreamed, mem_streamed]
    exact and_iff_left (hp.trans (hmax ▸ le_maxTight hbase hw))
  have hroom' : (([] ++ streamed).map Prod.fst).toFinset.card < maxExactValues := by
    refine lt_of_le_of_lt (Finset.card_le_card ?_) hroom
    intro value hvalue
    rw [List.mem_toFinset] at hvalue ⊢
    exact List.map_subset _ hsubset hvalue
  rcases tracked_nil.run hnodup streamed hroom' with ⟨st, heq, htracked⟩ | ⟨heq, w, hw, hover⟩
  · have hmany : singleTokenInfeasible alphabet st = false := by
      unfold singleTokenInfeasible
      rw [decide_eq_false_iff_not]
      intro h
      omega
    rw [heq]
    refine Or.inl ⟨by simp [hmany], counted_of_widths (fun p => mem_fieldWidths_of_observed) ?_⟩
    intro w hw
    by_cases hwtight : w ∈ tightWidths sensitive alphabet.length
    · rw [← hcount w hwtight]
      exact htracked.fits w hwtight
    · exact hproven w hw hwtight
  · rw [heq]
    rw [List.nil_append, hcount w hw] at hover
    exact Or.inr ⟨rfl, w, hover⟩

/-- A dataset under a policy whose capacity question is well posed: the plan transforms text where a table
takes part, at least two characters are common, no record stream is longer than its table declares, and the
distinct originals stay below the ceiling of exact tracking. -/
structure CapacityProblem where
  input : CapacityInput
  policy : ResolvedPolicy
  policy_eq : input.resolvedPolicy = some policy
  sensitive : List SensitiveTable
  sensitive_eq : sensitive = sensitiveTables policy input.tables
  transforms : sensitive ≠ [] → input.transformsText = true
  alphabet : Text
  alphabet_eq : alphabet = candidateAlphabet input.codecs (participatingEncodings sensitive)
  two_le : 2 ≤ alphabet.length
  records_le : ∀ t ∈ sensitive, t.records.length ≤ t.recordCount
  distinct_lt : ((observations sensitive).map Prod.fst).toFinset.card < maxExactValues

namespace CapacityProblem

theorem alphabet_nodup (P : CapacityProblem) : P.alphabet.Nodup := by
  have hsafe : safeTextAlphabet.Nodup := by decide
  rw [P.alphabet_eq]
  exact hsafe.filter _

theorem feasible_iff (P : CapacityProblem) : Feasible P.alphabet (observations P.sensitive) ↔
    ∀ w, countWithin (observations P.sensitive) w ≤ tokenSpace w P.alphabet.length :=
  feasible_iff_counted P.alphabet_nodup P.two_le _

theorem capacitySufficient_eq (P : CapacityProblem) (h : P.sensitive ≠ []) :
    capacitySufficient P.input = capacityOfTables P.alphabet P.sensitive := by
  have htables : P.input.tables ≠ [] := by
    intro hnil
    apply h
    rw [P.sensitive_eq, hnil]
    rfl
  have halphabet : P.alphabet ≠ [] := by
    intro hnil
    have htwo := P.two_le
    rw [hnil] at htwo
    simp at htwo
  unfold capacitySufficient
  rw [P.transforms h, if_neg (by decide), if_neg htables, P.policy_eq]
  simp only [← P.sensitive_eq, ← P.alphabet_eq, h, halphabet, if_false]

theorem verdict (P : CapacityProblem) :
    (capacitySufficient P.input = .ok ∧ Feasible P.alphabet (observations P.sensitive)) ∨
    (capacitySufficient P.input = .insufficient ∧ ¬ Feasible P.alphabet (observations P.sensitive)) := by
  rw [P.feasible_iff]
  by_cases hnone : P.sensitive = []
  · refine Or.inl ⟨?_, by simp [hnone, observations, countWithin]⟩
    have hpolicy := P.policy_eq
    have hsensitive := P.sensitive_eq
    rw [hnone] at hsensitive
    unfold capacitySufficient
    rw [hpolicy]
    simp [← hsensitive]
  · rw [P.capacitySufficient_eq hnone]
    rcases capacityOfTables_eq P.two_le P.records_le P.distinct_lt with ⟨heq, hfits⟩ | ⟨heq, w, hover⟩
    · exact Or.inl ⟨heq, hfits⟩
    · exact Or.inr ⟨heq, fun hfits => absurd (hfits w) (by omega)⟩

/-- Two problems over one alphabet that show the same observations, in whatever order. -/
def SameObservations (P Q : CapacityProblem) : Prop :=
  P.alphabet.length = Q.alphabet.length ∧ ∀ p, p ∈ observations P.sensitive ↔ p ∈ observations Q.sensitive

/-- A table with its fields and records in another order. -/
def Reorders (a b : SensitiveTable) : Prop :=
  a.encoding = b.encoding ∧ a.fields.Perm b.fields ∧ a.records.Perm b.records

theorem participatingEncodings_subset {a b : List SensitiveTable} (h : ∀ t ∈ a, ∃ u ∈ b, Reorders t u) :
    participatingEncodings a ⊆ participatingEncodings b := by
  intro encoding hencoding
  unfold participatingEncodings at hencoding ⊢
  simp only [List.mem_dedup, List.mem_filter, List.mem_map, decide_eq_true_eq] at hencoding ⊢
  obtain ⟨⟨t, ht, rfl⟩, hne⟩ := hencoding
  obtain ⟨u, hu, htu, -, -⟩ := h t ht
  exact ⟨⟨u, hu, htu.symm⟩, hne⟩

theorem observations_subset {a b : List SensitiveTable} (h : ∀ t ∈ a, ∃ u ∈ b, Reorders t u) :
    observations a ⊆ observations b := by
  intro p hp
  unfold observations at hp ⊢
  simp only [List.mem_flatMap, mem_observationsOf] at hp ⊢
  obtain ⟨t, ht, hvalue, record, hrecord, field, hfield, hread⟩ := hp
  obtain ⟨u, hu, -, hfields, hrecords⟩ := h t ht
  exact ⟨u, hu, hvalue, record, hrecords.mem_iff.mp hrecord, field, hfields.mem_iff.mp hfield, hread⟩

theorem sameObservations_of_reorders {P Q : CapacityProblem} (hcodecs : P.input.codecs = Q.input.codecs)
    (hPQ : ∀ t ∈ P.sensitive, ∃ u ∈ Q.sensitive, Reorders t u)
    (hQP : ∀ t ∈ Q.sensitive, ∃ u ∈ P.sensitive, Reorders t u) : P.SameObservations Q := by
  constructor
  · rw [P.alphabet_eq, Q.alphabet_eq, hcodecs]
    congr 1
    unfold candidateAlphabet
    apply List.filter_congr
    intro character _
    rw [Bool.eq_iff_iff, List.all_eq_true, List.all_eq_true]
    constructor
    · exact fun h encoding hencoding => h encoding (participatingEncodings_subset hQP hencoding)
    · exact fun h encoding hencoding => h encoding (participatingEncodings_subset hPQ hencoding)
  · exact fun p => ⟨fun hp => observations_subset hPQ hp, fun hp => observations_subset hQP hp⟩

theorem SameObservations.feasible_iff {P Q : CapacityProblem} (h : P.SameObservations Q) :
    Feasible P.alphabet (observations P.sensitive) ↔ Feasible Q.alphabet (observations Q.sensitive) := by
  rw [P.feasible_iff, Q.feasible_iff, h.1]
  apply forall_congr'
  intro w
  rw [countWithin_congr fun p _ => h.2 p]

end CapacityProblem

theorem capacitySufficient_exact (P : CapacityProblem) :
    (capacitySufficient P.input = .ok ↔ Feasible P.alphabet (observations P.sensitive)) ∧
    (capacitySufficient P.input = .insufficient ↔ ¬ Feasible P.alphabet (observations P.sensitive)) ∧
    (∀ Q : CapacityProblem, P.SameObservations Q → capacitySufficient P.input = capacitySufficient Q.input) ∧
    ∀ w ∈ fieldWidths P.sensitive, w ∉ tightWidths P.sensitive P.alphabet.length →
      countWithin (observations P.sensitive) w ≤ tokenSpace w P.alphabet.length := by
  refine ⟨?_, ?_, ?_, fun w hw => phaseA_sound P.records_le hw⟩
  · rcases P.verdict with ⟨heq, hf⟩ | ⟨heq, hf⟩
    · simp [heq, hf]
    · simp [heq, hf]
  · rcases P.verdict with ⟨heq, hf⟩ | ⟨heq, hf⟩
    · simp [heq, hf]
    · simp [heq, hf]
  · intro Q hsame
    have hfeasible := hsame.feasible_iff
    rcases P.verdict with ⟨hp, hpf⟩ | ⟨hp, hpf⟩
    · rcases Q.verdict with ⟨hq, -⟩ | ⟨-, hqf⟩
      · rw [hp, hq]
      · exact absurd (hfeasible.mp hpf) hqf
    · rcases Q.verdict with ⟨-, hqf⟩ | ⟨hq, -⟩
      · exact absurd (hfeasible.mpr hqf) hpf
      · rw [hp, hq]

/-- One field of width one that shows the given words, under an encoding of two safe characters. -/
def wordInput (words : List Text) : CapacityInput where
  codecs := fun _ text => if text = ['A'] ∨ text = ['B'] then some [0] else none
  transformsText := true
  resolvedPolicy := some defaultPolicy
  sourceFiles := [(['W', '.', 'D', 'B', 'F'],
    ⟨{ fields := [⟨['W'], 'C', 1, 0, true, false, false, false, false, false, false⟩]
       encoding := ['x']
       languageDriver := 0
       recordCount := words.length
       hasStructuralCdx := false
       dbcBound := false
       dbcBacklinkPath := none
       isDatabaseContainer := false }, words.map fun word => ⟨0, false, fun _ => .text word⟩⟩)]

example : capacitySufficient (wordInput [['A'], ['B'], ['A']]) = .ok := by decide +kernel

example : capacitySufficient (wordInput [['A'], ['B'], ['C']]) = .insufficient := by decide +kernel

def swapProblem : CapacityProblem where
  input := wordInput [['A'], ['B']]
  policy := defaultPolicy
  policy_eq := rfl
  sensitive := sensitiveTables defaultPolicy (wordInput [['A'], ['B']]).tables
  sensitive_eq := rfl
  transforms := fun _ => rfl
  alphabet := ['A', 'B']
  alphabet_eq := by decide +kernel
  two_le := by decide
  records_le := by decide +kernel
  distinct_lt := by decide +kernel

theorem swapProblem_feasible : Feasible swapProblem.alphabet (observations swapProblem.sensitive) := by
  obtain ⟨hok, -⟩ := capacitySufficient_exact swapProblem
  exact hok.mp (by decide +kernel)

end DbfAnonymizer.Preflight
