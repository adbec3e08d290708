import DbfAnonymizer.Lib.GapWalk
import DbfAnonymizer.Engine.NumericState

/-! When one candidate search succeeds: the free tokens against the observed originals. -/
namespace DbfAnonymizer.Engine
open Transforms Lib

/-- No cast saturates onto a token: the domain lies strictly inside SQLite's integers. -/
def FitsStrictly (domain : NumericKeyDomain) : Prop :=
  sqliteMinInteger < domain.pseudonymLow ∧ domain.pseudonymHigh < sqliteMaxInteger

/-- The observed originals whose own value is a free token. -/
def ownValuesFree (domain : NumericKeyDomain) (occupied rows : List ℤ) : List ℤ :=
  rows.filter fun y => domain.containsPseudonym y ∧ y ∉ occupied

/-- The arithmetic of the residual test: `free` tokens and `remaining` originals, `own` of which
have a free own value. -/
def LeavesCompletion (free remaining : ℤ) (own : ℕ) : Prop :=
  remaining ≤ free ∧ 1 ≤ free ∧ (0 < remaining → 0 < own → 2 ≤ free)

instance (free remaining : ℤ) (own : ℕ) : Decidable (LeavesCompletion free remaining own) := by
  unfold LeavesCompletion
  infer_instance

theorem bindInteger_of_fits {domain : NumericKeyDomain} (hf : FitsStrictly domain)
    (hle : domain.pseudonymLow ≤ domain.pseudonymHigh) :
    bindInteger domain.pseudonymLow = .ok domain.pseudonymLow ∧
      bindInteger domain.pseudonymHigh = .ok domain.pseudonymHigh := by
  obtain ⟨h1, h2⟩ := hf
  refine ⟨if_pos ⟨by omega, by omega⟩, if_pos ⟨by omega, by omega⟩⟩

theorem castInteger_mem_iff {domain : NumericKeyDomain} (hf : FitsStrictly domain) (v : ℤ) :
    (domain.pseudonymLow ≤ castInteger v ∧ castInteger v ≤ domain.pseudonymHigh) ↔
      domain.containsPseudonym v = true := by
  obtain ⟨h1, h2⟩ := hf
  have h3 : sqliteMinInteger ≤ sqliteMaxInteger := by decide
  rw [NumericKeyDomain.containsPseudonym_iff]
  unfold castInteger
  omega

theorem castInteger_of_mem {domain : NumericKeyDomain} (hf : FitsStrictly domain) {v : ℤ}
    (hv : domain.containsPseudonym v = true) : castInteger v = v := by
  obtain ⟨h1, h2⟩ := hf
  rw [NumericKeyDomain.containsPseudonym_iff] at hv
  unfold castInteger
  omega

theorem spoolValueFreeInDomain_eq {domain : NumericKeyDomain} (hf : FitsStrictly domain)
    (hle : domain.pseudonymLow ≤ domain.pseudonymHigh) (st : NumericState) :
    spoolValueFreeInDomain domain st =
      .ok (decide (0 < (ownValuesFree domain st.mappings.values st.observed.rows).length)) := by
  obtain ⟨hlow, hhigh⟩ := bindInteger_of_fits hf hle
  simp only [spoolValueFreeInDomain, hlow, hhigh]
  change Except.ok _ = Except.ok _
  congr 1
  rw [Bool.eq_iff_iff, List.any_eq_true, decide_eq_true_eq, List.length_pos_iff_exists_mem]
  simp only [ownValuesFree, numericTokenOccupied, List.mem_filter, List.mem_map, decide_eq_true_eq,
    Bool.not_eq_true', decide_eq_false_iff_not]
  constructor
  · rintro ⟨_, ⟨⟨v, hv, rfl⟩, hr⟩, hfree⟩
    have hin := (castInteger_mem_iff hf v).mp hr
    exact ⟨v, hv, hin, castInteger_of_mem hf hin ▸ hfree⟩
  · rintro ⟨v, hv, hin, hfree⟩
    exact ⟨castInteger v, ⟨⟨v, hv, rfl⟩, (castInteger_mem_iff hf v).mpr hin⟩,
      (castInteger_of_mem hf hin).symm ▸ hfree⟩

theorem numericResidualFeasible_eq {domain : NumericKeyDomain} (hf : FitsStrictly domain)
    (hle : domain.pseudonymLow ≤ domain.pseudonymHigh) (st : NumericState) (occ rem : ℤ) :
    numericResidualFeasible domain occ rem st =
      .ok (decide (LeavesCompletion (domain.size - occ) rem
        (ownValuesFree domain st.mappings.values st.observed.rows).length)) := by
  unfold numericResidualFeasible
  simp only [spoolValueFreeInDomain_eq hf hle]
  split_ifs with h1 h2 h3
  · rw [decide_eq_false (fun h => by have := h.1; omega)]
  · rw [decide_eq_false (fun h => by have := h.2.1; omega)]
  · change Except.ok _ = Except.ok _
    congr 1
    by_cases how : 0 < (ownValuesFree domain st.mappings.values st.observed.rows).length
    · rw [decide_eq_true how, Bool.true_and, ← decide_not]
      refine decide_eq_decide.mpr ⟨fun h => ⟨by omega, by omega, fun _ _ => by omega⟩, fun h => ?_⟩
      have := h.2.2 h3 how
      omega
    · rw [decide_eq_false how, Bool.false_and, Bool.not_false, eq_comm, decide_eq_true_eq]
      exact ⟨by omega, by omega, fun _ h => absurd h how⟩
  · rw [decide_eq_true]
    exact ⟨by omega, by omega, fun h => absurd h h3⟩

theorem streamingJthFreeNumeric_eq (domain : NumericKeyDomain) (stream : List ℤ) (j : ℤ) :
    streamingJthFreeNumeric domain stream j =
      gapWalk (domain.pseudonymLow - 1) j (stream.filter domain.containsPseudonym) := by
  unfold streamingJthFreeNumeric
  generalize domain.pseudonymLow - 1 = previous
  induction stream generalizing previous j with
  | nil => rfl
  | cons v rest ih =>
    by_cases hv : v < domain.pseudonymLow ∨ domain.pseudonymHigh < v
    · have hout : domain.containsPseudonym v = false := by
        simp only [NumericKeyDomain.containsPseudonym, decide_eq_false_iff_not]
        omega
      simp [streamingJthFreeNumeric.go, hv, hout, ih]
    · have hin : domain.containsPseudonym v = true := by
        rw [NumericKeyDomain.containsPseudonym_iff]
        omega
      simp only [streamingJthFreeNumeric.go, hv, if_false, List.filter_cons, hin, if_true, gapWalk, ih]

theorem pairwise_numericOccupiedStream {domain : NumericKeyDomain} (hf : FitsStrictly domain)
    (m : BijectiveTable ℤ ℤ) :
    ((numericOccupiedStream m).filter domain.containsPseudonym).Pairwise (· < ·) := by
  have htotal : Std.Total fun a b : ℤ => castInteger a ≤ castInteger b :=
    ⟨fun a b => le_total (castInteger a) (castInteger b)⟩
  have htrans : IsTrans ℤ fun a b : ℤ => castInteger a ≤ castInteger b := ⟨fun _ _ _ => le_trans⟩
  have hsorted : (numericOccupiedStream m).Pairwise fun a b => castInteger a ≤ castInteger b :=
    List.pairwise_insertionSort _ _
  have hnodup : (numericOccupiedStream m).Nodup := (perm_numericOccupiedStream m).nodup_iff.mpr m.values_nodup
  have hboth := (hsorted.filter (p := domain.containsPseudonym)).and (hnodup.filter _)
  refine hboth.imp_of_mem ?_
  intro a b ha hb hab
  rw [castInteger_of_mem hf (List.mem_filter.mp ha).2, castInteger_of_mem hf (List.mem_filter.mp hb).2]
    at hab
  exact lt_of_le_of_ne hab.1 hab.2

theorem lt_of_mem_numericOccupiedStream {domain : NumericKeyDomain} {m : BijectiveTable ℤ ℤ} {b : ℤ}
    (hb : b ∈ (numericOccupiedStream m).filter domain.containsPseudonym) : domain.pseudonymLow - 1 < b := by
  have := NumericKeyDomain.containsPseudonym_iff.mp (List.mem_filter.mp hb).2
  omega

noncomputable def freeTokens (domain : NumericKeyDomain) (m : BijectiveTable ℤ ℤ) : Finset ℤ :=
  freeBetween (domain.pseudonymLow - 1) (domain.pseudonymHigh + 1)
    ((numericOccupiedStream m).filter domain.containsPseudonym)

theorem mem_freeTokens {domain : NumericKeyDomain} {m : BijectiveTable ℤ ℤ} {v : ℤ} :
    v ∈ freeTokens domain m ↔ domain.containsPseudonym v = true ∧ v ∉ m.values := by
  simp only [freeTokens, mem_freeBetween, List.mem_filter, (perm_numericOccupiedStream m).mem_iff,
    NumericKeyDomain.containsPseudonym_iff, not_and]
  constructor
  · rintro ⟨h1, h2⟩
    exact ⟨by omega, fun hv => h2 hv (by omega) (by omega)⟩
  · rintro ⟨h1, h2⟩
    exact ⟨by omega, fun hv => absurd hv h2⟩

theorem card_freeTokens {domain : NumericKeyDomain} {m : BijectiveTable ℤ ℤ}
    (hle : domain.pseudonymLow ≤ domain.pseudonymHigh)
    (hv : ∀ v ∈ m.values, domain.containsPseudonym v = true) :
    ((freeTokens domain m).card : ℤ) = domain.size - m.rows.length := by
  have hfilter : (numericOccupiedStream m).filter domain.containsPseudonym = numericOccupiedStream m := by
    rw [List.filter_eq_self]
    intro v hmem
    exact hv v ((perm_numericOccupiedStream m).mem_iff.mp hmem)
  have hperm := perm_numericOccupiedStream m
  rw [freeTokens, hfilter, card_freeBetween (hperm.nodup_iff.mpr m.values_nodup), hperm.length_eq,
    m.length_values, NumericKeyDomain.size]
  · omega
  · intro b hb
    have := NumericKeyDomain.containsPseudonym_iff.mp (hv b (hperm.mem_iff.mp hb))
    omega
  · omega

theorem length_ownValuesFree {domain : NumericKeyDomain} {m : BijectiveTable ℤ ℤ} {rows : List ℤ}
    (hn : rows.Nodup) :
    (ownValuesFree domain m.values rows).length = ((freeTokens domain m).filter (· ∈ rows)).card := by
  have hnodup : (ownValuesFree domain m.values rows).Nodup := hn.filter _
  rw [← List.toFinset_card_of_nodup hnodup]
  congr 1
  ext v
  simp only [ownValuesFree, List.mem_toFinset, List.mem_filter, decide_eq_true_eq, Finset.mem_filter,
    mem_freeTokens]
  tauto

end DbfAnonymizer.Engine
