import Mathlib.Data.Int.Interval
import Mathlib.Data.List.Sort
import DbfAnonymizer.Lib.GapWalk
import DbfAnonymizer.Lib.Outcome
import DbfAnonymizer.Lib.SelfExclusion
import DbfAnonymizer.Transforms.NumericKeys

/-! The free tokens of a numeric domain: how many there are, which is the `j`-th, and what the
bijection kernel decides about them. -/
namespace DbfAnonymizer.Transforms
open Lib

/-- The exact number of free tokens; a value outside the domain takes none away. -/
def freeTokenCount (domain : NumericKeyDomain) (occupied : List ℤ) : ℤ :=
  domain.size - (occupied.filter domain.containsPseudonym).dedup.length

def sortedSet (values : List ℤ) : List ℤ := values.dedup.insertionSort (· ≤ ·)

def jthFreeToken (domain : NumericKeyDomain) (blocked : List ℤ) (j : ℤ) : Except Raised ℤ :=
  if j < 0 then .error (.valueError "the requested free-token index must be non-negative")
  else go (domain.pseudonymLow - 1) j (sortedSet blocked)
where
  go (previous remaining : ℤ) : List ℤ → Except Raised ℤ
    | [] =>
      let result := previous + 1 + remaining
      if domain.pseudonymHigh < result then
        .error (.valueError "the requested free-token index exceeds the domain capacity")
      else .ok result
    | value :: rest =>
      if value < domain.pseudonymLow ∨ domain.pseudonymHigh < value then go previous remaining rest
      else
        let gap := value - previous - 1
        if remaining < gap then .ok (previous + 1 + remaining) else go value (remaining - gap) rest

noncomputable def freeSet (domain : NumericKeyDomain) (blocked : List ℤ) : Finset ℤ :=
  (Finset.Icc domain.pseudonymLow domain.pseudonymHigh).filter (· ∉ blocked)

section FreeSet
variable {domain : NumericKeyDomain} {blocked blocked' originals : List ℤ} {v c : ℤ}

@[simp] theorem mem_freeSet :
    v ∈ freeSet domain blocked ↔ domain.containsPseudonym v = true ∧ v ∉ blocked := by
  simp [freeSet, NumericKeyDomain.containsPseudonym_iff]

theorem freeSet_congr (h : ∀ v, v ∈ blocked ↔ v ∈ blocked') : freeSet domain blocked = freeSet domain blocked' := by
  ext v
  rw [mem_freeSet, mem_freeSet, h v]

theorem freeSet_append_singleton : freeSet domain (blocked ++ [c]) = (freeSet domain blocked).erase c := by
  ext v
  simp only [mem_freeSet, List.mem_append, List.mem_singleton, not_or, Finset.mem_erase]
  tauto

theorem mem_sortedSet {values : List ℤ} : v ∈ sortedSet values ↔ v ∈ values := by
  rw [sortedSet, (List.perm_insertionSort _ _).mem_iff, List.mem_dedup]

theorem pairwise_sortedSet (values : List ℤ) : (sortedSet values).Pairwise (· < ·) := by
  have hsorted := List.pairwise_insertionSort (· ≤ ·) values.dedup
  have hnodup : (sortedSet values).Nodup :=
    (List.perm_insertionSort _ _).nodup_iff.mpr (List.nodup_dedup values)
  exact (hsorted.and hnodup).imp fun h => lt_of_le_of_ne h.1 h.2

theorem freeTokenCount_eq (hsize : 0 ≤ domain.size) (blocked : List ℤ) :
    freeTokenCount domain blocked = (freeSet domain blocked).card := by
  have htaken : (blocked.filter domain.containsPseudonym).dedup.length =
      ((Finset.Icc domain.pseudonymLow domain.pseudonymHigh).filter (· ∈ blocked)).card := by
    rw [← List.toFinset_card_of_nodup (List.nodup_dedup _)]
    congr 1
    ext v
    simp only [List.mem_toFinset, List.mem_dedup, List.mem_filter, Finset.mem_filter, Finset.mem_Icc,
      NumericKeyDomain.containsPseudonym_iff]
    tauto
  have hsplit := Finset.card_filter_add_card_filter_not (s := Finset.Icc domain.pseudonymLow domain.pseudonymHigh)
    (· ∈ blocked)
  rw [Int.card_Icc] at hsplit
  unfold freeTokenCount freeSet
  unfold NumericKeyDomain.size at hsize ⊢
  omega

/-- What the kernel proves about originals and free tokens. -/
def KernelFeasible (domain : NumericKeyDomain) (originals occupied : List ℤ) : Prop :=
  0 ≤ domain.size ∧ SelfAvoidable (freeSet domain occupied) originals.toFinset

/-- The kernel accepts distinct originals exactly when they can avoid themselves. -/
theorem planNumericBijection_eq_true_iff (domain : NumericKeyDomain) (hn : originals.Nodup) (occupied : List ℤ) :
    planNumericBijection domain originals occupied = .ok true ↔ KernelFeasible domain originals occupied := by
  have hcard : originals.toFinset.card = originals.length := List.toFinset_card_of_nodup hn
  have hcount : domain.size - (occupied.filter domain.containsPseudonym).dedup.length =
      freeTokenCount domain occupied := rfl
  have hle : freeTokenCount domain occupied ≤ domain.size := by
    unfold freeTokenCount
    omega
  have hblocked : ∀ v, domain.containsPseudonym v = true →
      (v ∉ (occupied.filter domain.containsPseudonym).dedup ↔ v ∉ occupied) := by
    intro v hv
    rw [List.mem_dedup, List.mem_filter]
    tauto
  simp only [planNumericBijection, hn.dedup, ne_eq, not_true_eq_false, if_false, hcount]
  unfold KernelFeasible SelfAvoidable
  split_ifs with hlt
  · simp only [Except.ok.injEq, Bool.false_eq_true, false_iff]
    rintro ⟨hsize, hroom, -⟩
    rw [freeTokenCount_eq hsize] at hlt
    omega
  · have hsize : 0 ≤ domain.size := by omega
    rw [freeTokenCount_eq hsize] at hlt ⊢
    simp only [Except.ok.injEq, List.all_eq_true, decide_eq_true_eq, List.mem_toFinset, mem_freeSet]
    constructor
    · intro hall
      refine ⟨hsize, by omega, fun v hv hfree => ?_⟩
      have := hall v hv
      rw [if_pos ⟨hfree.1, (hblocked v hfree.1).mpr hfree.2⟩] at this
      omega
    · rintro ⟨-, hroom, hown⟩ v hv
      split_ifs with hfree
      · have := hown v hv ⟨hfree.1, (hblocked v hfree.1).mp hfree.2⟩
        omega
      · have : 0 < originals.length := List.length_pos_of_mem hv
        omega

theorem exists_planNumericBijection (domain : NumericKeyDomain) (hn : originals.Nodup) (occupied : List ℤ) :
    ∃ feasible, planNumericBijection domain originals occupied = .ok feasible := by
  simp only [planNumericBijection, hn.dedup, ne_eq, not_true_eq_false, if_false]
  split_ifs
  · exact ⟨_, rfl⟩
  · exact ⟨_, rfl⟩

/-- The kernel's verdict is exact: a one-to-one choice of free tokens that gives no original its own. -/
theorem planNumericBijection_exact (hn : originals.Nodup) (occupied : List ℤ) (hsize : 0 ≤ domain.size) :
    planNumericBijection domain originals occupied = .ok true ↔
      ∃ f : ℤ → ℤ, Set.InjOn f {x | x ∈ originals} ∧
        ∀ x ∈ originals, domain.containsPseudonym (f x) = true ∧ f x ∉ occupied ∧ f x ≠ x := by
  rw [planNumericBijection_eq_true_iff domain hn, KernelFeasible, selfAvoidable_iff_exists]
  simp [hsize, and_assoc]

/-- The kernel returns on all distinct originals, and it returns `true` exactly when they fit. -/
theorem planNumericBijection_decides (domain : NumericKeyDomain) (hsize : 0 ≤ domain.size) (hn : originals.Nodup)
    (occupied : List ℤ) : ∃ feasible, planNumericBijection domain originals occupied = .ok feasible ∧
      (feasible = true ↔ ∃ f : ℤ → ℤ, Set.InjOn f {x | x ∈ originals} ∧
        ∀ x ∈ originals, domain.containsPseudonym (f x) = true ∧ f x ∉ occupied ∧ f x ≠ x) := by
  obtain ⟨feasible, hverdict⟩ := exists_planNumericBijection domain hn occupied
  have hexact := planNumericBijection_exact hn occupied hsize
  rw [hverdict, Except.ok.injEq] at hexact
  exact ⟨feasible, hverdict, hexact⟩

/-- Two tokens for their own two values: only the swap fits. -/
theorem planNumericBijection_decides_swap : ∃ feasible, planNumericBijection ⟨1, 2, []⟩ [1, 2] [] = .ok feasible ∧
    (feasible = true ↔ ∃ f : ℤ → ℤ, Set.InjOn f {x | x ∈ [(1 : ℤ), 2]} ∧
      ∀ x ∈ [(1 : ℤ), 2], NumericKeyDomain.containsPseudonym ⟨1, 2, []⟩ (f x) = true ∧ f x ∉ ([] : List ℤ) ∧ f x ≠ x) :=
  planNumericBijection_decides ⟨1, 2, []⟩ (by decide) (by decide) []

end FreeSet

section Walk
variable {domain : NumericKeyDomain} {blocked : List ℤ} {j : ℤ}

theorem jthFreeToken_go_eq (stream : List ℤ) {previous : ℤ}
    (h : gapWalk previous j (stream.filter domain.containsPseudonym) ≤ domain.pseudonymHigh) :
    jthFreeToken.go domain previous j stream =
      .ok (gapWalk previous j (stream.filter domain.containsPseudonym)) := by
  induction stream generalizing previous j with
  | nil =>
    simp only [List.filter_nil, gapWalk] at h ⊢
    simp [jthFreeToken.go, Int.not_lt.mpr h]
  | cons v rest ih =>
    by_cases hv : v < domain.pseudonymLow ∨ domain.pseudonymHigh < v
    · have hout : domain.containsPseudonym v = false := by
        simp only [NumericKeyDomain.containsPseudonym, decide_eq_false_iff_not]
        omega
      simp only [List.filter_cons, hout, Bool.false_eq_true, if_false] at h ⊢
      rw [← ih h]
      simp [jthFreeToken.go, hv]
    · have hin : domain.containsPseudonym v = true := by
        rw [NumericKeyDomain.containsPseudonym_iff]
        omega
      simp only [List.filter_cons, hin, if_true, gapWalk] at h ⊢
      simp only [jthFreeToken.go, hv, if_false]
      split_ifs at h ⊢ with hgap
      · rfl
      · exact ih h

theorem mem_filter_sortedSet {b : ℤ} (hb : b ∈ (sortedSet blocked).filter domain.containsPseudonym) :
    domain.pseudonymLow - 1 < b := by
  have := NumericKeyDomain.containsPseudonym_iff.mp (List.mem_filter.mp hb).2
  omega

theorem freeBetween_sortedSet (domain : NumericKeyDomain) (blocked : List ℤ) :
    freeBetween (domain.pseudonymLow - 1) (domain.pseudonymHigh + 1)
      ((sortedSet blocked).filter domain.containsPseudonym) = freeSet domain blocked := by
  ext v
  simp only [mem_freeBetween, List.mem_filter, mem_sortedSet, mem_freeSet, NumericKeyDomain.containsPseudonym_iff,
    not_and]
  constructor
  · rintro ⟨h1, h2⟩
    exact ⟨by omega, fun hv => h2 hv (by omega) (by omega)⟩
  · rintro ⟨h1, h2⟩
    exact ⟨by omega, fun hv => absurd hv h2⟩

theorem jthFreeToken_eq (domain : NumericKeyDomain) (blocked : List ℤ) {j : ℤ} (hj : 0 ≤ j)
    (hlt : j < (freeSet domain blocked).card) :
    jthFreeToken domain blocked j = .ok (gapWalk (domain.pseudonymLow - 1) j
        ((sortedSet blocked).filter domain.containsPseudonym)) ∧
      gapWalk (domain.pseudonymLow - 1) j ((sortedSet blocked).filter domain.containsPseudonym) ∈
        freeSet domain blocked := by
  have hs := (pairwise_sortedSet blocked).filter (p := domain.containsPseudonym)
  obtain ⟨h1, h2, -⟩ := gapWalk_spec hs (fun _ => mem_filter_sortedSet) hj
  have h3 := gapWalk_lt (t := domain.pseudonymHigh + 1) hs (fun _ => mem_filter_sortedSet) hj
    (by rw [freeBetween_sortedSet]; exact hlt)
  refine ⟨?_, ?_⟩
  · rw [jthFreeToken, if_neg (by omega), jthFreeToken_go_eq _ (by omega)]
  · rw [← freeBetween_sortedSet]
    exact mem_freeBetween.mpr ⟨⟨h1, h3⟩, h2⟩

theorem exists_jthFreeToken (domain : NumericKeyDomain) (blocked : List ℤ) (P : ℤ → Prop) [DecidablePred P] {k : ℕ}
    (hk : k ≤ (freeSet domain blocked).card)
    (hbad : ((freeSet domain blocked).filter (¬ P ·)).card < k) :
    ∃ j < k, ∃ c, jthFreeToken domain blocked j = .ok c ∧ P c := by
  have hs := (pairwise_sortedSet blocked).filter (p := domain.containsPseudonym)
  obtain ⟨j, hj, hnot⟩ := exists_gapWalk_not_mem (t := domain.pseudonymHigh + 1)
    ((freeSet domain blocked).filter (¬ P ·)).toList hs (fun _ => mem_filter_sortedSet)
    (k := k) (by rw [freeBetween_sortedSet]; exact hk)
    (by
      rw [freeBetween_sortedSet]
      refine lt_of_le_of_lt (Finset.card_le_card ?_) hbad
      intro v hv
      simpa using (Finset.mem_filter.mp hv).2)
  obtain ⟨hget, hfree⟩ := jthFreeToken_eq domain blocked (j := j) (by omega) (by omega)
  refine ⟨j, hj, _, hget, ?_⟩
  by_contra hP
  exact hnot (by simpa using ⟨by simpa using hfree, hP⟩)

end Walk
end DbfAnonymizer.Transforms
