import Mathlib

/-! Injective choices from nested pools in which no item may take its own token. -/
namespace DbfAnonymizer.Lib
open Finset

/-- Nested finite pools that start empty and gain at least two tokens at every level. -/
structure NestedPools (τ : Type*) where
  pool : ℕ → Finset τ
  mono : Monotone pool
  zero : pool 0 = ∅
  grows : ∀ w, #(pool w) + 2 ≤ #(pool (w + 1))

namespace NestedPools
variable {ι τ : Type*} [Fintype ι] (P : NestedPools τ)

/-- An injective choice of a token of one's own level that is not one's own token. -/
def Assignable (width : ι → ℕ) (own : ι → τ) : Prop :=
  ∃ f : ι → τ, Function.Injective f ∧ ∀ i, f i ∈ P.pool (width i) ∧ f i ≠ own i

/-- No level is claimed by more items than it has tokens. -/
def Counted (width : ι → ℕ) : Prop := ∀ w, #{i | width i ≤ w} ≤ #(P.pool w)

variable {P} {width : ι → ℕ} {own : ι → τ}

theorem Counted.pos (h : P.Counted width) (i : ι) : 0 < width i := by
  by_contra hzero
  have hi : i ∈ ({i | width i ≤ 0} : Finset ι) := by simpa using hzero
  have hcard := h 0
  rw [P.zero, card_empty, Nat.le_zero, card_eq_zero] at hcard
  rw [hcard] at hi
  exact absurd hi (notMem_empty i)

variable [DecidableEq τ]

omit [Fintype ι] in
theorem pool_subset_biUnion (hown : Function.Injective own) {s : Finset ι} {i j : ι} (hi : i ∈ s)
    (hj : j ∈ s) (hij : j ≠ i) (hw : width j = width i) :
    P.pool (width i) ⊆ s.biUnion fun k => (P.pool (width k)).erase (own k) := by
  intro x hx
  rw [mem_biUnion]
  by_cases hxi : x = own i
  · refine ⟨j, hj, mem_erase.mpr ⟨?_, hw ▸ hx⟩⟩
    rw [hxi]
    exact fun heq => hij (hown heq).symm
  · exact ⟨i, hi, mem_erase.mpr ⟨hxi, hx⟩⟩

/-- Counting the levels is all that Hall's condition asks here. -/
theorem Counted.card_le_biUnion (h : P.Counted width) (hown : Function.Injective own) (s : Finset ι) :
    #s ≤ #(s.biUnion fun k => (P.pool (width k)).erase (own k)) := by
  classical
  obtain rfl | hs := s.eq_empty_or_nonempty
  · simp
  obtain ⟨top, htop, hmax⟩ := s.exists_max_image width hs
  by_cases hpair : ∃ j ∈ s, j ≠ top ∧ width j = width top
  · obtain ⟨j, hj, hne, hw⟩ := hpair
    have hle : s ⊆ ({i | width i ≤ width top} : Finset ι) := by
      intro i hi
      simpa using hmax i hi
    calc #s ≤ #{i | width i ≤ width top} := card_le_card hle
      _ ≤ #(P.pool (width top)) := h _
      _ ≤ _ := card_le_card (pool_subset_biUnion hown htop hj hne hw)
  · -- the top level is claimed by one item alone, and it has two tokens more than the level below
    obtain ⟨w, hw⟩ : ∃ w, width top = w + 1 := ⟨width top - 1, by have := h.pos top; omega⟩
    have hbelow : s.erase top ⊆ ({i | width i ≤ w} : Finset ι) := by
      intro i hi
      obtain ⟨hne, his⟩ := mem_erase.mp hi
      have hlt : width i ≠ width top := fun heq => hpair ⟨i, his, hne, heq⟩
      have hle := hmax i his
      simp only [mem_filter_univ]
      omega
    have hcount : #s ≤ #(P.pool w) + 1 := by
      have herase := card_erase_add_one htop
      have hle := (card_le_card hbelow).trans (h w)
      omega
    have hgrow := P.grows w
    have hpool : #(P.pool (width top)) ≤ #((P.pool (width top)).erase (own top)) + 1 := by
      have := pred_card_le_card_erase (s := P.pool (width top)) (a := own top)
      omega
    have hsub := card_le_card (subset_biUnion_of_mem (fun k => (P.pool (width k)).erase (own k)) htop)
    rw [hw] at hpool hsub
    omega

/-- Feasibility is exactly the level counts. -/
theorem assignable_iff_counted (hown : Function.Injective own) :
    P.Assignable width own ↔ P.Counted width := by
  constructor
  · rintro ⟨f, hf, hmem⟩ w
    apply card_le_card_of_injOn f
    · intro i hi
      simp only [coe_filter, mem_univ, true_and, Set.mem_ofPred_eq] at hi
      exact P.mono hi (hmem i).1
    · exact hf.injOn
  · intro h
    obtain ⟨f, hf, hmem⟩ := (all_card_le_biUnion_card_iff_exists_injective _).mp (h.card_le_biUnion hown)
    refine ⟨f, hf, fun i => ?_⟩
    obtain ⟨hne, hpool⟩ := mem_erase.mp (hmem i)
    exact ⟨hpool, hne⟩

end NestedPools
end DbfAnonymizer.Lib
