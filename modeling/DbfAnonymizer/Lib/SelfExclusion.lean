import Mathlib.Data.Finset.Card
import Mathlib.Data.Set.Function
import Mathlib.Tactic.SplitIfs

/-! Giving every one of some elements a token of its own that is not the element itself. -/
namespace DbfAnonymizer.Lib
variable {α : Type*} [DecidableEq α]

/-- As many tokens as elements, and a second token wherever an element is itself a token. -/
def SelfAvoidable (tokens elements : Finset α) : Prop :=
  elements.card ≤ tokens.card ∧ ∀ x ∈ elements, x ∈ tokens → 2 ≤ tokens.card

instance (tokens elements : Finset α) : Decidable (SelfAvoidable tokens elements) := by
  unfold SelfAvoidable
  infer_instance

section Step
variable {tokens elements : Finset α} {x c : α}

theorem SelfAvoidable.erase_of_three_le (h : SelfAvoidable tokens elements) (hx : x ∈ elements)
    (hc : c ∈ tokens) (h3 : 3 ≤ tokens.card) : SelfAvoidable (tokens.erase c) (elements.erase x) := by
  have hcard := h.1
  unfold SelfAvoidable
  rw [Finset.card_erase_of_mem hc, Finset.card_erase_of_mem hx]
  exact ⟨by omega, fun _ _ _ => by omega⟩

theorem SelfAvoidable.exists_erase_of_two (h : SelfAvoidable tokens elements) (hx : x ∈ elements)
    (h2 : tokens.card ≤ 2) : ∃ c ∈ tokens.erase x, SelfAvoidable (tokens.erase c) (elements.erase x) := by
  obtain ⟨hcard, hown⟩ := h
  have hpos : 0 < elements.card := Finset.card_pos.mpr ⟨x, hx⟩
  have hother : (tokens.erase x).Nonempty := by
    rw [← Finset.card_pos]
    by_cases hxt : x ∈ tokens
    · have := hown x hx hxt
      rw [Finset.card_erase_of_mem hxt]
      omega
    · rw [Finset.erase_eq_of_notMem hxt]
      omega
  have hrest : (elements.erase x).card = elements.card - 1 := Finset.card_erase_of_mem hx
  by_cases hr : ∃ r ∈ elements.erase x, r ∈ tokens.erase x
  · obtain ⟨r, hr, hrt⟩ := hr
    refine ⟨r, hrt, ?_, ?_⟩
    · rw [hrest, Finset.card_erase_of_mem (Finset.mem_of_mem_erase hrt)]
      omega
    · intro y hy hyt
      -- there is one element left, and it is `r`
      have hone : (elements.erase x).card ≤ 1 := by omega
      obtain rfl := Finset.card_le_one.mp hone y hy r hr
      exact absurd hyt (Finset.notMem_erase y tokens)
  · obtain ⟨c, hc⟩ := hother
    refine ⟨c, hc, ?_, ?_⟩
    · rw [hrest, Finset.card_erase_of_mem (Finset.mem_of_mem_erase hc)]
      omega
    · intro y hy hyt
      have hyx : y ≠ x := Finset.ne_of_mem_erase hy
      exact absurd ⟨y, hy, Finset.mem_erase.mpr ⟨hyx, Finset.mem_of_mem_erase hyt⟩⟩ hr

theorem SelfAvoidable.exists_erase (h : SelfAvoidable tokens elements) (hx : x ∈ elements) :
    ∃ c ∈ tokens.erase x, SelfAvoidable (tokens.erase c) (elements.erase x) := by
  by_cases h3 : 3 ≤ tokens.card
  · have hle := Finset.pred_card_le_card_erase (s := tokens) (a := x)
    obtain ⟨c, hc⟩ : (tokens.erase x).Nonempty := Finset.card_pos.mp (by omega)
    exact ⟨c, hc, h.erase_of_three_le hx (Finset.mem_of_mem_erase hc) h3⟩
  · exact h.exists_erase_of_two hx (by omega)

end Step

/-- The counting condition is exact: it holds just when a self-avoiding assignment exists. -/
theorem selfAvoidable_iff_exists {tokens elements : Finset α} :
    SelfAvoidable tokens elements ↔
      ∃ f : α → α, Set.InjOn f elements ∧ ∀ x ∈ elements, f x ∈ tokens ∧ f x ≠ x := by
  constructor
  · intro h
    induction elements using Finset.strongInduction generalizing tokens with
    | H elements ih =>
      rcases elements.eq_empty_or_nonempty with rfl | ⟨x, hx⟩
      · exact ⟨id, by simp, by simp⟩
      obtain ⟨c, hc, hrest⟩ := h.exists_erase hx
      obtain ⟨f, hinj, hf⟩ := ih _ (Finset.erase_ssubset hx) hrest
      refine ⟨Function.update f x c, ?_, ?_⟩
      · intro y hy z hz hyz
        by_cases hyx : y = x <;> by_cases hzx : z = x
        · rw [hyx, hzx]
        · rw [hyx, Function.update_self, Function.update_of_ne hzx] at hyz
          have := (hf z (Finset.mem_erase.mpr ⟨hzx, hz⟩)).1
          rw [← hyz] at this
          exact absurd this (Finset.notMem_erase c tokens)
        · rw [hzx, Function.update_self, Function.update_of_ne hyx] at hyz
          have := (hf y (Finset.mem_erase.mpr ⟨hyx, hy⟩)).1
          rw [hyz] at this
          exact absurd this (Finset.notMem_erase c tokens)
        · rw [Function.update_of_ne hyx, Function.update_of_ne hzx] at hyz
          exact hinj (Finset.mem_coe.mpr (Finset.mem_erase.mpr ⟨hyx, hy⟩))
            (Finset.mem_coe.mpr (Finset.mem_erase.mpr ⟨hzx, hz⟩)) hyz
      · intro y hy
        by_cases hyx : y = x
        · rw [hyx, Function.update_self]
          exact ⟨Finset.mem_of_mem_erase hc, Finset.ne_of_mem_erase hc⟩
        · rw [Function.update_of_ne hyx]
          obtain ⟨h1, h2⟩ := hf y (Finset.mem_erase.mpr ⟨hyx, hy⟩)
          exact ⟨Finset.mem_of_mem_erase h1, h2⟩
  · rintro ⟨f, hinj, hf⟩
    refine ⟨Finset.card_le_card_of_injOn f (fun x hx => (hf x hx).1) hinj, ?_⟩
    intro x hx hxt
    obtain ⟨hfx, hne⟩ := hf x hx
    have hpair : ({x, f x} : Finset α) ⊆ tokens := by
      intro y hy
      rcases Finset.mem_insert.mp hy with rfl | hy
      · exact hxt
      · rwa [Finset.mem_singleton.mp hy]
    have hcard := Finset.card_le_card hpair
    rwa [Finset.card_pair hne.symm] at hcard

end DbfAnonymizer.Lib
