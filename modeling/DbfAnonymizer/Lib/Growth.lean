import DbfAnonymizer.Lib.Outcome
import Mathlib.Order.Monotone.Defs

/-! Folds along a preorder: what a step establishes of its item still holds when the fold returns. -/
namespace DbfAnonymizer.Lib
universe u v
variable {ε : Type*} {α : Type u} [Preorder α] {ι : Type v} {f : α → ι → Except ε α} {items : List ι} {a b : α}

/-- Where every step keeps an invariant, goes up and establishes a fact that is kept on the way up, the fold does
so for all items. -/
theorem forall_of_foldlM_of_invariant (inv : α → Prop) (p : ι → α → Prop) (hkeep : ∀ i, ∀ a b, a ≤ b → p i a → p i b)
    (hstep : ∀ i ∈ items, ∀ a b, f a i = .ok b → inv a → a ≤ b ∧ inv b ∧ p i b) (h : items.foldlM f a = .ok b)
    (ha : inv a) : a ≤ b ∧ inv b ∧ ∀ i ∈ items, p i b := by
  induction items generalizing a with
  | nil =>
    cases h
    exact ⟨le_refl _, ha, by simp⟩
  | cons i items ih =>
    rw [List.foldlM_cons] at h
    obtain ⟨next, hnext, hrest⟩ := bind_eq_ok.mp h
    obtain ⟨hup, hnextinv, hfirst⟩ := hstep i (by simp) a next hnext ha
    obtain ⟨hrise, hinv, hothers⟩ := ih (fun j hj => hstep j (by simp [hj])) hrest hnextinv
    exact ⟨hup.trans hrise, hinv, List.forall_mem_cons.mpr ⟨hkeep i next b hrise hfirst, hothers⟩⟩

theorem forall_of_foldlM (p : ι → α → Prop) (hkeep : ∀ i, ∀ a b, a ≤ b → p i a → p i b)
    (hstep : ∀ i ∈ items, ∀ a b, f a i = .ok b → a ≤ b ∧ p i b) (h : items.foldlM f a = .ok b) :
    a ≤ b ∧ ∀ i ∈ items, p i b := by
  have hfold := forall_of_foldlM_of_invariant (fun _ => True) p hkeep
    (fun i hi a b hb _ => ⟨(hstep i hi a b hb).1, trivial, (hstep i hi a b hb).2⟩) h trivial
  exact ⟨hfold.1, hfold.2.2⟩

omit [Preorder α] in
theorem exists_step_of_foldlM (h : items.foldlM f a = .ok b) {i : ι} (hi : i ∈ items) :
    ∃ before after, f before i = .ok after := by
  induction items generalizing a with
  | nil => cases hi
  | cons j items ih =>
    rw [List.foldlM_cons] at h
    obtain ⟨next, hnext, hrest⟩ := bind_eq_ok.mp h
    rcases List.mem_cons.mp hi with rfl | hi
    · exact ⟨a, next, hnext⟩
    · exact ih hrest hi

omit [Preorder α] in
/-- A view that every step moves along by what its item contributes moves along by all contributions. -/
theorem view_of_foldlM {β γ : Type*} (view : α → β) (step : β → γ → β) (contribution : ι → List γ)
    (hstep : ∀ i ∈ items, ∀ a b, f a i = .ok b → view b = (contribution i).foldl step (view a))
    (h : items.foldlM f a = .ok b) : view b = (items.flatMap contribution).foldl step (view a) := by
  induction items generalizing a with
  | nil =>
    cases h
    rfl
  | cons i items ih =>
    rw [List.foldlM_cons] at h
    obtain ⟨next, hnext, hrest⟩ := bind_eq_ok.mp h
    rw [ih (fun j hj => hstep j (by simp [hj])) hrest, hstep i (by simp) a next hnext, List.flatMap_cons,
      List.foldl_append]

omit [Preorder α] in
theorem invariant_of_foldlM (p : α → Prop) (hstep : ∀ i ∈ items, ∀ a b, f a i = .ok b → p a → p b)
    (h : items.foldlM f a = .ok b) (ha : p a) : p b := by
  induction items generalizing a with
  | nil =>
    cases h
    exact ha
  | cons i items ih =>
    rw [List.foldlM_cons] at h
    obtain ⟨next, hnext, hrest⟩ := bind_eq_ok.mp h
    exact ih (fun j hj => hstep j (by simp [hj])) hrest (hstep i (by simp) a next hnext ha)

omit [Preorder α] in
theorem related_of_foldlM {β : Type u} {g : β → ι → Except ε β} {c d : β} (R : α → β → Prop)
    (hstep : ∀ i ∈ items, ∀ a b c d, f a i = .ok b → g c i = .ok d → R a c → R b d)
    (h : items.foldlM f a = .ok b) (h' : items.foldlM g c = .ok d) (hac : R a c) : R b d := by
  induction items generalizing a c with
  | nil =>
    cases h
    cases h'
    exact hac
  | cons i items ih =>
    rw [List.foldlM_cons] at h h'
    obtain ⟨next, hnext, hrest⟩ := bind_eq_ok.mp h
    obtain ⟨next', hnext', hrest'⟩ := bind_eq_ok.mp h'
    exact ih (fun j hj => hstep j (by simp [hj])) hrest hrest' (hstep i (by simp) a next c next' hnext hnext' hac)

theorem mapM_ok_mono {ε : Type*} {ι β : Type u} {f g : ι → Except ε β} {items : List ι} {results : List β}
    (h : items.mapM f = .ok results) (hle : ∀ i ∈ items, ∀ b, f i = .ok b → g i = .ok b) :
    items.mapM g = .ok results := by
  have hall := mapM_eq_ok_iff.mp h
  rw [mapM_eq_ok_iff, List.forall₂_iff_get]
  rw [List.forall₂_iff_get] at hall
  exact ⟨hall.1, fun i hi hi' => hle _ (List.get_mem _ _) _ (hall.2 i hi hi')⟩

theorem mapM_eq_error {ε : Type*} {ι β : Type u} {f : ι → Except ε β} {items : List ι} {e : ε}
    (h : ∀ i ∈ items, (∃ b, f i = .ok b) ∨ f i = .error e) (hrefused : ∃ i ∈ items, f i = .error e) :
    items.mapM f = .error e := by
  induction items with
  | nil =>
    obtain ⟨i, hi, -⟩ := hrefused
    cases hi
  | cons i items ih =>
    rw [List.forall_mem_cons] at h
    rw [List.mapM_cons]
    rcases h.1 with ⟨b, hb⟩ | hfirst
    · obtain ⟨j, hj, hlast⟩ := hrefused
      have hrest : j ∈ items := by
        rcases List.mem_cons.mp hj with rfl | hj
        · rw [hb] at hlast
          cases hlast
        · exact hj
      rw [hb, ok_bind, ih h.2 ⟨j, hrest, hlast⟩]
      rfl
    · rw [hfirst]
      rfl

theorem forM_eq_error {ε : Type*} {ι : Type*} {f : ι → Except ε Unit} {items : List ι} {e : ε}
    (h : ∀ i ∈ items, f i = .ok () ∨ f i = .error e) (hrefused : ∃ i ∈ items, f i = .error e) :
    items.forM f = .error e := by
  induction items with
  | nil =>
    obtain ⟨i, hi, -⟩ := hrefused
    cases hi
  | cons i items ih =>
    rw [List.forall_mem_cons] at h
    rw [List.exists_mem_cons_iff] at hrefused
    rw [List.forM]
    rcases h.1 with hfirst | hfirst
    · have hrest : ∃ j ∈ items, f j = .error e := by
        rcases hrefused with hlast | hrest
        · rw [hfirst] at hlast
          cases hlast
        · exact hrest
      rw [hfirst]
      exact ih h.2 hrest
    · rw [hfirst]
      rfl

end DbfAnonymizer.Lib
