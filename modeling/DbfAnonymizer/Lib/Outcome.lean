import Mathlib.Algebra.Ring.Nat
import Mathlib.Data.List.Forall2
import Mathlib.Tactic.SplitIfs

/-! Computations that return or raise: how they compose, and what a run of them preserves. -/
namespace DbfAnonymizer.Lib
universe u v
variable {ε : Type*} {α β : Type u}

@[simp] theorem ok_bind (a : α) (f : α → Except ε β) : (Except.ok a >>= f) = f a := rfl

@[simp] theorem error_bind (e : ε) (f : α → Except ε β) : (Except.error e >>= f) = .error e := rfl

@[simp] theorem pure_eq_ok (a : α) : (pure a : Except ε α) = .ok a := rfl

@[simp] theorem throw_eq_error (e : ε) : (throw e : Except ε α) = .error e := rfl

theorem bind_eq_ok {x : Except ε α} {f : α → Except ε β} {b : β} :
    x >>= f = .ok b ↔ ∃ a, x = .ok a ∧ f a = .ok b := by
  cases x with
  | error e => simp
  | ok a => simp

/-- The guard in front of a computation. -/
def refuseIf (c : Prop) [Decidable c] (e : ε) : Except ε Unit := if c then .error e else .ok ()

@[simp] theorem refuseIf_eq_ok {c : Prop} [Decidable c] {e : ε} {u : Unit} :
    refuseIf c e = .ok u ↔ ¬ c := by
  unfold refuseIf
  split_ifs with h <;> simp [h]

theorem refuseIf_bind_pos {β : Type} {c : Prop} [Decidable c] {e : ε} {f : Unit → Except ε β} (h : c) :
    (refuseIf c e >>= f) = .error e := by
  rw [refuseIf, if_pos h, error_bind]

theorem refuseIf_bind_neg {β : Type} {c : Prop} [Decidable c] {e : ε} {f : Unit → Except ε β} (h : ¬ c) :
    (refuseIf c e >>= f) = f () := by
  rw [refuseIf, if_neg h, ok_bind]

/-- The value that has to be there. -/
def required (e : ε) : Option α → Except ε α
  | some a => .ok a
  | none => .error e

@[simp] theorem required_eq_ok {e : ε} {x : Option α} {a : α} : required e x = .ok a ↔ x = some a := by
  cases x with
  | none => simp [required]
  | some b => simp [required]

/-- Whatever a computation raises satisfies `p`. -/
def RaisesOnly (p : ε → Prop) (x : Except ε α) : Prop := ∀ e, x = .error e → p e

section RaisesOnly
variable {p : ε → Prop}

theorem raisesOnly_ok (a : α) : RaisesOnly p (.ok a : Except ε α) := by
  intro e he
  cases he

theorem raisesOnly_error {e : ε} (h : p e) : RaisesOnly p (.error e : Except ε α) := by
  intro e' he
  cases he
  exact h

theorem RaisesOnly.bind {x : Except ε α} {f : α → Except ε β} (hx : RaisesOnly p x)
    (hf : ∀ a, x = .ok a → RaisesOnly p (f a)) : RaisesOnly p (x >>= f) := by
  intro e he
  cases h : x with
  | error e' =>
    rw [h, error_bind] at he
    cases he
    exact hx _ h
  | ok a =>
    rw [h, ok_bind] at he
    exact hf a h e he

theorem raisesOnly_refuseIf {c : Prop} [Decidable c] {e : ε} (h : c → p e) : RaisesOnly p (refuseIf c e) := by
  unfold refuseIf
  split_ifs with hc
  · exact raisesOnly_error (h hc)
  · exact raisesOnly_ok ()

theorem raisesOnly_mapM {ι : Type u} {f : ι → Except ε α} {items : List ι} (h : ∀ i ∈ items, RaisesOnly p (f i)) :
    RaisesOnly p (items.mapM f) := by
  induction items with
  | nil => exact raisesOnly_ok []
  | cons i items ih =>
    rw [List.mapM_cons]
    refine (h i (by simp)).bind fun a _ => ?_
    exact (ih fun j hj => h j (by simp [hj])).bind fun rest _ => raisesOnly_ok _

theorem raisesOnly_foldlM {ι : Type v} {f : α → ι → Except ε α} {items : List ι} {a : α}
    (h : ∀ a, ∀ i ∈ items, RaisesOnly p (f a i)) : RaisesOnly p (items.foldlM f a) := by
  induction items generalizing a with
  | nil => exact raisesOnly_ok a
  | cons i items ih =>
    rw [List.foldlM_cons]
    refine (h a i (by simp)).bind fun a' _ => ?_
    exact ih fun a j hj => h a j (by simp [hj])

end RaisesOnly

theorem forM_eq_ok_iff {ι : Type v} {f : ι → Except ε Unit} {items : List ι} :
    items.forM f = .ok () ↔ ∀ i ∈ items, f i = .ok () := by
  induction items with
  | nil => simp [List.forM]
  | cons i items ih =>
    rw [List.forM, bind_eq_ok]
    simp only [ih, List.forall_mem_cons]
    constructor
    · intro h
      obtain ⟨_, hi, hrest⟩ := h
      exact ⟨hi, hrest⟩
    · intro h
      exact ⟨(), h.1, h.2⟩

/-- A fact that every step carries from the items done to one item more holds after the whole fold. -/
theorem foldlM_induction {ι : Type v} {f : α → ι → Except ε α} (done : List ι) (motive : List ι → α → Prop)
    (step : ∀ done i a a', motive done a → f a i = .ok a' → motive (done ++ [i]) a') {items : List ι}
    {a a' : α} (h : motive done a) (hrun : items.foldlM f a = .ok a') :
    motive (done ++ items) a' := by
  induction items generalizing done a with
  | nil =>
    rw [List.foldlM_nil, pure_eq_ok] at hrun
    cases hrun
    simpa using h
  | cons i items ih =>
    rw [List.foldlM_cons] at hrun
    obtain ⟨b, hb, hrest⟩ := bind_eq_ok.mp hrun
    have := ih _ (step done i a b h hb) hrest
    simpa using this

theorem exists_foldlM_ok {ι : Type v} {f : α → ι → Except ε α} (items : List ι) (motive : List ι → α → Prop)
    (step : ∀ done i rest a, items = done ++ i :: rest → motive done a →
      ∃ a', f a i = .ok a' ∧ motive (done ++ [i]) a')
    {a : α} (h : motive [] a) : ∃ a', items.foldlM f a = .ok a' ∧ motive items a' := by
  have hsuffix : ∀ rest done a, items = done ++ rest → motive done a →
      ∃ a', rest.foldlM f a = .ok a' ∧ motive items a' := by
    intro rest
    induction rest with
    | nil =>
      intro done a hsplit hdone
      rw [List.append_nil] at hsplit
      exact ⟨a, rfl, hsplit ▸ hdone⟩
    | cons i rest ih =>
      intro done a hsplit hdone
      obtain ⟨b, hb, hnext⟩ := step done i rest a hsplit hdone
      rw [List.foldlM_cons, hb, ok_bind]
      exact ih (done ++ [i]) b (by simp [hsplit]) hnext
  exact hsuffix items [] a rfl h

theorem mapM_eq_ok_iff {ι : Type u} {f : ι → Except ε α} {items : List ι} {results : List α} :
    items.mapM f = .ok results ↔ List.Forall₂ (fun i a => f i = .ok a) items results := by
  induction items generalizing results with
  | nil =>
    rw [List.mapM_nil, pure_eq_ok, List.forall₂_nil_left_iff, Except.ok.injEq, eq_comm]
  | cons i items ih =>
    rw [List.mapM_cons, List.forall₂_cons_left_iff]
    constructor
    · intro h
      obtain ⟨a, ha, h⟩ := bind_eq_ok.mp h
      obtain ⟨rest, hrest, h⟩ := bind_eq_ok.mp h
      rw [pure_eq_ok] at h
      cases h
      exact ⟨a, rest, ha, ih.mp hrest, rfl⟩
    · rintro ⟨a, rest, ha, hrest, rfl⟩
      simp [ha, ih.mpr hrest]

theorem exists_of_forall₂_left {ι : Type u} {R : ι → α → Prop} {items : List ι} {results : List α}
    (h : List.Forall₂ R items results) {i : ι} (hi : i ∈ items) : ∃ a ∈ results, R i a := by
  induction h with
  | nil => cases hi
  | cons hhead _ ih =>
    rcases List.mem_cons.mp hi with rfl | hi
    · exact ⟨_, by simp, hhead⟩
    · obtain ⟨a, ha, hR⟩ := ih hi
      exact ⟨a, by simp [ha], hR⟩

theorem exists_of_forall₂_right {ι : Type u} {R : ι → α → Prop} {items : List ι} {results : List α}
    (h : List.Forall₂ R items results) {a : α} (ha : a ∈ results) : ∃ i ∈ items, R i a :=
  exists_of_forall₂_left h.flip ha

theorem exists_forall₂ {ι : Type u} {R : ι → α → Prop} {results : List α} (h : ∀ a ∈ results, ∃ i, R i a) :
    ∃ items, List.Forall₂ R items results := by
  induction results with
  | nil => exact ⟨[], .nil⟩
  | cons a results ih =>
    obtain ⟨i, hi⟩ := h a List.mem_cons_self
    obtain ⟨items, hitems⟩ := ih fun b hb => h b (List.mem_cons_of_mem _ hb)
    exact ⟨i :: items, .cons hi hitems⟩

theorem forall_iff_of_forall₂ {ι : Type u} {R : ι → α → Prop} {p : ι → Prop} {q : α → Prop} {items : List ι}
    {results : List α} (h : List.Forall₂ R items results) (hR : ∀ i a, R i a → (p i ↔ q a)) :
    (∀ i ∈ items, p i) ↔ ∀ a ∈ results, q a := by
  induction h with
  | nil => simp
  | cons hhead _ ih => rw [List.forall_mem_cons, List.forall_mem_cons, hR _ _ hhead, ih]

theorem forall_zip_iff_of_forall₂ {ι : Type u} {R S : ι → α → Prop} {p : ι → Prop} {items : List ι} {results : List α}
    (h : List.Forall₂ R items results) (hR : ∀ i a, R i a → (S i a ↔ p i)) :
    (∀ q ∈ items.zip results, S q.1 q.2) ↔ ∀ i ∈ items, p i := by
  induction h with
  | nil => simp
  | cons hhead _ ih => rw [List.zip_cons_cons, List.forall_mem_cons, List.forall_mem_cons, hR _ _ hhead, ih]

theorem pairwise_of_forall₂ {ι : Type u} {R : ι → α → Prop} {S : ι → ι → Prop} {T : α → α → Prop} {items : List ι}
    {results : List α} (h : List.Forall₂ R items results) (hS : ∀ i a j b, R i a → R j b → T a b → S i j)
    (hp : results.Pairwise T) : items.Pairwise S := by
  induction h with
  | nil => exact .nil
  | cons hhead hrest ih =>
    obtain ⟨hfirst, hothers⟩ := List.pairwise_cons.mp hp
    refine .cons (fun j hj => ?_) (ih hothers)
    obtain ⟨b, hb, hR⟩ := exists_of_forall₂_left hrest hj
    exact hS _ _ _ _ hhead hR (hfirst b hb)

theorem map_eq_iff_of_forall₂ {β : Type*} {ι : Type u} {R : ι → α → Prop} {f : ι → β} {g : α → β} {p : ι → Prop}
    {items : List ι} {results : List α} (h : List.Forall₂ R items results) (hR : ∀ i a, R i a → (g a = f i ↔ p i)) :
    results.map g = items.map f ↔ ∀ i ∈ items, p i := by
  induction h with
  | nil => simp
  | cons hhead _ ih => rw [List.map_cons, List.map_cons, List.cons.injEq, List.forall_mem_cons, hR _ _ hhead, ih]

theorem sum_le_of_forall₂ {ι : Type u} {R : ι → α → Prop} {f : ι → Nat} {g : α → Nat} {items : List ι}
    {results : List α} (h : List.Forall₂ R items results) (hle : ∀ i a, R i a → g a ≤ f i) :
    (results.map g).sum ≤ (items.map f).sum := by
  induction h with
  | nil => exact Nat.le_refl _
  | cons hhead _ ih =>
    have hfirst := hle _ _ hhead
    simp only [List.map_cons, List.sum_cons]
    omega

/-- Where no item grows and the sums agree, no item shrinks. -/
theorem forall₂_eq_of_sum_eq {ι : Type u} {R : ι → α → Prop} {f : ι → Nat} {g : α → Nat} {items : List ι}
    {results : List α} (h : List.Forall₂ R items results) (hle : ∀ i a, R i a → g a ≤ f i)
    (hsum : (results.map g).sum = (items.map f).sum) : List.Forall₂ (fun i a => R i a ∧ g a = f i) items results := by
  induction h with
  | nil => exact .nil
  | cons hhead hrest ih =>
    have hfirst := hle _ _ hhead
    have hothers := sum_le_of_forall₂ hrest hle
    simp only [List.map_cons, List.sum_cons] at hsum
    refine .cons ⟨hhead, ?_⟩ (ih ?_)
    · omega
    · omega

theorem exists_of_mapM_ok {ι : Type u} {f : ι → Except ε α} {items : List ι} {results : List α}
    (h : items.mapM f = .ok results) {i : ι} (hi : i ∈ items) : ∃ a ∈ results, f i = .ok a :=
  exists_of_forall₂_left (mapM_eq_ok_iff.mp h) hi

theorem exists_of_mem_mapM_ok {ι : Type u} {f : ι → Except ε α} {items : List ι} {results : List α}
    (h : items.mapM f = .ok results) {a : α} (ha : a ∈ results) : ∃ i ∈ items, f i = .ok a :=
  exists_of_forall₂_right (mapM_eq_ok_iff.mp h) ha

theorem exists_mapM_ok {ι : Type u} {f : ι → Except ε α} {items : List ι} (h : ∀ i ∈ items, ∃ a, f i = .ok a) :
    ∃ results, items.mapM f = .ok results := by
  induction items with
  | nil => exact ⟨[], rfl⟩
  | cons i items ih =>
    obtain ⟨a, ha⟩ := h i (List.mem_cons_self ..)
    obtain ⟨results, hresults⟩ := ih fun j hj => h j (List.mem_cons_of_mem i hj)
    refine ⟨a :: results, ?_⟩
    rw [List.mapM_cons, ha, ok_bind, hresults]
    rfl

theorem mapM_ok_eq_map {ι : Type u} {f : ι → Except ε α} {g : ι → α} {items : List ι} {results : List α}
    (h : items.mapM f = .ok results) (hf : ∀ i ∈ items, ∀ a ∈ results, f i = .ok a → a = g i) :
    results = items.map g := by
  have hall := mapM_eq_ok_iff.mp h
  clear h
  induction hall with
  | nil => rfl
  | cons hhead _ ih =>
    rw [List.map_cons, hf _ (by simp) _ (by simp) hhead,
      ih fun i hi a ha => hf i (List.mem_cons_of_mem _ hi) a (List.mem_cons_of_mem _ ha)]

theorem mapM_eq_ok_map {ι : Type u} {f : ι → Except ε α} {g : ι → α} {items : List ι}
    (h : ∀ i ∈ items, f i = .ok (g i)) : items.mapM f = .ok (items.map g) := by
  rw [mapM_eq_ok_iff, List.forall₂_map_right_iff, List.forall₂_same]
  exact h

end DbfAnonymizer.Lib
