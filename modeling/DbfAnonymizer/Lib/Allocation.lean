import Mathlib

/-! Assigning items to resources of limited capacity: feasibility, saturation and alternating chains. -/
namespace DbfAnonymizer.Lib
open Finset

variable {ι ρ τ : Type*} [DecidableEq ρ] {items : Finset ι} {adj : ι → ρ → Prop} {capacity : ρ → ℕ}

/-- The number of items a partial assignment places on a resource. -/
def load (items : Finset ι) (a : ι → Option ρ) (r : ρ) : ℕ := #{i ∈ items | a i = some r}

/-- Every item can be placed on an adjacent resource within the capacities. -/
def Fits (items : Finset ι) (adj : ι → ρ → Prop) (capacity : ρ → ℕ) : Prop :=
  ∃ a : ι → Option ρ, (∀ i ∈ items, ∃ r, a i = some r ∧ adj i r) ∧ ∀ r, load items a r ≤ capacity r

theorem fits_min_iff {bound : ℕ} (h : items.card ≤ bound) :
    Fits items adj (fun r => min (capacity r) bound) ↔ Fits items adj capacity := by
  unfold Fits
  apply exists_congr
  intro a
  apply and_congr_right
  intro _
  apply forall_congr'
  intro r
  have hle : load items a r ≤ items.card := card_filter_le _ _
  exact ⟨fun hr => hr.trans (min_le_left _ _), fun hr => le_min hr (hle.trans h)⟩

theorem fits_congr {capacity' : ρ → ℕ} (h : ∀ i ∈ items, ∀ r, adj i r → capacity r = capacity' r) :
    Fits items adj capacity ↔ Fits items adj capacity' := by
  unfold Fits
  apply exists_congr
  intro a
  apply and_congr_right
  intro hadj
  apply forall_congr'
  intro r
  by_cases hr : ∃ i ∈ items, a i = some r
  · obtain ⟨i, hi, hir⟩ := hr
    obtain ⟨s, hs, his⟩ := hadj i hi
    obtain rfl := Option.some.inj (hs.symm.trans hir)
    rw [h i hi s his]
  · have hzero : load items a r = 0 := by
      rw [load, card_eq_zero, filter_eq_empty_iff]
      exact fun i hi hir => hr ⟨i, hi, hir⟩
    simp [hzero]

/-- A choice of distinct tokens from disjoint pools is a placement whose loads the pools can serve. -/
theorem exists_injOn_iff_fits [Nonempty τ] {pool : ρ → Finset τ}
    (hdisjoint : ∀ r s x, x ∈ pool r → x ∈ pool s → r = s) :
    (∃ f : ι → τ, Set.InjOn f items ∧ ∀ i ∈ items, ∃ r, adj i r ∧ f i ∈ pool r) ↔
      Fits items adj fun r => #(pool r) := by
  classical
  constructor
  · rintro ⟨f, hf, hpool⟩
    refine ⟨fun i => if h : i ∈ items then some (hpool i h).choose else none, ?_, ?_⟩
    · intro i hi
      exact ⟨_, dif_pos hi, (hpool i hi).choose_spec.1⟩
    · intro r
      apply card_le_card_of_injOn f
      · intro i hi
        obtain ⟨hi, hr⟩ := mem_filter.mp (mem_coe.mp hi)
        simp only [dif_pos hi] at hr
        rw [← Option.some.inj hr]
        exact (hpool i hi).choose_spec.2
      · exact hf.mono fun i hi => (mem_filter.mp (mem_coe.mp hi)).1
  · rintro ⟨a, hadj, hload⟩
    -- each resource serves its own items injectively
    have hserve : ∀ r, ∃ f : ι → τ, Set.InjOn f {i | i ∈ items ∧ a i = some r} ∧
        ∀ i ∈ items, a i = some r → f i ∈ pool r := by
      intro r
      obtain ⟨e⟩ := Function.Embedding.nonempty_of_card_le
        (show Fintype.card {i // i ∈ items.filter (a · = some r)} ≤ Fintype.card {x // x ∈ pool r} by
          simpa [load] using hload r)
      refine ⟨fun i => if h : i ∈ items.filter (a · = some r) then e ⟨i, h⟩ else Classical.arbitrary τ, ?_, ?_⟩
      · intro i hi j hj hij
        have hi' : i ∈ items.filter (a · = some r) := mem_filter.mpr hi
        have hj' : j ∈ items.filter (a · = some r) := mem_filter.mpr hj
        simp only [dif_pos hi', dif_pos hj'] at hij
        exact congrArg Subtype.val (e.injective (Subtype.ext hij))
      · intro i hi hr
        have hi' : i ∈ items.filter (a · = some r) := mem_filter.mpr ⟨hi, hr⟩
        simp only [dif_pos hi']
        exact (e _).2
    choose serve hinj hserve using hserve
    refine ⟨fun i => match a i with | some r => serve r i | none => Classical.arbitrary τ, ?_, ?_⟩
    · intro i hi j hj hij
      obtain ⟨r, hr, -⟩ := hadj i hi
      obtain ⟨s, hs, -⟩ := hadj j hj
      simp only [hr, hs] at hij
      have hrs : r = s := hdisjoint r s _ (hserve r i hi hr) (hij ▸ hserve s j hj hs)
      subst hrs
      exact hinj r ⟨hi, hr⟩ ⟨hj, hs⟩ hij
    · intro i hi
      obtain ⟨r, hr, hir⟩ := hadj i hi
      refine ⟨r, hir, ?_⟩
      simp only [hr]
      exact hserve r i hi hr

/-- While an item placed on a resource is unserved, the pool of that resource has a token that no one was served. -/
theorem exists_unserved_token {pool : ρ → Finset τ} (hdisjoint : ∀ r s x, x ∈ pool r → x ∈ pool s → r = s)
    {a : ι → Option ρ} {r : ρ} (hload : load items a r ≤ #(pool r)) {served : Finset ι} (hserved : served ⊆ items)
    {f : ι → τ} (hf : ∀ j ∈ served, ∃ s, a j = some s ∧ f j ∈ pool s) {i : ι} (hi : i ∈ items) (hnot : i ∉ served)
    (hr : a i = some r) : ∃ x ∈ pool r, ∀ j ∈ served, f j ≠ x := by
  classical
  by_contra hall
  push Not at hall
  have hsub : pool r ⊆ ({j ∈ served | a j = some r} : Finset ι).image f := by
    intro x hx
    obtain ⟨j, hj, rfl⟩ := hall x hx
    obtain ⟨s, hs, hpool⟩ := hf j hj
    rw [hdisjoint s r _ hpool hx] at hs
    exact mem_image_of_mem f (mem_filter.mpr ⟨hj, hs⟩)
  have hlt : #{j ∈ served | a j = some r} < load items a r := by
    apply card_lt_card
    rw [ssubset_iff_of_subset (filter_subset_filter _ hserved)]
    exact ⟨i, mem_filter.mpr ⟨hi, hr⟩, fun hmem => hnot (mem_filter.mp hmem).1⟩
  have hle := (card_le_card hsub).trans card_image_le
  omega

theorem exists_injOn_keys_iff {α β : Type*} [DecidableEq α] [Nonempty τ] {rows : List (α × β)}
    (hnodup : (rows.map Prod.fst).Nodup) (allowed : α × β → τ → Prop) :
    (∃ f : α → τ, Set.InjOn f {a | a ∈ rows.map Prod.fst} ∧ ∀ row ∈ rows, allowed row (f row.1)) ↔
      ∃ f : ℕ → τ, Set.InjOn f (range rows.length) ∧ ∀ i row, rows[i]? = some row → allowed row (f i) := by
  have hsame : ∀ (i j : ℕ) (a b : α × β), rows[i]? = some a → rows[j]? = some b → a.1 = b.1 → i = j := by
    intro i j a b ha hb hab
    have hkeys : (rows.map Prod.fst)[i]? = (rows.map Prod.fst)[j]? := by
      rw [List.getElem?_map, List.getElem?_map, ha, hb, Option.map_some, Option.map_some, hab]
    obtain ⟨hlt, -⟩ := List.getElem?_eq_some_iff.mp ha
    exact (List.getElem?_inj (by simpa using hlt) hnodup).mp hkeys
  constructor
  · rintro ⟨f, hinj, hf⟩
    refine ⟨fun i => ((rows[i]?).map fun row => f row.1).getD (Classical.arbitrary τ), ?_, ?_⟩
    · intro i hi j hj hij
      have ha := List.getElem?_eq_getElem (mem_range.mp (mem_coe.mp hi))
      have hb := List.getElem?_eq_getElem (mem_range.mp (mem_coe.mp hj))
      simp only [ha, hb, Option.map_some, Option.getD_some] at hij
      exact hsame i j _ _ ha hb (hinj (List.mem_map_of_mem (List.mem_of_getElem? ha))
        (List.mem_map_of_mem (List.mem_of_getElem? hb)) hij)
    · intro i row hrow
      simp only [hrow, Option.map_some, Option.getD_some]
      exact hf row (List.mem_of_getElem? hrow)
  · rintro ⟨f, hinj, hf⟩
    have hindex : ∀ row ∈ rows, rows[(rows.map Prod.fst).idxOf row.1]? = some row := by
      intro row hrow
      obtain ⟨i, hi⟩ := List.getElem?_of_mem hrow
      obtain ⟨hlt, hrow'⟩ := List.getElem?_eq_some_iff.mp hi
      have hlt' : i < (rows.map Prod.fst).length := by simpa using hlt
      have hkey : (rows.map Prod.fst)[i] = row.1 := by simp [hrow']
      rw [← hkey, hnodup.idxOf_getElem]
      exact hi
    refine ⟨fun a => f ((rows.map Prod.fst).idxOf a), ?_, fun row hrow => hf _ row (hindex row hrow)⟩
    intro a ha b hb hab
    obtain ⟨p, hp, rfl⟩ := List.mem_map.mp ha
    obtain ⟨q, hq, rfl⟩ := List.mem_map.mp hb
    obtain ⟨hlt, -⟩ := List.getElem?_eq_some_iff.mp (hindex p hp)
    obtain ⟨hlt', -⟩ := List.getElem?_eq_some_iff.mp (hindex q hq)
    have hpq := hinj (mem_coe.mpr (mem_range.mpr hlt)) (mem_coe.mpr (mem_range.mpr hlt')) hab
    have hq' := hindex q hq
    rw [← hpq, hindex p hp] at hq'
    rw [Option.some.inj hq']

/-- A closed set of items whose resources are all full, one of its items unplaced, refutes feasibility. -/
theorem not_fits_of_saturated {a : ι → Option ρ} (closed : Finset ι) (hitems : closed ⊆ items) {root : ι}
    (hroot : root ∈ closed) (hunplaced : a root = none)
    (hfull : ∀ i ∈ closed, ∀ r, adj i r → capacity r = load items a r)
    (hclosed : ∀ i ∈ closed, ∀ r, adj i r → ∀ j ∈ items, a j = some r → j ∈ closed) :
    ¬ Fits items adj capacity := by
  classical
  rintro ⟨b, hadj, hload⟩
  let reached : Finset ρ := closed.biUnion fun i => (b i).toFinset
  have hreached : ∀ r ∈ reached, ∃ i ∈ closed, b i = some r ∧ adj i r := by
    intro r hr
    obtain ⟨i, hi, hir⟩ := mem_biUnion.mp hr
    obtain ⟨s, hs, his⟩ := hadj i (hitems hi)
    have hbr : b i = some r := Option.mem_toFinset.mp hir
    obtain rfl := Option.some.inj (hs.symm.trans hbr)
    exact ⟨i, hi, hs, his⟩
  have hplaced : closed.card ≤ ∑ r ∈ reached, load items b r := by
    calc closed.card ≤ ∑ r ∈ reached, #{i ∈ closed | b i = some r} := by
          rw [← card_biUnion]
          · apply card_le_card
            intro i hi
            obtain ⟨r, hr, -⟩ := hadj i (hitems hi)
            refine mem_biUnion.mpr ⟨r, mem_biUnion.mpr ⟨i, hi, Option.mem_toFinset.mpr hr⟩, ?_⟩
            exact mem_filter.mpr ⟨hi, hr⟩
          · intro r _ s _ hrs
            refine disjoint_left.mpr fun i hir his => hrs ?_
            exact Option.some.inj ((mem_filter.mp hir).2.symm.trans (mem_filter.mp his).2)
      _ ≤ ∑ r ∈ reached, load items b r :=
          sum_le_sum fun r _ => card_le_card (filter_subset_filter _ hitems)
  have hoccupied : ∑ r ∈ reached, load items a r ≤ #(closed.erase root) := by
    unfold load
    rw [← card_biUnion]
    · apply card_le_card
      intro j hj
      obtain ⟨r, hr, hj⟩ := mem_biUnion.mp hj
      obtain ⟨hj, hjr⟩ := mem_filter.mp hj
      obtain ⟨i, hi, -, hir⟩ := hreached r hr
      refine mem_erase.mpr ⟨?_, hclosed i hi r hir j hj hjr⟩
      rintro rfl
      rw [hunplaced] at hjr
      cases hjr
    · intro r _ s _ hrs
      refine disjoint_left.mpr fun i hir his => hrs ?_
      exact Option.some.inj ((mem_filter.mp hir).2.symm.trans (mem_filter.mp his).2)
  have hsum : ∑ r ∈ reached, load items b r ≤ ∑ r ∈ reached, load items a r := by
    apply sum_le_sum
    intro r hr
    obtain ⟨i, hi, -, hir⟩ := hreached r hr
    exact hfull i hi r hir ▸ hload r
  have hlt := card_erase_lt_of_mem hroot
  omega

section Chains
variable [DecidableEq ι]

theorem load_update {a : ι → Option ρ} {i : ι} (hi : i ∈ items) (r : ρ) (x : ρ) :
    load items (Function.update a i (some r)) x + (if a i = some x then 1 else 0) =
      load items a x + if r = x then 1 else 0 := by
  have hsplit : ∀ b : ι → Option ρ, load items b x =
      #{j ∈ items.erase i | b j = some x} + if b i = some x then 1 else 0 := by
    intro b
    unfold load
    rw [← insert_erase hi, filter_insert, erase_insert_eq_erase, erase_idem]
    split_ifs with h
    · rw [card_insert_of_notMem]
      simp
    · rfl
  have hrest : #{j ∈ items.erase i | Function.update a i (some r) j = some x} =
      #{j ∈ items.erase i | a j = some x} := by
    congr 1
    apply filter_congr
    intro j hj
    rw [Function.update_of_ne (ne_of_mem_erase hj)]
  rw [hsplit, hsplit a, hrest, Function.update_self]
  simp only [Option.some.injEq]
  omega

/-- A chain from its deepest item down to an unplaced root: every item above the root stands on the
resource it is to vacate for the item below it. -/
inductive Linked (adj : ι → ρ → Prop) (a : ι → Option ρ) : List (ι × Option ρ) → Prop
  | root {i : ι} (h : a i = none) : Linked adj a [(i, none)]
  | push {i j : ι} {r : ρ} {v : Option ρ} {below : List (ι × Option ρ)} (h : Linked adj a ((j, v) :: below))
      (hi : a i = some r) (hadj : adj j r) : Linked adj a ((i, some r) :: (j, v) :: below)

omit [DecidableEq ρ] [DecidableEq ι] in
theorem Linked.congr {a b : ι → Option ρ} {chain : List (ι × Option ρ)} (h : Linked adj a chain)
    (hab : ∀ i ∈ chain.map Prod.fst, a i = b i) : Linked adj b chain := by
  induction h with
  | root hi => exact .root ((hab _ (by simp)).symm.trans hi)
  | push _ hi hadj ih =>
    refine .push (ih fun k hk => hab k (List.mem_cons_of_mem _ hk)) ?_ hadj
    exact (hab _ (by simp)).symm.trans hi

omit [DecidableEq ρ] [DecidableEq ι] in
theorem Linked.tail {a : ι → Option ρ} {p q : ι × Option ρ} {below : List (ι × Option ρ)}
    (h : Linked adj a (p :: q :: below)) : Linked adj a (q :: below) := by
  cases h with
  | push h _ _ => exact h

omit [DecidableEq ρ] [DecidableEq ι] in
theorem Linked.exists_root {a : ι → Option ρ} {chain : List (ι × Option ρ)} (h : Linked adj a chain) :
    ∃ i ∈ chain.map Prod.fst, a i = none := by
  induction h with
  | root hi => exact ⟨_, by simp, hi⟩
  | push _ _ _ ih =>
    obtain ⟨i, hi, hnone⟩ := ih
    exact ⟨i, List.mem_cons_of_mem _ hi, hnone⟩

/-- Every item of a chain takes what the item above it gives up, the deepest one what was found. -/
def reassign (a : ι → Option ρ) : List (ι × Option ρ) → Option ρ → ι → Option ρ
  | [], _ => a
  | (i, vacated) :: below, carrying => reassign (Function.update a i carrying) below vacated

omit [DecidableEq ρ] in
theorem reassign_of_notMem {a : ι → Option ρ} {chain : List (ι × Option ρ)} {carrying : Option ρ} {i : ι}
    (h : i ∉ chain.map Prod.fst) : reassign a chain carrying i = a i := by
  induction chain generalizing a carrying with
  | nil => rfl
  | cons p below ih =>
    obtain ⟨hne, hbelow⟩ := not_or.mp (List.mem_cons.not.mp h)
    rw [reassign, ih hbelow, Function.update_of_ne hne]

omit [DecidableEq ρ] in
theorem reassign_update {a : ι → Option ρ} {chain : List (ι × Option ρ)} {carrying : Option ρ} {i : ι}
    (h : i ∉ chain.map Prod.fst) (v : Option ρ) :
    reassign (Function.update a i v) chain carrying = Function.update (reassign a chain carrying) i v := by
  induction chain generalizing a carrying with
  | nil => rfl
  | cons p below ih =>
    obtain ⟨hne, hbelow⟩ := not_or.mp (List.mem_cons.not.mp h)
    rw [reassign, reassign, Function.update_comm hne, ih hbelow]

/-- Reassigning along a chain places the root and moves one unit of load onto the found resource only. -/
theorem Linked.load_reassign {a : ι → Option ρ} {chain : List (ι × Option ρ)} (h : Linked adj a chain)
    (hnodup : (chain.map Prod.fst).Nodup) (hitems : ∀ i ∈ chain.map Prod.fst, i ∈ items) (r x : ρ) :
    load items (reassign a chain (some r)) x = load items a x + if r = x then 1 else 0 := by
  induction h generalizing r with
  | @root i hi =>
    have hload := load_update (a := a) (hitems i (by simp)) r x
    rw [hi] at hload
    simpa [reassign] using hload
  | @push i j s v below _ hi _ ih =>
    obtain ⟨hnot, hnodup⟩ := List.nodup_cons.mp hnodup
    have hbelow := ih hnodup (fun k hk => hitems k (List.mem_cons_of_mem _ hk)) s
    have hload := load_update (a := reassign a ((j, v) :: below) (some s)) (hitems i (by simp)) r x
    rw [reassign_of_notMem hnot, hi, hbelow] at hload
    rw [reassign, reassign_update hnot]
    simp only [Option.some.injEq] at hload ⊢
    omega

omit [DecidableEq ρ] in
theorem Linked.adj_reassign {a : ι → Option ρ} {i : ι} {v : Option ρ} {below : List (ι × Option ρ)}
    (h : Linked adj a ((i, v) :: below)) (hnodup : (((i, v) :: below).map Prod.fst).Nodup) {r : ρ} (hr : adj i r) :
    ∀ k ∈ ((i, v) :: below).map Prod.fst, ∃ s, reassign a ((i, v) :: below) (some r) k = some s ∧ adj k s := by
  induction below generalizing i v r with
  | nil =>
    intro k hk
    obtain rfl := List.mem_singleton.mp hk
    exact ⟨r, by simp [reassign], hr⟩
  | cons p below ih =>
    cases h with
    | @push _ j s w _ hbelow hi hadj =>
      obtain ⟨hnot, hnodup⟩ := List.nodup_cons.mp hnodup
      intro k hk
      rw [reassign, reassign_update hnot]
      by_cases hki : k = i
      · subst hki
        exact ⟨r, Function.update_self _ _ _, hr⟩
      · rw [Function.update_of_ne hki]
        exact ih hbelow hnodup hadj k ((List.mem_cons.mp hk).resolve_left hki)

end Chains
theorem le_foldl_max (widths : List ℕ) (start : ℕ) :
    start ≤ widths.foldl max start ∧ ∀ w ∈ widths, w ≤ widths.foldl max start := by
  induction widths generalizing start with
  | nil => simp
  | cons v widths ih =>
    obtain ⟨hstart, hall⟩ := ih (max start v)
    rw [List.foldl_cons]
    refine ⟨(le_max_left _ _).trans hstart, ?_⟩
    intro w hw
    rcases List.mem_cons.mp hw with rfl | hw
    · exact (le_max_right _ _).trans hstart
    · exact hall w hw

end DbfAnonymizer.Lib
