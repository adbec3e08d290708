import DbfAnonymizer.Lib.Outcome
import DbfAnonymizer.Preflight.TextCapacity

/-! What the exact scan has counted after any prefix of the observations. -/
namespace DbfAnonymizer.Preflight
open Transforms Lib

/-- The number of distinct originals observed under a width of at most `w`. -/
def countWithin (observations : List (Text × ℕ)) (w : ℕ) : ℕ :=
  ((observations.filter (·.2 ≤ w)).map Prod.fst).toFinset.card

theorem countWithin_congr {a b : List (Text × ℕ)} {w : ℕ} (h : ∀ p : Text × ℕ, p.2 ≤ w → (p ∈ a ↔ p ∈ b)) :
    countWithin a w = countWithin b w := by
  unfold countWithin
  congr 1
  ext value
  simp only [List.mem_toFinset, List.mem_map, List.mem_filter, decide_eq_true_eq]
  constructor
  · rintro ⟨p, ⟨hp, hw⟩, rfl⟩
    exact ⟨p, ⟨(h p hw).mp hp, hw⟩, rfl⟩
  · rintro ⟨p, ⟨hp, hw⟩, rfl⟩
    exact ⟨p, ⟨(h p hw).mpr hp, hw⟩, rfl⟩

theorem countWithin_mono {a b : List (Text × ℕ)} {v w : ℕ} (h : a ⊆ b) (hvw : v ≤ w) :
    countWithin a v ≤ countWithin b w := by
  apply Finset.card_le_card
  intro value
  simp only [List.mem_toFinset, List.mem_map, List.mem_filter, decide_eq_true_eq]
  rintro ⟨p, ⟨hp, hv⟩, rfl⟩
  exact ⟨p, ⟨h hp, hv.trans hvw⟩, rfl⟩

/-- One more observation counts where its original was not yet seen under that width. -/
theorem countWithin_append_singleton (done : List (Text × ℕ)) (value : Text) (length w : ℕ) :
    countWithin (done ++ [(value, length)]) w =
      countWithin done w + if length ≤ w ∧ ¬ ∃ l ≤ w, (value, l) ∈ done then 1 else 0 := by
  unfold countWithin
  have hmem : value ∈ ((done.filter (·.2 ≤ w)).map Prod.fst).toFinset ↔ ∃ l ≤ w, (value, l) ∈ done := by
    simp only [List.mem_toFinset, List.mem_map, List.mem_filter, decide_eq_true_eq]
    constructor
    · rintro ⟨p, ⟨hp, hw⟩, rfl⟩
      exact ⟨p.2, hw, hp⟩
    · rintro ⟨l, hw, hp⟩
      exact ⟨_, ⟨hp, hw⟩, rfl⟩
  rw [List.filter_append, List.map_append, List.toFinset_append]
  by_cases hw : length ≤ w
  · simp only [List.filter_cons, hw, decide_true, if_true, List.filter_nil, List.map_cons, List.map_nil,
      List.toFinset_cons, List.toFinset_nil, true_and]
    rw [Finset.union_insert, Finset.union_empty]
    split_ifs with hseen
    · rw [Finset.insert_eq_of_mem (hmem.mpr hseen), Nat.add_zero]
    · exact Finset.card_insert_of_notMem (hmem.not.mpr hseen)
  · simp [hw]

/-- Whether an original whose strictest width becomes `strictest` newly falls under `width`. -/
def NewlyWithin (previous : Option ℕ) (strictest width : ℕ) : Prop :=
  strictest ≤ width ∧ previous.all (width < ·) = true

instance (previous : Option ℕ) (strictest width : ℕ) : Decidable (NewlyWithin previous strictest width) := by
  unfold NewlyWithin
  infer_instance

theorem noteStrictest_spec (base : ℕ) (previous : Option ℕ) (strictest : ℕ) {tight : List ℕ}
    (hnodup : tight.Nodup) (counts : ℕ → ℕ) :
    (∃ counts', noteStrictest base previous strictest tight counts = (counts', false) ∧
      (∀ w, counts' w = counts w + if w ∈ tight ∧ NewlyWithin previous strictest w then 1 else 0) ∧
      ∀ w ∈ tight, NewlyWithin previous strictest w → counts' w ≤ tokenSpace w base) ∨
    ∃ counts', noteStrictest base previous strictest tight counts = (counts', true) ∧
      ∃ w ∈ tight, NewlyWithin previous strictest w ∧ tokenSpace w base < counts w + 1 := by
  induction tight generalizing counts with
  | nil => exact Or.inl ⟨counts, rfl, by simp, by simp⟩
  | cons width rest ih =>
    obtain ⟨hwidth, hrest⟩ := List.nodup_cons.mp hnodup
    by_cases hnew : NewlyWithin previous strictest width
    · have hunfold : noteStrictest base previous strictest (width :: rest) counts =
          if tokenSpaceAtLeast width base (counts width + 1 : ℕ) then
            noteStrictest base previous strictest rest (Function.update counts width (counts width + 1))
          else (Function.update counts width (counts width + 1), true) := by
        rw [noteStrictest, if_pos (show strictest ≤ width ∧ previous.all (width < ·) = true from hnew)]
        simp only [Function.update_self]
      have hother : ∀ w ∈ rest, Function.update counts width (counts width + 1) w = counts w := by
        intro w hw
        apply Function.update_of_ne
        rintro rfl
        exact hwidth hw
      rw [hunfold]
      by_cases hfits : tokenSpaceAtLeast width base (counts width + 1 : ℕ) = true
      · rw [if_pos hfits]
        rw [tokenSpaceAtLeast_iff] at hfits
        rcases ih hrest (Function.update counts width (counts width + 1)) with
          ⟨counts', heq, hcounts, hle⟩ | ⟨counts', heq, w, hw, hn, hlt⟩
        · refine Or.inl ⟨counts', heq, ?_, ?_⟩
          · intro w
            rw [hcounts w]
            by_cases hww : w = width
            · subst hww
              simp [hwidth, hnew]
            · simp [hww, Function.update_of_ne]
          · intro w hw hn
            rcases List.mem_cons.mp hw with rfl | hw
            · rw [hcounts w, Function.update_self]
              simp only [hwidth, false_and, if_false, Nat.add_zero]
              omega
            · exact hle w hw hn
        · refine Or.inr ⟨counts', heq, w, List.mem_cons_of_mem _ hw, hn, ?_⟩
          rwa [hother w hw] at hlt
      · rw [if_neg hfits]
        rw [tokenSpaceAtLeast_iff] at hfits
        exact Or.inr ⟨_, rfl, width, List.mem_cons_self, hnew, by omega⟩
    · have hunfold : noteStrictest base previous strictest (width :: rest) counts =
          noteStrictest base previous strictest rest counts := by
        rw [noteStrictest, if_neg (show ¬ (strictest ≤ width ∧ previous.all (width < ·) = true) from hnew)]
      rw [hunfold]
      rcases ih hrest counts with ⟨counts', heq, hcounts, hle⟩ | ⟨counts', heq, w, hw, hn, hlt⟩
      · refine Or.inl ⟨counts', heq, ?_, ?_⟩
        · intro w
          rw [hcounts w]
          by_cases hww : w = width
          · subst hww
            simp [hwidth, hnew]
          · simp [hww]
        · intro w hw hn
          rcases List.mem_cons.mp hw with rfl | hw
          · exact absurd hn hnew
          · exact hle w hw hn
      · exact Or.inr ⟨counts', heq, w, List.mem_cons_of_mem _ hw, hn, hlt⟩

/-- What the scan knows after the observations `done`. -/
structure Tracked (base : ℕ) (tight : List ℕ) (done : List (Text × ℕ)) (st : CapacityState) : Prop where
  keys_iff : ∀ value, value ∈ st.tracker.keys ↔ value ∈ done.map Prod.fst
  strictest_iff : ∀ value w, (∃ l ≤ w, (value, l) ∈ done) ↔ ∃ s ≤ w, st.tracker.lookup value = some s
  counts_eq : ∀ w ∈ tight, st.counts w = countWithin done w
  fits : ∀ w ∈ tight, countWithin done w ≤ tokenSpace w base

section Scan
variable {base : ℕ} {tight : List ℕ} {done : List (Text × ℕ)} {st : CapacityState}

theorem tracked_nil : Tracked base tight [] ⟨.empty, fun _ => 0⟩ where
  keys_iff := by simp
  strictest_iff := by simp
  counts_eq := by simp [countWithin]
  fits := by simp [countWithin]

theorem Tracked.length_tracker (h : Tracked base tight done st) :
    st.tracker.rows.length = (done.map Prod.fst).toFinset.card := by
  rw [← List.length_map (f := Prod.fst), ← List.toFinset_card_of_nodup st.tracker.keys_nodup]
  congr 1
  ext value
  rw [List.mem_toFinset, List.mem_toFinset]
  exact h.keys_iff value

theorem Tracked.newlyWithin_iff (h : Tracked base tight done st) {value : Text} {length w : ℕ} :
    NewlyWithin (st.tracker.lookup value) length w ↔ length ≤ w ∧ ¬ ∃ l ≤ w, (value, l) ∈ done := by
  rw [h.strictest_iff value w, NewlyWithin]
  cases st.tracker.lookup value <;> simp

theorem Tracked.countWithin_step (h : Tracked base tight done st) (value : Text) (length w : ℕ) :
    countWithin (done ++ [(value, length)]) w = countWithin done w +
      if NewlyWithin (st.tracker.lookup value) length w then 1 else 0 := by
  rw [countWithin_append_singleton]
  congr 1
  exact if_congr h.newlyWithin_iff.symm rfl rfl

theorem Tracked.countWithin_of_le (h : Tracked base tight done st) {value : Text} {length s : ℕ}
    (hs : st.tracker.lookup value = some s) (hle : s ≤ length) (w : ℕ) :
    countWithin (done ++ [(value, length)]) w = countWithin done w := by
  rw [h.countWithin_step, hs]
  have hnot : ¬ NewlyWithin (some s) length w := by
    simp only [NewlyWithin, Option.all_some, decide_eq_true_eq]
    omega
  simp [hnot]

theorem Tracked.strictest_step (h : Tracked base tight done st) {value : Text} {length : ℕ}
    (hlt : (st.tracker.lookup value).all (length < ·) = true) (counts : ℕ → ℕ) (x : Text) (w : ℕ) :
    (∃ l ≤ w, (x, l) ∈ done ++ [(value, length)]) ↔
      ∃ s ≤ w, (CapacityState.mk (st.tracker.upsert value
        (reducedStrictest (st.tracker.lookup value) length)) counts).tracker.lookup x = some s := by
  have hstrictest : reducedStrictest (st.tracker.lookup value) length = length := by
    cases hl : st.tracker.lookup value with
    | none => rfl
    | some s =>
      rw [hl] at hlt
      simp only [Option.all_some, decide_eq_true_eq] at hlt
      exact min_eq_right hlt.le
  simp only [hstrictest, KeyedTable.lookup_upsert, List.mem_append, List.mem_singleton, Prod.mk.injEq]
  by_cases hx : x = value
  · subst hx
    simp only [if_true, true_and, Option.some.injEq]
    constructor
    · rintro ⟨l, hl, hmem | rfl⟩
      · obtain ⟨s, hs, hlook⟩ := (h.strictest_iff x w).mp ⟨l, hl, hmem⟩
        rw [hlook] at hlt
        simp only [Option.all_some, decide_eq_true_eq] at hlt
        exact ⟨length, by omega, rfl⟩
      · exact ⟨l, hl, rfl⟩
    · rintro ⟨s, hs, rfl⟩
      exact ⟨length, hs, Or.inr rfl⟩
  · simp only [hx, if_false, false_and, or_false]
    exact h.strictest_iff x w

theorem Tracked.step (h : Tracked base tight done st) (hnodup : tight.Nodup) (value : Text) (length : ℕ)
    (hroom : st.tracker.rows.length < maxExactValues) :
    (∃ st', observeOriginal base tight st (value, length) = .ok st' ∧
      Tracked base tight (done ++ [(value, length)]) st') ∨
    (observeOriginal base tight st (value, length) = .error .insufficient ∧
      ∃ w ∈ tight, tokenSpace w base < countWithin (done ++ [(value, length)]) w) := by
  have hkeys : ∀ x, x ∈ (st.tracker.upsert value
      (reducedStrictest (st.tracker.lookup value) length)).keys ↔ x ∈ (done ++ [(value, length)]).map Prod.fst := by
    intro x
    rw [KeyedTable.mem_keys_upsert, h.keys_iff, List.map_append, List.mem_append]
    simp [or_comm]
  -- the part that both tracking branches share
  have hnote (hlt : (st.tracker.lookup value).all (length < ·) = true) :
      (∃ counts, noteStrictest base (st.tracker.lookup value) length tight st.counts = (counts, false) ∧
        Tracked base tight (done ++ [(value, length)])
          ⟨st.tracker.upsert value (reducedStrictest (st.tracker.lookup value) length), counts⟩) ∨
      ∃ counts, noteStrictest base (st.tracker.lookup value) length tight st.counts = (counts, true) ∧
        ∃ w ∈ tight, tokenSpace w base < countWithin (done ++ [(value, length)]) w := by
    rcases noteStrictest_spec base (st.tracker.lookup value) length hnodup st.counts with
      ⟨counts, heq, hcounts, hle⟩ | ⟨counts, heq, w, hw, hn, hover⟩
    · have hcounts' : ∀ w ∈ tight, counts w = countWithin (done ++ [(value, length)]) w := by
        intro w hw
        rw [hcounts w, h.countWithin_step value length w, h.counts_eq w hw]
        simp [hw]
      refine Or.inl ⟨counts, heq, hkeys, h.strictest_step hlt counts, hcounts', ?_⟩
      intro w hw
      by_cases hn : NewlyWithin (st.tracker.lookup value) length w
      · rw [← hcounts' w hw]
        exact hle w hw hn
      · rw [h.countWithin_step value length w, if_neg hn, Nat.add_zero]
        exact h.fits w hw
    · refine Or.inr ⟨counts, heq, w, hw, ?_⟩
      rw [h.countWithin_step value length w, if_pos hn, ← h.counts_eq w hw]
      exact hover
  unfold observeOriginal
  cases hl : st.tracker.lookup value with
  | none =>
    rw [hl] at hnote
    simp only [hl, Nat.not_le.mpr hroom, if_false]
    rcases hnote rfl with ⟨counts, heq, htracked⟩ | ⟨counts, heq, hover⟩
    · exact Or.inl ⟨_, by rw [heq]; rfl, htracked⟩
    · exact Or.inr ⟨by rw [heq]; rfl, hover⟩
  | some s =>
    rw [hl] at hnote
    simp only [hl]
    by_cases hlt : length < s
    · rw [if_pos hlt]
      rcases hnote (by simpa using hlt) with ⟨counts, heq, htracked⟩ | ⟨counts, heq, hover⟩
      · exact Or.inl ⟨_, by rw [heq]; rfl, htracked⟩
      · exact Or.inr ⟨by rw [heq]; rfl, hover⟩
    · rw [if_neg hlt]
      refine Or.inl ⟨st, rfl, ?_, ?_, ?_, ?_⟩
      · intro x
        rw [h.keys_iff, List.map_append, List.mem_append]
        constructor
        · exact Or.inl
        · rintro (hx | hx)
          · exact hx
          · obtain rfl := List.mem_singleton.mp hx
            exact (h.keys_iff _).mp (KeyedTable.mem_keys.mpr ⟨s, KeyedTable.lookup_eq_some_iff.mp hl⟩)
      · intro x w
        rw [← h.strictest_iff x w]
        simp only [List.mem_append, List.mem_singleton, Prod.mk.injEq]
        constructor
        · rintro ⟨l, hlw, hmem | ⟨rfl, rfl⟩⟩
          · exact ⟨l, hlw, hmem⟩
          · exact (h.strictest_iff x w).mpr ⟨s, by omega, hl⟩
        · rintro ⟨l, hlw, hmem⟩
          exact ⟨l, hlw, Or.inl hmem⟩
      · intro w hw
        rw [h.counts_eq w hw, h.countWithin_of_le hl (not_lt.mp hlt)]
      · intro w hw
        rw [h.countWithin_of_le hl (not_lt.mp hlt)]
        exact h.fits w hw

/-- The scan returns with all counts, or refuses because some tight width overflows in the end. -/
theorem Tracked.run (h : Tracked base tight done st) (hnodup : tight.Nodup) (rest : List (Text × ℕ))
    (hroom : ((done ++ rest).map Prod.fst).toFinset.card < maxExactValues) :
    (∃ st', rest.foldlM (observeOriginal base tight) st = .ok st' ∧ Tracked base tight (done ++ rest) st') ∨
    (rest.foldlM (observeOriginal base tight) st = .error .insufficient ∧
      ∃ w ∈ tight, tokenSpace w base < countWithin (done ++ rest) w) := by
  induction rest generalizing done st with
  | nil => exact Or.inl ⟨st, rfl, by simpa using h⟩
  | cons p rest ih =>
    have hassoc : done ++ p :: rest = (done ++ [p]) ++ rest := by simp
    have hlength : st.tracker.rows.length < maxExactValues := by
      rw [h.length_tracker]
      refine lt_of_le_of_lt (Finset.card_le_card ?_) hroom
      intro x hx
      rw [List.mem_toFinset] at hx ⊢
      exact List.map_subset _ (List.subset_append_left _ _) hx
    rw [List.foldlM_cons]
    rcases h.step hnodup p.1 p.2 hlength with ⟨st', heq, htracked⟩ | ⟨heq, w, hw, hover⟩
    · rw [heq, ok_bind, hassoc]
      exact ih htracked (by rw [← hassoc]; exact hroom)
    · refine Or.inr ⟨by rw [heq]; rfl, w, hw, lt_of_lt_of_le hover ?_⟩
      rw [hassoc]
      exact countWithin_mono (List.subset_append_left _ _) le_rfl

end Scan
end DbfAnonymizer.Preflight
