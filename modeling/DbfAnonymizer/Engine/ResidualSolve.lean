import DbfAnonymizer.Engine.ResidualSearch

/-! Augmenting every original in turn solves the residual placement or refutes it. -/
namespace DbfAnonymizer.Engine
open Transforms Lib Vault

def resourceCapacity (total : ℕ → ℤ) : Resource → ℕ
  | .classSlot length => (total length).toNat
  | .token _ => 1

def originalIndices (graph : ResidualGraph) : Finset ℕ := Finset.range graph.originals.length

/-- The tables after the first `placed` originals, over the class capacities the solve began with. -/
structure Assigned (graph : ResidualGraph) (total : ℕ → ℤ) (placed : ℕ) (st : ResidualState) : Prop where
  placed_iff : ∀ i, (∃ r, st.assign.lookup i = some r) ↔ i < placed
  edges : ∀ i r, st.assign.lookup i = some r → graph.Edge i r
  fungible : ∀ length, st.fungible length =
    total length - load (originalIndices graph) st.assign.lookup (.classSlot length)
  nonneg : ∀ length, 0 ≤ st.fungible length
  once : HeldOnce st.assign

section Unwind
variable {graph : ResidualGraph}

theorem lookup_upsert_eq (assign : KeyedTable ℕ Resource) (i : ℕ) (r : Resource) :
    (assign.upsert i r).lookup = Function.update assign.lookup i (some r) := by
  funext j
  rw [KeyedTable.lookup_upsert, Function.update_apply]

theorem HeldOnce.upsert {assign : KeyedTable ℕ Resource} (h : HeldOnce assign) (i : ℕ) {r : Resource}
    (hfree : ∀ tid, r = .token tid → ∀ j, assign.lookup j ≠ some (.token tid)) : HeldOnce (assign.upsert i r) := by
  intro tid j k hj hk
  rw [KeyedTable.lookup_upsert] at hj hk
  split_ifs at hj hk with hji hki hki
  · exact hji.trans hki.symm
  · exact absurd hk (hfree tid (Option.some.inj hj) k)
  · exact absurd hj (hfree tid (Option.some.inj hk) j)
  · exact h tid j k hj hk

theorem assignRow_eq {assign : KeyedTable ℕ Resource} {i : ℕ} {r : Resource}
    (hfree : ∀ tid, r = .token tid → ∀ j, assign.lookup j ≠ some (.token tid)) :
    assignRow assign i (some r) = .ok (assign.upsert i r) := by
  unfold assignRow
  dsimp only
  rw [if_neg]
  rintro ⟨htoken, ⟨j, s⟩, hrow, -, rfl⟩
  cases s with
  | classSlot length => cases htoken
  | token tid => exact hfree tid rfl j (KeyedTable.lookup_eq_some_iff.mpr hrow)

/-- The streamed unwind never meets the unique index, and reassigns along the chain of the stack. -/
theorem unwindRows_eq {stack : List Frame} {assign : KeyedTable ℕ Resource} {r : Resource}
    (hlinked : Linked graph.Edge assign.lookup (stack.map fun f => (f.origIdx, f.vacate)))
    (hnodup : (stack.map Frame.origIdx).Nodup) (honce : HeldOnce assign)
    (hfree : ∀ tid, r = .token tid → ∀ j, assign.lookup j ≠ some (.token tid)) :
    ∃ assign', unwindRows stack (some r) assign = .ok assign' ∧ HeldOnce assign' ∧
      assign'.lookup = reassign assign.lookup (stack.map fun f => (f.origIdx, f.vacate)) (some r) := by
  induction stack generalizing assign r with
  | nil => cases hlinked
  | cons head below ih =>
    obtain ⟨hnot, hnodup⟩ := List.nodup_cons.mp hnodup
    have honce' := honce.upsert head.origIdx hfree
    rw [unwindRows, assignRow_eq hfree, ok_bind]
    cases below with
    | nil =>
      refine ⟨_, rfl, honce', ?_⟩
      simp [reassign, lookup_upsert_eq]
    | cons f below =>
      obtain ⟨v, hv, hholds⟩ : ∃ v, head.vacate = some v ∧ assign.lookup head.origIdx = some v := by
        rw [List.map_cons, List.map_cons] at hlinked
        generalize hvacate : head.vacate = vacate at hlinked
        cases hlinked with
        | push _ hi _ => exact ⟨_, rfl, hi⟩
      have hbelow : Linked graph.Edge (assign.upsert head.origIdx r).lookup
          ((f :: below).map fun f => (f.origIdx, f.vacate)) := by
        apply (Linked.tail (by simpa using hlinked)).congr
        intro i hi
        rw [KeyedTable.lookup_upsert, if_neg]
        rintro rfl
        apply hnot
        simpa using hi
      -- what the head gives up is free once the head has taken its new resource
      have hvacated : ∀ tid, v = .token tid → ∀ j, (assign.upsert head.origIdx r).lookup j ≠ some (.token tid) := by
        rintro tid rfl j hj
        rw [KeyedTable.lookup_upsert] at hj
        split_ifs at hj with hji
        · exact hfree tid (Option.some.inj hj) head.origIdx hholds
        · exact hji (honce tid j head.origIdx hj hholds)
      obtain ⟨assign', hrun, hheld, hlookup⟩ := ih hbelow hnodup honce' hvacated
      refine ⟨assign', by rw [hv]; exact hrun, hheld, ?_⟩
      rw [hlookup, lookup_upsert_eq]
      simp only [List.map_cons, reassign, hv]

end Unwind

section Solve
variable {graph : ResidualGraph} {total : ℕ → ℤ} {placed : ℕ} {st : ResidualState}

theorem Assigned.lt_of_lookup (h : Assigned graph total placed st) {i : ℕ} {r : Resource}
    (hi : st.assign.lookup i = some r) : i < placed := (h.placed_iff i).mp ⟨r, hi⟩

theorem Assigned.lookup_eq_none (h : Assigned graph total placed st) {i : ℕ} (hi : placed ≤ i) :
    st.assign.lookup i = none := by
  rw [Option.eq_none_iff_forall_ne_some]
  intro r hr
  exact absurd (h.lt_of_lookup hr) (not_lt.mpr hi)

theorem Assigned.capacity_eq_load (h : Assigned graph total placed st) (hplaced : placed ≤ graph.originals.length)
    {r : Resource} (htaken : ¬ Available st r) :
    resourceCapacity total r = load (originalIndices graph) st.assign.lookup r := by
  cases r with
  | classSlot length =>
    have hzero : st.fungible length = 0 := le_antisymm (not_lt.mp htaken) (h.nonneg length)
    have hload := h.fungible length
    simp only [resourceCapacity]
    omega
  | token tid =>
    obtain ⟨j, hj⟩ : ∃ j, st.assign.lookup j = some (.token tid) := by simpa [Available] using htaken
    have hone : (originalIndices graph).filter (fun i => st.assign.lookup i = some (.token tid)) = {j} := by
      ext i
      simp only [originalIndices, Finset.mem_filter, Finset.mem_range, Finset.mem_singleton]
      constructor
      · exact fun hi => h.once tid i j hi.2 hj
      · rintro rfl
        exact ⟨(h.lt_of_lookup hj).trans_le hplaced, hj⟩
    rw [load, hone, Finset.card_singleton, resourceCapacity]

theorem consume_eq (fungible : ℕ → ℤ) (r : Resource) (length : ℕ) :
    consume fungible r length = fungible length - if r = .classSlot length then 1 else 0 := by
  cases r with
  | token tid => simp [consume]
  | classSlot l =>
    by_cases hl : length = l
    · subst hl
      simp [consume]
    · have hne : Resource.classSlot l ≠ .classSlot length := fun heq => hl (by cases heq; rfl)
      simp [consume, Function.update_of_ne hl, hne]

theorem Assigned.unwind (h : Assigned graph total placed st) (hplaced : placed < graph.originals.length) {s : Search}
    {r : Resource} {head : Frame} {below : List Frame} (hs : SearchInv graph st placed s)
    (hstack : s.stack = head :: below) (havailable : Available st r) (hedge : graph.Edge head.origIdx r) :
    ∃ st', Engine.unwind st s.stack r = .ok st' ∧ Assigned graph total (placed + 1) st' := by
  have hlinked := hs.linked (by simp [hstack])
  have hfree : ∀ tid, r = .token tid → ∀ j, st.assign.lookup j ≠ some (.token tid) := by
    rintro tid rfl
    exact havailable
  obtain ⟨assign', hrun, hheld, hlookup⟩ := unwindRows_eq hlinked hs.nodup h.once hfree
  have hitems : (s.stack.map fun f => (f.origIdx, f.vacate)).map Prod.fst = s.stack.map Frame.origIdx := by
    simp
  have hle : ∀ i ∈ s.stack.map Frame.origIdx, i ≤ placed := by
    intro i hi
    obtain ⟨f, hf, rfl⟩ := List.mem_map.mp hi
    exact hs.visited_le _ (hs.onStack f hf)
  have hload : ∀ x, load (originalIndices graph) assign'.lookup x =
      load (originalIndices graph) st.assign.lookup x + if r = x then 1 else 0 := by
    rw [hlookup]
    exact hlinked.load_reassign (hitems ▸ hs.nodup)
      (fun i hi => Finset.mem_range.mpr ((hle i (hitems ▸ hi)).trans_lt hplaced)) r
  have hadj : ∀ i ∈ s.stack.map Frame.origIdx, ∃ v, assign'.lookup i = some v ∧ graph.Edge i v := by
    rw [hlookup]
    rw [hstack] at hlinked hitems ⊢
    have hadj := Linked.adj_reassign hlinked (hitems ▸ hstack ▸ hs.nodup) hedge
    rwa [show (((head.origIdx, head.vacate) :: below.map fun f => (f.origIdx, f.vacate)).map Prod.fst) =
      (head :: below).map Frame.origIdx from hitems] at hadj
  have hother : ∀ i ∉ s.stack.map Frame.origIdx, assign'.lookup i = st.assign.lookup i := by
    intro i hi
    rw [hlookup]
    exact reassign_of_notMem (hitems ▸ hi)
  -- the unplaced root of the chain is the original the search was for
  have hroot : placed ∈ s.stack.map Frame.origIdx := by
    obtain ⟨i, hi, hnone⟩ := hlinked.exists_root
    rw [hitems] at hi
    have hge : placed ≤ i := by
      by_contra hlt
      obtain ⟨v, hv⟩ := (h.placed_iff i).mpr (not_le.mp hlt)
      rw [hnone] at hv
      cases hv
    exact (hle i hi).antisymm hge ▸ hi
  refine ⟨⟨consume st.fungible r, assign'⟩, ?_, ?_, ?_, ?_, ?_, hheld⟩
  · simp only [Engine.unwind, hrun, ok_bind, pure_eq_ok]
  · intro i
    by_cases hi : i ∈ s.stack.map Frame.origIdx
    · obtain ⟨v, hv, -⟩ := hadj i hi
      exact ⟨fun _ => Nat.lt_succ_of_le (hle i hi), fun _ => ⟨v, hv⟩⟩
    · rw [hother i hi, h.placed_iff i]
      have hne : i ≠ placed := fun heq => hi (heq ▸ hroot)
      omega
  · intro i v hv
    by_cases hi : i ∈ s.stack.map Frame.origIdx
    · obtain ⟨w, hw, hedge⟩ := hadj i hi
      exact Option.some.inj (hw.symm.trans hv) ▸ hedge
    · rw [hother i hi] at hv
      exact h.edges i v hv
  · intro length
    have hold := h.fungible length
    simp only [consume_eq, hload]
    split_ifs <;> omega
  · intro length
    have hold := h.nonneg length
    simp only [consume_eq]
    split_ifs with hr
    · subst hr
      have hpos : 0 < st.fungible length := havailable
      omega
    · omega

theorem Assigned.augment (h : Assigned graph total placed st) (hplaced : placed < graph.originals.length) :
    (∃ st', Engine.augment graph st placed = some (.ok (some st')) ∧ Assigned graph total (placed + 1) st') ∨
    (Engine.augment graph st placed = some (.ok none) ∧
      ¬ Fits (originalIndices graph) graph.Edge (resourceCapacity total)) := by
  have hstart := searchInv_start hplaced (h.lookup_eq_none le_rfl)
  rcases hstart.augmentLoop h.once (fun j r => h.lt_of_lookup) hplaced (openProbes_start hplaced) with
    ⟨s, r, head, below, hs, hstack, havailable, hedge, heq⟩ | ⟨s, hs, hstack, heq⟩
  · obtain ⟨st', hunwind, hassigned⟩ := h.unwind hplaced hs hstack havailable hedge
    exact Or.inl ⟨st', by simp only [Engine.augment, heq, hunwind, Except.map], hassigned⟩
  · right
    refine ⟨by simp only [Engine.augment, heq], ?_⟩
    have hblocked : ∀ i ∈ s.visited, ∀ r, graph.Edge i r → Blocked st s.visited r := by
      intro i hi
      rcases hs.done i hi with hmem | hdone
      · rw [hstack] at hmem
        cases hmem
      · exact hdone
    apply not_fits_of_saturated s.visited.toFinset ?_ (List.mem_toFinset.mpr hs.root_mem) (h.lookup_eq_none le_rfl)
    · intro i hi r hr
      exact h.capacity_eq_load hplaced.le (hblocked i (List.mem_toFinset.mp hi) r hr).taken
    · intro i hi r hr j _ hj
      exact List.mem_toFinset.mpr ((hblocked i (List.mem_toFinset.mp hi) r hr).occupants j hj)
    · intro i hi
      exact Finset.mem_range.mpr ((hs.visited_le i (List.mem_toFinset.mp hi)).trans_lt hplaced)

theorem Assigned.augmentAll (h : Assigned graph total placed st) {count : ℕ}
    (hcount : placed + count = graph.originals.length) :
    (∃ st', Engine.augmentAll graph (List.range' placed count) st = some (.ok st') ∧
      Assigned graph total graph.originals.length st') ∨
    (Engine.augmentAll graph (List.range' placed count) st =
        some (.error (capacityFailure "ENGINE_TEXT_RESIDUAL_INFEASIBLE")) ∧
      ¬ Fits (originalIndices graph) graph.Edge (resourceCapacity total)) := by
  induction count generalizing placed st with
  | zero =>
    rw [Nat.add_zero] at hcount
    exact Or.inl ⟨st, rfl, hcount ▸ h⟩
  | succ count ih =>
    rw [List.range'_succ]
    rcases h.augment (by omega) with ⟨st', heq, hassigned⟩ | ⟨heq, hfits⟩
    · simpa only [Engine.augmentAll, heq] using ih hassigned (by omega)
    · exact Or.inr ⟨by simp only [Engine.augmentAll, heq], hfits⟩

theorem Assigned.fits (h : Assigned graph total graph.originals.length st) :
    Fits (originalIndices graph) graph.Edge (resourceCapacity total) := by
  refine ⟨st.assign.lookup, ?_, ?_⟩
  · intro i hi
    obtain ⟨r, hr⟩ := (h.placed_iff i).mpr (Finset.mem_range.mp hi)
    exact ⟨r, hr, h.edges i r hr⟩
  · intro r
    cases r with
    | classSlot length =>
      have hload := h.fungible length
      have hnonneg := h.nonneg length
      simp only [resourceCapacity]
      omega
    | token tid =>
      apply Finset.card_le_one.mpr
      intro j hj k hk
      exact h.once tid j k (Finset.mem_filter.mp hj).2 (Finset.mem_filter.mp hk).2

theorem Assigned.keys_toFinset (h : Assigned graph total graph.originals.length st) :
    st.assign.keys.toFinset = originalIndices graph := by
  ext i
  rw [List.mem_toFinset, KeyedTable.mem_keys, originalIndices, Finset.mem_range, ← h.placed_iff i]
  simp only [KeyedTable.lookup_eq_some_iff]

theorem Assigned.length_rows (h : Assigned graph total graph.originals.length st) :
    st.assign.rows.length = graph.originals.length := by
  have hcard := congrArg Finset.card h.keys_toFinset
  have hnodup : st.assign.keys.Nodup := st.assign.keys_nodup
  rw [List.toFinset_card_of_nodup hnodup, originalIndices, Finset.card_range] at hcard
  simpa [KeyedTable.keys] using hcard

theorem Assigned.load_eq (h : Assigned graph total graph.originals.length st) (r : Resource) :
    load (originalIndices graph) st.assign.lookup r = (st.assign.rows.filter (·.2 = r)).length := by
  have hkeys : ((st.assign.rows.filter (·.2 = r)).map Prod.fst).Nodup :=
    (List.filter_sublist.map Prod.fst).nodup st.assign.keys_nodup
  rw [← List.length_map (f := Prod.fst), ← List.toFinset_card_of_nodup hkeys, load]
  congr 1
  ext i
  simp only [originalIndices, Finset.mem_filter, Finset.mem_range, List.mem_toFinset, List.mem_map, List.mem_filter,
    decide_eq_true_eq]
  constructor
  · rintro ⟨-, hi⟩
    exact ⟨(i, r), ⟨KeyedTable.lookup_eq_some_iff.mp hi, rfl⟩, rfl⟩
  · rintro ⟨⟨j, s⟩, ⟨hrow, rfl⟩, rfl⟩
    have hlookup := KeyedTable.lookup_eq_some_iff.mpr hrow
    exact ⟨h.lt_of_lookup hlookup, hlookup⟩

theorem Assigned.tokenRows_nodup (h : Assigned graph total placed st) : (tokenRows st.assign).Nodup := by
  have hrows : st.assign.rows.Nodup := st.assign.keys_nodup.of_map _
  have hmap : tokenRows st.assign = (st.assign.rows.filter fun row => row.2.isToken).map Prod.snd := by
    rw [tokenRows, List.filter_map]
    rfl
  rw [hmap]
  apply (hrows.filter _).map_on
  rintro ⟨j, r⟩ hj ⟨k, s⟩ hk rfl
  obtain ⟨hj, htoken⟩ := List.mem_filter.mp hj
  obtain ⟨hk, -⟩ := List.mem_filter.mp hk
  cases r with
  | classSlot length => cases htoken
  | token tid =>
    rw [h.once tid j k (KeyedTable.lookup_eq_some_iff.mpr hj) (KeyedTable.lookup_eq_some_iff.mpr hk)]

theorem not_malformedRow {row : ℕ × Resource} (hedge : graph.Edge row.1 row.2) : malformedRow graph row = false := by
  obtain ⟨i, r⟩ := row
  cases r with
  | classSlot length =>
    obtain ⟨o, ho, -, hle⟩ := hedge
    simpa [malformedRow, ho] using hle
  | token tid =>
    obtain ⟨o, token, ho, htoken, hlength, howner, hown⟩ := hedge
    simp [malformedRow, ho, htoken, howner, hown, hlength]

theorem Assigned.validate {mappings : TextMappings} {base : ℕ}
    (h : Assigned graph (initialState mappings base graph).fungible graph.originals.length st) :
    validateResidualAssignment mappings base graph st = .ok () := by
  have hmem : ∀ row ∈ st.assign.rows, st.assign.lookup row.1 = some row.2 := fun row hrow =>
    KeyedTable.lookup_eq_some_iff.mpr hrow
  have hdistinct : (st.assign.rows.map Prod.fst).dedup.length = graph.originals.length := by
    rw [st.assign.keys_nodup.dedup, List.length_map, h.length_rows]
  have hknown : ¬ ∃ row ∈ st.assign.rows, graph.originals.length ≤ row.1 := by
    rintro ⟨row, hrow, hle⟩
    exact absurd (h.lt_of_lookup (hmem row hrow)) (not_lt.mpr hle)
  have hformed : ¬ ∃ row ∈ st.assign.rows, malformedRow graph row = true := by
    rintro ⟨row, hrow, hbad⟩
    rw [not_malformedRow (h.edges _ _ (hmem row hrow))] at hbad
    cases hbad
  have hcapacity : ¬ ∃ length ∈ List.range' 1 graph.maxWidth,
      st.fungible length ≠ expectedRemaining mappings base graph st length ∨
        expectedRemaining mappings base graph st length < 0 := by
    rintro ⟨length, hlength, hbad⟩
    have hrange := List.mem_range'_1.mp hlength
    have htotal : (initialState mappings base graph).fungible length =
        initialFungible mappings base graph.tokens length := if_pos (by omega)
    have hfungible := h.fungible length
    have hnonneg := h.nonneg length
    rw [htotal, h.load_eq] at hfungible
    simp only [expectedRemaining, classTaken] at hbad
    omega
  have hrefuse : ∀ {c : Prop} [Decidable c], ¬ c → refuseIf c residualCorrupt = .ok () := refuseIf_eq_ok.mpr
  unfold validateResidualAssignment
  rw [hrefuse (not_not.mpr h.length_rows), ok_bind, hrefuse (not_not.mpr hdistinct), ok_bind, hrefuse hknown, ok_bind,
    hrefuse (not_not.mpr h.tokenRows_nodup), ok_bind, hrefuse hformed, ok_bind, hrefuse hcapacity]

end Solve

/-- The solve returns a complete assignment or refuses, and it refuses only what has no placement. -/
theorem solveTextResidual_cases {alphabet : Text} {mappings : TextMappings} {spool : TextSpool}
    (hwidth : ∀ row ∈ spool.textObservations, 0 < row.2)
    (hcapacity : ∀ length, 0 ≤ (initialState mappings alphabet.length
      (residualGraph alphabet mappings spool)).fungible length) :
    (∃ plan, solveTextResidual alphabet mappings spool = some (.ok plan) ∧
      plan.graph = residualGraph alphabet mappings spool ∧
      Assigned plan.graph (initialState mappings alphabet.length plan.graph).fungible
        plan.graph.originals.length plan.state) ∨
    (solveTextResidual alphabet mappings spool =
        some (.error (capacityFailure "ENGINE_TEXT_RESIDUAL_INFEASIBLE")) ∧
      ¬ Fits (originalIndices (residualGraph alphabet mappings spool)) (residualGraph alphabet mappings spool).Edge
        (resourceCapacity (initialState mappings alphabet.length
          (residualGraph alphabet mappings spool)).fungible)) := by
  generalize hgraph : residualGraph alphabet mappings spool = graph at hcapacity ⊢
  have hbuild : buildResidualGraph alphabet mappings spool = .ok graph := by
    have hpositive : ¬ ∃ row ∈ spool.textObservations, row.2 ≤ 0 := by
      rintro ⟨row, hrow, hle⟩
      exact absurd (hwidth row hrow) (not_lt.mpr hle)
    rw [buildResidualGraph, (refuseIf_eq_ok (u := ())).mpr hpositive, ok_bind, hgraph]
    rfl
  have hstart : Assigned graph (initialState mappings alphabet.length graph).fungible 0
      (initialState mappings alphabet.length graph) := by
    refine ⟨?_, ?_, ?_, hcapacity, ?_⟩
    · simp [initialState]
    · simp [initialState]
    · intro length
      simp [initialState, load]
    · intro tid j k hj
      simp [initialState] at hj
  have hall := hstart.augmentAll (Nat.zero_add _)
  rw [← List.range_eq_range'] at hall
  unfold solveTextResidual
  rw [hbuild]
  rcases hall with ⟨st, heq, hassigned⟩ | ⟨heq, hfits⟩
  · refine Or.inl ⟨⟨graph, st⟩, ?_, rfl, hassigned⟩
    simp only [heq, hassigned.validate, Except.map]
  · exact Or.inr ⟨by simp only [heq], hfits⟩

end DbfAnonymizer.Engine
