import DbfAnonymizer.Lib.Allocation
import DbfAnonymizer.Vault.FlowMaximum

/-! A flow that feeds every item routes each of them along one edge. -/
namespace DbfAnonymizer.Vault
namespace ResidualFlow
open Lib Finset

section FlowOn
variable {net : ResidualFlow} {edges : List ((ℕ × ℕ) × ℤ)} {value : ℤ} {source sink : ℕ} {edge : (ℕ × ℕ) × ℤ}

/-- The flow on an arc of a network without parallel arcs. -/
def flowOn (net : ResidualFlow) (arc : ℕ × ℕ) : ℤ := net.backward (net.arcs.idxOf arc)

/-- The flow that leaves a node. -/
def outflow (net : ResidualFlow) (v : ℕ) : ℤ := ∑ arc ∈ net.arcs.toFinset with arc.1 = v, net.flowOn arc

/-- The flow that enters a node. -/
def inflow (net : ResidualFlow) (v : ℕ) : ℤ := ∑ arc ∈ net.arcs.toFinset with arc.2 = v, net.flowOn arc

theorem netOut_eq (h : net.arcs.Nodup) (v : ℕ) : net.netOut v = net.outflow v - net.inflow v := by
  have hsum : net.netOut v = ∑ arc ∈ net.arcs.toFinset, net.flowOn arc * incidence arc v := by
    rw [List.sum_toFinset _ h, ← Fin.sum_univ_fun_getElem, netOut]
    apply sum_congr rfl
    intro k _
    rw [flowOn, Fin.getElem_fin, h.idxOf_getElem]
  rw [hsum, outflow, inflow, sum_filter, sum_filter, ← sum_sub_distrib]
  apply sum_congr rfl
  intro arc _
  simp only [incidence]
  split_ifs <;> ring

theorem getElem?_idxOf (h : (edges.map Prod.fst).Nodup) (hedge : edge ∈ edges) :
    edges[(edges.map Prod.fst).idxOf edge.1]? = some edge := by
  obtain ⟨k, hk⟩ := List.getElem?_of_mem hedge
  obtain ⟨hlt, heq⟩ := List.getElem?_eq_some_iff.mp hk
  have hlt' : k < (edges.map Prod.fst).length := by simpa using hlt
  have harc : (edges.map Prod.fst)[k] = edge.1 := by rw [List.getElem_map, heq]
  rw [← harc, h.idxOf_getElem]
  exact hk

/-- The two entries of an edge hold its flow and what it can still carry. -/
theorem Balanced.flowOn_eq (h : net.Balanced (capacityOf edges) source sink value) (harcs : net.arcs = edges.map Prod.fst)
    (hnodup : (edges.map Prod.fst).Nodup) (hedge : edge ∈ edges) : 0 ≤ net.flowOn edge.1 ∧ net.flowOn edge.1 ≤ edge.2 ∧
      net.forward (net.arcs.idxOf edge.1) = edge.2 - net.flowOn edge.1 := by
  have hsum := h.sum_eq (net.arcs.idxOf edge.1)
  have hforward := h.forward_nonneg (net.arcs.idxOf edge.1)
  have hbackward := h.backward_nonneg (net.arcs.idxOf edge.1)
  rw [capacityOf, harcs, getElem?_idxOf hnodup hedge] at hsum
  rw [harcs] at hforward hbackward ⊢
  rw [flowOn, harcs]
  simp only [Option.map_some, Option.getD_some] at hsum
  omega

theorem valid_idxOf (harc : edge.1 ∈ net.arcs) (isForward : Bool) :
    net.Valid ⟨net.arcs.idxOf edge.1, isForward, if isForward then edge.1.1 else edge.1.2,
      if isForward then edge.1.2 else edge.1.1⟩ := by
  have hget : net.arcs[net.arcs.idxOf edge.1]? = some edge.1 := by
    rw [List.getElem?_eq_getElem (List.idxOf_lt_length_of_mem harc), List.getElem_idxOf]
  cases isForward <;> exact hget

end FlowOn

/-- The edges of an assignment: the source `0` to every item, an item to its resources, a resource to the sink `1`. -/
structure AssignmentNetwork (edges : List ((ℕ × ℕ) × ℤ)) (items : ℕ) (adj : ℕ → ℕ → Prop) (capacity : ℕ → ℕ) :
    Prop where
  nodup : (edges.map Prod.fst).Nodup
  mem_iff : ∀ edge, edge ∈ edges ↔ (∃ i < items, edge = ((0, 2 + i), 1)) ∨
    (∃ i < items, ∃ r, adj i r ∧ edge = ((2 + i, 2 + items + r), 1)) ∨
      ∃ r, 0 < capacity r ∧ edge = ((2 + items + r, 1), (capacity r : ℤ))

theorem AssignmentNetwork.capacity_nonneg {edges : List ((ℕ × ℕ) × ℤ)} {items : ℕ} {adj : ℕ → ℕ → Prop}
    {capacity : ℕ → ℕ} (h : AssignmentNetwork edges items adj capacity) : ∀ edge ∈ edges, 0 ≤ edge.2 := by
  intro edge hedge
  rcases (h.mem_iff edge).mp hedge with ⟨i, -, rfl⟩ | ⟨i, -, r, -, rfl⟩ | ⟨r, -, rfl⟩
  · exact zero_le_one
  · exact zero_le_one
  · exact Nat.cast_nonneg _

section Assignment
variable {net : ResidualFlow} {edges : List ((ℕ × ℕ) × ℤ)} {items i r s : ℕ} {adj : ℕ → ℕ → Prop}
  {capacity : ℕ → ℕ} {flow : ℤ}

/-- A flow through an assignment network. -/
structure AssignmentFlow (edges : List ((ℕ × ℕ) × ℤ)) (items : ℕ) (adj : ℕ → ℕ → Prop) (capacity : ℕ → ℕ)
    (net : ResidualFlow) (flow : ℤ) : Prop extends AssignmentNetwork edges items adj capacity where
  balanced : net.Balanced (capacityOf edges) 0 1 flow
  arcs_eq : net.arcs = edges.map Prod.fst

namespace AssignmentFlow
variable (h : AssignmentFlow edges items adj capacity net flow)
include h

theorem mem_arcs {arc : ℕ × ℕ} : arc ∈ net.arcs ↔ (∃ i < items, arc = (0, 2 + i)) ∨
    (∃ i < items, ∃ r, adj i r ∧ arc = (2 + i, 2 + items + r)) ∨ ∃ r, 0 < capacity r ∧ arc = (2 + items + r, 1) := by
  rw [h.arcs_eq, List.mem_map]
  constructor
  · rintro ⟨edge, hedge, rfl⟩
    rcases (h.mem_iff edge).mp hedge with ⟨i, hi, rfl⟩ | ⟨i, hi, r, hadj, rfl⟩ | ⟨r, hpos, rfl⟩
    · exact Or.inl ⟨i, hi, rfl⟩
    · exact Or.inr (Or.inl ⟨i, hi, r, hadj, rfl⟩)
    · exact Or.inr (Or.inr ⟨r, hpos, rfl⟩)
  · rintro (⟨i, hi, rfl⟩ | ⟨i, hi, r, hadj, rfl⟩ | ⟨r, hpos, rfl⟩)
    · exact ⟨_, (h.mem_iff _).mpr (Or.inl ⟨i, hi, rfl⟩), rfl⟩
    · exact ⟨_, (h.mem_iff _).mpr (Or.inr (Or.inl ⟨i, hi, r, hadj, rfl⟩)), rfl⟩
    · exact ⟨_, (h.mem_iff _).mpr (Or.inr (Or.inr ⟨r, hpos, rfl⟩)), rfl⟩

theorem nodup_arcs : net.arcs.Nodup := h.arcs_eq ▸ h.nodup

theorem flowOn_bounds {edge : (ℕ × ℕ) × ℤ} (hedge : edge ∈ edges) :
    0 ≤ net.flowOn edge.1 ∧ net.flowOn edge.1 ≤ edge.2 := by
  obtain ⟨hnonneg, hle, -⟩ := h.balanced.flowOn_eq h.arcs_eq h.nodup hedge
  exact ⟨hnonneg, hle⟩

theorem flowOn_nonneg (arc : ℕ × ℕ) : 0 ≤ net.flowOn arc := h.balanced.backward_nonneg _

theorem flowOn_of_notMem {arc : ℕ × ℕ} (harc : arc ∉ net.arcs) : net.flowOn arc = 0 := by
  have hindex : net.arcs.idxOf arc = edges.length := by
    rw [List.idxOf_eq_length harc, h.arcs_eq, List.length_map]
  have hsum := h.balanced.sum_eq (net.arcs.idxOf arc)
  have hforward := h.balanced.forward_nonneg (net.arcs.idxOf arc)
  have hbackward := h.balanced.backward_nonneg (net.arcs.idxOf arc)
  rw [capacityOf, hindex, List.getElem?_eq_none le_rfl, ← hindex] at hsum
  simp only [Option.map_none, Option.getD_none] at hsum
  rw [flowOn]
  omega

theorem flowOn_source (hi : i < items) : 0 ≤ net.flowOn (0, 2 + i) ∧ net.flowOn (0, 2 + i) ≤ 1 :=
  h.flowOn_bounds ((h.mem_iff ((0, 2 + i), 1)).mpr (Or.inl ⟨i, hi, rfl⟩))

theorem outflow_eq_inflow {v : ℕ} (hsource : v ≠ 0) (hsink : v ≠ 1) : net.outflow v = net.inflow v := by
  have hnet := netOut_eq h.nodup_arcs v
  rw [h.balanced.netOut_eq, incidence, if_neg (Ne.symm hsource), if_neg (Ne.symm hsink)] at hnet
  omega

theorem inflow_eq_sum (origins : Finset ℕ) (v : ℕ) (hcover : ∀ u, (u, v) ∈ net.arcs → u ∈ origins) :
    net.inflow v = ∑ u ∈ origins, net.flowOn (u, v) := by
  have himage : ∑ u ∈ origins, net.flowOn (u, v) = ∑ arc ∈ origins.image fun u => (u, v), net.flowOn arc := by
    rw [sum_image]
    intro a _ b _ hab
    exact congrArg Prod.fst hab
  rw [himage]
  apply sum_subset
  · rintro ⟨u, w⟩ harc
    obtain ⟨hmem, rfl⟩ := mem_filter.mp harc
    exact mem_image_of_mem _ (hcover u (List.mem_toFinset.mp hmem))
  · intro arc harc hnot
    obtain ⟨u, -, rfl⟩ := mem_image.mp harc
    exact h.flowOn_of_notMem fun hmem => hnot (mem_filter.mpr ⟨List.mem_toFinset.mpr hmem, rfl⟩)

theorem inflow_item (hi : i < items) : net.inflow (2 + i) = net.flowOn (0, 2 + i) := by
  rw [h.inflow_eq_sum {0} (2 + i), sum_singleton]
  intro u harc
  rcases h.mem_arcs.mp harc with ⟨j, -, heq⟩ | ⟨j, -, r, -, heq⟩ | ⟨r, -, heq⟩
  · rw [(Prod.mk.inj heq).1]
    exact mem_singleton_self 0
  · have := (Prod.mk.inj heq).2
    omega
  · have := (Prod.mk.inj heq).2
    omega

theorem flow_eq_sum : flow = ∑ i ∈ range items, net.flowOn (0, 2 + i) := by
  have hnet := netOut_eq h.nodup_arcs 0
  rw [h.balanced.netOut_eq] at hnet
  have hin : net.inflow 0 = 0 := by
    rw [h.inflow_eq_sum ∅ 0, sum_empty]
    intro u harc
    rcases h.mem_arcs.mp harc with ⟨j, -, heq⟩ | ⟨j, -, r, -, heq⟩ | ⟨r, -, heq⟩
    · have := (Prod.mk.inj heq).2
      omega
    · have := (Prod.mk.inj heq).2
      omega
    · have := (Prod.mk.inj heq).2
      omega
  have hout : net.outflow 0 = ∑ i ∈ range items, net.flowOn (0, 2 + i) := by
    have himage : ∑ i ∈ range items, net.flowOn (0, 2 + i) =
        ∑ arc ∈ (range items).image fun i => (0, 2 + i), net.flowOn arc := by
      rw [sum_image]
      intro a _ b _ hab
      exact Nat.add_left_cancel (congrArg Prod.snd hab)
    rw [himage]
    apply sum_subset
    · rintro ⟨u, v⟩ harc
      obtain ⟨hmem, rfl⟩ := mem_filter.mp harc
      rcases h.mem_arcs.mp (List.mem_toFinset.mp hmem) with ⟨j, hj, heq⟩ | ⟨j, hj, s, -, heq⟩ | ⟨s, -, heq⟩
      · rw [heq]
        exact mem_image_of_mem _ (mem_range.mpr hj)
      · have := (Prod.mk.inj heq).1
        omega
      · have := (Prod.mk.inj heq).1
        omega
    · intro arc harc hnot
      obtain ⟨i, -, rfl⟩ := mem_image.mp harc
      exact h.flowOn_of_notMem fun hmem => hnot (mem_filter.mpr ⟨List.mem_toFinset.mpr hmem, rfl⟩)
  rw [hin, hout] at hnet
  simpa [incidence] using hnet

theorem flowOn_unique (hi : i < items) (hr : net.flowOn (2 + i, 2 + items + r) = 1)
    (hs : net.flowOn (2 + i, 2 + items + s) = 1) : r = s := by
  by_contra hne
  have hmem : ∀ t, net.flowOn (2 + i, 2 + items + t) = 1 → (2 + i, 2 + items + t) ∈ net.arcs := by
    intro t ht
    by_contra hnot
    rw [h.flowOn_of_notMem hnot] at ht
    omega
  have hsub : ({(2 + i, 2 + items + r), (2 + i, 2 + items + s)} : Finset (ℕ × ℕ)) ⊆
      {arc ∈ net.arcs.toFinset | arc.1 = 2 + i} := by
    intro arc harc
    rcases mem_insert.mp harc with rfl | harc
    · exact mem_filter.mpr ⟨List.mem_toFinset.mpr (hmem r hr), rfl⟩
    · obtain rfl := mem_singleton.mp harc
      exact mem_filter.mpr ⟨List.mem_toFinset.mpr (hmem s hs), rfl⟩
  have hpair : net.flowOn (2 + i, 2 + items + r) + net.flowOn (2 + i, 2 + items + s) ≤ net.outflow (2 + i) := by
    rw [← sum_pair (f := net.flowOn) fun heq => hne (Nat.add_left_cancel (congrArg Prod.snd heq))]
    exact sum_le_sum_of_subset_of_nonneg hsub fun arc _ _ => h.flowOn_nonneg arc
  have hle := (h.flowOn_source hi).2
  rw [h.outflow_eq_inflow (by omega) (by omega), h.inflow_item hi] at hpair
  omega

theorem exists_flowOn (hi : i < items) (hfed : net.flowOn (0, 2 + i) = 1) :
    ∃ r, net.flowOn (2 + i, 2 + items + r) = 1 := by
  have hout : net.outflow (2 + i) = 1 := by
    rw [h.outflow_eq_inflow (by omega) (by omega), h.inflow_item hi, hfed]
  obtain ⟨arc, harc, hne⟩ := exists_ne_zero_of_sum_ne_zero (show net.outflow (2 + i) ≠ 0 by omega)
  obtain ⟨harc, horigin⟩ := mem_filter.mp harc
  rcases h.mem_arcs.mp (List.mem_toFinset.mp harc) with ⟨j, hj, rfl⟩ | ⟨j, hj, r, hadj, rfl⟩ | ⟨r, -, rfl⟩
  · simp only at horigin
    omega
  · obtain rfl : j = i := by simpa using horigin
    have hbounds := h.flowOn_bounds ((h.mem_iff ((2 + j, 2 + items + r), 1)).mpr (Or.inr (Or.inl ⟨j, hj, r, hadj, rfl⟩)))
    simp only at hbounds
    exact ⟨r, by omega⟩
  · simp only at horigin
    omega

end AssignmentFlow

/-- Where the flow takes an item. -/
noncomputable def placeOf (net : ResidualFlow) (items i : ℕ) : Option ℕ :=
  open Classical in
  if h : ∃ r, net.flowOn (2 + i, 2 + items + r) = 1 then some h.choose else none

namespace AssignmentFlow
variable (h : AssignmentFlow edges items adj capacity net flow)
include h

theorem placeOf_eq_some (hi : i < items) :
    net.placeOf items i = some r ↔ net.flowOn (2 + i, 2 + items + r) = 1 := by
  unfold placeOf
  split_ifs with hex
  · rw [Option.some.injEq]
    constructor
    · rintro rfl
      exact hex.choose_spec
    · exact h.flowOn_unique hi hex.choose_spec
  · constructor
    · exact fun hnone => nomatch hnone
    · exact fun hr => absurd ⟨r, hr⟩ hex

theorem flowOn_of_not_adj (hadj : ¬ adj i r) : net.flowOn (2 + i, 2 + items + r) = 0 := by
  apply h.flowOn_of_notMem
  intro hmem
  rcases h.mem_arcs.mp hmem with ⟨j, hj, heq⟩ | ⟨j, hj, s, hs, heq⟩ | ⟨s, -, heq⟩
  · have := (Prod.mk.inj heq).1
    omega
  · obtain ⟨hij, hrs⟩ := Prod.mk.inj heq
    rw [Nat.add_left_cancel hij, Nat.add_left_cancel hrs] at hadj
    exact hadj hs
  · have := (Prod.mk.inj heq).2
    omega

theorem adj_of_placeOf (hi : i < items) (hplace : net.placeOf items i = some r) : adj i r := by
  have hone := (h.placeOf_eq_some hi).mp hplace
  by_contra hadj
  have hzero := h.flowOn_of_not_adj hadj
  omega

/-- The first entry without capacity at a fed item is the edge that its unit took. -/
theorem routedTarget_eq (hi : i < items) (hfed : net.flowOn (0, 2 + i) = 1) (hplace : net.placeOf items i = some r) :
    net.routedTarget (2 + i) = some (2 + items + r) := by
  have hadj := h.adj_of_placeOf hi hplace
  have harc : (2 + i, 2 + items + r) ∈ net.arcs := h.mem_arcs.mpr (Or.inr (Or.inl ⟨i, hi, r, hadj, rfl⟩))
  have hresidual : ∀ j < items, ∀ s, adj j s →
      net.forward (net.arcs.idxOf (2 + j, 2 + items + s)) = 1 - net.flowOn (2 + j, 2 + items + s) := by
    intro j hj s hs
    have hedge := (h.mem_iff ((2 + j, 2 + items + s), 1)).mpr (Or.inr (Or.inl ⟨j, hj, s, hs, rfl⟩))
    exact (h.balanced.flowOn_eq h.arcs_eq h.nodup hedge).2.2
  have hindex : ∀ (k : ℕ) (arc : ℕ × ℕ), net.arcs[k]? = some arc → k = net.arcs.idxOf arc := by
    intro k arc hk
    obtain ⟨hlt, rfl⟩ := List.getElem?_eq_some_iff.mp hk
    exact (h.nodup_arcs.idxOf_getElem k hlt).symm
  unfold routedTarget
  cases hfind : (net.entries (2 + i)).find? (net.residual · = 0) with
  | none =>
    rw [List.find?_eq_none] at hfind
    have hvalid := @valid_idxOf _ ((2 + i, 2 + items + r), 1) harc true
    have hempty := hfind _ (mem_entries.mpr ⟨hvalid, rfl⟩)
    simp only [residual, if_true, hresidual i hi r hadj, (h.placeOf_eq_some hi).mp hplace] at hempty
    exact absurd rfl (of_decide_eq_false (Bool.not_eq_true _ ▸ hempty))
  | some edge =>
    have hzero : net.residual edge = 0 := by simpa using List.find?_some hfind
    obtain ⟨hvalid, horigin⟩ := mem_entries.mp (List.mem_of_find?_eq_some hfind)
    obtain ⟨k, isForward, u, v⟩ := edge
    obtain rfl : u = 2 + i := horigin
    cases isForward with
    | true =>
      have harc' : net.arcs[k]? = some (2 + i, v) := hvalid
      have hk := hindex k _ harc'
      rcases h.mem_arcs.mp (List.mem_of_getElem? harc') with ⟨j, -, heq⟩ | ⟨j, hj, s, hs, heq⟩ | ⟨s, -, heq⟩
      · have := (Prod.mk.inj heq).1
        omega
      · obtain ⟨hij, rfl⟩ := Prod.mk.inj heq
        obtain rfl := Nat.add_left_cancel hij
        simp only [residual, if_true, hk, hresidual i hi s hs] at hzero
        obtain rfl : r = s := h.flowOn_unique hi ((h.placeOf_eq_some hi).mp hplace) (by omega)
        rfl
      · have := (Prod.mk.inj heq).1
        omega
    | false =>
      have harc' : net.arcs[k]? = some (v, 2 + i) := hvalid
      have hk := hindex k _ harc'
      rcases h.mem_arcs.mp (List.mem_of_getElem? harc') with ⟨j, -, heq⟩ | ⟨j, hj, s, hs, heq⟩ | ⟨s, -, heq⟩
      · -- the source edge carries its unit, so its backward entry is not empty
        obtain rfl := (Prod.mk.inj heq).1
        simp only [residual, Bool.false_eq_true, if_false, hk] at hzero
        rw [flowOn] at hfed
        omega
      · have := (Prod.mk.inj heq).2
        omega
      · have := (Prod.mk.inj heq).2
        omega

theorem fed (hfull : flow = items) : ∀ i ∈ range items, net.flowOn (0, 2 + i) = 1 := by
  apply (sum_eq_sum_iff_of_le fun i hi => (h.flowOn_source (mem_range.mp hi)).2).mp
  rw [← h.flow_eq_sum, hfull, sum_const, card_range, nsmul_one]

/-- In a full flow one edge of each item is used up, and the item is routed along it. -/
theorem exists_saturated (hfull : flow = items) (hi : i < items) : ∃ k : Fin edges.length,
    (∀ j : Fin edges.length, edges[j].1.1 = 2 + i ∧ net.forward j = 0 ↔ j = k) ∧
      net.routedTarget (2 + i) = some edges[k].1.2 := by
  have hfed := h.fed hfull i (mem_range.mpr hi)
  obtain ⟨r, hr⟩ := h.exists_flowOn hi hfed
  have hplace := (h.placeOf_eq_some hi).mpr hr
  have hmem := (h.mem_iff ((2 + i, 2 + items + r), 1)).mpr (Or.inr (Or.inl ⟨i, hi, r, h.adj_of_placeOf hi hplace, rfl⟩))
  obtain ⟨k, hk, hkedge⟩ := List.getElem_of_mem hmem
  have hforward : ∀ (j : Fin edges.length) (s : ℕ), edges[j] = ((2 + i, 2 + items + s), 1) →
      net.forward j = 1 - net.flowOn (2 + i, 2 + items + s) := by
    intro j s hj
    have hflow := (h.balanced.flowOn_eq h.arcs_eq h.nodup (List.getElem_mem j.isLt)).2.2
    have hlt : (j : ℕ) < (edges.map Prod.fst).length := by simp
    have hindex := h.nodup.idxOf_getElem j hlt
    rw [List.getElem_map] at hindex
    rw [h.arcs_eq, hindex] at hflow
    rw [hflow, ← Fin.getElem_fin, hj]
  refine ⟨⟨k, hk⟩, ?_, ?_⟩
  · intro j
    constructor
    · rintro ⟨hitem, hzero⟩
      rcases (h.mem_iff edges[j]).mp (List.getElem_mem j.isLt) with ⟨a, -, heq⟩ | ⟨a, ha, s, -, heq⟩ | ⟨s, -, heq⟩
      · rw [heq] at hitem
        dsimp only at hitem
        omega
      · rw [heq] at hitem
        obtain rfl := Nat.add_left_cancel hitem
        rw [hforward j s heq] at hzero
        obtain rfl : r = s := h.flowOn_unique hi hr (by omega)
        apply Fin.ext
        apply (h.nodup.of_map).getElem_inj_iff.mp
        exact heq.trans hkedge.symm
      · rw [heq] at hitem
        dsimp only at hitem
        omega
    · rintro rfl
      rw [hforward ⟨k, hk⟩ r hkedge, hr, Fin.getElem_fin, hkedge]
      exact ⟨rfl, sub_self 1⟩
  · rw [h.routedTarget_eq hi hfed hplace, Fin.getElem_fin, hkedge]

end AssignmentFlow

end Assignment
end ResidualFlow
end DbfAnonymizer.Vault
