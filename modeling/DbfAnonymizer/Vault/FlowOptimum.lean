import DbfAnonymizer.Lib.Flow
import DbfAnonymizer.Vault.FlowAssignment

/-! The maximum flow returns the demand, or the greatest flow value when that is less. -/
namespace DbfAnonymizer.Vault
namespace ResidualFlow
open Lib Finset

variable {net : ResidualFlow} {nodeCount : ℕ} {edges : List ((ℕ × ℕ) × ℤ)} {source sink : ℕ} {value : ℤ}

/-- The flow network of the edges, each known by its position. -/
def network (edges : List ((ℕ × ℕ) × ℤ)) : FlowNetwork ℕ (Fin edges.length) where
  tail k := edges[k].1.1
  head k := edges[k].1.2
  capacity k := edges[k].2

/-- The amounts that the backward entries hold. -/
def amounts (net : ResidualFlow) (edges : List ((ℕ × ℕ) × ℤ)) (k : Fin edges.length) : ℤ := net.backward k

theorem capacityOf_eq (k : Fin edges.length) : capacityOf edges k = (network edges).capacity k := by
  rw [capacityOf, List.getElem?_eq_getElem k.isLt]
  rfl

theorem netOut_network (harcs : net.arcs = edges.map Prod.fst) (v : ℕ) :
    (network edges).netOut (net.amounts edges) v = net.netOut v := by
  have hlength : net.arcs.length = edges.length := by rw [harcs, List.length_map]
  have hedge : ∀ k : Fin edges.length, net.arcs[Fin.cast hlength.symm k] = edges[k].1 := by
    intro k
    simp [harcs]
  calc (network edges).netOut (net.amounts edges) v
      = ∑ k : Fin edges.length, net.backward k * incidence edges[k].1 v := by
        rw [FlowNetwork.netOut, sum_filter, sum_filter, ← sum_sub_distrib]
        apply sum_congr rfl
        intro k _
        simp only [network, amounts, incidence, mul_sub, mul_ite, mul_one, mul_zero]
        rfl
    _ = ∑ k : Fin net.arcs.length, net.backward k * incidence net.arcs[k] v := by
        apply Fintype.sum_equiv (finCongr hlength.symm)
        intro k
        rw [← hedge k]
        rfl

theorem Balanced.isFlow (h : net.Balanced (capacityOf edges) source sink value)
    (harcs : net.arcs = edges.map Prod.fst) (hne : source ≠ sink) :
    (network edges).IsFlow source sink value (net.amounts edges) where
  nonneg k := h.backward_nonneg k
  le_capacity k := by
    have hsum := h.sum_eq k
    have hforward := h.forward_nonneg k
    rw [capacityOf_eq] at hsum
    rw [amounts]
    linarith
  conserved v hsource hsink := by
    rw [netOut_network harcs, h.netOut_eq, incidence, if_neg hsource.symm, if_neg hsink.symm]
    ring
  value_eq := by
    rw [netOut_network harcs, h.netOut_eq, incidence, if_pos rfl, if_neg hne.symm]
    ring

/-- Entries without capacity around the source make the flow a maximum. -/
theorem Separates.isMaximum {reached : ℕ → Prop} (hseparates : net.Separates source sink reached)
    (h : net.Balanced (capacityOf edges) source sink value) (harcs : net.arcs = edges.map Prod.fst)
    (hnodes : ∀ edge ∈ edges, edge.1.1 < nodeCount ∧ edge.1.2 < nodeCount) (hsource : source < nodeCount)
    (hne : source ≠ sink) : (network edges).IsMaximum source sink value := by
  classical
  have hmem : ∀ {v}, v < nodeCount → (v ∈ {v ∈ range nodeCount | reached v} ↔ reached v) := by
    intro v hv
    rw [mem_filter, mem_range]
    exact and_iff_right hv
  have hvalid : ∀ (k : Fin edges.length) (isForward : Bool), net.Valid ⟨k, isForward,
      if isForward then edges[k].1.1 else edges[k].1.2, if isForward then edges[k].1.2 else edges[k].1.1⟩ := by
    intro k isForward
    have harc : net.arcs[(k : ℕ)]? = some edges[k].1 := by simp [harcs]
    cases isForward <;> exact harc
  have hends : ∀ k : Fin edges.length, edges[k].1.1 < nodeCount ∧ edges[k].1.2 < nodeCount :=
    fun k => hnodes _ (List.getElem_mem k.isLt)
  apply (h.isFlow harcs hne).isMaximum ((hmem hsource).mpr hseparates.source_reached)
  · intro hsink
    exact hseparates.sink_not_reached (mem_filter.mp hsink).2
  · intro k htail hhead
    have hclosed : net.forward k ≤ 0 := by
      by_contra hopen
      apply hhead
      apply (hmem (hends k).2).mpr
      exact hseparates.closed _ ⟨hvalid k true, not_le.mp hopen⟩ ((hmem (hends k).1).mp htail)
    have hsum := h.sum_eq k
    have hforward := h.forward_nonneg k
    rw [← capacityOf_eq, amounts]
    linarith
  · intro k htail hhead
    have hclosed : net.backward k ≤ 0 := by
      by_contra hopen
      apply htail
      apply (hmem (hends k).1).mpr
      exact hseparates.closed _ ⟨hvalid k false, not_le.mp hopen⟩ ((hmem (hends k).2).mp hhead)
    exact le_antisymm hclosed (h.backward_nonneg k)

end ResidualFlow

/-- A network built with `add_edge`, whose nodes are in range, and the two ends of the flow. -/
structure FlowProblem where
  nodeCount : ℕ
  edges : List ((ℕ × ℕ) × ℤ)
  source : ℕ
  sink : ℕ
  nodes_lt : ∀ edge ∈ edges, edge.1.1 < nodeCount ∧ edge.1.2 < nodeCount
  capacity_nonneg : ∀ edge ∈ edges, 0 ≤ edge.2
  source_lt : source < nodeCount
  sink_lt : sink < nodeCount
  source_ne_sink : source ≠ sink

namespace FlowProblem
open ResidualFlow Lib
variable (F : FlowProblem)

def maxFlow (demand : ℤ) : Option (ResidualFlow × ℤ) :=
  (ofEdges F.nodeCount F.edges).maxFlow F.source F.sink demand

/-- The greatest value of a flow from the source to the sink. -/
def IsMaximum (best : ℤ) : Prop := (network F.edges).IsMaximum F.source F.sink best

/-- What a run leaves: a flow of the value it returned, in entries that hold it and the capacity it leaves. -/
structure Leaves (value : ℤ) (after : ResidualFlow) : Prop where
  isFlow : (network F.edges).IsFlow F.source F.sink value (after.amounts F.edges)
  forward_eq : ∀ k : Fin F.edges.length, after.forward k = F.edges[k].2 - after.amounts F.edges k
  arcs_eq : after.arcs = F.edges.map Prod.fst

variable {F}

theorem leaves_of_balanced {value : ℤ} {after : ResidualFlow}
    (h : after.Balanced (capacityOf F.edges) F.source F.sink value) (harcs : after.arcs = F.edges.map Prod.fst) :
    F.Leaves value after where
  isFlow := h.isFlow harcs F.source_ne_sink
  forward_eq k := by
    have hsum := h.sum_eq k
    rw [capacityOf_eq] at hsum
    exact eq_sub_of_add_eq hsum
  arcs_eq := harcs

variable (F)

/-- The maximum flow ends with the demand, or with the greatest value of a flow when that is less. -/
theorem exists_maxFlow (demand : ℕ) : ∃ best after, F.IsMaximum best ∧
    F.maxFlow demand = some (after, min (demand : ℤ) best) ∧ after.arcs = F.edges.map Prod.fst ∧
      after.Balanced (capacityOf F.edges) F.source F.sink (min (demand : ℤ) best) := by
  obtain ⟨after, flow, hrun, hmaximal⟩ := ResidualFlow.exists_maxFlow F.capacity_nonneg F.nodes_lt F.source_lt
    F.source_ne_sink (Nat.cast_nonneg demand)
  have harcs : after.arcs = F.edges.map Prod.fst := hmaximal.arcs_eq.trans arcs_ofEdges
  have hcapacity : ∀ k, 0 ≤ (network F.edges).capacity k := fun k => F.capacity_nonneg _ (List.getElem_mem k.isLt)
  obtain ⟨best, -, hbest⟩ := FlowNetwork.exists_isMaximum hcapacity F.source_ne_sink
  have hflow : flow = min (demand : ℤ) best := by
    rcases hmaximal.full_or_separated with hfull | ⟨reached, hseparates⟩
    · have hle := (hmaximal.balanced.isFlow harcs F.source_ne_sink).le_maximum hbest
      rw [hfull, min_eq_left (hfull ▸ hle)]
    · have hmaximum := hseparates.isMaximum hmaximal.balanced harcs F.nodes_lt F.source_lt F.source_ne_sink
      rw [hbest.unique hmaximum, min_eq_right hmaximal.flow_le]
  have hbalanced := hmaximal.balanced
  rw [hflow] at hrun hbalanced
  exact ⟨best, after, hbest, hrun, harcs, hbalanced⟩

end FlowProblem
end DbfAnonymizer.Vault
