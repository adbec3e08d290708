import DbfAnonymizer.Vault.FlowOptimum
import DbfAnonymizer.Vault.TextAllocation

/-! The network of the text plan is an assignment network, so a full flow routes every original. -/
namespace DbfAnonymizer.Vault
namespace PlanProblem
open Lib

variable {P : PlanProblem} {i r below index : ℕ} {row : Text × ℕ} {token : Text}

/-- The classes and reserved tokens that an original may take, as resources. -/
def Adjacent (P : PlanProblem) (i r : ℕ) : Prop := ∃ row, P.originals[i]? = some row ∧
  (r < row.2 ∨ ∃ index token, P.tokens[index]? = some token ∧ r = P.maxWidth + index ∧
    token.length ≤ row.2 ∧ token ≠ row.1)

def resourceCapacity (P : PlanProblem) (r : ℕ) : ℕ :=
  if r < P.maxWidth then (P.capacity (r + 1)).toNat else if r < P.maxWidth + P.tokens.length then 1 else 0

theorem le_maxWidth (h : row ∈ P.originals) : row.2 ≤ P.maxWidth :=
  (le_foldl_max _ 0).2 row.2 (List.mem_map_of_mem h)

theorem mem_originalEdges {edge : (ℕ × ℕ) × ℤ} : edge ∈ P.originalEdges (row, i) ↔ edge = ((0, 2 + i), 1) ∨
    (∃ below < row.2, edge = ((2 + i, P.classNode below), 1)) ∨
      ∃ index token, P.tokens[index]? = some token ∧ token.length ≤ row.2 ∧ token ≠ row.1 ∧
        edge = ((2 + i, P.tokenNode index), 1) := by
  simp only [originalEdges, List.cons_append, List.mem_cons, List.mem_append, List.mem_map, List.mem_range,
    List.mem_filter, decide_eq_true_eq]
  apply or_congr Iff.rfl
  apply or_congr
  · constructor
    · rintro ⟨below, hbelow, rfl⟩
      exact ⟨below, hbelow, rfl⟩
    · rintro ⟨below, hbelow, rfl⟩
      exact ⟨below, hbelow, rfl⟩
  · constructor
    · rintro ⟨⟨token, index⟩, ⟨hmem, hfit⟩, rfl⟩
      exact ⟨index, token, List.mk_mem_zipIdx_iff_getElem?.mp hmem, hfit.1, hfit.2, rfl⟩
    · rintro ⟨index, token, hget, hlength, hne, rfl⟩
      exact ⟨(token, index), ⟨List.mk_mem_zipIdx_iff_getElem?.mpr hget, hlength, hne⟩, rfl⟩

theorem mem_classEdges {edge : (ℕ × ℕ) × ℤ} : edge ∈ P.classEdges ↔ ∃ below < P.maxWidth,
    0 < P.capacity (below + 1) ∧ edge = ((P.classNode below, 1), P.capacity (below + 1)) := by
  simp only [classEdges, List.mem_map, List.mem_filter, List.mem_range, decide_eq_true_eq]
  constructor
  · rintro ⟨below, ⟨hbelow, hpos⟩, rfl⟩
    exact ⟨below, hbelow, hpos, rfl⟩
  · rintro ⟨below, hbelow, hpos, rfl⟩
    exact ⟨below, ⟨hbelow, hpos⟩, rfl⟩

theorem mem_tokenEdges {edge : (ℕ × ℕ) × ℤ} :
    edge ∈ P.tokenEdges ↔ ∃ index < P.tokens.length, edge = ((P.tokenNode index, 1), 1) := by
  simp only [tokenEdges, List.mem_map, List.mem_range]
  constructor
  · rintro ⟨index, hindex, rfl⟩
    exact ⟨index, hindex, rfl⟩
  · rintro ⟨index, hindex, rfl⟩
    exact ⟨index, hindex, rfl⟩

theorem mem_edges {edge : (ℕ × ℕ) × ℤ} : edge ∈ P.edges ↔
    (∃ i row, P.originals[i]? = some row ∧ edge ∈ P.originalEdges (row, i)) ∨ edge ∈ P.classEdges ∨
      edge ∈ P.tokenEdges := by
  simp only [edges, List.mem_append, List.mem_flatMap, or_assoc]
  apply or_congr ?_ Iff.rfl
  constructor
  · rintro ⟨⟨row, i⟩, hmem, hedge⟩
    exact ⟨i, row, List.mk_mem_zipIdx_iff_getElem?.mp hmem, hedge⟩
  · rintro ⟨i, row, hget, hedge⟩
    exact ⟨(row, i), List.mk_mem_zipIdx_iff_getElem?.mpr hget, hedge⟩

theorem nodup_originalEdges (h : row ∈ P.originals) : ((P.originalEdges (row, i)).map Prod.fst).Nodup := by
  have hwidth := le_maxWidth h
  have hclasses : (((List.range row.2).map fun below => ((2 + i, P.classNode below), (1 : ℤ))).map Prod.fst).Nodup := by
    rw [List.map_map]
    apply List.nodup_range.map
    intro a b hab
    simpa [classNode] using hab
  have htokens : (((P.tokens.zipIdx.filter fun token => token.1.length ≤ row.2 ∧ token.1 ≠ row.1).map
      fun token => ((2 + i, P.tokenNode token.2), (1 : ℤ))).map Prod.fst).Nodup := by
    have hindices : (P.tokens.zipIdx.map Prod.snd).Nodup := by
      rw [List.zipIdx_map_snd]
      exact List.nodup_range'
    rw [List.map_map]
    apply ((hindices.of_map).filter _).map_on
    rintro ⟨a, j⟩ ha ⟨b, k⟩ hb hab
    have hjk : j = k := by simpa [tokenNode] using hab
    have hja := List.mk_mem_zipIdx_iff_getElem?.mp (List.mem_of_mem_filter ha)
    have hkb := List.mk_mem_zipIdx_iff_getElem?.mp (List.mem_of_mem_filter hb)
    rw [← hjk, hja] at hkb
    rw [Option.some.inj hkb, hjk]
  simp only [originalEdges, List.cons_append, List.map_cons, List.map_append, List.nodup_cons]
  constructor
  · simp only [List.map_map, List.mem_append, List.mem_map, Function.comp_apply, Prod.mk.injEq]
    rintro (⟨_, -, heq, -⟩ | ⟨_, -, heq, -⟩) <;> omega
  · apply hclasses.append htokens
    intro arc hclass htoken
    simp only [List.map_map, List.mem_map, Function.comp_apply, List.mem_range] at hclass htoken
    obtain ⟨below, hbelow, rfl⟩ := hclass
    obtain ⟨token, -, heq⟩ := htoken
    have := (Prod.mk.inj heq).2
    simp only [tokenNode, classNode] at this
    omega

theorem tail_lt_classNode {edge : (ℕ × ℕ) × ℤ} (h : edge ∈ P.originals.zipIdx.flatMap P.originalEdges) :
    edge.1.1 < P.classNode 0 := by
  obtain ⟨⟨row, i⟩, hmem, hedge⟩ := List.mem_flatMap.mp h
  have hi := (List.getElem?_eq_some_iff.mp (List.mk_mem_zipIdx_iff_getElem?.mp hmem)).1
  unfold classNode
  rcases mem_originalEdges.mp hedge with rfl | ⟨_, -, rfl⟩ | ⟨_, _, -, -, -, rfl⟩ <;> dsimp only <;> omega

theorem nodup_edges : (P.edges.map Prod.fst).Nodup := by
  have hclasses : (P.classEdges.map Prod.fst).Nodup := by
    rw [classEdges, List.map_map]
    apply (List.nodup_range.filter _).map
    intro a b hab
    simpa [classNode] using hab
  have htokens : (P.tokenEdges.map Prod.fst).Nodup := by
    rw [tokenEdges, List.map_map]
    apply List.nodup_range.map
    intro a b hab
    simpa [tokenNode] using hab
  have horiginals : ((P.originals.zipIdx.flatMap P.originalEdges).map Prod.fst).Nodup := by
    rw [List.map_flatMap, List.nodup_flatMap]
    constructor
    · rintro ⟨row, i⟩ hmem
      exact nodup_originalEdges (List.mem_of_getElem? (List.mk_mem_zipIdx_iff_getElem?.mp hmem))
    · have hindices : (P.originals.zipIdx.map Prod.snd).Pairwise (· ≠ ·) := by
        rw [List.zipIdx_map_snd]
        exact List.nodup_range'
      apply (List.pairwise_map.mp hindices).imp
      rintro ⟨row, i⟩ ⟨other, j⟩ hij arc harc harc'
      obtain ⟨edge, hedge, rfl⟩ := List.mem_map.mp harc
      obtain ⟨edge', hedge', heq⟩ := List.mem_map.mp harc'
      apply hij
      rcases mem_originalEdges.mp hedge with rfl | ⟨_, -, rfl⟩ | ⟨_, _, -, -, -, rfl⟩ <;>
        rcases mem_originalEdges.mp hedge' with rfl | ⟨_, -, rfl⟩ | ⟨_, _, -, -, -, rfl⟩ <;>
          simp only [Prod.mk.injEq] at heq <;> dsimp only <;> omega
  rw [edges, List.map_append, List.map_append]
  apply List.Nodup.append (horiginals.append hclasses ?_) htokens
  · intro arc harc htoken
    obtain ⟨edge', hedge', rfl⟩ := List.mem_map.mp htoken
    obtain ⟨index, -, rfl⟩ := mem_tokenEdges.mp hedge'
    rcases List.mem_append.mp harc with harc | harc
    · obtain ⟨edge, hedge, heq⟩ := List.mem_map.mp harc
      have hlt := tail_lt_classNode hedge
      rw [heq] at hlt
      simp only [tokenNode, classNode] at hlt
      omega
    · obtain ⟨edge, hedge, heq⟩ := List.mem_map.mp harc
      obtain ⟨below, hbelow, -, rfl⟩ := mem_classEdges.mp hedge
      simp only [Prod.mk.injEq, tokenNode, classNode] at heq
      omega
  · intro arc harc hclass
    obtain ⟨edge', hedge', rfl⟩ := List.mem_map.mp hclass
    obtain ⟨below, -, -, rfl⟩ := mem_classEdges.mp hedge'
    obtain ⟨edge, hedge, heq⟩ := List.mem_map.mp harc
    have hlt := tail_lt_classNode hedge
    rw [heq] at hlt
    simp only [classNode] at hlt
    omega

theorem resourceCapacity_class (h : below < P.maxWidth) :
    P.resourceCapacity below = (P.capacity (below + 1)).toNat := if_pos h

theorem resourceCapacity_token (h : index < P.tokens.length) : P.resourceCapacity (P.maxWidth + index) = 1 := by
  rw [resourceCapacity, if_neg (by omega), if_pos (by omega)]

theorem assignmentNetwork (P : PlanProblem) :
    ResidualFlow.AssignmentNetwork P.edges P.originals.length P.Adjacent P.resourceCapacity where
  nodup := nodup_edges
  mem_iff edge := by
    rw [mem_edges]
    constructor
    · rintro (⟨i, row, hrow, hedge⟩ | hedge | hedge)
      · have hi := (List.getElem?_eq_some_iff.mp hrow).1
        rcases mem_originalEdges.mp hedge with rfl | ⟨below, hbelow, rfl⟩ | ⟨index, token, hget, hlength, hne, rfl⟩
        · exact Or.inl ⟨i, hi, rfl⟩
        · exact Or.inr (Or.inl ⟨i, hi, below, ⟨row, hrow, Or.inl hbelow⟩, rfl⟩)
        · exact Or.inr (Or.inl ⟨i, hi, _, ⟨row, hrow, Or.inr ⟨index, token, hget, rfl, hlength, hne⟩⟩, rfl⟩)
      · obtain ⟨below, hbelow, hpos, rfl⟩ := mem_classEdges.mp hedge
        refine Or.inr (Or.inr ⟨below, ?_, ?_⟩)
        · rw [resourceCapacity_class hbelow]
          omega
        · rw [resourceCapacity_class hbelow, Int.toNat_of_nonneg hpos.le]
          rfl
      · obtain ⟨index, hindex, rfl⟩ := mem_tokenEdges.mp hedge
        refine Or.inr (Or.inr ⟨P.maxWidth + index, ?_, ?_⟩)
        · rw [resourceCapacity_token hindex]
          exact zero_lt_one
        · rw [resourceCapacity_token hindex]
          rfl
    · rintro (⟨i, hi, rfl⟩ | ⟨i, -, r, ⟨row, hrow, hadj⟩, rfl⟩ | ⟨r, hpos, rfl⟩)
      · exact Or.inl ⟨i, P.originals[i], List.getElem?_eq_getElem hi, mem_originalEdges.mpr (Or.inl rfl)⟩
      · refine Or.inl ⟨i, row, hrow, mem_originalEdges.mpr (Or.inr ?_)⟩
        rcases hadj with hbelow | ⟨index, token, hget, rfl, hlength, hne⟩
        · exact Or.inl ⟨r, hbelow, rfl⟩
        · exact Or.inr ⟨index, token, hget, hlength, hne, rfl⟩
      · by_cases hclass : r < P.maxWidth
        · rw [resourceCapacity_class hclass] at hpos ⊢
          rw [Int.toNat_of_nonneg (by omega)]
          exact Or.inr (Or.inl (mem_classEdges.mpr ⟨r, hclass, by omega, rfl⟩))
        · obtain ⟨index, rfl⟩ := Nat.exists_eq_add_of_le (not_lt.mp hclass)
          have hindex : index < P.tokens.length := by
            by_contra hlong
            rw [resourceCapacity, if_neg hclass, if_neg (by omega)] at hpos
            exact absurd hpos (lt_irrefl 0)
          rw [resourceCapacity_token hindex]
          exact Or.inr (Or.inr (mem_tokenEdges.mpr ⟨index, hindex, rfl⟩))

theorem nodes_lt {edge : (ℕ × ℕ) × ℤ} (h : edge ∈ P.edges) : edge.1.1 < P.nodeCount ∧ edge.1.2 < P.nodeCount := by
  unfold nodeCount
  rcases mem_edges.mp h with ⟨i, row, hrow, hedge⟩ | hedge | hedge
  · have hi := (List.getElem?_eq_some_iff.mp hrow).1
    have hwidth := le_maxWidth (List.mem_of_getElem? hrow)
    rcases mem_originalEdges.mp hedge with rfl | ⟨below, hbelow, rfl⟩ | ⟨index, token, hget, -, -, rfl⟩
    · dsimp only
      omega
    · simp only [classNode]
      omega
    · have hindex := (List.getElem?_eq_some_iff.mp hget).1
      simp only [tokenNode]
      omega
  · obtain ⟨below, hbelow, -, rfl⟩ := mem_classEdges.mp hedge
    simp only [classNode]
    omega
  · obtain ⟨index, hindex, rfl⟩ := mem_tokenEdges.mp hedge
    simp only [tokenNode]
    omega

def flowProblem (P : PlanProblem) : FlowProblem where
  nodeCount := P.nodeCount
  edges := P.edges
  source := 0
  sink := 1
  nodes_lt _ := nodes_lt
  capacity_nonneg := P.assignmentNetwork.capacity_nonneg
  source_lt := by
    unfold nodeCount
    omega
  sink_lt := by
    unfold nodeCount
    omega
  source_ne_sink := zero_ne_one

end PlanProblem

open ResidualFlow in
/-- The maximum flow is right on every network, and on the plan's network a flow that meets the demand uses up
one edge of each original, along which the original is routed. -/
theorem maxFlow_correct :
    (∀ (F : FlowProblem) (demand : ℕ), ∃ best after, F.IsMaximum best ∧
      F.maxFlow demand = some (after, min (demand : ℤ) best) ∧ F.Leaves (min (demand : ℤ) best) after) ∧
    ∀ (P : PlanProblem) (after : ResidualFlow) (flow : ℤ),
      P.flowProblem.maxFlow P.originals.length = some (after, flow) → flow = P.originals.length →
        ∀ i < P.originals.length, ∃ k : Fin P.edges.length,
          (∀ j : Fin P.edges.length, P.edges[j].1.1 = 2 + i ∧ after.forward j = 0 ↔ j = k) ∧
            after.routedTarget (2 + i) = some P.edges[k].1.2 := by
  constructor
  · intro F demand
    obtain ⟨best, after, hbest, hrun, harcs, hbalanced⟩ := F.exists_maxFlow demand
    exact ⟨best, after, hbest, hrun, F.leaves_of_balanced hbalanced harcs⟩
  · intro P after flow hrun hflow i hi
    obtain ⟨best, after', -, hrun', harcs, hbalanced⟩ := P.flowProblem.exists_maxFlow P.originals.length
    obtain ⟨rfl, rfl⟩ := Prod.mk.inj (Option.some.inj (hrun.symm.trans hrun'))
    have h : AssignmentFlow P.edges P.originals.length P.Adjacent P.resourceCapacity after
      (min (P.originals.length : ℤ) best) := ⟨P.assignmentNetwork, hbalanced, harcs⟩
    exact h.exists_saturated hflow hi

/-- Two originals that are the only tokens left, so each must take the other. -/
def swapPlan : PlanProblem := ⟨[(['a'], 1), (['b'], 1)], [['a'], ['b']], fun _ => 0⟩

theorem maxFlow_correct_swap : ∃ after, swapPlan.flowProblem.maxFlow 2 = some (after, 2) ∧
    ∀ i < 2, ∃ k : Fin swapPlan.edges.length,
      (∀ j : Fin swapPlan.edges.length, swapPlan.edges[j].1.1 = 2 + i ∧ after.forward j = 0 ↔ j = k) ∧
        after.routedTarget (2 + i) = some swapPlan.edges[k].1.2 := by
  have hvalue : (swapPlan.flowProblem.maxFlow 2).map Prod.snd = some 2 := by decide +kernel
  obtain ⟨⟨after, flow⟩, hrun, hflow⟩ := Option.map_eq_some_iff.mp hvalue
  obtain rfl : flow = 2 := hflow
  exact ⟨after, hrun, maxFlow_correct.2 swapPlan after 2 hrun rfl⟩

end DbfAnonymizer.Vault
