import DbfAnonymizer.Vault.FlowPush

/-! The maximum flow ends, on the demand or on a cut. -/
namespace DbfAnonymizer.Vault
namespace ResidualFlow
variable {net after : ResidualFlow} {capacity : ℕ → ℤ} {source sink : ℕ} {value demand : ℤ}

/-- Nodes around the source that no open entry leaves. -/
structure Separates (net : ResidualFlow) (source sink : ℕ) (reached : ℕ → Prop) : Prop where
  source_reached : reached source
  sink_not_reached : ¬ reached sink
  closed : ∀ edge, net.Open edge → reached edge.origin → reached edge.target

theorem Labelled.separates {levels : ℕ → ℤ} (h : net.Labelled source levels []) (hsink : levels sink = -1) :
    net.Separates source sink (levels · ≠ -1) where
  source_reached := by
    rw [h.source_level]
    decide
  sink_not_reached := not_not.mpr hsink
  closed edge hopen horigin := h.closed edge hopen horigin (by simp)

/-- The network that a maximum flow leaves: it carries the demand, or nothing more can pass. -/
structure Maximal (capacity : ℕ → ℤ) (source sink : ℕ) (demand : ℤ) (net after : ResidualFlow) (flow : ℤ) :
    Prop where
  balanced : after.Balanced capacity source sink flow
  arcs_eq : after.arcs = net.arcs
  flow_le : flow ≤ demand
  full_or_separated : flow = demand ∨ ∃ reached, after.Separates source sink reached

theorem exists_flowLoop (hbalanced : net.Balanced capacity source sink value) (hwell : net.WellFormed)
    (hsource : source < net.nodeCount) (hne : source ≠ sink) (hle : value ≤ demand) {fuel : ℕ}
    (hfuel : (demand - value).toNat < fuel) :
    ∃ after flow, flowLoop source sink demand fuel net value = some (after, flow) ∧
      Maximal capacity source sink demand net after flow := by
  induction fuel generalizing net value with
  | zero => omega
  | succ fuel ih =>
    rw [flowLoop]
    split_ifs with hfull
    · exact ⟨net, value, rfl, hbalanced, rfl, hle, Or.inl (le_antisymm hle hfull)⟩
    · obtain ⟨levels, queue, hbfs, hlabelled, hqueue⟩ := exists_bfs source sink hwell
      rw [hbfs]
      dsimp only
      split_ifs with hsink
      · rw [hqueue hsink] at hlabelled
        exact ⟨net, value, rfl, hbalanced, rfl, hle, Or.inr ⟨_, hlabelled.separates hsink⟩⟩
      · obtain ⟨pushed, total, hpush, hpushed⟩ := exists_blockingPush hbalanced hwell hsource hne hlabelled hsink
          (show 0 < demand - value by omega)
        rw [hpush]
        dsimp only
        have hpos := hpushed.total_pos
        have hlimit := hpushed.total_le
        have hwell' : pushed.WellFormed := by
          intro arc harc
          rw [hpushed.nodeCount_eq]
          exact hwell arc (hpushed.arcs_eq ▸ harc)
        obtain ⟨after, flow, hloop, hmaximal⟩ := ih hpushed.balanced hwell' (hpushed.nodeCount_eq ▸ hsource)
          (by omega) (by omega)
        exact ⟨after, flow, hloop, hmaximal.balanced, hmaximal.arcs_eq.trans hpushed.arcs_eq, hmaximal.flow_le,
          hmaximal.full_or_separated⟩

section Edges
variable {nodeCount : ℕ} {edges : List ((ℕ × ℕ) × ℤ)}

theorem foldl_addEdge (edges : List ((ℕ × ℕ) × ℤ)) (net : ResidualFlow) :
    (edges.foldl addEdge net).nodeCount = net.nodeCount ∧ (edges.foldl addEdge net).arcs = net.arcs ++ edges.map Prod.fst ∧
      (∀ k, (edges.foldl addEdge net).backward k = if net.arcs.length ≤ k ∧ k < net.arcs.length + edges.length then 0
        else net.backward k) ∧
      ∀ k, (edges.foldl addEdge net).forward k =
        if net.arcs.length ≤ k then ((edges[k - net.arcs.length]?).map Prod.snd).getD (net.forward k)
        else net.forward k := by
  induction edges generalizing net with
  | nil => simp
  | cons edge edges ih =>
    obtain ⟨hcount, harcs, hbackward, hforward⟩ := ih (net.addEdge edge)
    have hlength : (net.addEdge edge).arcs.length = net.arcs.length + 1 := by simp [addEdge]
    rw [List.foldl_cons]
    refine ⟨hcount, by rw [harcs]; simp [addEdge], fun k => ?_, fun k => ?_⟩
    · rw [hbackward, hlength, List.length_cons]
      by_cases hk : k = net.arcs.length
      · subst hk
        rw [if_neg (by omega), if_pos (by omega)]
        simp [addEdge]
      · have hsame : (net.addEdge edge).backward k = net.backward k := by simp [addEdge, hk]
        rw [hsame]
        split_ifs <;> first | rfl | omega
    · rw [hforward, hlength]
      by_cases hk : k = net.arcs.length
      · subst hk
        rw [if_neg (by omega), if_pos le_rfl]
        simp [addEdge]
      · have hsame : (net.addEdge edge).forward k = net.forward k := by simp [addEdge, hk]
        rw [hsame]
        by_cases hle : net.arcs.length ≤ k
        · obtain ⟨j, rfl⟩ : ∃ j, k = net.arcs.length + 1 + j := ⟨k - (net.arcs.length + 1), by omega⟩
          rw [if_pos (by omega), if_pos hle, Nat.add_sub_cancel_left,
            show net.arcs.length + 1 + j - net.arcs.length = j + 1 by omega, List.getElem?_cons_succ]
        · rw [if_neg (by omega), if_neg hle]

/-- The capacity of an edge by its position. -/
def capacityOf (edges : List ((ℕ × ℕ) × ℤ)) (k : ℕ) : ℤ := ((edges[k]?).map Prod.snd).getD 0

@[simp] theorem arcs_ofEdges : (ofEdges nodeCount edges).arcs = edges.map Prod.fst := by
  rw [ofEdges, (foldl_addEdge edges (empty nodeCount)).2.1]
  rfl

@[simp] theorem nodeCount_ofEdges : (ofEdges nodeCount edges).nodeCount = nodeCount :=
  (foldl_addEdge edges (empty nodeCount)).1

theorem balanced_ofEdges (hnonneg : ∀ edge ∈ edges, 0 ≤ edge.2) :
    (ofEdges nodeCount edges).Balanced (capacityOf edges) source sink 0 := by
  obtain ⟨-, -, hbackward, hforward⟩ := foldl_addEdge edges (empty nodeCount)
  have hzero : ∀ k, (ofEdges nodeCount edges).backward k = 0 := by
    intro k
    rw [ofEdges, hbackward]
    split_ifs <;> rfl
  have hcapacity : ∀ k, (ofEdges nodeCount edges).forward k = capacityOf edges k := by
    intro k
    rw [ofEdges, hforward]
    exact if_pos (Nat.zero_le k)
  refine ⟨fun k => ?_, fun k => (hzero k).ge, fun k => by rw [hzero, hcapacity, add_zero], fun v => ?_⟩
  · rw [hcapacity, capacityOf]
    cases hedge : edges[k]? with
    | none => exact le_rfl
    | some edge => exact hnonneg edge (List.mem_of_getElem? hedge)
  · simp [netOut, hzero]

theorem exists_maxFlow (hnonneg : ∀ edge ∈ edges, 0 ≤ edge.2)
    (hnodes : ∀ edge ∈ edges, edge.1.1 < nodeCount ∧ edge.1.2 < nodeCount) (hsource : source < nodeCount)
    (hne : source ≠ sink) (hdemand : 0 ≤ demand) :
    ∃ after flow, (ofEdges nodeCount edges).maxFlow source sink demand = some (after, flow) ∧
      Maximal (capacityOf edges) source sink demand (ofEdges nodeCount edges) after flow := by
  have hwell : (ofEdges nodeCount edges).WellFormed := by
    intro arc harc
    rw [arcs_ofEdges] at harc
    obtain ⟨edge, hedge, rfl⟩ := List.mem_map.mp harc
    rw [nodeCount_ofEdges]
    exact hnodes edge hedge
  exact exists_flowLoop (balanced_ofEdges hnonneg) hwell (nodeCount_ofEdges.symm ▸ hsource) hne hdemand (by omega)

end Edges
end ResidualFlow
end DbfAnonymizer.Vault
