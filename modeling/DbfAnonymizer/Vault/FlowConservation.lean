import DbfAnonymizer.Vault.ResidualFlow

/-! What pushing along a path keeps of the capacities and of the flow balance. -/
namespace DbfAnonymizer.Vault

namespace ResidualFlow
variable {net : ResidualFlow}

/-- An entry of the network's adjacency lists. -/
def Valid (net : ResidualFlow) (edge : FlowEdge) : Prop :=
  net.arcs[edge.arc]? = some (if edge.isForward then (edge.origin, edge.target) else (edge.target, edge.origin))

theorem mem_entries {node : ℕ} {edge : FlowEdge} : edge ∈ net.entries node ↔ net.Valid edge ∧ edge.origin = node := by
  unfold entries Valid
  rw [List.mem_flatMap]
  constructor
  · rintro ⟨⟨⟨u, v⟩, k⟩, harc, hedge⟩
    rw [List.mk_mem_zipIdx_iff_getElem?] at harc
    rcases List.mem_append.mp hedge with hedge | hedge
    · split_ifs at hedge with hu
      · obtain rfl := List.mem_singleton.mp hedge
        exact ⟨harc, hu⟩
      · cases hedge
    · split_ifs at hedge with hv
      · obtain rfl := List.mem_singleton.mp hedge
        exact ⟨harc, hv⟩
      · cases hedge
  · rintro ⟨harc, rfl⟩
    obtain ⟨k, isForward, u, v⟩ := edge
    cases isForward with
    | true => exact ⟨((u, v), k), List.mk_mem_zipIdx_iff_getElem?.mpr harc, by simp [entriesOf]⟩
    | false => exact ⟨((v, u), k), List.mk_mem_zipIdx_iff_getElem?.mpr harc, by simp [entriesOf]⟩

/-- Whether an arc leaves a node (`1`), enters it (`-1`) or neither. -/
def incidence (arc : ℕ × ℕ) (node : ℕ) : ℤ := (if arc.1 = node then 1 else 0) - if arc.2 = node then 1 else 0

/-- The flow that leaves a node, less the flow that enters it; the flow of an arc is its backward capacity. -/
def netOut (net : ResidualFlow) (node : ℕ) : ℤ :=
  ∑ k : Fin net.arcs.length, net.backward k * incidence net.arcs[k] node

@[simp] theorem arcs_push (amount : ℤ) (edge : FlowEdge) : (net.push amount edge).arcs = net.arcs := rfl

theorem netOut_push {edge : FlowEdge} (h : net.Valid edge) (amount : ℤ) (node : ℕ) :
    (push amount net edge).netOut node = net.netOut node + amount * incidence (edge.origin, edge.target) node := by
  obtain ⟨hlt, harc⟩ := List.getElem?_eq_some_iff.mp h
  let sign : ℤ := if edge.isForward then amount else -amount
  have hbackward : ∀ k : Fin net.arcs.length, (push amount net edge).backward k =
      net.backward k + if k = ⟨edge.arc, hlt⟩ then sign else 0 := by
    intro k
    by_cases hk : k = ⟨edge.arc, hlt⟩
    · subst hk
      simp [push, sign]
    · have hne : (k : ℕ) ≠ edge.arc := fun heq => hk (Fin.ext heq)
      simp [push, Function.update_of_ne hne, hk]
  have hsign : sign * incidence net.arcs[edge.arc] node = amount * incidence (edge.origin, edge.target) node := by
    rw [harc]
    obtain ⟨k, isForward, u, v⟩ := edge
    cases isForward with
    | true => rfl
    | false =>
      simp only [sign, incidence, Bool.false_eq_true, if_false]
      ring
  calc (push amount net edge).netOut node
      = ∑ k : Fin net.arcs.length, (push amount net edge).backward k * incidence net.arcs[k] node := rfl
    _ = ∑ k : Fin net.arcs.length, (net.backward k * incidence net.arcs[k] node +
          if k = ⟨edge.arc, hlt⟩ then sign * incidence net.arcs[k] node else 0) := by
        apply Finset.sum_congr rfl
        intro k _
        rw [hbackward k]
        split_ifs <;> ring
    _ = net.netOut node + sign * incidence net.arcs[edge.arc] node := by
        rw [Finset.sum_add_distrib, Finset.sum_ite_eq' Finset.univ, if_pos (Finset.mem_univ _)]
        rfl
    _ = net.netOut node + amount * incidence (edge.origin, edge.target) node := by rw [hsign]

/-- A path of entries, the last edge first, from the source to a node. -/
def PathTo (net : ResidualFlow) (source : ℕ) : List FlowEdge → ℕ → Prop
  | [], node => node = source
  | edge :: path, node => net.Valid edge ∧ edge.target = node ∧ PathTo net source path edge.origin

def pushPath (amount : ℤ) (net : ResidualFlow) (path : List FlowEdge) : ResidualFlow :=
  path.reverse.foldl (push amount) net

theorem pushPath_cons (amount : ℤ) (edge : FlowEdge) (path : List FlowEdge) :
    pushPath amount net (edge :: path) = push amount (pushPath amount net path) edge := by
  simp [pushPath]

@[simp] theorem arcs_pushPath (amount : ℤ) (path : List FlowEdge) : (pushPath amount net path).arcs = net.arcs := by
  induction path with
  | nil => rfl
  | cons edge path ih => rw [pushPath_cons, arcs_push, ih]

@[simp] theorem nodeCount_pushPath (amount : ℤ) (path : List FlowEdge) :
    (pushPath amount net path).nodeCount = net.nodeCount := by
  induction path with
  | nil => rfl
  | cons edge path ih =>
    rw [pushPath_cons, ← ih]
    rfl

theorem netOut_pushPath {source : ℕ} {path : List FlowEdge} {node : ℕ} (h : net.PathTo source path node)
    (amount : ℤ) (v : ℕ) :
    (pushPath amount net path).netOut v = net.netOut v + amount * incidence (source, node) v := by
  induction path generalizing node with
  | nil =>
    obtain rfl : node = source := h
    simp [pushPath, incidence]
  | cons edge path ih =>
    obtain ⟨hvalid, rfl, hpath⟩ := h
    have hvalid' : (pushPath amount net path).Valid edge := by
      rw [Valid, arcs_pushPath]
      exact hvalid
    rw [pushPath_cons, netOut_push hvalid', ih hpath]
    simp only [incidence]
    ring

theorem residual_push_of_ne {edge f : FlowEdge} (h : f.arc ≠ edge.arc) (amount : ℤ) :
    (push amount net edge).residual f = net.residual f := by
  simp [push, residual, Function.update_of_ne h]

theorem residual_pushPath_of_notMem {path : List FlowEdge} {f : FlowEdge} (h : f.arc ∉ path.map FlowEdge.arc)
    (amount : ℤ) : (pushPath amount net path).residual f = net.residual f := by
  induction path with
  | nil => rfl
  | cons edge path ih =>
    obtain ⟨hne, hpath⟩ := not_or.mp (List.mem_cons.not.mp h)
    rw [pushPath_cons, residual_push_of_ne hne, ih hpath]

/-- The capacities of the arcs, split between their two entries, and the balance at every node. -/
structure Balanced (capacity : ℕ → ℤ) (source sink : ℕ) (value : ℤ) (net : ResidualFlow) : Prop where
  forward_nonneg : ∀ k, 0 ≤ net.forward k
  backward_nonneg : ∀ k, 0 ≤ net.backward k
  sum_eq : ∀ k, net.forward k + net.backward k = capacity k
  netOut_eq : ∀ v, net.netOut v = value * incidence (source, sink) v

theorem pushPath_nonneg {path : List FlowEdge} {amount : ℤ} (hforward : ∀ k, 0 ≤ net.forward k)
    (hbackward : ∀ k, 0 ≤ net.backward k) (hpos : 0 ≤ amount) (hnodup : (path.map FlowEdge.arc).Nodup)
    (hresidual : ∀ edge ∈ path, amount ≤ net.residual edge) :
    (∀ k, 0 ≤ (pushPath amount net path).forward k) ∧ ∀ k, 0 ≤ (pushPath amount net path).backward k := by
  induction path with
  | nil => exact ⟨hforward, hbackward⟩
  | cons edge path ih =>
    obtain ⟨hnot, hnodup⟩ := List.nodup_cons.mp hnodup
    obtain ⟨hf, hb⟩ := ih hnodup fun e he => hresidual e (List.mem_cons_of_mem _ he)
    have hedge := hresidual edge List.mem_cons_self
    rw [← residual_pushPath_of_notMem hnot amount] at hedge
    have hfk := hf edge.arc
    have hbk := hb edge.arc
    rw [pushPath_cons]
    constructor
    · intro k
      by_cases hk : k = edge.arc
      · subst hk
        simp only [push, Function.update_self]
        unfold residual at hedge
        split_ifs at hedge ⊢ <;> omega
      · simp only [push, Function.update_of_ne hk]
        exact hf k
    · intro k
      by_cases hk : k = edge.arc
      · subst hk
        simp only [push, Function.update_self]
        unfold residual at hedge
        split_ifs at hedge ⊢ <;> omega
      · simp only [push, Function.update_of_ne hk]
        exact hb k

theorem pushPath_sum (path : List FlowEdge) (amount : ℤ) (k : ℕ) :
    (pushPath amount net path).forward k + (pushPath amount net path).backward k = net.forward k + net.backward k := by
  induction path with
  | nil => rfl
  | cons edge path ih =>
    rw [pushPath_cons, ← ih]
    by_cases hk : k = edge.arc
    · subst hk
      simp only [push, Function.update_self]
      ring
    · simp only [push, Function.update_of_ne hk]

/-- A push along a path that its entries allow raises the value by its amount. -/
theorem Balanced.pushPath {capacity : ℕ → ℤ} {source sink : ℕ} {value amount : ℤ}
    (h : net.Balanced capacity source sink value) {path : List FlowEdge} (hpath : net.PathTo source path sink)
    (hpos : 0 ≤ amount) (hnodup : (path.map FlowEdge.arc).Nodup)
    (hresidual : ∀ edge ∈ path, amount ≤ net.residual edge) :
    (ResidualFlow.pushPath amount net path).Balanced capacity source sink (value + amount) := by
  obtain ⟨hforward, hbackward⟩ := pushPath_nonneg h.forward_nonneg h.backward_nonneg hpos hnodup hresidual
  refine ⟨hforward, hbackward, ?_, ?_⟩
  · intro k
    rw [pushPath_sum, h.sum_eq]
  · intro v
    rw [netOut_pushPath hpath, h.netOut_eq]
    ring

end ResidualFlow
end DbfAnonymizer.Vault
