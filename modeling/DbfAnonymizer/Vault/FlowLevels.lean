import DbfAnonymizer.Vault.FlowConservation

/-! The layered search labels every node that residual entries reach, up to the layer of the sink. -/
namespace DbfAnonymizer.Vault
namespace ResidualFlow
variable {net : ResidualFlow} {source sink : ℕ} {levels : ℕ → ℤ} {queue : List ℕ} {node : ℕ} {layer : Layer}

/-- An entry that still has residual capacity. -/
def Open (net : ResidualFlow) (edge : FlowEdge) : Prop := net.Valid edge ∧ 0 < net.residual edge

/-- Every arc joins nodes of the network. -/
def WellFormed (net : ResidualFlow) : Prop := ∀ arc ∈ net.arcs, arc.1 < net.nodeCount ∧ arc.2 < net.nodeCount

theorem WellFormed.target_lt (h : net.WellFormed) {edge : FlowEdge} (hvalid : net.Valid edge) :
    edge.target < net.nodeCount := by
  have hmem := h _ (List.mem_of_getElem? hvalid)
  split_ifs at hmem
  · exact hmem.2
  · exact hmem.1

/-- The labels of a search whose nodes in `active` still have entries to look at. -/
structure Labelled (net : ResidualFlow) (source : ℕ) (levels : ℕ → ℤ) (active : List ℕ) : Prop where
  source_level : levels source = 0
  active_labelled : ∀ v ∈ active, levels v ≠ -1
  nonneg : ∀ v, levels v ≠ -1 → 0 ≤ levels v
  linked : ∀ v, levels v ≠ -1 → v ≠ source →
    ∃ edge, net.Open edge ∧ edge.target = v ∧ levels edge.origin ≠ -1 ∧ levels v = levels edge.origin + 1
  closed : ∀ edge, net.Open edge → levels edge.origin ≠ -1 → edge.origin ∉ active → levels edge.target ≠ -1

/-- The nodes without a label. -/
def unlabelled (net : ResidualFlow) (levels : ℕ → ℤ) : ℕ := ((Finset.range net.nodeCount).filter (levels · = -1)).card

/-- What looking at some entries of labelled nodes does to the labels. -/
structure Extends (net : ResidualFlow) (before after : Layer) : Prop where
  kept : ∀ v, before.levels v ≠ -1 → after.levels v = before.levels v
  appended : ∃ found, after.next = before.next ++ found ∧ ∀ v, v ∈ found ↔ before.levels v = -1 ∧ after.levels v ≠ -1
  linked : ∀ v, before.levels v = -1 → after.levels v ≠ -1 → ∃ edge, net.Open edge ∧ edge.target = v ∧
    after.levels edge.origin ≠ -1 ∧ after.levels v = after.levels edge.origin + 1
  nonneg : ∀ v, after.levels v ≠ -1 → 0 ≤ after.levels v

section Extends
variable {before middle after : Layer}

theorem Extends.refl (h : ∀ v, layer.levels v ≠ -1 → 0 ≤ layer.levels v) : Extends net layer layer :=
  ⟨fun _ _ => rfl, ⟨[], by simp⟩, fun _ hnone hsome => absurd hnone hsome, h⟩

theorem Extends.labelled (h : Extends net before after) {v : ℕ} (hv : before.levels v ≠ -1) : after.levels v ≠ -1 :=
  h.kept v hv ▸ hv

theorem Extends.trans (h : Extends net before middle) (h' : Extends net middle after) : Extends net before after where
  kept v hv := (h'.kept v (h.labelled hv)).trans (h.kept v hv)
  appended := by
    obtain ⟨found, hnext, hfound⟩ := h.appended
    obtain ⟨found', hnext', hfound'⟩ := h'.appended
    refine ⟨found ++ found', by rw [hnext', hnext, List.append_assoc], fun v => ?_⟩
    rw [List.mem_append, hfound, hfound']
    constructor
    · intro hv
      rcases hv with ⟨hnone, hsome⟩ | ⟨hnone, hsome⟩
      · exact ⟨hnone, h'.labelled hsome⟩
      · exact ⟨by_contra fun hsome' => h.labelled hsome' hnone, hsome⟩
    · intro hv
      by_cases hmiddle : middle.levels v = -1
      · exact Or.inr ⟨hmiddle, hv.2⟩
      · exact Or.inl ⟨hv.1, hmiddle⟩
  linked v hnone hsome := by
    by_cases hmiddle : middle.levels v = -1
    · exact h'.linked v hmiddle hsome
    · obtain ⟨edge, hopen, htarget, horigin, hlevel⟩ := h.linked v hnone hmiddle
      exact ⟨edge, hopen, htarget, h'.labelled horigin, by rw [h'.kept v hmiddle, h'.kept _ horigin, hlevel]⟩
  nonneg := h'.nonneg

theorem bfsEdge_extends {edge : FlowEdge} (hvalid : net.Valid edge) (hnode : layer.levels edge.origin ≠ -1)
    (hnonneg : ∀ v, layer.levels v ≠ -1 → 0 ≤ layer.levels v) :
    Extends net layer (bfsEdge net edge.origin layer edge) ∧
      (net.Open edge → (bfsEdge net edge.origin layer edge).levels edge.target ≠ -1) := by
  unfold bfsEdge
  split_ifs with h
  · have hlevel := hnonneg _ hnode
    have hne : edge.origin ≠ edge.target := by
      intro heq
      exact hnode (heq ▸ h.2)
    refine ⟨⟨?_, ?_, ?_, ?_⟩, fun _ => ?_⟩
    · intro v hv
      have hvne : v ≠ edge.target := by
        rintro rfl
        exact hv h.2
      exact Function.update_of_ne hvne _ _
    · refine ⟨[edge.target], rfl, fun v => ?_⟩
      rw [List.mem_singleton]
      by_cases hv : v = edge.target
      · subst hv
        simp only [Function.update_self, true_iff]
        exact ⟨h.2, by omega⟩
      · simp [hv]
    · intro v hnone hsome
      dsimp only at hsome ⊢
      have hv : v = edge.target := by
        by_contra hv
        rw [Function.update_of_ne hv] at hsome
        exact hsome hnone
      subst hv
      refine ⟨edge, ⟨hvalid, h.1⟩, rfl, ?_, ?_⟩
      · rw [Function.update_of_ne hne]
        exact hnode
      · rw [Function.update_self, Function.update_of_ne hne]
    · intro v hv
      dsimp only at hv ⊢
      by_cases heq : v = edge.target
      · subst heq
        rw [Function.update_self]
        omega
      · rw [Function.update_of_ne heq] at hv ⊢
        exact hnonneg v hv
    · dsimp only
      rw [Function.update_self]
      omega
  · refine ⟨.refl hnonneg, fun hopen hnone => ?_⟩
    exact h ⟨hopen.2, hnone⟩

theorem foldl_bfsEdge_extends (edges : List FlowEdge) (hedges : ∀ edge ∈ edges, net.Valid edge ∧ edge.origin = node)
    (hnode : layer.levels node ≠ -1) (hnonneg : ∀ v, layer.levels v ≠ -1 → 0 ≤ layer.levels v) :
    Extends net layer (edges.foldl (bfsEdge net node) layer) ∧
      ∀ edge ∈ edges, net.Open edge → (edges.foldl (bfsEdge net node) layer).levels edge.target ≠ -1 := by
  induction edges generalizing layer with
  | nil => exact ⟨.refl hnonneg, by simp⟩
  | cons edge edges ih =>
    obtain ⟨hvalid, rfl⟩ := hedges edge (by simp)
    obtain ⟨hfirst, htarget⟩ := bfsEdge_extends hvalid hnode hnonneg
    obtain ⟨hrest, htargets⟩ := ih (fun e he => hedges e (by simp [he])) (hfirst.labelled hnode) hfirst.nonneg
    refine ⟨hfirst.trans hrest, fun e he hopen => ?_⟩
    rcases List.mem_cons.mp he with rfl | he
    · exact hrest.labelled (htarget hopen)
    · exact htargets e he hopen

/-- One layer: the open entries of every node in the queue end on labelled nodes. -/
theorem foldl_bfsNode_extends (layer : Layer) (queue : List ℕ) (hqueue : ∀ v ∈ queue, layer.levels v ≠ -1)
    (hnonneg : ∀ v, layer.levels v ≠ -1 → 0 ≤ layer.levels v) :
    Extends net layer (queue.foldl (bfsNode net) layer) ∧ ∀ edge, net.Open edge → edge.origin ∈ queue →
      (queue.foldl (bfsNode net) layer).levels edge.target ≠ -1 := by
  induction queue generalizing layer with
  | nil => exact ⟨.refl hnonneg, by simp⟩
  | cons node queue ih =>
    obtain ⟨hfirst, htargets⟩ := foldl_bfsEdge_extends (net.entries node) (fun _ he => mem_entries.mp he)
      (hqueue node (by simp)) hnonneg
    obtain ⟨hrest, hclosed⟩ := ih _ (fun v hv => hfirst.labelled (hqueue v (by simp [hv]))) hfirst.nonneg
    refine ⟨hfirst.trans hrest, fun edge hopen horigin => ?_⟩
    rcases List.mem_cons.mp horigin with heq | horigin
    · exact hrest.labelled (htargets edge (mem_entries.mpr ⟨hopen.1, heq⟩) hopen)
    · exact hclosed edge hopen horigin

end Extends

theorem Labelled.nextLayer (h : net.Labelled source levels queue) :
    net.Labelled source (queue.foldl (bfsNode net) ⟨levels, []⟩).levels
      (queue.foldl (bfsNode net) ⟨levels, []⟩).next := by
  obtain ⟨hextends, hqueue⟩ := foldl_bfsNode_extends ⟨levels, []⟩ queue h.active_labelled h.nonneg
  generalize queue.foldl (bfsNode net) ⟨levels, []⟩ = after at hextends hqueue ⊢
  obtain ⟨found, hnext, hfound⟩ := hextends.appended
  rw [List.nil_append] at hnext
  have hsource : levels source ≠ -1 := by
    rw [h.source_level]
    decide
  refine ⟨?_, ?_, hextends.nonneg, ?_, ?_⟩
  · exact (hextends.kept source hsource).trans h.source_level
  · intro v hv
    rw [hnext, hfound] at hv
    exact hv.2
  · intro v hv hne
    by_cases hbefore : levels v = -1
    · exact hextends.linked v hbefore hv
    · obtain ⟨edge, hopen, htarget, horigin, hlevel⟩ := h.linked v hbefore hne
      refine ⟨edge, hopen, htarget, hextends.labelled horigin, ?_⟩
      rw [hextends.kept v hbefore, hextends.kept _ horigin]
      exact hlevel
  · intro edge hopen horigin hactive
    have hbefore : levels edge.origin ≠ -1 := by
      intro hnone
      exact hactive (hnext ▸ (hfound _).mpr ⟨hnone, horigin⟩)
    by_cases hmem : edge.origin ∈ queue
    · exact hqueue edge hopen hmem
    · exact hextends.labelled (h.closed edge hopen hbefore hmem)

theorem Labelled.unlabelled_layer (h : net.Labelled source levels queue) (hwell : net.WellFormed)
    (hnext : (queue.foldl (bfsNode net) ⟨levels, []⟩).next ≠ []) :
    net.unlabelled (queue.foldl (bfsNode net) ⟨levels, []⟩).levels < net.unlabelled levels := by
  obtain ⟨hextends, -⟩ := foldl_bfsNode_extends ⟨levels, []⟩ queue h.active_labelled h.nonneg
  generalize queue.foldl (bfsNode net) ⟨levels, []⟩ = after at hextends hnext ⊢
  obtain ⟨found, heq, hfound⟩ := hextends.appended
  rw [List.nil_append] at heq
  obtain ⟨v, hv⟩ := List.exists_mem_of_ne_nil _ (heq ▸ hnext)
  obtain ⟨hnone, hsome⟩ := (hfound v).mp hv
  obtain ⟨edge, hopen, rfl, -⟩ := hextends.linked v hnone hsome
  apply Finset.card_lt_card
  rw [Finset.ssubset_iff_of_subset]
  · refine ⟨edge.target, ?_, ?_⟩
    · simp only [Finset.mem_filter, Finset.mem_range]
      exact ⟨hwell.target_lt hopen.1, hnone⟩
    · simp only [Finset.mem_filter, not_and]
      exact fun _ => hsome
  · intro w hw
    simp only [Finset.mem_filter] at hw ⊢
    exact ⟨hw.1, by_contra fun hbefore => hextends.labelled hbefore hw.2⟩

/-- The search ends, and an unreached sink leaves nothing to look at. -/
theorem Labelled.bfsLoop (h : net.Labelled source levels queue) (hwell : net.WellFormed) {fuel : ℕ}
    (hfuel : net.unlabelled levels + (if queue = [] then 1 else 2) ≤ fuel) :
    ∃ levels' queue', net.bfsLoop sink fuel levels queue = some levels' ∧ net.Labelled source levels' queue' ∧
      (levels' sink = -1 → queue' = []) := by
  induction fuel generalizing levels queue with
  | zero => split_ifs at hfuel <;> omega
  | succ fuel ih =>
    rw [ResidualFlow.bfsLoop]
    split_ifs with hgo
    · rw [if_neg hgo.1] at hfuel
      apply ih h.nextLayer
      split_ifs with hnext
      · have hle : net.unlabelled (queue.foldl (bfsNode net) ⟨levels, []⟩).levels ≤ net.unlabelled levels := by
          obtain ⟨hextends, -⟩ := foldl_bfsNode_extends ⟨levels, []⟩ queue h.active_labelled h.nonneg
          apply Finset.card_le_card
          intro w hw
          simp only [Finset.mem_filter] at hw ⊢
          exact ⟨hw.1, by_contra fun hbefore => hextends.labelled hbefore hw.2⟩
        omega
      · have hlt := h.unlabelled_layer hwell hnext
        omega
    · refine ⟨levels, queue, rfl, h, fun hsink => ?_⟩
      by_contra hqueue
      exact hgo ⟨hqueue, hsink⟩

theorem labelled_start (net : ResidualFlow) (source : ℕ) :
    net.Labelled source (Function.update (fun _ => -1) source 0) [source] where
  source_level := Function.update_self ..
  active_labelled v hv := by
    rw [List.mem_singleton.mp hv, Function.update_self]
    decide
  nonneg v hv := by
    by_cases hsource : v = source
    · rw [hsource, Function.update_self]
    · rw [Function.update_of_ne hsource] at hv
      exact absurd rfl hv
  linked v hv hne := by
    rw [Function.update_of_ne hne] at hv
    exact absurd rfl hv
  closed edge _ horigin hactive := by
    rw [Function.update_of_ne (by simpa using hactive)] at horigin
    exact absurd rfl horigin

/-- The search returns labels, which are closed when they do not reach the sink. -/
theorem exists_bfs (source sink : ℕ) (hwell : net.WellFormed) : ∃ levels queue, net.bfs source sink = some levels ∧
    net.Labelled source levels queue ∧ (levels sink = -1 → queue = []) := by
  apply (labelled_start net source).bfsLoop hwell
  have hle : net.unlabelled (Function.update (fun _ => -1) source 0) ≤ net.nodeCount := by
    unfold unlabelled
    exact (Finset.card_filter_le _ _).trans (by simp)
  simp only [List.cons_ne_nil, if_false]
  omega

end ResidualFlow
end DbfAnonymizer.Vault
