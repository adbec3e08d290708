import DbfAnonymizer.Vault.FlowLevels

/-! The blocking push ends, and it moves at least one unit when the layers reach the sink. -/
namespace DbfAnonymizer.Vault
namespace ResidualFlow
variable {net : ResidualFlow} {capacity : ℕ → ℤ} {source sink : ℕ} {levels : ℕ → ℤ} {queue : List ℕ} {node : ℕ}
  {path : List FlowEdge} {value limit : ℤ} {p : Push}

/-- Nodes from which open entries climb to the sink, one level at a time. -/
inductive Leads (net : ResidualFlow) (levels : ℕ → ℤ) (sink : ℕ) : ℕ → Prop
  | sink : Leads net levels sink sink
  | climb {edge : FlowEdge} (hopen : net.Open edge) (hlevel : levels edge.target = levels edge.origin + 1)
      (h : Leads net levels sink edge.target) : Leads net levels sink edge.origin

theorem Labelled.source_leads (h : net.Labelled source levels queue) (hsink : levels sink ≠ -1) :
    net.Leads levels sink source := by
  have hdown : ∀ (n : ℕ) (v : ℕ), levels v = n → net.Leads levels sink v → net.Leads levels sink source := by
    intro n
    induction n with
    | zero =>
      intro v hlevel hv
      by_cases hsource : v = source
      · exact hsource ▸ hv
      · obtain ⟨edge, -, -, horigin, hstep⟩ := h.linked v (by omega) hsource
        have hnonneg := h.nonneg _ horigin
        omega
    | succ n ih =>
      intro v hlevel hv
      by_cases hsource : v = source
      · exact hsource ▸ hv
      · obtain ⟨edge, hopen, rfl, horigin, hstep⟩ := h.linked v (by omega) hsource
        exact ih edge.origin (by push_cast at hlevel; omega) (.climb hopen hstep hv)
  have hnonneg := h.nonneg sink hsink
  exact hdown (levels sink).toNat sink (by omega) .sink

/-- Every node of a path stands one level above the one before it. -/
def Ascends (levels : ℕ → ℤ) : List FlowEdge → ℕ → Prop
  | [], node => levels node = 0
  | edge :: path, node => levels node = (edge :: path).length ∧ Ascends levels path edge.origin

theorem Ascends.level (h : Ascends levels path node) : levels node = path.length := by
  cases path with
  | nil => exact h
  | cons edge path => exact h.1

theorem Ascends.update (h : Ascends levels path node) {v : ℕ} (hv : path.length < levels v) (x : ℤ) :
    Ascends (Function.update levels v x) path node := by
  have hne : node ≠ v := by
    rintro rfl
    rw [h.level] at hv
    omega
  induction path generalizing node with
  | nil => exact (Function.update_of_ne hne _ _).trans h
  | cons edge path ih =>
    rw [List.length_cons] at hv
    have hlt : (path.length : ℤ) < levels v := by
      push_cast at hv
      omega
    have hne' : edge.origin ≠ v := by
      rintro rfl
      rw [h.2.level] at hlt
      omega
    exact ⟨(Function.update_of_ne hne _ _).trans h.1, ih h.2 hlt hne'⟩

theorem Ascends.below (h : Ascends levels path node) (hpath : net.PathTo source path node) :
    ∀ edge ∈ path, levels edge.origin < path.length ∧ levels edge.target ≤ path.length := by
  induction path generalizing node with
  | nil => simp
  | cons edge path ih =>
    obtain ⟨hvalid, rfl, hpath⟩ := hpath
    intro f hf
    rw [List.length_cons]
    push_cast
    rcases List.mem_cons.mp hf with rfl | hf
    · have horigin := h.2.level
      have htarget := h.1
      rw [List.length_cons] at htarget
      push_cast at htarget
      omega
    · have hbelow := ih h.2 hpath f hf
      omega

theorem PathTo.valid (h : net.PathTo source path node) : ∀ edge ∈ path, net.Valid edge := by
  induction path generalizing node with
  | nil => simp
  | cons edge path ih =>
    obtain ⟨hvalid, -, hpath⟩ := h
    exact List.forall_mem_cons.mpr ⟨hvalid, ih hpath⟩

theorem Valid.endpoints {e f : FlowEdge} (he : net.Valid e) (hf : net.Valid f) (harc : e.arc = f.arc) :
    e.target = f.origin ∨ e.target = f.target := by
  unfold Valid at he hf
  rw [harc, hf, Option.some.injEq] at he
  split_ifs at he <;> simp only [Prod.mk.injEq] at he <;> omega

theorem Ascends.nodup_arcs (h : Ascends levels path node) (hpath : net.PathTo source path node) :
    (path.map FlowEdge.arc).Nodup := by
  induction path generalizing node with
  | nil => exact List.nodup_nil
  | cons edge path ih =>
    obtain ⟨hvalid, rfl, hpath⟩ := hpath
    rw [List.map_cons, List.nodup_cons]
    refine ⟨?_, ih h.2 hpath⟩
    intro hmem
    obtain ⟨f, hf, harc⟩ := List.mem_map.mp hmem
    have hbelow := h.2.below hpath f hf
    have htarget := h.1
    rw [List.length_cons] at htarget
    push_cast at htarget
    rcases hvalid.endpoints (hpath.valid f hf) harc.symm with heq | heq <;> rw [heq] at htarget <;> omega

/-- The nodes of a climbing path are distinct, so a network bounds its length. -/
theorem Ascends.length_lt (h : Ascends levels path node) (hpath : net.PathTo source path node)
    (hwell : net.WellFormed) (hsource : source < net.nodeCount) :
    path.length < ((Finset.range net.nodeCount).filter (levels · ≠ -1)).card := by
  have hnodes : ∀ j ≤ path.length, ∃ v < net.nodeCount, levels v = (j : ℕ) := by
    induction path generalizing node with
    | nil =>
      intro j hj
      obtain rfl : node = source := hpath
      obtain rfl : j = 0 := by simpa using hj
      exact ⟨node, hsource, h⟩
    | cons edge path ih =>
      obtain ⟨hvalid, rfl, hpath⟩ := hpath
      intro j hj
      rcases Nat.lt_or_ge path.length j with hlast | hearlier
      · obtain rfl : j = (edge :: path).length := le_antisymm hj hlast
        exact ⟨edge.target, hwell.target_lt hvalid, h.1⟩
      · exact ih h.2 hpath j hearlier
  have hsub : Finset.range (path.length + 1) ⊆
      ((Finset.range net.nodeCount).filter (levels · ≠ -1)).image fun v => (levels v).toNat := by
    intro j hj
    obtain ⟨v, hv, hlevel⟩ := hnodes j (by simpa [Nat.lt_succ_iff] using hj)
    refine Finset.mem_image.mpr ⟨v, ?_, by omega⟩
    simp only [Finset.mem_filter, Finset.mem_range]
    exact ⟨hv, by omega⟩
  have hcard := (Finset.card_le_card hsub).trans Finset.card_image_le
  rw [Finset.card_range] at hcard
  exact hcard

/-- The push between two of its steps. As long as nothing was pushed, no node that leads to the sink is pruned,
and no entry that leads there is skipped. -/
structure Pushing (capacity : ℕ → ℤ) (source sink : ℕ) (value limit : ℤ) (net : ResidualFlow) (levels : ℕ → ℤ)
    (p : Push) : Prop where
  balanced : p.net.Balanced capacity source sink (value + p.total)
  arcs_eq : p.net.arcs = net.arcs
  nodeCount_eq : p.net.nodeCount = net.nodeCount
  total_nonneg : 0 ≤ p.total
  total_lt : p.total < limit
  path : p.net.PathTo source p.path p.node
  open_path : ∀ edge ∈ p.path, 0 < p.net.residual edge
  ascends : Ascends p.levels p.path p.node
  source_level : p.levels source = 0
  untouched : p.total = 0 → p.net = net
  unpruned : p.total = 0 → ∀ v, net.Leads levels sink v → p.levels v = levels v
  unskipped : p.total = 0 → ∀ v, net.Leads levels sink v → ∀ i < p.iterator v, ∀ edge,
    (net.entries v)[i]? = some edge → net.Open edge → levels edge.target = levels v + 1 →
      ¬ net.Leads levels sink edge.target

/-- What a push has still to do: units to push and nodes to prune, each after a climb. -/
def pushMeasure (limit : ℤ) (p : Push) : ℕ :=
  ((limit - p.total).toNat + ((Finset.range p.net.nodeCount).filter (p.levels · ≠ -1)).card) * (p.net.nodeCount + 2) +
    (p.net.nodeCount + 1 - p.path.length)

/-- The network that a push leaves. -/
structure Pushed (capacity : ℕ → ℤ) (source sink : ℕ) (value limit : ℤ) (net after : ResidualFlow) (total : ℤ) :
    Prop where
  balanced : after.Balanced capacity source sink (value + total)
  arcs_eq : after.arcs = net.arcs
  nodeCount_eq : after.nodeCount = net.nodeCount
  total_pos : 0 < total
  total_le : total ≤ limit

theorem foldl_min_spec (amounts : List ℤ) (start : ℤ) : amounts.foldl min start ≤ start ∧
    (∀ x ∈ amounts, amounts.foldl min start ≤ x) ∧
      ∀ low, low < start → (∀ x ∈ amounts, low < x) → low < amounts.foldl min start := by
  induction amounts generalizing start with
  | nil => exact ⟨le_rfl, by simp, fun low hlow _ => hlow⟩
  | cons x amounts ih =>
    obtain ⟨hstart, hall, hlow⟩ := ih (min start x)
    rw [List.foldl_cons]
    refine ⟨hstart.trans (min_le_left _ _), ?_, ?_⟩
    · exact List.forall_mem_cons.mpr ⟨hstart.trans (min_le_right _ _), hall⟩
    · intro low hstart' hamounts
      obtain ⟨hx, hrest⟩ := List.forall_mem_cons.mp hamounts
      exact hlow low (lt_min hstart' hx) hrest

section Steps
variable {after : ResidualFlow} {total : ℤ}

theorem Pushing.augmentPath (h : Pushing capacity source sink value limit net levels p) (hsink : p.node = sink)
    (hne : source ≠ sink) :
    (∃ after total, augmentPath source limit p = .done after total ∧
      Pushed capacity source sink value limit net after total) ∨
    ∃ p', augmentPath source limit p = .continue p' ∧ Pushing capacity source sink value limit net levels p' ∧
      pushMeasure limit p' < pushMeasure limit p := by
  have htotal := h.total_lt
  have hnonneg := h.total_nonneg
  obtain ⟨hle, hall, hlow⟩ := foldl_min_spec (p.path.map p.net.residual) (limit - p.total)
  have hpos := hlow 0 (by omega) fun x hx => by
    obtain ⟨edge, hedge, rfl⟩ := List.mem_map.mp hx
    exact h.open_path edge hedge
  have hresidual : ∀ edge ∈ p.path, (p.path.map p.net.residual).foldl min (limit - p.total) ≤ p.net.residual edge :=
    fun edge hedge => hall _ (List.mem_map_of_mem hedge)
  generalize hbottleneck : (p.path.map p.net.residual).foldl min (limit - p.total) = bottleneck at hle hpos hresidual
  have hpath : p.net.PathTo source p.path sink := hsink ▸ h.path
  have hbalanced := h.balanced.pushPath hpath hpos.le (h.ascends.nodup_arcs h.path) hresidual
  rw [add_assoc] at hbalanced
  have hlong : p.path ≠ [] := by
    intro hempty
    rw [hempty] at hpath
    exact hne hpath.symm
  unfold ResidualFlow.augmentPath
  rw [if_neg hlong, hbottleneck]
  dsimp only
  split_ifs with hlimit
  · refine Or.inl ⟨_, _, rfl, hbalanced, ?_, ?_, by omega, by omega⟩
    · exact (arcs_pushPath _ _).trans h.arcs_eq
    · exact (nodeCount_pushPath _ _).trans h.nodeCount_eq
  · refine Or.inr ⟨_, rfl, ?_, ?_⟩
    · refine ⟨hbalanced, ?_, ?_, by dsimp only; omega, by dsimp only; omega, rfl, by simp, h.source_level,
        h.source_level, ?_, ?_, ?_⟩
      · exact (arcs_pushPath _ _).trans h.arcs_eq
      · exact (nodeCount_pushPath _ _).trans h.nodeCount_eq
      · intro hzero
        dsimp only at hzero
        omega
      · intro hzero
        dsimp only at hzero
        omega
      · intro hzero
        dsimp only at hzero
        omega
    · have hcount : (p.path.reverse.foldl (push bottleneck) p.net).nodeCount = p.net.nodeCount :=
        nodeCount_pushPath _ _
      simp only [pushMeasure, hcount, List.length_nil]
      have hdrop : (limit - (p.total + bottleneck)).toNat + 1 ≤ (limit - p.total).toNat := by omega
      have hmul := Nat.mul_le_mul_right (p.net.nodeCount + 2) (Nat.add_le_add_right hdrop
        ((Finset.range p.net.nodeCount).filter (p.levels · ≠ -1)).card)
      rw [show (limit - (p.total + bottleneck)).toNat + 1 + ((Finset.range p.net.nodeCount).filter
        (p.levels · ≠ -1)).card = (limit - (p.total + bottleneck)).toNat + ((Finset.range p.net.nodeCount).filter
          (p.levels · ≠ -1)).card + 1 by omega, Nat.add_mul, Nat.one_mul] at hmul
      omega

theorem not_admissible_of_lt_edgeIndex {i : ℕ} {edge : FlowEdge} (hfrom : p.iterator p.node ≤ i) (hlt : i < edgeIndex p)
    (hedge : (p.net.entries p.node)[i]? = some edge) : admissible p edge = false := by
  obtain ⟨k, rfl⟩ := Nat.exists_eq_add_of_le hfrom
  rw [← List.getElem?_drop] at hedge
  obtain ⟨hk, rfl⟩ := List.getElem?_eq_some_iff.mp hedge
  unfold edgeIndex at hlt
  have hnot := List.not_of_lt_findIdx (p := admissible p) (Nat.lt_of_add_lt_add_left hlt)
  simpa using hnot

theorem admissible_edgeIndex {edge : FlowEdge} (hedge : (p.net.entries p.node)[edgeIndex p]? = some edge) :
    admissible p edge = true := by
  unfold edgeIndex at hedge
  rw [← List.getElem?_drop] at hedge
  obtain ⟨hlt, rfl⟩ := List.getElem?_eq_some_iff.mp hedge
  exact List.findIdx_getElem

/-- While nothing was pushed, an entry that leads to the sink is admissible. -/
theorem Pushing.admissible (h : Pushing capacity source sink value limit net levels p) (hzero : p.total = 0)
    {edge : FlowEdge} (hnode : net.Leads levels sink p.node) (hopen : net.Open edge)
    (hlevel : levels edge.target = levels p.node + 1) (htarget : net.Leads levels sink edge.target) :
    ResidualFlow.admissible p edge = true := by
  simp only [ResidualFlow.admissible, decide_eq_true_eq]
  rw [h.untouched hzero, h.unpruned hzero _ htarget, h.unpruned hzero _ hnode]
  exact ⟨hopen.2, hlevel⟩

theorem Pushing.unskipped_edgeIndex (h : Pushing capacity source sink value limit net levels p) (hzero : p.total = 0) :
    ∀ v, net.Leads levels sink v → ∀ i < Function.update p.iterator p.node (edgeIndex p) v, ∀ edge,
      (net.entries v)[i]? = some edge → net.Open edge → levels edge.target = levels v + 1 →
        ¬ net.Leads levels sink edge.target := by
  intro v hv i hi edge hedge hopen hlevel htarget
  by_cases hnode : v = p.node
  · subst hnode
    rw [Function.update_self] at hi
    rcases Nat.lt_or_ge i (p.iterator p.node) with hbefore | hfrom
    · exact h.unskipped hzero _ hv i hbefore edge hedge hopen hlevel htarget
    · have hyes := h.admissible hzero hv hopen hlevel htarget
      rw [not_admissible_of_lt_edgeIndex hfrom hi (h.untouched hzero ▸ hedge)] at hyes
      cases hyes
  · rw [Function.update_of_ne hnode] at hi
    exact h.unskipped hzero v hv i hi edge hedge hopen hlevel htarget

theorem Pushing.not_leads (h : Pushing capacity source sink value limit net levels p) (hzero : p.total = 0)
    (hsink : p.node ≠ sink) (hnone : (p.net.entries p.node)[edgeIndex p]? = none) :
    ¬ net.Leads levels sink p.node := by
  intro hleads
  have hstep : ∀ v, net.Leads levels sink v → v ≠ sink → ∃ edge, net.Open edge ∧ edge.origin = v ∧
      levels edge.target = levels v + 1 ∧ net.Leads levels sink edge.target := by
    intro v hv hne
    cases hv with
    | sink => exact absurd rfl hne
    | climb hopen hlevel hv => exact ⟨_, hopen, rfl, hlevel, hv⟩
  obtain ⟨edge, hopen, horigin, hlevel, htarget⟩ := hstep p.node hleads hsink
  obtain ⟨i, hi⟩ := List.getElem?_of_mem (mem_entries.mpr ⟨hopen.1, horigin⟩)
  have hlt : i < edgeIndex p := by
    rw [h.untouched hzero] at hnone
    obtain ⟨hlt, -⟩ := List.getElem?_eq_some_iff.mp hi
    exact hlt.trans_le (List.getElem?_eq_none_iff.mp hnone)
  have hnot := h.unskipped_edgeIndex hzero p.node hleads i (by rwa [Function.update_self]) edge hi hopen hlevel
  exact hnot htarget

theorem Pushing.descend (h : Pushing capacity source sink value limit net levels p) (hwell : net.WellFormed)
    (hsource : source < net.nodeCount) {edge : FlowEdge} (hedge : (p.net.entries p.node)[edgeIndex p]? = some edge) :
    let p' : Push := { p with
      iterator := Function.update p.iterator p.node (edgeIndex p)
      path := edge :: p.path
      node := edge.target }
    Pushing capacity source sink value limit net levels p' ∧ pushMeasure limit p' < pushMeasure limit p := by
  dsimp only
  obtain ⟨hvalid, horigin⟩ := mem_entries.mp (List.mem_of_getElem? hedge)
  have hadmissible := admissible_edgeIndex hedge
  simp only [ResidualFlow.admissible, decide_eq_true_eq] at hadmissible
  have hpath : p.net.PathTo source (edge :: p.path) edge.target := ⟨hvalid, rfl, horigin.symm ▸ h.path⟩
  have hascends : Ascends p.levels (edge :: p.path) edge.target := by
    refine ⟨?_, horigin.symm ▸ h.ascends⟩
    rw [hadmissible.2, h.ascends.level, List.length_cons]
    push_cast
    rfl
  refine ⟨⟨h.balanced, h.arcs_eq, h.nodeCount_eq, h.total_nonneg, h.total_lt, hpath, ?_, hascends, h.source_level,
    h.untouched, h.unpruned, h.unskipped_edgeIndex⟩, ?_⟩
  · exact List.forall_mem_cons.mpr ⟨hadmissible.1, h.open_path⟩
  · have hwell' : p.net.WellFormed := by
      intro arc harc
      rw [h.nodeCount_eq]
      exact hwell arc (h.arcs_eq ▸ harc)
    have hlength := hascends.length_lt hpath hwell' (h.nodeCount_eq.symm ▸ hsource)
    have hcard := (Finset.card_filter_le (Finset.range p.net.nodeCount) (p.levels · ≠ -1))
    rw [Finset.card_range] at hcard
    rw [List.length_cons] at hlength
    simp only [pushMeasure, List.length_cons]
    omega

theorem Pushing.prune (h : Pushing capacity source sink value limit net levels p) (hwell : net.WellFormed)
    (hsink : p.node ≠ sink) (hnone : (p.net.entries p.node)[edgeIndex p]? = none) {failed : FlowEdge}
    {path : List FlowEdge} (hpath : p.path = failed :: path) :
    let p' : Push := { p with
      iterator := Function.update p.iterator p.node (edgeIndex p)
      levels := Function.update p.levels p.node (-1)
      path := path
      node := failed.origin }
    Pushing capacity source sink value limit net levels p' ∧ pushMeasure limit p' < pushMeasure limit p := by
  dsimp only
  have hto := h.path
  have hascends := h.ascends
  rw [hpath] at hto hascends
  obtain ⟨hvalid, htarget, hto⟩ := hto
  have hlevel := hascends.1
  rw [List.length_cons] at hlevel
  push_cast at hlevel
  have hsource : source ≠ p.node := by
    rintro heq
    rw [← heq, h.source_level] at hlevel
    omega
  refine ⟨⟨h.balanced, h.arcs_eq, h.nodeCount_eq, h.total_nonneg, h.total_lt, hto, ?_, ?_, ?_, h.untouched, ?_,
    h.unskipped_edgeIndex⟩, ?_⟩
  · exact fun edge hedge => h.open_path edge (hpath ▸ List.mem_cons_of_mem _ hedge)
  · exact hascends.2.update (by omega) _
  · exact (Function.update_of_ne hsource _ _).trans h.source_level
  · intro hzero v hv
    have hne : v ≠ p.node := by
      rintro rfl
      exact h.not_leads hzero hsink hnone hv
    exact (Function.update_of_ne hne _ _).trans (h.unpruned hzero v hv)
  · have hlt : ((Finset.range p.net.nodeCount).filter (Function.update p.levels p.node (-1) · ≠ -1)).card <
        ((Finset.range p.net.nodeCount).filter (p.levels · ≠ -1)).card := by
      have hnode : p.node < p.net.nodeCount := by
        rw [← htarget, h.nodeCount_eq]
        refine hwell.target_lt ?_
        unfold Valid at hvalid ⊢
        rw [← h.arcs_eq]
        exact hvalid
      apply Finset.card_lt_card
      rw [Finset.ssubset_iff_of_subset]
      · refine ⟨p.node, ?_, by simp⟩
        simp only [Finset.mem_filter, Finset.mem_range]
        exact ⟨hnode, by omega⟩
      · intro v hv
        simp only [Finset.mem_filter] at hv ⊢
        refine ⟨hv.1, fun hnone => hv.2 ?_⟩
        by_cases hnode : v = p.node
        · rw [hnode, Function.update_self]
        · rw [Function.update_of_ne hnode]
          exact hnone
    have hmul := Nat.mul_le_mul_right (p.net.nodeCount + 2) (Nat.add_le_add_left (Nat.succ_le_of_lt hlt)
      (limit - p.total).toNat)
    simp only [pushMeasure, hpath, List.length_cons]
    rw [Nat.succ_eq_add_one, ← Nat.add_assoc, Nat.add_mul _ 1, Nat.one_mul] at hmul
    omega

/-- One step of the push ends it, or goes on with less to do. -/
theorem Pushing.step (h : Pushing capacity source sink value limit net levels p) (hwell : net.WellFormed)
    (hsource : source < net.nodeCount) (hne : source ≠ sink) (hleads : net.Leads levels sink source) :
    (∃ after total, pushStep source sink limit p = .done after total ∧
      Pushed capacity source sink value limit net after total) ∨
    ∃ p', pushStep source sink limit p = .continue p' ∧ Pushing capacity source sink value limit net levels p' ∧
      pushMeasure limit p' < pushMeasure limit p := by
  unfold pushStep
  by_cases hsink : p.node = sink
  · rw [if_pos hsink]
    exact h.augmentPath hsink hne
  rw [if_neg hsink]
  dsimp only
  cases hedge : (p.net.entries p.node)[edgeIndex p]? with
  | some edge => exact Or.inr ⟨_, rfl, h.descend hwell hsource hedge⟩
  | none =>
    dsimp only
    by_cases hstart : p.node = source
    · rw [if_pos hstart]
      have hpos : 0 < p.total := by
        refine lt_of_le_of_ne h.total_nonneg fun hzero => ?_
        exact h.not_leads hzero.symm hsink hedge (hstart ▸ hleads)
      exact Or.inl ⟨_, _, rfl, h.balanced, h.arcs_eq, h.nodeCount_eq, hpos, h.total_lt.le⟩
    · rw [if_neg hstart]
      cases hpath : p.path with
      | nil =>
        have hto := h.path
        rw [hpath] at hto
        exact absurd hto hstart
      | cons failed path => exact Or.inr ⟨_, rfl, h.prune hwell hsink hedge hpath⟩

theorem Pushing.pushLoop (h : Pushing capacity source sink value limit net levels p) (hwell : net.WellFormed)
    (hsource : source < net.nodeCount) (hne : source ≠ sink) (hleads : net.Leads levels sink source) {fuel : ℕ}
    (hfuel : pushMeasure limit p < fuel) : ∃ after total, pushLoop source sink limit fuel p = some (after, total) ∧
      Pushed capacity source sink value limit net after total := by
  induction fuel generalizing p with
  | zero => omega
  | succ fuel ih =>
    rw [ResidualFlow.pushLoop]
    rcases h.step hwell hsource hne hleads with ⟨after, total, hstep, hpushed⟩ | ⟨p', hstep, hp', hless⟩
    · rw [hstep]
      exact ⟨after, total, rfl, hpushed⟩
    · rw [hstep]
      exact ih hp' (by omega)

end Steps

/-- The blocking push ends and moves something, within its limit. -/
theorem exists_blockingPush (hbalanced : net.Balanced capacity source sink value) (hwell : net.WellFormed)
    (hsource : source < net.nodeCount) (hne : source ≠ sink) (hlabelled : net.Labelled source levels queue)
    (hsink : levels sink ≠ -1) (hlimit : 0 < limit) :
    ∃ after total, net.blockingPush levels source sink limit = some (after, total) ∧
      Pushed capacity source sink value limit net after total := by
  have hstart : Pushing capacity source sink value limit net levels ⟨net, levels, fun _ => 0, [], source, 0⟩ := by
    refine ⟨by simpa using hbalanced, rfl, rfl, le_rfl, hlimit, rfl, by simp, hlabelled.source_level,
      hlabelled.source_level, fun _ => rfl, fun _ _ _ => rfl, ?_⟩
    intro _ v _ i hi
    exact absurd hi (Nat.not_lt_zero i)
  apply hstart.pushLoop hwell hsource hne (hlabelled.source_leads hsink)
  have hcard := (Finset.card_filter_le (Finset.range net.nodeCount) (levels · ≠ -1))
  rw [Finset.card_range] at hcard
  have hmul := Nat.mul_le_mul_right (net.nodeCount + 2) (Nat.add_le_add_left hcard limit.toNat)
  simp only [pushMeasure, pushFuel, sub_zero, List.length_nil]
  rw [Nat.add_mul _ 1, Nat.one_mul]
  omega

end ResidualFlow
end DbfAnonymizer.Vault
