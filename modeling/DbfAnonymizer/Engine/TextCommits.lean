import DbfAnonymizer.Engine.TextMaterialize

/-! The commit loop over a solved residual assignment completes, whatever is drawn. -/
namespace DbfAnonymizer.Engine
open Transforms Lib Vault

/-- What the finalization hands to the solver: a safe alphabet, and originals that are not persisted. -/
structure RemainingProblem extends ResidualProblem where
  alphabet_nul : '\x00' ∉ alphabet
  originals_unpersisted : ∀ row ∈ spool.observations.rows, row.1 ∉ mappings.table.keys

/-- A mapping that carries out one assignment of the solved tables. -/
structure Receives (graph : ResidualGraph) (row : ResOriginal × Resource) (pair : Text × Text) : Prop where
  original : pair.1 = row.1.canonical
  fits : pair.2.length ≤ row.1.width
  not_own : pair.2 ≠ pair.1
  resource : match row.2 with
    | .classSlot length => pair.2.length = length ∧ pair.2 ∉ graph.tokens.map ResToken.value
    | .token tid => (graph.tokens[tid]?).map ResToken.value = some pair.2

/-- What the whole commit loop leaves: the old rows, then one new row for each observation. -/
structure Materialized (P : RemainingProblem) (plan : TextResidualPlan) (st : TextState) : Prop where
  extends_rows : ∃ added, st.mappings.table.rows = P.mappings.table.rows ++ added ∧
    List.Forall₂ (Receives plan.graph) plan.assignments added ∧
    added.map Prod.fst = P.rows.map Prod.fst
  injective : (st.mappings.table.rows.map Prod.snd).Nodup
  pseudonyms_safe : ∀ p ∈ st.mappings.table.values, isSafeToken p P.alphabet = true
  lengths_stored : ∀ p ∈ st.mappings.table.values, st.mappings.logicalByteLength p = p.length
  observations_dropped : st.spool.observations.rows = []

section Assignments
variable {P : RemainingProblem} {plan : TextResidualPlan} {total : ℕ → ℤ}

theorem getElem?_assignments (h : Assigned plan.graph total plan.graph.originals.length plan.state) {i : ℕ}
    {row : ResOriginal × Resource} : plan.assignments[i]? = some row ↔
      plan.graph.originals[i]? = some row.1 ∧ plan.state.assign.lookup i = some row.2 := by
  have hplaced : ∀ j, ∃ r, j < plan.graph.originals.length → plan.state.assign.lookup j = some r := by
    intro j
    by_cases hj : j < plan.graph.originals.length
    · obtain ⟨r, hr⟩ := (h.placed_iff j).mpr hj
      exact ⟨r, fun _ => hr⟩
    · exact ⟨.classSlot 0, fun hlt => absurd hlt hj⟩
  choose resource hresource using hplaced
  have hmap : plan.assignments = plan.graph.originals.zipIdx.map fun p => (p.1, resource p.2) := by
    rw [← List.filterMap_eq_map]
    apply List.filterMap_congr
    rintro ⟨o, j⟩ hmem
    obtain ⟨hlt, -⟩ := List.getElem?_eq_some_iff.mp (List.mk_mem_zipIdx_iff_getElem?.mp hmem)
    simp [hresource j hlt]
  rw [hmap, List.getElem?_map, List.getElem?_zipIdx, Nat.zero_add]
  cases ho : plan.graph.originals[i]? with
  | none => simp
  | some o =>
    obtain ⟨hlt, -⟩ := List.getElem?_eq_some_iff.mp ho
    rw [hresource i hlt]
    simp only [Option.map_some, Option.some.injEq, Prod.ext_iff]

theorem RemainingProblem.assigned_of_solve
    (hsolve : solveTextResidual P.alphabet P.mappings P.spool = some (.ok plan)) :
    plan.graph = P.graph ∧
      Assigned plan.graph (initialState P.mappings P.alphabet.length plan.graph).fungible
        plan.graph.originals.length plan.state := by
  rcases P.toResidualProblem.solve_verdict P.alphabet_nul with ⟨plan', heq, hgraph, hassigned, -⟩ | ⟨heq, -⟩
  · rw [hsolve] at heq
    cases heq
    exact ⟨hgraph, hassigned⟩
  · rw [hsolve] at heq
    cases heq

theorem load_le_card_pool (hgraph : plan.graph = P.graph)
    (h : Assigned plan.graph (initialState P.mappings P.alphabet.length plan.graph).fungible
      plan.graph.originals.length plan.state) {i : ℕ} {r : Resource} (hi : plan.state.assign.lookup i = some r) :
    load (originalIndices plan.graph) plan.state.assign.lookup r ≤ (P.pool r).card := by
  have hedge : P.graph.Edge i r := hgraph ▸ h.edges i r hi
  have hcapacity := ResidualProblem.resourceCapacity_eq P.alphabet_nul hedge
  have hle : load (originalIndices plan.graph) plan.state.assign.lookup r ≤
      resourceCapacity (initialState P.mappings P.alphabet.length plan.graph).fungible r := by
    cases r with
    | classSlot length =>
      have hload := h.fungible length
      have hnonneg := h.nonneg length
      simp only [resourceCapacity]
      omega
    | token tid =>
      apply Finset.card_le_one.mpr
      intro j hj k hk
      exact h.once tid j k (Finset.mem_filter.mp hj).2 (Finset.mem_filter.mp hk).2
  rw [hgraph] at hle ⊢
  omega

end Assignments

/-- The state of the loop after the assignments `done`. -/
structure CommitInv (P : RemainingProblem) (done : List (ResOriginal × Resource)) (st : TextState) : Prop where
  rows : ∃ added, st.mappings.table.rows = P.mappings.table.rows ++ added ∧
    List.Forall₂ (fun row pair => pair.1 = row.1.canonical ∧ pair.2 ∈ P.pool row.2 ∧
      isSafeToken pair.2 P.alphabet = true ∧ pair.2.length ≤ row.1.width ∧ pair.2 ≠ pair.1) done added
  stored : ∀ p ∈ st.mappings.table.values, st.mappings.logicalByteLength p = p.length
  spool : st.spool.observations.rows =
    P.spool.observations.rows.filter fun row => row.1 ∉ done.map (·.1.canonical)

section Loop
variable {P : RemainingProblem} {plan : TextResidualPlan} {done : List (ResOriginal × Resource)} {st : TextState}

theorem commitInv_start (draws : ℕ) : CommitInv P [] ⟨P.mappings, P.spool, draws⟩ where
  rows := ⟨[], by simp, .nil⟩
  stored := P.lengths_stored
  spool := by simp

theorem CommitInv.pseudonyms_safe (h : CommitInv P done st) :
    ∀ p ∈ st.mappings.table.values, isSafeToken p P.alphabet = true := by
  obtain ⟨added, hrows, hall⟩ := h.rows
  intro p hp
  obtain ⟨original, hp⟩ := BijectiveTable.mem_values.mp hp
  rw [hrows, List.mem_append] at hp
  rcases hp with hp | hp
  · exact P.pseudonyms_safe p (BijectiveTable.mem_values.mpr ⟨original, hp⟩)
  · obtain ⟨row, -, hrow⟩ := exists_of_forall₂_right hall hp
    exact hrow.2.2.1

theorem CommitInv.tokensStored (h : CommitInv P done st) : TokensStored P.alphabet P.graph st.mappings where
  alphabet_nodup := P.alphabet_nodup
  pseudonyms_safe := h.pseudonyms_safe
  lengths_stored := h.stored
  reserved_safe token htoken := by
    obtain ⟨tid, htid⟩ := List.getElem?_of_mem htoken
    exact (ResidualProblem.mem_reserved.mp (ResidualProblem.token_spec htid).1).1
  reserved_length token htoken := by
    obtain ⟨tid, htid⟩ := List.getElem?_of_mem htoken
    obtain ⟨hmem, hlength, -⟩ := ResidualProblem.token_spec htid
    have hsafe := (ResidualProblem.mem_reserved.mp hmem).1
    rw [hlength, sqliteLength_eq fun hnul => P.alphabet_nul ((isSafeToken_iff.mp hsafe).2 _ hnul)]

theorem CommitInv.exists_received (h : CommitInv P done st) {rest : List (ResOriginal × Resource)}
    (hplan : Assigned plan.graph (initialState P.mappings P.alphabet.length plan.graph).fungible
      plan.graph.originals.length plan.state) (hsplit : plan.assignments = done ++ rest) :
    ∃ f : ℕ → Text, (∀ j ∈ Finset.range done.length, ∃ r, plan.state.assign.lookup j = some r ∧ f j ∈ P.pool r) ∧
      ∀ x, x ∈ st.mappings.table.values ↔
        x ∈ P.mappings.table.values ∨ ∃ j ∈ Finset.range done.length, f j = x := by
  obtain ⟨added, hrows, hall⟩ := h.rows
  have hlength := hall.length_eq
  refine ⟨fun j => ((added[j]?).map Prod.snd).getD [], ?_, ?_⟩
  · intro j hj
    have hlt : j < done.length := Finset.mem_range.mp hj
    have hrow : plan.assignments[j]? = some done[j] := by
      rw [hsplit, List.getElem?_append_left hlt, List.getElem?_eq_getElem hlt]
    have hreceived := hall.get hlt (hlength ▸ hlt)
    refine ⟨done[j].2, ((getElem?_assignments hplan).mp hrow).2, ?_⟩
    simpa [List.getElem?_eq_getElem (hlength ▸ hlt)] using hreceived.2.1
  · intro x
    simp only [BijectiveTable.values, hrows, List.map_append, List.mem_append]
    apply or_congr_right
    rw [List.mem_iff_getElem?]
    constructor
    · rintro ⟨j, hj⟩
      obtain ⟨hlt, -⟩ := List.getElem?_eq_some_iff.mp hj
      rw [List.length_map, ← hlength] at hlt
      rw [List.getElem?_map] at hj
      exact ⟨j, Finset.mem_range.mpr hlt, by simp [hj]⟩
    · rintro ⟨j, hj, hx⟩
      have hlt : j < added.length := hlength ▸ Finset.mem_range.mp hj
      refine ⟨j, ?_⟩
      rw [List.getElem?_map]
      simpa [List.getElem?_eq_getElem hlt] using hx

/-- The next assignment still has a token of its resource that nobody has received. -/
theorem CommitInv.exists_unused (h : CommitInv P done st) {row : ResOriginal × Resource}
    {rest : List (ResOriginal × Resource)} (hgraph : plan.graph = P.graph)
    (hplan : Assigned plan.graph (initialState P.mappings P.alphabet.length plan.graph).fungible
      plan.graph.originals.length plan.state) (hsplit : plan.assignments = done ++ row :: rest)
    (hrow : plan.assignments[done.length]? = some row)
    (hpool : ∀ x ∈ P.pool row.2, x ∉ P.mappings.table.values) :
    ∃ x ∈ P.pool row.2, x ∉ st.mappings.table.values := by
  obtain ⟨f, hf, hvalues⟩ := h.exists_received hplan hsplit
  obtain ⟨horiginal, hlookup⟩ := (getElem?_assignments hplan).mp hrow
  obtain ⟨hlt, -⟩ := List.getElem?_eq_some_iff.mp horiginal
  obtain ⟨x, hx, hunused⟩ := exists_unserved_token (f := f) (ResidualProblem.pool_disjoint (P := P.toResidualProblem))
    (load_le_card_pool hgraph hplan hlookup) (Finset.range_subset_range.mpr hlt.le) hf (Finset.mem_range.mpr hlt) (by simp) hlookup
  refine ⟨x, hx, fun hmem => ?_⟩
  rcases (hvalues x).mp hmem with hold | ⟨j, hj, hjx⟩
  · exact hpool x hx hold
  · exact hunused j hj hjx

theorem CommitInv.materializeToken_spec (h : CommitInv P done st) (rng : Csprng) {row : ResOriginal × Resource} {i : ℕ}
    (hedge : P.graph.Edge i row.2) (hunused : ∃ x ∈ P.pool row.2, x ∉ st.mappings.table.values) :
    ∃ token draws', materializeToken rng P.alphabet P.graph st.mappings row st.draws = .ok (token, draws') ∧
      token ∈ P.pool row.2 ∧ token ∉ st.mappings.table.values := by
  obtain ⟨original, resource⟩ := row
  obtain ⟨x, hx, hfree⟩ := hunused
  cases resource with
  | token tid =>
    obtain ⟨_, token, -, htoken, -⟩ := hedge
    have hvalue : P.reserved[tid]? = some token.value := by
      rw [← ResidualProblem.map_value_tokens, List.getElem?_map, htoken, Option.map_some]
    have hsame : token.value = x := Option.some.inj (hvalue.symm.trans (ResidualProblem.mem_pool_token.mp hx))
    refine ⟨token.value, st.draws, ?_, ResidualProblem.mem_pool_token.mpr hvalue, hsame ▸ hfree⟩
    simp only [materializeToken, htoken]
  | classSlot length =>
    obtain ⟨o, -, hpos, -⟩ := hedge
    have hstored := h.tokensStored
    obtain ⟨⟨hlength, hchars⟩, -, hreserved⟩ := ResidualProblem.mem_pool_classSlot.mp hx
    have hmem : x ∈ classFree P.alphabet P.graph st.mappings length :=
      hstored.mem_classFree.mpr ⟨mem_tokensOfLength.mpr ⟨hlength, hchars⟩, hfree,
        by rwa [ResidualProblem.map_value_tokens]⟩
    obtain ⟨token, draws', hrun, htoken⟩ :=
      hstored.selectFungibleToken_spec rng hpos ⟨x, hmem⟩ original.canonical st.draws
    obtain ⟨htokens, hvalues, hnot⟩ := hstored.mem_classFree.mp htoken
    rw [ResidualProblem.map_value_tokens] at hnot
    refine ⟨token, draws', hrun, ResidualProblem.mem_pool_classSlot.mpr ⟨mem_tokensOfLength.mp htokens, ?_, hnot⟩,
      hvalues⟩
    obtain ⟨added, hrows, -⟩ := h.rows
    intro hold
    obtain ⟨key, hkey⟩ := BijectiveTable.mem_values.mp hold
    exact hvalues (BijectiveTable.mem_values.mpr ⟨key, hrows ▸ List.mem_append_left _ hkey⟩)

theorem CommitInv.commit (h : CommitInv P done st) {row : ResOriginal × Resource} {token : Text} (draws : ℕ)
    (hkey : row.1.canonical ∉ st.mappings.table.keys) (hunused : token ∉ st.mappings.table.values)
    (hpool : token ∈ P.pool row.2) (hsafe : isSafeToken token P.alphabet = true)
    (hfits : token.length ≤ row.1.width) (hown : token ≠ row.1.canonical) :
    ∃ mappings, addTextMapping st.mappings row.1.canonical token token.length = .ok mappings ∧
      CommitInv P (done ++ [row]) ⟨mappings, st.spool.dropTextObservation row.1.canonical, draws⟩ := by
  obtain ⟨table, htable⟩ := BijectiveTable.exists_insert? hkey hunused
  obtain ⟨-, -, hinserted⟩ := BijectiveTable.insert?_eq_some_iff.mp htable
  obtain ⟨added, hrows, hall⟩ := h.rows
  refine ⟨_, by rw [addTextMapping, htable], ⟨added ++ [(row.1.canonical, token)], ?_, ?_⟩, ?_, ?_⟩
  · rw [hinserted, hrows, List.append_assoc]
  · exact List.rel_append hall (.cons ⟨rfl, hpool, hsafe, hfits, hown⟩ .nil)
  · intro p hp
    rw [BijectiveTable.values_of_insert? htable, List.mem_append, List.mem_singleton] at hp
    rcases hp with hp | rfl
    · have hne : p ≠ token := fun heq => hunused (heq ▸ hp)
      exact (Function.update_of_ne hne _ _).trans (h.stored p hp)
    · exact Function.update_self _ _ _
  · have hdrop : (st.spool.dropTextObservation row.1.canonical).observations.rows =
        st.spool.observations.rows.filter fun r => r.1 ≠ row.1.canonical := rfl
    rw [hdrop, h.spool, List.filter_filter]
    apply List.filter_congr
    intro r _
    rw [List.map_append, List.map_singleton, ← Bool.decide_and, decide_eq_decide, List.mem_append,
      List.mem_singleton, not_or, and_comm]

theorem map_fst_assignments (h : Assigned plan.graph total plan.graph.originals.length plan.state) :
    plan.assignments.map Prod.fst = plan.graph.originals := by
  apply List.ext_getElem?
  intro i
  rw [List.getElem?_map]
  cases ho : plan.graph.originals[i]? with
  | none =>
    cases ha : plan.assignments[i]? with
    | none => rfl
    | some row => exact absurd (((getElem?_assignments h).mp ha).1.symm.trans ho) (by simp)
  | some o =>
    obtain ⟨hlt, -⟩ := List.getElem?_eq_some_iff.mp ho
    obtain ⟨r, hr⟩ := (h.placed_iff i).mpr hlt
    have hrow : plan.assignments[i]? = some (o, r) := (getElem?_assignments h).mpr ⟨ho, hr⟩
    rw [hrow]
    rfl

theorem canonical_assignments (hgraph : plan.graph = P.graph)
    (h : Assigned plan.graph total plan.graph.originals.length plan.state) :
    plan.assignments.map (·.1.canonical) = P.rows.map Prod.fst := by
  have hmap := congrArg (List.map ResOriginal.canonical) (map_fst_assignments h)
  rw [hgraph, ResidualProblem.originals_eq, List.map_map, List.map_map] at hmap
  exact hmap

theorem CommitInv.step (h : CommitInv P done st) (rng : Csprng) {row : ResOriginal × Resource}
    {rest : List (ResOriginal × Resource)} (hgraph : plan.graph = P.graph)
    (hplan : Assigned plan.graph (initialState P.mappings P.alphabet.length plan.graph).fungible
      plan.graph.originals.length plan.state) (hsplit : plan.assignments = done ++ row :: rest) :
    ∃ st', commitRow rng P.alphabet plan.graph st row = .ok st' ∧ CommitInv P (done ++ [row]) st' := by
  have hrow : plan.assignments[done.length]? = some row := by
    rw [hsplit, List.getElem?_append_right le_rfl, Nat.sub_self]
    rfl
  obtain ⟨horiginal, hlookup⟩ := (getElem?_assignments hplan).mp hrow
  have hedge : P.graph.Edge done.length row.2 := hgraph ▸ hplan.edges _ _ hlookup
  rw [hgraph] at horiginal
  obtain ⟨observed, hobserved, heq⟩ := ResidualProblem.getElem?_originals.mp horiginal
  have hcanonical : row.1.canonical = observed.1 := by rw [heq]; rfl
  have hwidth : row.1.width = observed.2 := by rw [heq]; rfl
  have hallowed : ∀ x ∈ P.pool row.2, isSafeToken x P.alphabet = true ∧ x ∉ P.mappings.table.values ∧
      x.length ≤ observed.2 ∧ x ≠ observed.1 :=
    fun x hx => (ResidualProblem.exists_edge_iff P.alphabet_nul hobserved).mp ⟨row.2, hedge, hx⟩
  have hunused := h.exists_unused hgraph hplan hsplit hrow fun x hx => (hallowed x hx).2.1
  obtain ⟨token, draws, hrun, hpool, hfree⟩ := h.materializeToken_spec rng hedge hunused
  obtain ⟨hsafe, -, hfits, hown⟩ := hallowed token hpool
  have hkey : row.1.canonical ∉ st.mappings.table.keys := by
    obtain ⟨added, hrows, hall⟩ := h.rows
    intro hmem
    obtain ⟨p, hp⟩ := BijectiveTable.mem_keys.mp hmem
    rw [hrows, List.mem_append] at hp
    rcases hp with hp | hp
    · have hmem := TextSpool.mem_textObservations.mp (List.mem_of_getElem? hobserved)
      exact P.originals_unpersisted observed hmem (hcanonical ▸ BijectiveTable.mem_keys.mpr ⟨p, hp⟩)
    · obtain ⟨earlier, hearlier, hsame, -⟩ := exists_of_forall₂_right hall hp
      have hnodup := P.toResidualProblem.nodup_rows
      rw [← canonical_assignments hgraph hplan, hsplit, List.map_append, List.map_cons,
        List.nodup_append] at hnodup
      exact hnodup.2.2 _ (List.mem_map_of_mem hearlier) _ List.mem_cons_self hsame.symm
  obtain ⟨mappings, hadd, hnext⟩ := h.commit draws hkey hfree hpool hsafe (hwidth ▸ hfits)
    (hcanonical ▸ hown)
  refine ⟨_, ?_, hnext⟩
  simp only [commitRow, hgraph, hrun, ok_bind, hadd, pure_eq_ok]

theorem CommitInv.materialized (h : CommitInv P plan.assignments st) (hgraph : plan.graph = P.graph)
    (hplan : Assigned plan.graph (initialState P.mappings P.alphabet.length plan.graph).fungible
      plan.graph.originals.length plan.state) : Materialized P plan st where
  extends_rows := by
    obtain ⟨added, hrows, hall⟩ := h.rows
    refine ⟨added, hrows, ?_, ?_⟩
    · refine hall.imp fun row pair hpair => ⟨hpair.1, hpair.2.2.2.1, hpair.2.2.2.2, ?_⟩
      have hpool := hpair.2.1
      cases hresource : row.2 with
      | classSlot length =>
        rw [hresource, ResidualProblem.mem_pool_classSlot] at hpool
        rw [hgraph, ResidualProblem.map_value_tokens]
        exact ⟨hpool.1.1, hpool.2.2⟩
      | token tid =>
        rw [hresource, ResidualProblem.mem_pool_token, ← ResidualProblem.map_value_tokens, List.getElem?_map] at hpool
        rw [hgraph]
        exact hpool
    · have hkeys : List.Forall₂ (· = ·) (plan.assignments.map (·.1.canonical)) (added.map Prod.fst) := by
        rw [List.forall₂_map_left_iff, List.forall₂_map_right_iff]
        exact hall.imp fun _ _ hpair => hpair.1.symm
      rw [List.forall₂_eq_eq_eq] at hkeys
      rw [← hkeys, canonical_assignments hgraph hplan]
  injective := st.mappings.table.values_nodup
  pseudonyms_safe := h.pseudonyms_safe
  lengths_stored := h.stored
  observations_dropped := by
    rw [h.spool, List.filter_eq_nil_iff]
    intro row hrow
    rw [canonical_assignments hgraph hplan]
    simpa using ⟨row.2, TextSpool.mem_textObservations.mpr hrow⟩

end Loop

/-- A stop of the loop anywhere leaves the invariant for the assignments done so far. -/
theorem RemainingProblem.exists_commits (P : RemainingProblem) {plan : TextResidualPlan}
    (hsolve : solveTextResidual P.alphabet P.mappings P.spool = some (.ok plan)) (rng : Csprng)
    (draws commits : ℕ) :
    ∃ st, materializeTextAssignment rng P.alphabet plan.graph (plan.assignments.take commits)
      ⟨P.mappings, P.spool, draws⟩ = .ok st ∧ CommitInv P (plan.assignments.take commits) st := by
  obtain ⟨hgraph, hplan⟩ := P.assigned_of_solve hsolve
  refine exists_foldlM_ok _ (CommitInv P) (fun done row rest st hsplit h => ?_) (commitInv_start draws)
  have hall : plan.assignments = done ++ row :: (rest ++ plan.assignments.drop commits) := by
    rw [← List.cons_append, ← List.append_assoc, ← hsplit, List.take_append_drop]
  exact h.step rng hgraph hplan hall

/-- Materializing a solved assignment completes, whatever is drawn, and carries every assignment out. -/
theorem materializeTextAssignment_completes (P : RemainingProblem) {plan : TextResidualPlan}
    (hsolve : solveTextResidual P.alphabet P.mappings P.spool = some (.ok plan)) (rng : Csprng) (draws : ℕ) :
    ∃ st, materializeTextAssignment rng P.alphabet plan.graph plan.assignments ⟨P.mappings, P.spool, draws⟩ =
      .ok st ∧ Materialized P plan st := by
  obtain ⟨hgraph, hplan⟩ := P.assigned_of_solve hsolve
  obtain ⟨st, hrun, hinv⟩ := P.exists_commits hsolve rng draws plan.assignments.length
  rw [List.take_length] at hrun hinv
  exact ⟨st, hrun, hinv.materialized hgraph hplan⟩

theorem Materialized.exists_row {P : RemainingProblem} {plan : TextResidualPlan} {st : TextState}
    (h : Materialized P plan st) (hsolve : solveTextResidual P.alphabet P.mappings P.spool = some (.ok plan))
    {row : Text × ℕ} (hrow : row ∈ P.rows) : ∃ p, (row.1, p) ∈ st.mappings.table.rows ∧ p.length ≤ row.2 := by
  obtain ⟨hgraph, hplan⟩ := P.assigned_of_solve hsolve
  obtain ⟨added, hrows, hreceived, -⟩ := h.extends_rows
  have hmem : P.original row ∈ plan.assignments.map Prod.fst := by
    rw [map_fst_assignments hplan, hgraph, ResidualProblem.originals_eq]
    exact List.mem_map_of_mem hrow
  obtain ⟨assignment, hassignment, horiginal⟩ := List.mem_map.mp hmem
  obtain ⟨pair, hpair, hreceives⟩ := exists_of_forall₂_left hreceived hassignment
  have hkey : pair.1 = row.1 := hreceives.original.trans (congrArg ResOriginal.canonical horiginal)
  have hfits : pair.2.length ≤ row.2 := hreceives.fits.trans_eq (congrArg ResOriginal.width horiginal)
  exact ⟨pair.2, hkey ▸ hrows ▸ List.mem_append_right _ hpair, hfits⟩

def lettersMappings : TextMappings where
  table := ⟨[(['Z'], ['C'])], by decide, by decide⟩
  logicalByteLength := List.length

def lettersSpool : TextSpool where
  observations := ⟨[(['A'], 1), (['B'], 1), (['Q', 'Q'], 2)], by decide⟩
  encodings := [['c', 'p', '1', '2', '5', '2']]

/-- Two originals that can only swap their values, beside one that needs a longer token. -/
def letters : RemainingProblem where
  alphabet := ['A', 'B', 'C']
  alphabet_nodup := by decide
  mappings := lettersMappings
  pseudonyms_safe := by decide
  lengths_stored := by simp [lettersMappings]
  spool := lettersSpool
  widths_pos := by decide
  few := by decide
  alphabet_nul := by decide
  originals_unpersisted := by decide

theorem letters_materialized : ∃ plan st,
    solveTextResidual letters.alphabet letters.mappings letters.spool = some (.ok plan) ∧
      materializeTextAssignment default letters.alphabet plan.graph plan.assignments
        ⟨letters.mappings, letters.spool, 0⟩ = .ok st ∧ Materialized letters plan st := by
  obtain ⟨plan, hsolve⟩ : ∃ plan,
      solveTextResidual letters.alphabet letters.mappings letters.spool = some (.ok plan) := ⟨_, rfl⟩
  obtain ⟨st, hrun, hdone⟩ := materializeTextAssignment_completes letters hsolve default 0
  exact ⟨plan, st, hsolve, hrun, hdone⟩

end DbfAnonymizer.Engine
