import DbfAnonymizer.Engine.ResidualSolve
import DbfAnonymizer.Transforms.Tokens

/-! The placements of the residual graph are the text assignments themselves. -/
namespace DbfAnonymizer.Engine
open Transforms Lib Vault

/-- Every remaining original gets its own free token, within its width and different from itself. -/
def ResidualFeasible (alphabet : Text) (mappings : TextMappings) (remaining : List (Text × ℕ)) : Prop :=
  ∃ f : Text → Text, Set.InjOn f {value | value ∈ remaining.map Prod.fst} ∧
    ∀ row ∈ remaining, isSafeToken (f row.1) alphabet = true ∧ f row.1 ∉ mappings.table.values ∧
      (f row.1).length ≤ row.2 ∧ f row.1 ≠ row.1

/-- What the solver is called with: distinct characters, safe persisted pseudonyms stored with their
lengths, and fewer than `2^63` remaining originals of positive width. -/
structure ResidualProblem where
  alphabet : Text
  alphabet_nodup : alphabet.Nodup
  mappings : TextMappings
  pseudonyms_safe : ∀ p ∈ mappings.table.values, isSafeToken p alphabet = true
  lengths_stored : ∀ p ∈ mappings.table.values, mappings.logicalByteLength p = p.length
  spool : TextSpool
  widths_pos : ∀ row ∈ spool.observations.rows, 0 < row.2
  few : spool.observations.rows.length < 2 ^ 63

theorem sqliteLength_eq {value : Text} (h : '\x00' ∉ value) : sqliteLength value = value.length := by
  rw [sqliteLength, List.takeWhile_eq_self_iff.mpr]
  intro c hc
  rw [decide_eq_true_eq]
  rintro rfl
  exact h hc

theorem ownTokenOf_eq_some {alphabet : Text} {mappings : TextMappings} {value token : Text} {width : ℕ} :
    ownTokenOf alphabet mappings value width = some token ↔
      token = value ∧ isSafeToken value alphabet = true ∧ value.length ≤ width ∧ value ∉ mappings.table.values := by
  unfold ownTokenOf tokenOccupied
  split_ifs with h
  · obtain ⟨hsafe, hlength, hfree⟩ := h
    rw [Option.some.injEq, eq_comm]
    exact ⟨fun heq => ⟨heq, hsafe, hlength, by simpa using hfree⟩, And.left⟩
  · simp only [false_iff, not_and]
    intro _ hsafe hlength hfree
    exact h ⟨hsafe, hlength, by simpa using hfree⟩

theorem isSafeToken_iff {token alphabet : Text} :
    isSafeToken token alphabet = true ↔ token ≠ [] ∧ ∀ c ∈ token, c ∈ alphabet := by
  simp [isSafeToken]

namespace ResidualProblem
variable (P : ResidualProblem)

def graph : ResidualGraph := residualGraph P.alphabet P.mappings P.spool

def rows : List (Text × ℕ) := P.spool.textObservations

def ownToken (row : Text × ℕ) : Option Text := ownTokenOf P.alphabet P.mappings row.1 row.2

def original (row : Text × ℕ) : ResOriginal := ⟨row.2, row.1, P.ownToken row⟩

/-- The reserved tokens: the own values that are free safe tokens. -/
def reserved : List Text := P.rows.filterMap P.ownToken

variable {P}

theorem originals_eq : P.graph.originals = P.rows.map P.original := rfl

theorem getElem?_originals {i : ℕ} {o : ResOriginal} :
    P.graph.originals[i]? = some o ↔ ∃ row, P.rows[i]? = some row ∧ o = P.original row := by
  rw [originals_eq, List.getElem?_map, Option.map_eq_some_iff]
  simp only [eq_comm]

theorem map_value_tokens : P.graph.tokens.map ResToken.value = P.reserved := by
  have hsplit : ∀ (rows : List (Text × ℕ)) (start : ℕ),
      (((rows.map P.original).zipIdx start).filterMap resToken).map ResToken.value =
        rows.filterMap P.ownToken := by
    intro rows
    induction rows with
    | nil => intro start; rfl
    | cons row rows ih =>
      intro start
      rw [List.map_cons, List.zipIdx_cons]
      cases hown : P.ownToken row with
      | none =>
        rw [List.filterMap_cons_none hown, List.filterMap_cons_none (by simp [resToken, original, hown]), ih]
      | some token =>
        rw [List.filterMap_cons_some hown,
          List.filterMap_cons_some (b := ⟨token, sqliteLength token, start⟩) (by simp [resToken, original, hown]),
          List.map_cons, ih]
  exact hsplit P.rows 0

theorem mem_reserved {token : Text} :
    token ∈ P.reserved ↔ isSafeToken token P.alphabet = true ∧ token ∉ P.mappings.table.values ∧
      ∃ width, (token, width) ∈ P.rows ∧ token.length ≤ width := by
  simp only [reserved, ownToken, List.mem_filterMap, ownTokenOf_eq_some]
  constructor
  · rintro ⟨⟨value, width⟩, hrow, rfl, hsafe, hlength, hfree⟩
    exact ⟨hsafe, hfree, width, hrow, hlength⟩
  · rintro ⟨hsafe, hfree, width, hrow, hlength⟩
    exact ⟨(token, width), hrow, rfl, hsafe, hlength, hfree⟩

theorem nodup_rows : (P.rows.map Prod.fst).Nodup := P.spool.nodup_originals

theorem nodup_reserved : P.reserved.Nodup := by
  have hsub : P.reserved.Sublist (P.rows.map Prod.fst) := by
    unfold reserved
    induction P.rows with
    | nil => exact List.Sublist.slnil
    | cons row rows ih =>
      cases hown : P.ownToken row with
      | none =>
        rw [List.filterMap_cons_none hown]
        exact ih.cons _
      | some token =>
        rw [List.filterMap_cons_some hown, (ownTokenOf_eq_some.mp hown).1]
        exact ih.cons_cons _
  exact hsub.nodup nodup_rows

theorem token_spec {tid : ℕ} {token : ResToken} (h : P.graph.tokens[tid]? = some token) :
    token.value ∈ P.reserved ∧ token.length = sqliteLength token.value ∧
      ∃ width, P.rows[token.ownerIdx]? = some (token.value, width) := by
  have hmem : token ∈ P.graph.tokens := List.mem_of_getElem? h
  refine ⟨map_value_tokens ▸ List.mem_map_of_mem hmem, ?_⟩
  obtain ⟨⟨o, i⟩, ho, htoken⟩ := List.mem_filterMap.mp hmem
  obtain ⟨value, hown, rfl⟩ := Option.map_eq_some_iff.mp htoken
  obtain ⟨row, hrow, heq⟩ := getElem?_originals.mp (List.mk_mem_zipIdx_iff_getElem?.mp ho)
  simp only at heq hown
  subst heq
  refine ⟨rfl, row.2, ?_⟩
  rw [(ownTokenOf_eq_some.mp hown).1]
  exact hrow

def pool (P : ResidualProblem) : Resource → Finset Text
  | .classSlot length =>
    (tokensOfLength P.alphabet length).toFinset.filter fun x => x ∉ P.mappings.table.values ∧ x ∉ P.reserved
  | .token tid =>
    match P.reserved[tid]? with
    | some value => {value}
    | none => ∅

theorem mem_pool_classSlot {length : ℕ} {x : Text} : x ∈ P.pool (.classSlot length) ↔
    (x.length = length ∧ ∀ c ∈ x, c ∈ P.alphabet) ∧ x ∉ P.mappings.table.values ∧ x ∉ P.reserved := by
  simp only [pool, Finset.mem_filter, List.mem_toFinset, mem_tokensOfLength]

theorem mem_pool_token {tid : ℕ} {x : Text} : x ∈ P.pool (.token tid) ↔ P.reserved[tid]? = some x := by
  unfold pool
  cases h : P.reserved[tid]? with
  | none => simp [h]
  | some value => simp [h, eq_comm]

theorem pool_disjoint (r s : Resource) (x : Text) (hr : x ∈ P.pool r) (hs : x ∈ P.pool s) : r = s := by
  cases r with
  | classSlot l =>
    rw [mem_pool_classSlot] at hr
    cases s with
    | classSlot k =>
      rw [mem_pool_classSlot] at hs
      rw [← hr.1.1, ← hs.1.1]
    | token t => exact absurd (List.mem_of_getElem? (mem_pool_token.mp hs)) hr.2.2
  | token t =>
    rw [mem_pool_token] at hr
    cases s with
    | classSlot k =>
      rw [mem_pool_classSlot] at hs
      exact absurd (List.mem_of_getElem? hr) hs.2.2
    | token u =>
      rw [mem_pool_token] at hs
      obtain ⟨hlt, -⟩ := List.getElem?_eq_some_iff.mp hr
      rw [(List.getElem?_inj hlt nodup_reserved).mp (hr.trans hs.symm)]

theorem exists_edge_iff (hnul : '\x00' ∉ P.alphabet) {i : ℕ} {row : Text × ℕ} (hrow : P.rows[i]? = some row)
    {x : Text} : (∃ r, P.graph.Edge i r ∧ x ∈ P.pool r) ↔ isSafeToken x P.alphabet = true ∧
      x ∉ P.mappings.table.values ∧ x.length ≤ row.2 ∧ x ≠ row.1 := by
  have ho : P.graph.originals[i]? = some (P.original row) := getElem?_originals.mpr ⟨row, hrow, rfl⟩
  have hlength : ∀ y, isSafeToken y P.alphabet = true → sqliteLength y = y.length := by
    intro y hy
    exact sqliteLength_eq fun hmem => hnul ((isSafeToken_iff.mp hy).2 _ hmem)
  have htokens : ∀ tid : ℕ, (P.graph.tokens[tid]?).map ResToken.value = P.reserved[tid]? := by
    intro tid
    rw [← List.getElem?_map, map_value_tokens]
  constructor
  · rintro ⟨r, hedge, hpool⟩
    cases r with
    | classSlot length =>
      obtain ⟨⟨hlen, hsafe⟩, hfree, hnot⟩ := mem_pool_classSlot.mp hpool
      obtain ⟨o, ho', hpos, hle⟩ := hedge
      obtain rfl := Option.some.inj (ho.symm.trans ho')
      have hxsafe : isSafeToken x P.alphabet = true := by
        refine isSafeToken_iff.mpr ⟨?_, hsafe⟩
        rintro rfl
        simp only [List.length_nil] at hlen
        omega
      refine ⟨hxsafe, hfree, hlen ▸ hle, ?_⟩
      rintro rfl
      exact hnot (mem_reserved.mpr ⟨hxsafe, hfree, row.2, List.mem_of_getElem? hrow, hlen ▸ hle⟩)
    | token tid =>
      obtain ⟨o, token, ho', htoken, hle, howner, -⟩ := hedge
      obtain rfl := Option.some.inj (ho.symm.trans ho')
      obtain rfl : token.value = x := by
        have hvalue := htokens tid
        rw [htoken, mem_pool_token.mp hpool] at hvalue
        exact Option.some.inj hvalue
      obtain ⟨hreserved, hlen, width, hown⟩ := token_spec htoken
      obtain ⟨hsafe, hfree, -⟩ := mem_reserved.mp hreserved
      rw [hlen, hlength _ hsafe] at hle
      refine ⟨hsafe, hfree, hle, ?_⟩
      intro heq
      apply howner
      have hkeys : (P.rows.map Prod.fst)[token.ownerIdx]? = (P.rows.map Prod.fst)[i]? := by
        rw [List.getElem?_map, List.getElem?_map, hown, hrow, Option.map_some, Option.map_some, heq]
      obtain ⟨hlt, -⟩ := List.getElem?_eq_some_iff.mp hown
      exact (List.getElem?_inj (by simpa using hlt) nodup_rows).mp hkeys
  · rintro ⟨hsafe, hfree, hle, hne⟩
    by_cases hreserved : x ∈ P.reserved
    · obtain ⟨tid, htid⟩ := List.getElem?_of_mem hreserved
      have hvalue := htokens tid
      rw [htid] at hvalue
      obtain ⟨token, htoken, rfl⟩ := Option.map_eq_some_iff.mp hvalue
      obtain ⟨-, hlen, width, hown⟩ := token_spec htoken
      refine ⟨.token tid, ⟨P.original row, token, ho, htoken, ?_, ?_, ?_⟩, mem_pool_token.mpr htid⟩
      · rw [hlen, hlength _ hsafe]
        exact hle
      · rintro rfl
        rw [hrow] at hown
        exact hne (congrArg Prod.fst (Option.some.inj hown)).symm
      · intro hself
        exact hne (ownTokenOf_eq_some.mp hself).1
    · obtain ⟨hnonempty, hchars⟩ := isSafeToken_iff.mp hsafe
      refine ⟨.classSlot x.length, ⟨P.original row, ho, List.length_pos_iff.mpr hnonempty, hle⟩, ?_⟩
      exact mem_pool_classSlot.mpr ⟨⟨rfl, hchars⟩, hfree, hreserved⟩

theorem card_pool_classSlot (hnul : '\x00' ∉ P.alphabet) (length : ℕ) :
    ((P.pool (.classSlot length)).card : ℤ) = classSize P.alphabet.length length -
      occupiedByLength P.mappings length - reservedByLength P.graph.tokens length := by
  have hoccupied : occupiedByLength P.mappings length =
      (P.mappings.table.values.filter (·.length = length)).toFinset.card := by
    have hnodup : P.mappings.table.values.Nodup := P.mappings.table.values_nodup
    rw [List.toFinset_card_of_nodup (hnodup.filter _), occupiedByLength]
    congr 1
    apply List.filter_congr
    intro p hp
    rw [P.lengths_stored p hp]
  have hreserved : reservedByLength P.graph.tokens length =
      (P.reserved.filter (·.length = length)).toFinset.card := by
    rw [List.toFinset_card_of_nodup (nodup_reserved.filter _), ← map_value_tokens, List.filter_map, List.length_map,
      reservedByLength]
    congr 1
    apply List.filter_congr
    intro token htoken
    obtain ⟨tid, htid⟩ := List.getElem?_of_mem htoken
    obtain ⟨hmem, hlen, -⟩ := token_spec htid
    obtain ⟨hsafe, -⟩ := mem_reserved.mp hmem
    rw [hlen, sqliteLength_eq fun hc => hnul ((isSafeToken_iff.mp hsafe).2 _ hc)]
    rfl
  have hall : (tokensOfLength P.alphabet length).toFinset.card = P.alphabet.length ^ length := by
    rw [List.toFinset_card_of_nodup (nodup_tokensOfLength P.alphabet_nodup length), length_tokensOfLength]
  have hunion : (tokensOfLength P.alphabet length).toFinset = P.pool (.classSlot length) ∪
      ((P.mappings.table.values.filter (·.length = length)).toFinset ∪
        (P.reserved.filter (·.length = length)).toFinset) := by
    ext x
    simp only [Finset.mem_union, mem_pool_classSlot, List.mem_toFinset, mem_tokensOfLength, List.mem_filter,
      decide_eq_true_eq]
    constructor
    · intro hx
      by_cases hfree : x ∈ P.mappings.table.values
      · exact Or.inr (Or.inl ⟨hfree, hx.1⟩)
      · by_cases hmem : x ∈ P.reserved
        · exact Or.inr (Or.inr ⟨hmem, hx.1⟩)
        · exact Or.inl ⟨hx, hfree, hmem⟩
    · rintro (⟨hx, -⟩ | ⟨hmem, hlen⟩ | ⟨hmem, hlen⟩)
      · exact hx
      · exact ⟨hlen, (isSafeToken_iff.mp (P.pseudonyms_safe x hmem)).2⟩
      · exact ⟨hlen, (isSafeToken_iff.mp (mem_reserved.mp hmem).1).2⟩
  have hdisjoint₁ : Disjoint (P.mappings.table.values.filter (·.length = length)).toFinset
      (P.reserved.filter (·.length = length)).toFinset := by
    rw [Finset.disjoint_left]
    intro x hx hx'
    rw [List.mem_toFinset, List.mem_filter] at hx hx'
    exact (mem_reserved.mp hx'.1).2.1 hx.1
  have hdisjoint₂ : Disjoint (P.pool (.classSlot length)) ((P.mappings.table.values.filter
      (·.length = length)).toFinset ∪ (P.reserved.filter (·.length = length)).toFinset) := by
    rw [Finset.disjoint_left]
    intro x hx hx'
    obtain ⟨-, hfree, hnot⟩ := mem_pool_classSlot.mp hx
    rcases Finset.mem_union.mp hx' with hx' | hx'
    · exact hfree (List.mem_filter.mp (List.mem_toFinset.mp hx')).1
    · exact hnot (List.mem_filter.mp (List.mem_toFinset.mp hx')).1
  have hcard := congrArg Finset.card hunion
  rw [hall, Finset.card_union_of_disjoint hdisjoint₂, Finset.card_union_of_disjoint hdisjoint₁, ← hoccupied,
    ← hreserved] at hcard
  have hpower : classSize P.alphabet.length length = ((P.alphabet.length ^ length : ℕ) : ℤ) := by
    simp [classSize]
  rw [hpower, hcard]
  push_cast
  omega

theorem card_pool_token {tid : ℕ} {token : ResToken} (h : P.graph.tokens[tid]? = some token) :
    (P.pool (.token tid)).card = 1 := by
  have hvalue : P.reserved[tid]? = some token.value := by
    rw [← map_value_tokens, List.getElem?_map, h]
    rfl
  simp [pool, hvalue]

theorem initialFungible_nonneg (hnul : '\x00' ∉ P.alphabet) (length : ℕ) :
    0 ≤ (initialState P.mappings P.alphabet.length P.graph).fungible length := by
  simp only [initialState]
  split_ifs
  · rw [initialFungible, ← card_pool_classSlot hnul, storedCapacity, sqliteInt64Max]
    omega
  · exact le_rfl

theorem le_maxWidth {row : Text × ℕ} (h : row ∈ P.rows) : row.2 ≤ P.graph.maxWidth := by
  apply (le_foldl_max (P.graph.originals.map ResOriginal.width) 0).2
  rw [originals_eq, List.map_map]
  exact List.mem_map.mpr ⟨row, h, rfl⟩

theorem resourceCapacity_eq (hnul : '\x00' ∉ P.alphabet) {i : ℕ} {r : Resource} (hedge : P.graph.Edge i r) :
    resourceCapacity (initialState P.mappings P.alphabet.length P.graph).fungible r =
      min (P.pool r).card (2 ^ 63 - 1) := by
  cases r with
  | classSlot length =>
    obtain ⟨o, ho, hpos, hle⟩ := hedge
    obtain ⟨row, hrow, rfl⟩ := getElem?_originals.mp ho
    have hmax := le_maxWidth (List.mem_of_getElem? hrow)
    have hle' : length ≤ row.2 := hle
    simp only [resourceCapacity, initialState]
    rw [if_pos ⟨hpos, hle'.trans hmax⟩, initialFungible, ← card_pool_classSlot hnul, storedCapacity, sqliteInt64Max]
    omega
  | token tid =>
    obtain ⟨_, token, -, htoken, -⟩ := hedge
    rw [card_pool_token htoken]
    rfl

/-- The residual graph has a placement exactly when the text assignment is possible. -/
theorem fits_iff_feasible (hnul : '\x00' ∉ P.alphabet) :
    Fits (originalIndices P.graph) P.graph.Edge
        (resourceCapacity (initialState P.mappings P.alphabet.length P.graph).fungible) ↔
      ResidualFeasible P.alphabet P.mappings P.rows := by
  have hlength : P.graph.originals.length = P.rows.length := by rw [originals_eq, List.length_map]
  have hfew : (originalIndices P.graph).card ≤ 2 ^ 63 - 1 := by
    have hfew := P.few
    have hperm := P.spool.textObservations_perm.length_eq
    rw [originalIndices, Finset.card_range, hlength, rows, hperm]
    omega
  have hcapacity : ∀ i ∈ originalIndices P.graph, ∀ r, P.graph.Edge i r →
      resourceCapacity (initialState P.mappings P.alphabet.length P.graph).fungible r =
        min (P.pool r).card (2 ^ 63 - 1) := fun i _ r => resourceCapacity_eq hnul
  rw [fits_congr hcapacity, fits_min_iff hfew, ← exists_injOn_iff_fits (τ := Text) pool_disjoint, ResidualFeasible,
    exists_injOn_keys_iff nodup_rows fun row x => isSafeToken x P.alphabet = true ∧
      x ∉ P.mappings.table.values ∧ x.length ≤ row.2 ∧ x ≠ row.1, originalIndices, hlength]
  apply exists_congr
  intro f
  apply and_congr_right
  intro _
  constructor
  · intro hf i row hrow
    obtain ⟨hlt, -⟩ := List.getElem?_eq_some_iff.mp hrow
    exact (exists_edge_iff hnul hrow).mp (hf i (Finset.mem_range.mpr hlt))
  · intro hf i hi
    have hrow := List.getElem?_eq_getElem (Finset.mem_range.mp hi)
    exact (exists_edge_iff hnul hrow).mpr (hf i _ hrow)

theorem solve_verdict (hnul : '\x00' ∉ P.alphabet) :
    (∃ plan, solveTextResidual P.alphabet P.mappings P.spool = some (.ok plan) ∧ plan.graph = P.graph ∧
      Assigned plan.graph (initialState P.mappings P.alphabet.length plan.graph).fungible
        plan.graph.originals.length plan.state ∧ ResidualFeasible P.alphabet P.mappings P.rows) ∨
    (solveTextResidual P.alphabet P.mappings P.spool =
        some (.error (capacityFailure "ENGINE_TEXT_RESIDUAL_INFEASIBLE")) ∧
      ¬ ResidualFeasible P.alphabet P.mappings P.rows) := by
  have hwidth : ∀ row ∈ P.spool.textObservations, 0 < row.2 :=
    fun row hrow => P.widths_pos row (TextSpool.mem_textObservations.mp hrow)
  rcases solveTextResidual_cases hwidth (initialFungible_nonneg hnul) with
    ⟨plan, heq, hgraph, hassigned⟩ | ⟨heq, hfits⟩
  · refine Or.inl ⟨plan, heq, hgraph, hassigned, (fits_iff_feasible hnul).mp ?_⟩
    have hfits := hassigned.fits
    rw [hgraph] at hfits
    exact hfits
  · exact Or.inr ⟨heq, fun hfeasible => hfits ((fits_iff_feasible hnul).mpr hfeasible)⟩

end ResidualProblem
end DbfAnonymizer.Engine
