import DbfAnonymizer.Csprng
import DbfAnonymizer.Engine.ResidualPools
import DbfAnonymizer.Transforms.TokenClass

/-! Drawing the actual tokens of a solved residual assignment, with a commit after each of them. -/
namespace DbfAnonymizer.Engine
open Transforms Lib Vault

def textProbeBudget : ℕ := 64

/-- Whether a token is one of the solved graph's reserved resources. -/
def reservedTokenBlocked (graph : ResidualGraph) (candidate : Text) : Bool :=
  candidate ∈ graph.tokens.map ResToken.value

def fungibleBlocked (graph : ResidualGraph) (mappings : TextMappings) (value candidate : Text) : Bool :=
  candidate = value || tokenOccupied mappings candidate || reservedTokenBlocked graph candidate

/-- Random probes of a class: the first candidate that is not blocked, if any, and the draw counter. -/
def probeFungible (rng : Csprng) (alphabet : Text) (length : ℕ) (blocked : Text → Bool) :
    ℕ → ℕ → Except Raised (Option Text × ℕ)
  | 0, draws => .ok (none, draws)
  | budget + 1, draws => do
    let draw ← rng.randbelow draws (classSize alphabet.length length)
    let candidate ← tokenAt (tokenSpace (length - 1) alphabet.length + draw) length alphabet
    if blocked candidate then probeFungible rng alphabet length blocked budget (draws + 1)
    else return (some candidate, draws + 1)

/-- The persisted tokens stored with a length, and every reserved token of that length. -/
def blockedTokens (graph : ResidualGraph) (mappings : TextMappings) (length : ℕ) : List Text :=
  mappings.table.values.filter (mappings.logicalByteLength · = length) ++
    (graph.tokens.filter (·.length = length)).map ResToken.value

/-- The rows of `blocked_index`, in order. -/
def blockedIndices (alphabet : Text) (graph : ResidualGraph) (mappings : TextMappings) (length : ℕ) :
    Except Raised (List ℕ) := do
  let indices ← (blockedTokens graph mappings length).mapM (tokenIndex · alphabet)
  return indices.dedup.insertionSort (· ≤ ·)

/-- The `j`-th free token of a class, for a random `j`. -/
def exactFungibleWalk (rng : Csprng) (alphabet : Text) (graph : ResidualGraph) (mappings : TextMappings)
    (length draws : ℕ) : Except Raised (Text × ℕ) := do
  let blocked ← blockedIndices alphabet graph mappings length
  let remaining ← rng.randbelow draws (classSize alphabet.length length - blocked.length)
  let chosen := gapWalk (tokenSpace (length - 1) alphabet.length - 1) remaining (blocked.map Nat.cast)
  let token ← tokenAt chosen length alphabet
  return (token, draws + 1)

def selectFungibleToken (rng : Csprng) (alphabet : Text) (graph : ResidualGraph) (mappings : TextMappings)
    (value : Text) (length draws : ℕ) : Except Raised (Text × ℕ) := do
  match ← probeFungible rng alphabet length (fungibleBlocked graph mappings value) textProbeBudget draws with
  | (some candidate, draws) => return (candidate, draws)
  | (none, draws) => exactFungibleWalk rng alphabet graph mappings length draws

/-- The token that one assigned original yields, and the draw counter. -/
def materializeToken (rng : Csprng) (alphabet : Text) (graph : ResidualGraph) (mappings : TextMappings)
    (row : ResOriginal × Resource) (draws : ℕ) : Except Raised (Text × ℕ) :=
  match row.2 with
  | .token tid =>
    match graph.tokens[tid]? with
    | some token => .ok (token.value, draws)
    | none => .error (capacityFailure "ENGINE_TEXT_RESIDUAL_BROKEN")
  | .classSlot length => selectFungibleToken rng alphabet graph mappings row.1.canonical length draws

/-- The originals with their assigned resources, in the order of their indices. -/
def TextResidualPlan.assignments (plan : TextResidualPlan) : List (ResOriginal × Resource) :=
  plan.graph.originals.zipIdx.filterMap fun row => (plan.state.assign.lookup row.2).map (row.1, ·)

structure TextState where
  mappings : TextMappings
  spool : TextSpool
  draws : ℕ

/-- One turn of the commit loop: the yielded mapping is committed and its observation dropped. -/
def commitRow (rng : Csprng) (alphabet : Text) (graph : ResidualGraph) (st : TextState)
    (row : ResOriginal × Resource) : Except Raised TextState := do
  let (token, draws) ← materializeToken rng alphabet graph st.mappings row st.draws
  let mappings ← addTextMapping st.mappings row.1.canonical token token.length
  return ⟨mappings, st.spool.dropTextObservation row.1.canonical, draws⟩

def materializeTextAssignment (rng : Csprng) (alphabet : Text) (graph : ResidualGraph)
    (rows : List (ResOriginal × Resource)) (st : TextState) : Except Raised TextState :=
  rows.foldlM (commitRow rng alphabet graph) st

section Select
variable {alphabet : Text} {graph : ResidualGraph} {mappings : TextMappings}

/-- The stored lengths are the lengths of safe tokens, both for persisted and for reserved ones. -/
structure TokensStored (alphabet : Text) (graph : ResidualGraph) (mappings : TextMappings) : Prop where
  alphabet_nodup : alphabet.Nodup
  pseudonyms_safe : ∀ p ∈ mappings.table.values, isSafeToken p alphabet = true
  lengths_stored : ∀ p ∈ mappings.table.values, mappings.logicalByteLength p = p.length
  reserved_safe : ∀ token ∈ graph.tokens, isSafeToken token.value alphabet = true
  reserved_length : ∀ token ∈ graph.tokens, token.length = token.value.length

def classFree (alphabet : Text) (graph : ResidualGraph) (mappings : TextMappings) (length : ℕ) : Finset Text :=
  freeInClass alphabet length (blockedTokens graph mappings length)

theorem TokensStored.mem_blockedTokens (h : TokensStored alphabet graph mappings) {length : ℕ} {token : Text} :
    token ∈ blockedTokens graph mappings length ↔
      (token ∈ mappings.table.values ∨ token ∈ graph.tokens.map ResToken.value) ∧ token.length = length := by
  simp only [blockedTokens, List.mem_append, List.mem_filter, List.mem_map, decide_eq_true_eq]
  constructor
  · rintro (⟨hmem, hlength⟩ | ⟨row, ⟨hrow, hlength⟩, rfl⟩)
    · exact ⟨Or.inl hmem, (h.lengths_stored token hmem) ▸ hlength⟩
    · exact ⟨Or.inr ⟨row, hrow, rfl⟩, (h.reserved_length row hrow) ▸ hlength⟩
  · rintro ⟨hmem | ⟨row, hrow, rfl⟩, hlength⟩
    · exact Or.inl ⟨hmem, (h.lengths_stored token hmem).trans hlength⟩
    · exact Or.inr ⟨row, ⟨hrow, (h.reserved_length row hrow).trans hlength⟩, rfl⟩

theorem TokensStored.blocked_of_length (h : TokensStored alphabet graph mappings) (length : ℕ) :
    ∀ token ∈ blockedTokens graph mappings length, token ∈ tokensOfLength alphabet length := by
  intro token htoken
  obtain ⟨hmem, rfl⟩ := h.mem_blockedTokens.mp htoken
  apply mem_tokensOfLength_of_isSafeToken
  rcases hmem with hmem | hmem
  · exact h.pseudonyms_safe token hmem
  · obtain ⟨row, hrow, rfl⟩ := List.mem_map.mp hmem
    exact h.reserved_safe row hrow

theorem TokensStored.mem_classFree (h : TokensStored alphabet graph mappings) {length : ℕ} {token : Text} :
    token ∈ classFree alphabet graph mappings length ↔ token ∈ tokensOfLength alphabet length ∧
      token ∉ mappings.table.values ∧ token ∉ graph.tokens.map ResToken.value := by
  rw [classFree, mem_freeInClass, h.mem_blockedTokens]
  constructor
  · rintro ⟨hmem, hfree⟩
    have hlength := (mem_tokensOfLength.mp hmem).1
    exact ⟨hmem, fun hv => hfree ⟨Or.inl hv, hlength⟩, fun hr => hfree ⟨Or.inr hr, hlength⟩⟩
  · rintro ⟨hmem, hv, hr⟩
    exact ⟨hmem, fun hblocked => hblocked.1.elim hv hr⟩

theorem TokensStored.probeFungible_cases (h : TokensStored alphabet graph mappings) (rng : Csprng) {length : ℕ}
    (hlength : 0 < length) (hsize : 0 < classSize alphabet.length length) (value : Text) (budget draws : ℕ) :
    (∃ token draws', probeFungible rng alphabet length (fungibleBlocked graph mappings value) budget draws =
        .ok (some token, draws') ∧ token ∈ classFree alphabet graph mappings length) ∨
      ∃ draws', probeFungible rng alphabet length (fungibleBlocked graph mappings value) budget draws =
        .ok (none, draws') := by
  induction budget generalizing draws with
  | zero => exact Or.inr ⟨draws, rfl⟩
  | succ budget ih =>
    obtain ⟨draw, hdraw, hlt⟩ := rng.exists_randbelow draws hsize
    have hpow : (draw : ℤ) < (alphabet.length : ℤ) ^ length := hlt
    have hlow : (tokenSpace (length - 1) alphabet.length : ℤ) ≤ tokenSpace (length - 1) alphabet.length + draw := by
      omega
    obtain ⟨token, htoken, hlen, hsafe, -⟩ := tokenAt_class h.alphabet_nodup hlength hlow (by omega)
    rw [probeFungible, hdraw, ok_bind, htoken, ok_bind]
    by_cases hblocked : fungibleBlocked graph mappings value token = true
    · rw [if_pos hblocked]
      exact ih (draws + 1)
    · left
      refine ⟨token, draws + 1, by rw [if_neg hblocked]; rfl, ?_⟩
      rw [Bool.not_eq_true] at hblocked
      simp only [fungibleBlocked, tokenOccupied, reservedTokenBlocked, Bool.or_eq_false_iff,
        decide_eq_false_iff_not] at hblocked
      exact h.mem_classFree.mpr ⟨hlen ▸ mem_tokensOfLength_of_isSafeToken hsafe, hblocked.1.2, hblocked.2⟩

theorem TokensStored.exactFungibleWalk_spec (h : TokensStored alphabet graph mappings) (rng : Csprng) {length : ℕ}
    (hlength : 0 < length) (hfree : (classFree alphabet graph mappings length).Nonempty) (draws : ℕ) :
    ∃ token draws', exactFungibleWalk rng alphabet graph mappings length draws = .ok (token, draws') ∧
      token ∈ classFree alphabet graph mappings length := by
  have hblocked := h.blocked_of_length length
  obtain ⟨indices, hindices⟩ := exists_indices hlength hblocked
  have hcount : classSize alphabet.length length - (indices.dedup.insertionSort (· ≤ ·)).length =
      (classFree alphabet graph mappings length).card := by
    have hcard := card_freeInClass h.alphabet_nodup hblocked
    rw [← length_dedup_indices hblocked hindices] at hcard
    have hcast : classSize alphabet.length length = ((alphabet.length ^ length : ℕ) : ℤ) := by
      rw [classSize, Nat.cast_pow]
    rw [List.length_insertionSort, hcast, ← hcard, classFree]
    omega
  have hpos := Finset.card_pos.mpr hfree
  obtain ⟨j, hj, hlt⟩ := rng.exists_randbelow draws
    (show 0 < classSize alphabet.length length - (indices.dedup.insertionSort (· ≤ ·)).length by omega)
  obtain ⟨token, htoken, hmem⟩ := gapWalk_class h.alphabet_nodup hlength hblocked hindices (hcount ▸ hlt)
  refine ⟨token, draws + 1, ?_, hmem⟩
  rw [exactFungibleWalk, blockedIndices, hindices]
  simp only [ok_bind, pure_eq_ok, hj, htoken]

/-- A class with a free token yields one of its free tokens, whatever is drawn. -/
theorem TokensStored.selectFungibleToken_spec (h : TokensStored alphabet graph mappings) (rng : Csprng) {length : ℕ}
    (hlength : 0 < length) (hfree : (classFree alphabet graph mappings length).Nonempty) (value : Text)
    (draws : ℕ) : ∃ token draws', selectFungibleToken rng alphabet graph mappings value length draws =
      .ok (token, draws') ∧ token ∈ classFree alphabet graph mappings length := by
  have hsize : 0 < classSize alphabet.length length := by
    obtain ⟨token, htoken⟩ := hfree
    have hmem := (h.mem_classFree.mp htoken).1
    have hpos := List.length_pos_of_mem hmem
    rw [length_tokensOfLength] at hpos
    rw [classSize]
    exact_mod_cast hpos
  unfold selectFungibleToken
  rcases h.probeFungible_cases rng hlength hsize value textProbeBudget draws with
    ⟨token, draws', hrun, hmem⟩ | ⟨draws', hrun⟩
  · exact ⟨token, draws', by rw [hrun]; rfl, hmem⟩
  · rw [hrun]
    exact h.exactFungibleWalk_spec rng hlength hfree draws'

end Select
end DbfAnonymizer.Engine
