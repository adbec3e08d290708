import DbfAnonymizer.Engine.PassOneScan

/-! What a returning pass one has mapped, and what it keeps of the vault it started from. -/
namespace DbfAnonymizer.Engine
open Transforms Vault Lib Verification

def PlannedDataset.alphabet (P : PlannedDataset) (codecs : Codecs) : Text :=
  candidateAlphabet codecs P.scan.spool.encodings

/-- The rows that runs of one plan leave in a vault. -/
structure EngineVault (env : PassOneEnvironment) (P : PlannedDataset) (vault : VaultState) : Prop where
  text_kind : ∀ kind, vault.domainKind globalTextDomainId = some kind → kind = .text
  text : TextInvariant (P.alphabet env.codecs) (vault.textMappings globalTextDomainId)
  numeric_kind : ∀ r ∈ P.plan.relations, ∀ domainId, r.numericDomainId = some domainId →
    ∀ kind, vault.domainKind domainId = some kind → kind = .numericKey
  numeric : ∀ r ∈ P.plan.relations, ∀ domainId domain, r.numericDomainId = some domainId →
    r.numericDomain = some domain → MappingInvariant domain (vault.numericKeyMappings domainId)
  temporal : ∀ offset, vault.temporalParameter (some env.temporalDomainId) = some offset →
    vault.domainKind env.temporalDomainId = some .temporal ∧ offset ≠ 0

theorem engineVault_empty (env : PassOneEnvironment) (P : PlannedDataset) : EngineVault env P .empty where
  text_kind := by simp [VaultState.domainKind, VaultState.empty]
  text := by constructor <;> simp [VaultState.empty, TextMappings.empty]
  numeric_kind := by simp [VaultState.domainKind, VaultState.empty]
  numeric := by
    intro r _ domainId domain _ _
    constructor <;> simp [VaultState.empty]
  temporal := by simp [VaultState.temporalParameter, VaultState.empty]

section Kinds
variable {vault : VaultState} {domainId other : Text} {kind kind' : DomainKind}

theorem domainKind_append : VaultState.domainKind
      { vault with mappingDomains := vault.mappingDomains ++ [(domainId, kind)] } other =
    (vault.domainKind other).or (if domainId = other then some kind else none) := by
  unfold VaultState.domainKind
  rw [List.find?_append]
  cases hfind : vault.mappingDomains.find? (·.1 = other) with
  | some row => simp
  | none =>
    by_cases heq : domainId = other
    · simp [heq]
    · simp [heq]

theorem domainKind_register (h : vault.domainKind domainId = none) :
    VaultState.domainKind { vault with mappingDomains := vault.mappingDomains ++ [(domainId, kind)] } other =
      if other = domainId then some kind else vault.domainKind other := by
  rw [domainKind_append]
  by_cases heq : domainId = other
  · subst heq
    simp [h]
  · rw [if_neg heq, if_neg (Ne.symm heq), Option.or_none]

theorem ensureDomain_frame (vault : VaultState) (domainId : Text) (kind : DomainKind) :
    ∃ domains, (if (vault.domainKind domainId).isSome then vault
        else { vault with mappingDomains := vault.mappingDomains ++ [(domainId, kind)] }) =
          { vault with mappingDomains := vault.mappingDomains ++ domains } ∧
      ∀ other, VaultState.domainKind { vault with mappingDomains := vault.mappingDomains ++ domains } other =
        if other = domainId then (vault.domainKind other).or (some kind) else vault.domainKind other := by
  by_cases hsome : (vault.domainKind domainId).isSome = true
  · rw [if_pos hsome]
    refine ⟨[], by simp, fun other => ?_⟩
    obtain ⟨kind', hkind⟩ := Option.isSome_iff_exists.mp hsome
    rw [List.append_nil]
    by_cases heq : other = domainId
    · rw [if_pos heq, heq, hkind, Option.some_or]
    · rw [if_neg heq]
  · rw [if_neg hsome]
    rw [Bool.not_eq_true, Option.isSome_eq_false_iff, Option.isNone_iff_eq_none] at hsome
    refine ⟨[(domainId, kind)], rfl, fun other => ?_⟩
    rw [domainKind_register hsome]
    by_cases heq : other = domainId
    · rw [if_pos heq, if_pos heq, heq, hsome, Option.none_or]
    · rw [if_neg heq, if_neg heq]

end Kinds

section TextDomain
variable {codecs : Codecs} {rng : Csprng} {draws : ℕ} {vault : VaultState} {spool : TextSpool} {out : TextFinalized}

theorem finalizeText_frame (h : finalizeText codecs rng draws vault spool = some (.ok out)) :
    (spool.encodings = [] ∧ out.vault = vault ∧ out.domainId = none) ∨
      (spool.encodings ≠ [] ∧ out.domainId = some globalTextDomainId ∧ ∃ mappings, out.vault =
          { ensureTextDomain vault with
            textMappings := Function.update vault.textMappings globalTextDomainId mappings } ∧
        (vault.textMappings globalTextDomainId).table.rows <+: mappings.table.rows) := by
  unfold finalizeText prepareText at h
  by_cases hencodings : spool.encodings = []
  · rw [if_pos hencodings] at h
    cases h
    exact Or.inl ⟨hencodings, rfl, rfl⟩
  · rw [if_neg hencodings] at h
    cases hreuse : reuseText codecs vault spool with
    | error e =>
      rw [hreuse] at h
      cases h
    | ok reused =>
      obtain ⟨alphabet, vault', spool', count⟩ := reused
      have hvault : vault' = ensureTextDomain vault := by
        unfold reuseText at hreuse
        obtain ⟨_, -, hreuse⟩ := bind_eq_ok.mp hreuse
        obtain ⟨_, -, hreuse⟩ := bind_eq_ok.mp hreuse
        obtain ⟨_, -, hreuse⟩ := bind_eq_ok.mp hreuse
        cases hreuse
        rfl
      subst hvault
      rw [hreuse] at h
      cases hsolve : solveTextResidual alphabet ((ensureTextDomain vault).textMappings globalTextDomainId) spool' with
      | none =>
        simp only [hsolve] at h
        cases h
      | some solved =>
        cases solved with
        | error e =>
          simp only [hsolve] at h
          cases h
        | ok plan =>
          simp only [hsolve, Option.map_some, Option.some.injEq] at h
          obtain ⟨prep, hprep, h⟩ := bind_eq_ok.mp h
          cases hprep
          dsimp only at h
          unfold TextPreparation.commit at h
          obtain ⟨st, hst, h⟩ := bind_eq_ok.mp h
          cases h
          refine Or.inr ⟨hencodings, rfl, st.mappings, ?_, ?_⟩
          · simp [TextPreparation.withMappings]
          · obtain ⟨more, hmore⟩ := materializeTextAssignment_extends hst
            simp only [textMappings_ensureTextDomain] at hmore
            rw [hmore]
            exact List.prefix_append _ _

theorem finalizeText_upTo (h : finalizeText codecs rng draws vault spool = some (.ok out)) :
    ∃ commits, finalizeTextUpTo codecs rng draws commits vault spool = some (.ok out) := by
  unfold finalizeText at h
  cases hprepare : prepareText codecs vault spool with
  | none => simp [hprepare] at h
  | some prepared =>
    cases prepared with
    | error e => simp [hprepare] at h
    | ok prep =>
      cases prep with
      | none =>
        refine ⟨0, ?_⟩
        rw [finalizeTextUpTo, hprepare]
        rw [hprepare] at h
        exact h
      | some prep =>
        refine ⟨prep.plan.assignments.length, ?_⟩
        rw [hprepare] at h
        simp only [finalizeTextUpTo, hprepare, Option.map_some, ok_bind, List.take_length] at h ⊢
        exact h

/-- Over rows that earlier runs have left, a finalization maps every observation and keeps the invariant. -/
theorem finalizeText_complete {scan : TextScan} (hinv : TextInvariant (candidateAlphabet codecs scan.spool.encodings)
      (vault.textMappings globalTextDomainId)) (h : finalizeText codecs rng draws vault scan.spool = some (.ok out)) :
    TextInvariant (candidateAlphabet codecs scan.spool.encodings) (out.vault.textMappings globalTextDomainId) ∧
      TextCompleted scan.spool (vault.textMappings globalTextDomainId) (out.vault.textMappings globalTextDomainId) := by
  have hready := textReady_of_success hinv h
  obtain ⟨commits, hstop⟩ := finalizeText_upTo h
  obtain ⟨out', hout, hcompleted⟩ := hready.finalizeText rng draws
  rw [h] at hout
  cases hout
  exact ⟨(hready.interrupted (.stopped hstop)).1.invariant, hcompleted⟩

end TextDomain

section NumericDomain
variable {env : PassOneEnvironment} {P : PlannedDataset} {st st' : PassOneState} {domainId : Text}

/-- A finalized numeric domain: registered, with a row for every observation and every earlier row. -/
structure NumericDone (domainId : Text) (domain : NumericKeyDomain) (st st' : PassOneState) : Prop where
  frame : ∃ domains mappings, st'.vault = { st.vault with
    mappingDomains := st.vault.mappingDomains ++ domains
    numericKeyMappings := Function.update st.vault.numericKeyMappings domainId mappings }
  rows_prefix : (st.vault.numericKeyMappings domainId).rows <+: (st'.vault.numericKeyMappings domainId).rows
  kinds : ∀ other, st'.vault.domainKind other =
    if other = domainId then (st.vault.domainKind other).or (some .numericKey) else st.vault.domainKind other
  invariant : MappingInvariant domain (st'.vault.numericKeyMappings domainId)
  mapped : ∀ n ∈ (st.spool.numeric domainId).rows, n ∈ (st'.vault.numericKeyMappings domainId).keys
  others : ∀ other, other ≠ domainId → st'.spool.numeric other = st.spool.numeric other
  temporalDomain_eq : st'.temporalDomain = st.temporalDomain
  textDomainId_eq : st'.outcome.textDomainId = st.outcome.textDomainId

theorem finalizeNumericDomain_spec {D : BuiltNumericDomain}
    (hinv : MappingInvariant D.domain (st.vault.numericKeyMappings domainId))
    (h : finalizeNumericDomain env domainId D.domain st = .ok st') : NumericDone domainId D.domain st st' := by
  unfold finalizeNumericDomain at h
  obtain ⟨⟨allocated, final⟩, hrun, h⟩ := bind_eq_ok.mp h
  cases h
  obtain ⟨domains, hensure, hkinds⟩ := ensureDomain_frame st.vault domainId .numericKey
  change ensureNumericDomain st.vault domainId = _ at hensure
  have hmappings : (ensureNumericDomain st.vault domainId).numericKeyMappings = st.vault.numericKeyMappings := by
    rw [hensure]
  simp only [hmappings] at hrun
  rw [finalizeNumeric_eq_upTo] at hrun
  have hsafe := finalizeNumericUpTo_safe D hinv hrun
  rw [List.take_length] at hsafe
  have hself : Function.update (ensureNumericDomain st.vault domainId).numericKeyMappings domainId final.mappings
      domainId = final.mappings := Function.update_self _ _ _
  constructor
  case frame => exact ⟨domains, final.mappings, by simp [hensure]⟩
  case rows_prefix =>
    dsimp only
    rw [hself]
    exact hsafe.rows_prefix
  case kinds =>
    intro other
    rw [hensure]
    exact hkinds other
  case invariant =>
    dsimp only
    rw [hself]
    exact hsafe.invariant
  case mapped =>
    intro n hn
    dsimp only
    rw [hself]
    exact hsafe.handled_mapped n ((perm_numericObservationStream _).mem_iff.mpr hn)
  case others =>
    intro other hother
    exact Function.update_of_ne hother _ _
  case temporalDomain_eq => rfl
  case textDomainId_eq => rfl

/-- The relations in front of `done` are finalized; the observations of the others wait. -/
structure RelationsDone (P : PlannedDataset) (before : PassOneState) (done : List RelationDirective)
    (st : PassOneState) : Prop where
  frame : ∃ domains mappings, st.vault = { before.vault with
    mappingDomains := before.vault.mappingDomains ++ domains
    numericKeyMappings := mappings }
  rows_prefix : ∀ domainId, (before.vault.numericKeyMappings domainId).rows <+: (st.vault.numericKeyMappings domainId).rows
  kinds : ∀ other, st.vault.domainKind other = before.vault.domainKind other ∨
    st.vault.domainKind other = some .numericKey ∧ ∃ r ∈ P.plan.relations, r.numericDomainId = some other
  registered : ∀ r ∈ done, ∀ domainId, r.numericDomainId = some domainId →
    st.vault.domainKind domainId = some .numericKey
  invariant : ∀ r ∈ P.plan.relations, ∀ domainId domain, r.numericDomainId = some domainId →
    r.numericDomain = some domain → MappingInvariant domain (st.vault.numericKeyMappings domainId)
  waiting : ∀ domainId, ∀ n ∈ (before.spool.numeric domainId).rows,
    n ∈ (st.spool.numeric domainId).rows ∨ n ∈ (st.vault.numericKeyMappings domainId).keys
  mapped : ∀ r ∈ done, ∀ domainId, r.numericDomainId = some domainId →
    ∀ n ∈ (before.spool.numeric domainId).rows, n ∈ (st.vault.numericKeyMappings domainId).keys
  temporalDomain_eq : st.temporalDomain = before.temporalDomain
  textDomainId_eq : st.outcome.textDomainId = before.outcome.textDomainId

theorem relationsDone_nil {before : PassOneState}
    (hinv : ∀ r ∈ P.plan.relations, ∀ domainId domain, r.numericDomainId = some domainId →
      r.numericDomain = some domain → MappingInvariant domain (before.vault.numericKeyMappings domainId)) :
    RelationsDone P before [] before where
  frame := ⟨[], before.vault.numericKeyMappings, by simp⟩
  rows_prefix _ := List.prefix_refl _
  kinds _ := Or.inl rfl
  registered := by simp
  invariant := hinv
  waiting _ _ hn := Or.inl hn
  mapped := by simp
  temporalDomain_eq := rfl
  textDomainId_eq := rfl

theorem mem_keys_of_extends {a b : BijectiveTable ℤ ℤ} (h : a.rows <+: b.rows) {n : ℤ} (hn : n ∈ a.keys) : n ∈ b.keys :=
  (h.map Prod.fst).subset hn

variable {before : PassOneState} {done : List RelationDirective} {r : RelationDirective}

theorem RelationsDone.skip (h : RelationsDone P before done st) (hnone : r.numericDomainId = none) :
    RelationsDone P before (done ++ [r]) st := { h with
  registered := by
    intro r' hr' domainId hid
    rcases List.mem_append.mp hr' with hr' | hr'
    · exact h.registered r' hr' domainId hid
    · rw [List.mem_singleton.mp hr', hnone] at hid
      cases hid
  mapped := by
    intro r' hr' domainId hid
    rcases List.mem_append.mp hr' with hr' | hr'
    · exact h.mapped r' hr' domainId hid
    · rw [List.mem_singleton.mp hr', hnone] at hid
      cases hid }

theorem RelationsDone.finalize (h : RelationsDone P before done st) (hunique : ∀ r ∈ P.plan.relations,
      ∀ r' ∈ P.plan.relations, ∀ domainId, r.numericDomainId = some domainId → r'.numericDomainId = some domainId →
        r.numericDomain = r'.numericDomain)
    (hkind : ∀ kind, before.vault.domainKind domainId = some kind → kind = .numericKey) (hr : r ∈ P.plan.relations)
    (hid : r.numericDomainId = some domainId) {domain : NumericKeyDomain} (hdomain : r.numericDomain = some domain)
    (hdone : NumericDone domainId domain st st') : RelationsDone P before (done ++ [r]) st' := by
  obtain ⟨domains, mappings, hframe⟩ := h.frame
  obtain ⟨more, mappings', hframe'⟩ := hdone.frame
  have hothers : ∀ other, other ≠ domainId →
      st'.vault.numericKeyMappings other = st.vault.numericKeyMappings other := by
    intro other hother
    rw [hframe']
    exact Function.update_of_ne hother _ _
  have hfront : ∀ other, (st.vault.numericKeyMappings other).rows <+: (st'.vault.numericKeyMappings other).rows := by
    intro other
    by_cases heq : other = domainId
    · subst heq
      exact hdone.rows_prefix
    · rw [hothers other heq]
  have hself : st'.vault.domainKind domainId = some .numericKey := by
    rw [hdone.kinds, if_pos rfl]
    rcases h.kinds domainId with hsame | ⟨hsome, -⟩
    · rw [hsame]
      cases hbefore : before.vault.domainKind domainId with
      | none => rfl
      | some kind => rw [hkind kind hbefore, Option.some_or]
    · rw [hsome, Option.some_or]
  have hkinds : ∀ other, other ≠ domainId → st'.vault.domainKind other = st.vault.domainKind other := by
    intro other hother
    rw [hdone.kinds, if_neg hother]
  constructor
  case frame => exact ⟨domains ++ more, Function.update mappings domainId mappings', by rw [hframe', hframe, List.append_assoc]⟩
  case rows_prefix => exact fun other => (h.rows_prefix other).trans (hfront other)
  case kinds =>
    intro other
    by_cases heq : other = domainId
    · subst heq
      exact Or.inr ⟨hself, r, hr, hid⟩
    · rw [hkinds other heq]
      exact h.kinds other
  case registered =>
    intro r' hr' other hother
    by_cases heq : other = domainId
    · rw [heq, hself]
    · rw [hkinds other heq]
      rcases List.mem_append.mp hr' with hr' | hr'
      · exact h.registered r' hr' other hother
      · rw [List.mem_singleton.mp hr', hid] at hother
        exact absurd (Option.some.inj hother).symm heq
  case invariant =>
    intro r' hr' other domain' hother hdomain'
    by_cases heq : other = domainId
    · subst heq
      rw [← hunique r hr r' hr' other hid hother, hdomain] at hdomain'
      rw [← Option.some.inj hdomain']
      exact hdone.invariant
    · rw [hothers other heq]
      exact h.invariant r' hr' other domain' hother hdomain'
  case waiting =>
    intro other n hn
    by_cases heq : other = domainId
    · subst heq
      rcases h.waiting other n hn with hrow | hkey
      · exact Or.inr (hdone.mapped n hrow)
      · exact Or.inr (mem_keys_of_extends (hfront other) hkey)
    · rw [hothers other heq, hdone.others other heq]
      exact h.waiting other n hn
  case mapped =>
    intro r' hr' other hother n hn
    rcases List.mem_append.mp hr' with hr' | hr'
    · exact mem_keys_of_extends (hfront other) (h.mapped r' hr' other hother n hn)
    · rw [List.mem_singleton.mp hr', hid] at hother
      obtain rfl := Option.some.inj hother
      rcases h.waiting domainId n hn with hrow | hkey
      · exact hdone.mapped n hrow
      · exact mem_keys_of_extends (hfront domainId) hkey
  case temporalDomain_eq => exact hdone.temporalDomain_eq.trans h.temporalDomain_eq
  case textDomainId_eq => exact hdone.textDomainId_eq.trans h.textDomainId_eq

theorem finalizeRelations_spec (hunique : ∀ r ∈ P.plan.relations, ∀ r' ∈ P.plan.relations, ∀ domainId,
      r.numericDomainId = some domainId → r'.numericDomainId = some domainId → r.numericDomain = r'.numericDomain)
    (hkind : ∀ r ∈ P.plan.relations, ∀ domainId, r.numericDomainId = some domainId →
      ∀ kind, before.vault.domainKind domainId = some kind → kind = .numericKey)
    (hinv : ∀ r ∈ P.plan.relations, ∀ domainId domain, r.numericDomainId = some domainId →
      r.numericDomain = some domain → MappingInvariant domain (before.vault.numericKeyMappings domainId))
    (h : P.plan.relations.foldlM (finalizeRelation env) before = .ok st) :
    RelationsDone P before P.plan.relations st := by
  have hrun := foldlM_induction [] (fun done now => done <+: P.plan.relations → RelationsDone P before done now)
    ?_ (fun _ => relationsDone_nil hinv) h
  · exact hrun (List.prefix_refl _)
  · intro done r now next hnow hstep hfront
    have hmem : r ∈ P.plan.relations := hfront.subset (by simp)
    have hbefore := hnow ((List.prefix_append _ _).trans hfront)
    unfold finalizeRelation at hstep
    cases hid : r.numericDomainId with
    | none =>
      simp only [hid] at hstep
      cases hstep
      exact hbefore.skip hid
    | some domainId =>
      obtain ⟨D, hdomain⟩ := PlannedDataset.built_of_relation hmem hid
      simp only [hid, hdomain] at hstep
      have hdone := finalizeNumericDomain_spec (hbefore.invariant r hmem domainId D.domain hid hdomain) hstep
      exact hbefore.finalize hunique (hkind r hmem domainId hid) hmem hid hdomain hdone

end NumericDomain
end DbfAnonymizer.Engine
