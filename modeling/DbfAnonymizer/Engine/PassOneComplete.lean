import DbfAnonymizer.Engine.PassOneMappings

/-! Pass two never misses what pass one has mapped. -/
namespace DbfAnonymizer.Engine
open Transforms Vault Lib Verification

/-- What the vault holds for one transformed field of one record when pass one has returned. -/
def FieldMapped (env : PassOneEnvironment) (relativePath : Text) (record : DirectRecord) (directive : FieldDirective)
    (textDomainId : Option Text) (vault : VaultState) : Prop :=
  let value := record.values directive.fieldName
  match directive.numericDomainId with
  | some domainId => value = .null ∨ ∃ n p, value = .int n ∧ vault.numericPseudonym domainId n = some p ∧ p ≠ n
  | none =>
    match directive.action with
    | .pseudonymizeReversible => value.isNullOrEmpty = true ∨ ∃ t p, value = .text t ∧
        textDomainId = some globalTextDomainId ∧ vault.textPseudonym globalTextDomainId t = some p ∧ p ≠ t ∧ p ≠ []
    | .shiftReversible => value = .null ∨ ∃ offset value', offset ≠ 0 ∧
        vault.temporalParameter (some env.temporalDomainId) = some offset ∧ temporalShift value offset = .ok value'
    | .maskReversible => ∃ tableId fieldId mask, memoBinding env relativePath directive.fieldName =
          some (tableId, fieldId) ∧ maskMemoValue directive.dbfType value = .ok mask ∧
        (value = .null ∨ ∃ payload, memoPayload? value = some payload ∧ mask ≠ value ∧
          vault.memoRow ⟨tableId, record.physicalIndex, fieldId⟩ = some payload)
    | .keep => True

/-- What a returning pass one leaves of a vault. -/
structure PassOneDone (env : PassOneEnvironment) (P : PlannedDataset) (before after : VaultState)
    (textDomainId : Option Text) : Prop where
  grows : before ≤ after
  tables_eq : after.tables = before.tables
  fields_eq : after.fields = before.fields
  engineVault : EngineVault env P after
  textDomain : textDomainId = if P.plan.textPresent = true ∧ P.scan.spool.encodings ≠ [] then some globalTextDomainId
    else none
  text_registered : textDomainId ≠ none → after.domainKind globalTextDomainId = some .text
  numeric_registered : ∀ r ∈ P.plan.relations, ∀ domainId, r.numericDomainId = some domainId →
    after.domainKind domainId = some .numericKey
  temporal_iff : (after.temporalParameter (some env.temporalDomainId)).isSome = true ↔
    (before.temporalParameter (some env.temporalDomainId)).isSome = true ∨ HoldsTemporalValue P.plan P.source
  mapped : ∀ t ∈ P.plan.tables, ∃ stored, P.source.table t.relativePath = some stored ∧
    ∀ record ∈ stored.records, ∀ d ∈ t.transformed, FieldMapped env t.relativePath record d textDomainId after

section Plan
variable {P : PlannedDataset} {t : TableDirective} {d : FieldDirective}

theorem present_eq (P : PlannedDataset) :
    P.plan.textPresent = (P.plan.tables.flatMap TableDirective.transformed).any (fun d =>
        d.numericDomainId = none ∧ d.action = .pseudonymizeReversible) ∧
      P.plan.temporalPresent = (P.plan.tables.flatMap TableDirective.transformed).any (fun d =>
        d.numericDomainId = none ∧ d.action = .shiftReversible) := by
  have hbuilt := P.built
  unfold buildEnginePlan at hbuilt
  obtain ⟨directives, -, hbuilt⟩ := bind_eq_ok.mp hbuilt
  obtain ⟨relations, -, hbuilt⟩ := bind_eq_ok.mp hbuilt
  rw [← Except.ok.inj hbuilt]
  dsimp only
  rw [List.flatMap_map]
  exact ⟨rfl, rfl⟩

theorem textPresent_of_mem (ht : t ∈ P.plan.tables) (hd : d ∈ t.transformed) (hnone : d.numericDomainId = none)
    (haction : d.action = .pseudonymizeReversible) : P.plan.textPresent = true := by
  rw [(present_eq P).1, List.any_eq_true]
  exact ⟨d, List.mem_flatMap.mpr ⟨t, ht, hd⟩, by simp [hnone, haction]⟩

theorem temporalPresent_of_mem (ht : t ∈ P.plan.tables) (hd : d ∈ t.transformed) (hnone : d.numericDomainId = none)
    (haction : d.action = .shiftReversible) : P.plan.temporalPresent = true := by
  rw [(present_eq P).2, List.any_eq_true]
  exact ⟨d, List.mem_flatMap.mpr ⟨t, ht, hd⟩, by simp [hnone, haction]⟩

end Plan

section Finalize
variable {env : PassOneEnvironment} {P : PlannedDataset} {scanned st : PassOneState}

/-- The text domain behind a scan: its rows, and where the vault has changed. -/
structure TextDone (env : PassOneEnvironment) (P : PlannedDataset) (scanned st : PassOneState) : Prop where
  frame : ∃ domains mappings, st.vault = { scanned.vault with
    mappingDomains := scanned.vault.mappingDomains ++ domains
    textMappings := mappings }
  rows_prefix : ∀ domainId, (scanned.vault.textMappings domainId).table.rows <+: (st.vault.textMappings domainId).table.rows
  kinds : ∀ other, st.vault.domainKind other = scanned.vault.domainKind other ∨
    other = globalTextDomainId ∧ st.vault.domainKind other = some .text
  invariant : TextInvariant (P.alphabet env.codecs) (st.vault.textMappings globalTextDomainId)
  textDomain : st.outcome.textDomainId = if P.plan.textPresent = true ∧ P.scan.spool.encodings ≠ [] then
    some globalTextDomainId else none
  registered : st.outcome.textDomainId ≠ none → st.vault.domainKind globalTextDomainId = some .text
  mapped : P.plan.textPresent = true → ∀ t ∈ scanned.spool.text.observations.keys,
    ∃ p, (t, p) ∈ (st.vault.textMappings globalTextDomainId).table.rows
  numeric_eq : st.spool.numeric = scanned.spool.numeric
  temporalDomain_eq : st.temporalDomain = scanned.temporalDomain

theorem finalizeTextDomain_spec (hspool : scanned.spool.text = P.scan.spool) (hnone : scanned.outcome.textDomainId = none)
    (hkind : ∀ kind, scanned.vault.domainKind globalTextDomainId = some kind → kind = .text)
    (hinv : TextInvariant (P.alphabet env.codecs) (scanned.vault.textMappings globalTextDomainId))
    (h : finalizeTextDomain env P.plan scanned = some (.ok st)) : TextDone env P scanned st := by
  unfold finalizeTextDomain at h
  by_cases hpresent : P.plan.textPresent = true
  · rw [if_pos hpresent] at h
    cases hrun : finalizeText env.codecs env.textRng 0 scanned.vault scanned.spool.text with
    | none => simp [hrun] at h
    | some finalized =>
      cases finalized with
      | error e => simp [hrun] at h
      | ok out =>
        simp only [hrun, Option.map_some, ok_bind, pure_eq_ok, Option.some.injEq, Except.ok.injEq] at h
        subst h
        rw [hspool] at hrun
        obtain ⟨hinvariant, hcompleted⟩ := finalizeText_complete hinv hrun
        obtain ⟨domains, hensure, hkinds⟩ := ensureDomain_frame scanned.vault globalTextDomainId .text
        change ensureTextDomain scanned.vault = _ at hensure
        have hmapped : ∀ t ∈ scanned.spool.text.observations.keys,
            ∃ p, (t, p) ∈ (out.vault.textMappings globalTextDomainId).table.rows := by
          intro t ht
          rw [hspool] at ht
          obtain ⟨width, hrow⟩ := KeyedTable.mem_keys.mp ht
          obtain ⟨p, hp, -⟩ := hcompleted.total _ hrow
          exact ⟨p, hp⟩
        rcases finalizeText_frame hrun with ⟨hencodings, hvault, hdomain⟩ | ⟨hencodings, hdomain, mappings, hvault, hrows⟩
        · constructor
          case frame => exact ⟨[], scanned.vault.textMappings, by simp [hvault]⟩
          case rows_prefix =>
            dsimp only
            rw [hvault]
            exact fun _ => List.prefix_refl _
          case kinds =>
            dsimp only
            rw [hvault]
            exact fun _ => Or.inl rfl
          case invariant => exact hinvariant
          case textDomain => simp [hdomain, hencodings]
          case registered => exact fun hsome => absurd hdomain hsome
          case mapped => exact fun _ => hmapped
          case numeric_eq => rfl
          case temporalDomain_eq => rfl
        · rw [hensure] at hvault
          have hkinds' : ∀ other, out.vault.domainKind other = if other = globalTextDomainId then
              (scanned.vault.domainKind other).or (some .text) else scanned.vault.domainKind other := by
            rw [hvault]
            exact hkinds
          have hregistered : out.vault.domainKind globalTextDomainId = some .text := by
            rw [hkinds', if_pos rfl]
            cases hbefore : scanned.vault.domainKind globalTextDomainId with
            | none => rfl
            | some kind => rw [hkind kind hbefore, Option.some_or]
          constructor
          case frame => exact ⟨domains, _, hvault⟩
          case rows_prefix =>
            dsimp only
            rw [hvault]
            exact (le_withTextMappings hrows).textMappings
          case kinds =>
            intro other
            dsimp only
            by_cases heq : other = globalTextDomainId
            · subst heq
              exact Or.inr ⟨rfl, hregistered⟩
            · rw [hkinds', if_neg heq]
              exact Or.inl rfl
          case invariant => exact hinvariant
          case textDomain => simp [hdomain, hpresent, hencodings]
          case registered => exact fun _ => hregistered
          case mapped => exact fun _ => hmapped
          case numeric_eq => rfl
          case temporalDomain_eq => rfl
  · rw [if_neg hpresent] at h
    cases h
    constructor
    case frame => exact ⟨[], scanned.vault.textMappings, by simp⟩
    case rows_prefix => exact fun _ => List.prefix_refl _
    case kinds => exact fun _ => Or.inl rfl
    case invariant => exact hinv
    case textDomain => simp [hnone, hpresent]
    case registered => exact fun hsome => absurd hnone hsome
    case mapped => exact fun hp => absurd hp hpresent
    case numeric_eq => rfl
    case temporalDomain_eq => rfl

/-- The temporal domain behind a scan: its offset is persisted and shifts every observed day. -/
structure TemporalDone (env : PassOneEnvironment) (before st : PassOneState) : Prop where
  frame : st.vault = before.vault ∨ ∃ offset, offset ≠ 0 ∧ before.vault.domainKind env.temporalDomainId = none ∧
    (∃ domain, before.temporalDomain = some domain ∧ domain.minOrdinal ≠ none) ∧
      st.vault = withTemporalRows before.vault env.temporalDomainId offset
  shifts : ∀ domain day, before.temporalDomain = some domain → covers domain day →
    ∃ offset, offset ≠ 0 ∧ st.vault.temporalParameter (some env.temporalDomainId) = some offset ∧
      logicalMinOrdinal ≤ day + offset ∧ day + offset ≤ logicalMaxOrdinal
  textDomainId_eq : st.outcome.textDomainId = before.outcome.textDomainId

theorem finalizeTemporalDomain_spec {before : PassOneState}
    (hid : ∀ domain, before.temporalDomain = some domain → domain.domainId = env.temporalDomainId)
    (h : finalizeTemporalDomain env before = .ok st) : TemporalDone env before st := by
  unfold finalizeTemporalDomain at h
  cases hdomain : before.temporalDomain with
  | none =>
    simp only [hdomain] at h
    cases h
    constructor
    case frame => exact Or.inl rfl
    case shifts =>
      intro domain day hsome
      rw [hdomain] at hsome
      cases hsome
    case textDomainId_eq => rfl
  | some domain =>
    simp only [hdomain] at h
    cases hrun : domain.finalize env.temporalRandomBelow env.temporalUnit before.vault with
    | mk result vault =>
      cases result with
      | error e => simp [hrun] at h
      | ok pair =>
        obtain ⟨result, domain'⟩ := pair
        simp only [hrun] at h
        cases h
        have hsame := hid domain hdomain
        constructor
        case frame =>
          rcases finalize_frame hrun with hkept | ⟨offset, hresult, hne, hkind, hvault⟩
          · exact Or.inl hkept
          · rw [hsame] at hkind hvault
            refine Or.inr ⟨offset, hne, hkind, ⟨domain, hdomain, fun hlow => ?_⟩, hvault⟩
            rw [TemporalShiftDomain.finalize, hlow] at hrun
            cases hrun
            cases hresult
        case shifts =>
          intro other day hother hcovers
          obtain rfl := Option.some.inj (hdomain.symm.trans hother)
          obtain ⟨low, hlow, hle, hge⟩ := hcovers
          obtain ⟨offset, -, -, hlower, hupper, hpersisted, -⟩ := TemporalShiftDomain.finalize_eq_ok hlow hrun
          obtain ⟨-, hstored, hne⟩ := persistedTemporalState_eq_some hpersisted
          rw [hsame] at hstored
          refine ⟨offset, hne, hstored, ?_, ?_⟩
          · omega
          · omega
        case textDomainId_eq => rfl

end Finalize

section PassOne
variable {env : PassOneEnvironment} {P : PlannedDataset} {vault : VaultState} {st : PassOneState}

theorem passOne_eq_ok (h : passOne env P.plan P.source vault = some (.ok st)) :
    ∃ scanned text relations, runPassOne env P.plan P.source vault = .ok scanned ∧
      finalizeTextDomain env P.plan scanned = some (.ok text) ∧
      P.plan.relations.foldlM (finalizeRelation env) text = .ok relations ∧
      finalizeTemporalDomain env relations = .ok st := by
  unfold passOne at h
  cases hscan : runPassOne env P.plan P.source vault with
  | error e => simp [hscan] at h
  | ok scanned =>
    simp only [hscan, runPassOneFinalize] at h
    cases htext : finalizeTextDomain env P.plan scanned with
    | none => simp [htext] at h
    | some finalized =>
      simp only [htext, Option.map_some, Option.some.injEq] at h
      obtain ⟨text, hok, h⟩ := bind_eq_ok.mp h
      obtain ⟨relations, hrelations, h⟩ := bind_eq_ok.mp h
      exact ⟨scanned, text, relations, rfl, by rw [← hok, htext], hrelations, h⟩

theorem observeField_outcome {relativePath : Text} {record : DirectRecord} {d : FieldDirective} {a b : PassOneState}
    (h : observeField env relativePath record a d = .ok b) : b.outcome = a.outcome := by
  unfold observeField at h
  dsimp only at h
  split at h
  · obtain ⟨_, -, h⟩ := bind_eq_ok.mp h
    cases h
    rfl
  · split at h
    · obtain ⟨_, -, h⟩ := bind_eq_ok.mp h
      cases h
      rfl
    · split at h
      · cases h
        rfl
      · obtain ⟨_, -, h⟩ := bind_eq_ok.mp h
        cases h
        rfl
    · split at h
      · cases h
      · split at h
        · cases h
        · cases h
          rfl
    · cases h
      rfl

/-- What the scan leaves to the finalization. -/
structure PassOneOutcome.Unfinalized (outcome : PassOneOutcome) : Prop where
  textDomainId_eq : outcome.textDomainId = none
  textAllocated_eq : outcome.textAllocated = 0
  textReused_eq : outcome.textReused = 0
  numericAllocated_eq : outcome.numericAllocated = .empty

theorem runPassOne_unfinalized (h : runPassOne env P.plan P.source vault = .ok st) : st.outcome.Unfinalized := by
  unfold runPassOne at h
  apply invariant_of_foldlM (fun st : PassOneState => st.outcome.Unfinalized) _ h ⟨rfl, rfl, rfl, rfl⟩
  intro t _ a b ht ha
  obtain ⟨table, scanned, -, hscanned, rfl⟩ := scanTable_eq_ok ht
  have hopened : (a.openTable t).outcome.Unfinalized := { ha with }
  have hrecords : scanned.outcome.Unfinalized := by
    refine invariant_of_foldlM (fun st : PassOneState => st.outcome.Unfinalized) ?_ hscanned hopened
    intro record _ a b hrecord ha
    obtain ⟨fields, observations, hfields, -, rfl⟩ := observeRecord_eq_ok hrecord
    have hall : fields.outcome.Unfinalized := by
      refine invariant_of_foldlM (fun st : PassOneState => st.outcome.Unfinalized) ?_ hfields ha
      intro d _ a b hd ha
      rw [observeField_outcome hd]
      exact ha
    exact { hall with }
  exact { hrecords with }

/-- The states of a returning pass one, each with what its step has done. -/
structure Stages (env : PassOneEnvironment) (P : PlannedDataset) (vault : VaultState)
    (scanned text relations st : PassOneState) : Prop where
  scan_eq : runPassOne env P.plan P.source vault = .ok scanned
  text_eq : finalizeTextDomain env P.plan scanned = some (.ok text)
  relations_eq : P.plan.relations.foldlM (finalizeRelation env) text = .ok relations
  temporal_eq : finalizeTemporalDomain env relations = .ok st
  start : PassOneState.start env P.plan vault ≤ scanned
  observed : ∀ t ∈ P.plan.tables, TableObserved env P.source t scanned
  days : DaysObserved P.plan P.source scanned
  spooled : scanned.spool.text = P.scan.spool
  textDone : TextDone env P scanned text
  relationsDone : RelationsDone P text P.plan.relations relations
  temporalDone : TemporalDone env relations st

theorem exists_stages (hdistinct : DistinctDomains P.plan env.temporalDomainId) (hinv : EngineVault env P vault)
    (h : passOne env P.plan P.source vault = some (.ok st)) :
    ∃ scanned text relations, Stages env P vault scanned text relations st := by
  obtain ⟨scanned, text, relations, hscan, htext, hrelations, htemporal⟩ := passOne_eq_ok h
  obtain ⟨hstart, hobserved⟩ := runPassOne_spec hscan
  obtain ⟨memos, hmemos⟩ := PassOneState.Grows.vault hstart
  have hscanned : scanned.vault = { vault with memoRecovery := vault.memoRecovery ++ memos } := hmemos
  have hT : TextDone env P scanned text := by
    refine finalizeTextDomain_spec (runPassOne_text hscan) (runPassOne_unfinalized hscan).textDomainId_eq ?_ ?_ htext
    · rw [hscanned]
      exact hinv.text_kind
    · rw [hscanned]
      exact hinv.text
  have hnumeric : text.vault.numericKeyMappings = vault.numericKeyMappings := by
    obtain ⟨domains, mappings, hframe⟩ := hT.frame
    rw [hframe, hscanned]
  have hR : RelationsDone P text P.plan.relations relations := by
    refine finalizeRelations_spec hdistinct.numeric_unique ?_ ?_ hrelations
    · intro r hr domainId hid kind hkind
      have hne : domainId ≠ globalTextDomainId := by
        intro heq
        exact hdistinct.numeric_ne_text r hr (hid.trans (congrArg some heq))
      rcases hT.kinds domainId with hsame | ⟨heq, -⟩
      · rw [hsame, hscanned] at hkind
        exact hinv.numeric_kind r hr domainId hid kind hkind
      · exact absurd heq hne
    · intro r hr domainId domain hid hdomain
      rw [hnumeric]
      exact hinv.numeric r hr domainId domain hid hdomain
  refine ⟨scanned, text, relations, hscan, htext, hrelations, htemporal, hstart, hobserved,
    daysObserved_of_runPassOne hscan, runPassOne_text hscan, hT, hR, ?_⟩
  refine finalizeTemporalDomain_spec ?_ htemporal
  intro domain hdomain
  rw [hR.temporalDomain_eq, hT.temporalDomain_eq] at hdomain
  cases hpresent : P.plan.temporalPresent with
  | true =>
    obtain ⟨domain', hsome, hid, -⟩ := PassOneState.Grows.temporal hstart (.new env.temporalDomainId)
      (by simp [PassOneState.start, hpresent])
    obtain rfl := Option.some.inj (hdomain.symm.trans hsome)
    exact hid
  | false =>
    have hnone := PassOneState.Grows.temporal_none hstart (by simp [PassOneState.start, hpresent])
    rw [hnone] at hdomain
    cases hdomain

namespace Stages
variable {scanned text relations : PassOneState}

theorem exists_memos (h : Stages env P vault scanned text relations st) :
    ∃ memos, scanned.vault = { vault with memoRecovery := vault.memoRecovery ++ memos } :=
  PassOneState.Grows.vault h.start

theorem vault_le_scanned (h : Stages env P vault scanned text relations st) : vault ≤ scanned.vault := by
  obtain ⟨memos, hmemos⟩ := h.exists_memos
  rw [hmemos]
  exact le_withMemoRecovery memos

theorem scanned_le_text (h : Stages env P vault scanned text relations st) : scanned.vault ≤ text.vault := by
  obtain ⟨domains, mappings, hframe⟩ := h.textDone.frame
  have hrows := h.textDone.rows_prefix
  rw [hframe] at hrows ⊢
  exact { le_refl scanned.vault with mappingDomains := List.prefix_append _ _, textMappings := hrows }

theorem text_le_relations (h : Stages env P vault scanned text relations st) : text.vault ≤ relations.vault := by
  obtain ⟨domains, mappings, hframe⟩ := h.relationsDone.frame
  have hrows := h.relationsDone.rows_prefix
  rw [hframe] at hrows ⊢
  exact { le_refl text.vault with mappingDomains := List.prefix_append _ _, numericKeyMappings := hrows }

theorem relations_le (h : Stages env P vault scanned text relations st) : relations.vault ≤ st.vault := by
  rcases h.temporalDone.frame with hsame | ⟨offset, -, -, -, hvault⟩
  · rw [hsame]
  · rw [hvault]
    exact le_withTemporalRows _ _

theorem grows (h : Stages env P vault scanned text relations st) : vault ≤ st.vault :=
  ((h.vault_le_scanned.trans h.scanned_le_text).trans h.text_le_relations).trans h.relations_le

theorem textMappings_eq (h : Stages env P vault scanned text relations st) :
    st.vault.textMappings = text.vault.textMappings := by
  obtain ⟨domains, mappings, hframe⟩ := h.relationsDone.frame
  rcases h.temporalDone.frame with hsame | ⟨offset, -, -, -, hvault⟩
  · rw [hsame, hframe]
  · rw [hvault, withTemporalRows, hframe]

theorem numericKeyMappings_eq (h : Stages env P vault scanned text relations st) :
    st.vault.numericKeyMappings = relations.vault.numericKeyMappings := by
  rcases h.temporalDone.frame with hsame | ⟨offset, -, -, -, hvault⟩
  · rw [hsame]
  · rw [hvault, withTemporalRows]

theorem ledger_eq (h : Stages env P vault scanned text relations st) :
    st.vault.tables = vault.tables ∧ st.vault.fields = vault.fields := by
  obtain ⟨memos, hmemos⟩ := h.exists_memos
  obtain ⟨_, _, htext⟩ := h.textDone.frame
  obtain ⟨_, _, hrelations⟩ := h.relationsDone.frame
  rcases h.temporalDone.frame with hsame | ⟨offset, -, -, -, hvault⟩
  · rw [hsame, hrelations, htext, hmemos]
    exact ⟨rfl, rfl⟩
  · rw [hvault, withTemporalRows, hrelations, htext, hmemos]
    exact ⟨rfl, rfl⟩

theorem kinds (h : Stages env P vault scanned text relations st) {domainId : Text} {kind : DomainKind}
    (hkind : st.vault.domainKind domainId = some kind) :
    vault.domainKind domainId = some kind ∨ (domainId = globalTextDomainId ∧ kind = .text) ∨
      (kind = .numericKey ∧ ∃ r ∈ P.plan.relations, r.numericDomainId = some domainId) ∨
      (domainId = env.temporalDomainId ∧ kind = .temporal ∧ relations.vault.domainKind domainId = none) := by
  obtain ⟨memos, hmemos⟩ := h.exists_memos
  have hbefore : relations.vault.domainKind domainId = some kind → vault.domainKind domainId = some kind ∨
      (domainId = globalTextDomainId ∧ kind = .text) ∨
        (kind = .numericKey ∧ ∃ r ∈ P.plan.relations, r.numericDomainId = some domainId) := by
    intro hrelations
    rcases h.relationsDone.kinds domainId with hsame | ⟨hnumeric, hr⟩
    · rw [hsame] at hrelations
      rcases h.textDone.kinds domainId with hsame' | ⟨heq, htext⟩
      · rw [hsame', hmemos] at hrelations
        exact Or.inl hrelations
      · rw [htext] at hrelations
        exact Or.inr (Or.inl ⟨heq, (Option.some.inj hrelations).symm⟩)
    · rw [hnumeric] at hrelations
      exact Or.inr (Or.inr ⟨(Option.some.inj hrelations).symm, hr⟩)
  rcases h.temporalDone.frame with hsame | ⟨offset, -, hnone, -, hvault⟩
  · rw [hsame] at hkind
    rcases hbefore hkind with hcase | hcase | hcase
    · exact Or.inl hcase
    · exact Or.inr (Or.inl hcase)
    · exact Or.inr (Or.inr (Or.inl hcase))
  · rw [hvault] at hkind
    change VaultState.domainKind { relations.vault with
      mappingDomains := relations.vault.mappingDomains ++ [(env.temporalDomainId, .temporal)] } domainId = _ at hkind
    rw [domainKind_register hnone] at hkind
    split_ifs at hkind with heq
    · subst heq
      exact Or.inr (Or.inr (Or.inr ⟨rfl, (Option.some.inj hkind).symm, hnone⟩))
    · rcases hbefore hkind with hcase | hcase | hcase
      · exact Or.inl hcase
      · exact Or.inr (Or.inl hcase)
      · exact Or.inr (Or.inr (Or.inl hcase))

theorem engineVault (h : Stages env P vault scanned text relations st)
    (hdistinct : DistinctDomains P.plan env.temporalDomainId) (hinv : EngineVault env P vault) :
    EngineVault env P st.vault where
  text_kind := by
    intro kind hkind
    rcases h.kinds hkind with hcase | ⟨-, hcase⟩ | ⟨-, r, hr, hid⟩ | ⟨heq, -, -⟩
    · exact hinv.text_kind kind hcase
    · exact hcase
    · exact absurd hid (hdistinct.numeric_ne_text r hr)
    · exact absurd heq.symm hdistinct.temporal_ne_text
  text := by
    rw [h.textMappings_eq]
    exact h.textDone.invariant
  numeric_kind := by
    intro r hr domainId hid kind hkind
    rcases h.kinds hkind with hcase | ⟨heq, -⟩ | ⟨hcase, -⟩ | ⟨heq, -, -⟩
    · exact hinv.numeric_kind r hr domainId hid kind hcase
    · exact absurd (hid.trans (congrArg some heq)) (hdistinct.numeric_ne_text r hr)
    · exact hcase
    · exact absurd (hid.trans (congrArg some heq)) (hdistinct.numeric_ne_temporal r hr)
  numeric := by
    intro r hr domainId domain hid hdomain
    rw [h.numericKeyMappings_eq]
    exact h.relationsDone.invariant r hr domainId domain hid hdomain
  temporal := by
    intro offset hoffset
    rcases h.temporalDone.frame with hsame | ⟨fresh, hne, hnone, -, hvault⟩
    · have hbefore : vault.temporalParameter (some env.temporalDomainId) = some offset := by
        obtain ⟨memos, hmemos⟩ := h.exists_memos
        obtain ⟨_, _, htext⟩ := h.textDone.frame
        obtain ⟨_, _, hrelations⟩ := h.relationsDone.frame
        rw [hsame, hrelations, htext, hmemos] at hoffset
        exact hoffset
      obtain ⟨hkind, hne⟩ := hinv.temporal offset hbefore
      exact ⟨VaultState.domainKind_mono h.grows hkind, hne⟩
    · have hkind : st.vault.domainKind env.temporalDomainId = some .temporal := by
        rw [hvault]
        change VaultState.domainKind { relations.vault with
          mappingDomains := relations.vault.mappingDomains ++ [(env.temporalDomainId, .temporal)] } _ = _
        rw [domainKind_register hnone, if_pos rfl]
      refine ⟨hkind, ?_⟩
      cases hold : vault.temporalParameter (some env.temporalDomainId) with
      | some old =>
        have hlater := VaultState.temporalParameter_mono h.grows hold
        rw [hoffset, Option.some.injEq] at hlater
        rw [hlater]
        exact (hinv.temporal old hold).2
      | none =>
        have hrelations : relations.vault.temporalParameters = vault.temporalParameters := by
          obtain ⟨memos, hmemos⟩ := h.exists_memos
          obtain ⟨_, _, htext⟩ := h.textDone.frame
          obtain ⟨_, _, hrelations⟩ := h.relationsDone.frame
          rw [hrelations, htext, hmemos]
        have hfind : vault.temporalParameters.find? (·.1 = env.temporalDomainId) = none := by
          simpa [VaultState.temporalParameter] using hold
        rw [hvault] at hoffset
        simp only [VaultState.temporalParameter, withTemporalRows, hrelations, List.find?_append, hfind] at hoffset
        simp only [List.find?_cons_of_pos, decide_true, Option.none_or, Option.map_some, Option.some.injEq] at hoffset
        rw [← hoffset]
        exact hne

theorem textDomainId_eq (h : Stages env P vault scanned text relations st) : st.outcome.textDomainId =
    if P.plan.textPresent = true ∧ P.scan.spool.encodings ≠ [] then some globalTextDomainId else none :=
  (h.temporalDone.textDomainId_eq.trans h.relationsDone.textDomainId_eq).trans h.textDone.textDomain

/-- What the scan observed of a field is mapped when pass one returns. -/
theorem fieldMapped (h : Stages env P vault scanned text relations st) {t : TableDirective} (ht : t ∈ P.plan.tables)
    {record : DirectRecord} {d : FieldDirective} (hd : d ∈ t.transformed)
    (hobserved : FieldObserved env t.relativePath record d scanned) :
    FieldMapped env t.relativePath record d st.outcome.textDomainId st.vault := by
  unfold FieldObserved at hobserved
  unfold FieldMapped
  dsimp only at hobserved ⊢
  cases hdomain : d.numericDomainId with
  | some domainId =>
    simp only [hdomain] at hobserved ⊢
    rcases hobserved with hnull | ⟨n, hn, hmem⟩
    · exact Or.inl hnull
    · obtain ⟨r, hr, hid⟩ := PlannedDataset.exists_relation_of_numeric ht hd hdomain
      obtain ⟨D, hD⟩ := PlannedDataset.built_of_relation hr hid
      rw [← h.textDone.numeric_eq] at hmem
      obtain ⟨p, hp⟩ := BijectiveTable.mem_keys.mp (h.relationsDone.mapped r hr domainId hid n hmem)
      have hinv := h.relationsDone.invariant r hr domainId D.domain hid hD
      refine Or.inr ⟨n, p, hn, ?_, hinv.no_fixed_point _ hp⟩
      rw [VaultState.numericPseudonym, h.numericKeyMappings_eq]
      exact BijectiveTable.valueOf?_eq_some_iff.mpr hp
  | none =>
    simp only [hdomain] at hobserved ⊢
    cases haction : d.action with
    | pseudonymizeReversible =>
      simp only [haction] at hobserved ⊢
      rcases hobserved with hempty | ⟨value, hvalue, -, hmem, hencodings⟩
      · exact Or.inl hempty
      · have hpresent := textPresent_of_mem ht hd hdomain haction
        obtain ⟨p, hp⟩ := h.textDone.mapped hpresent value hmem
        have hinv := h.textDone.invariant
        have hsafe := hinv.pseudonyms_safe p (BijectiveTable.mem_values.mpr ⟨value, hp⟩)
        refine Or.inr ⟨value, p, hvalue, ?_, ?_, hinv.no_fixed_point _ hp, (isSafeToken_iff.mp hsafe).1⟩
        · rw [h.spooled] at hencodings
          rw [h.textDomainId_eq, if_pos ⟨hpresent, hencodings⟩]
        · rw [VaultState.textPseudonym, h.textMappings_eq]
          exact BijectiveTable.valueOf?_eq_some_iff.mpr hp
    | shiftReversible =>
      simp only [haction] at hobserved ⊢
      rcases hobserved with hnull | hnone | ⟨domain, day, hsome, hday, hcovers⟩
      · exact Or.inl hnull
      · have hpresent := temporalPresent_of_mem ht hd hdomain haction
        obtain ⟨domain, hsome, -⟩ := PassOneState.Grows.temporal h.start (.new env.temporalDomainId)
          (by simp [PassOneState.start, hpresent])
        rw [hnone] at hsome
        cases hsome
      · rw [← h.textDone.temporalDomain_eq, ← h.relationsDone.temporalDomain_eq] at hsome
        obtain ⟨offset, hne, hstored, hrange⟩ := h.temporalDone.shifts domain day hsome hcovers
        obtain ⟨value', hshift⟩ := exists_temporalShift hday hrange
        exact Or.inr ⟨offset, value', hne, hstored, hshift⟩
    | maskReversible =>
      simp only [haction] at hobserved ⊢
      obtain ⟨tableId, fieldId, mask, hbinding, hmask, hrow⟩ := hobserved
      refine ⟨tableId, fieldId, mask, hbinding, hmask, ?_⟩
      rcases hrow with hnull | ⟨payload, hpayload, hne, hstored⟩
      · exact Or.inl hnull
      · have hlater := (h.scanned_le_text.trans h.text_le_relations).trans h.relations_le
        exact Or.inr ⟨payload, hpayload, hne, VaultState.memoRow_mono hlater hstored⟩
    | keep => trivial

end Stages

theorem passOne_kinds (hdistinct : DistinctDomains P.plan env.temporalDomainId) (hinv : EngineVault env P vault)
    (h : passOne env P.plan P.source vault = some (.ok st)) {domainId : Text} {kind : DomainKind}
    (hkind : st.vault.domainKind domainId = some kind) : vault.domainKind domainId = some kind ∨
      (domainId = globalTextDomainId ∧ kind = .text) ∨
      (kind = .numericKey ∧ ∃ r ∈ P.plan.relations, r.numericDomainId = some domainId) ∨
      (domainId = env.temporalDomainId ∧ kind = .temporal) := by
  obtain ⟨scanned, text, relations, hstages⟩ := exists_stages hdistinct hinv h
  rcases hstages.kinds hkind with hcase | hcase | hcase | ⟨heq, hcase, -⟩
  · exact Or.inl hcase
  · exact Or.inr (Or.inl hcase)
  · exact Or.inr (Or.inr (Or.inl hcase))
  · exact Or.inr (Or.inr (Or.inr ⟨heq, hcase⟩))

/-- A returning pass one has mapped every transformed field of the dataset, and only added to the vault. -/
theorem passOne_done (hdistinct : DistinctDomains P.plan env.temporalDomainId) (hinv : EngineVault env P vault)
    (h : passOne env P.plan P.source vault = some (.ok st)) :
    PassOneDone env P vault st.vault st.outcome.textDomainId := by
  obtain ⟨scanned, text, relations, hstages⟩ := exists_stages hdistinct hinv h
  have hmapped : ∀ t ∈ P.plan.tables, ∃ stored, P.source.table t.relativePath = some stored ∧
      ∀ record ∈ stored.records, ∀ d ∈ t.transformed,
        FieldMapped env t.relativePath record d st.outcome.textDomainId st.vault := by
    intro t ht
    obtain ⟨stored, hstored, hobserved⟩ := hstages.observed t ht
    exact ⟨stored, hstored, fun record hrecord d hd => hstages.fieldMapped ht hd (hobserved record hrecord d hd)⟩
  constructor
  case grows => exact hstages.grows
  case tables_eq => exact hstages.ledger_eq.1
  case fields_eq => exact hstages.ledger_eq.2
  case engineVault => exact hstages.engineVault hdistinct hinv
  case textDomain => exact hstages.textDomainId_eq
  case text_registered =>
    intro hsome
    apply VaultState.domainKind_mono (hstages.text_le_relations.trans hstages.relations_le)
    apply hstages.textDone.registered
    rwa [hstages.temporalDone.textDomainId_eq, hstages.relationsDone.textDomainId_eq] at hsome
  case numeric_registered =>
    intro r hr domainId hid
    exact VaultState.domainKind_mono hstages.relations_le (hstages.relationsDone.registered r hr domainId hid)
  case temporal_iff =>
    constructor
    · intro hsome
      rcases hstages.temporalDone.frame with hsame | ⟨_, -, -, hdays, -⟩
      · left
        obtain ⟨memos, hmemos⟩ := hstages.exists_memos
        obtain ⟨_, _, htext⟩ := hstages.textDone.frame
        obtain ⟨_, _, hrelations⟩ := hstages.relationsDone.frame
        rw [hsame, hrelations, htext, hmemos] at hsome
        exact hsome
      · right
        rw [hstages.relationsDone.temporalDomain_eq, hstages.textDone.temporalDomain_eq] at hdays
        exact hstages.days hdays
    · intro hcases
      rcases hcases with hold | hvalue
      · obtain ⟨offset, hoffset⟩ := Option.isSome_iff_exists.mp hold
        rw [VaultState.temporalParameter_mono hstages.grows hoffset]
        rfl
      · obtain ⟨t, ht, stored, hstored, record, hrecord, d, hd, hnone, haction, hne⟩ := hvalue
        obtain ⟨stored', hstored', hall⟩ := hmapped t ht
        obtain rfl := Option.some.inj (hstored.symm.trans hstored')
        have hfield := hall record hrecord d hd
        unfold FieldMapped at hfield
        simp only [hnone, haction] at hfield
        rcases hfield with hnull | ⟨offset, _, -, hoffset, -⟩
        · exact absurd hnull hne
        · rw [hoffset]
          rfl
  case mapped => exact hmapped

end PassOne
end DbfAnonymizer.Engine
