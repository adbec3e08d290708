import DbfAnonymizer.Engine.FieldRegistration

/-! A run between its vault and its staging directory: memo identities, pass one, the field ledger, pass two. -/
namespace DbfAnonymizer.Engine
open Transforms Vault Lib Verification

/-- What a run meets outside its plan and its source: what its passes meet, the bounded digest of identities, how
the two registration units end, how a value that is no text is rendered and how long the spool's file is. -/
structure RunEnvironment where
  passes : PassOneEnvironment
  sha16 : Text → Text
  memoControl : UnitControl
  fieldsControl : UnitControl
  render : Value → Text
  spoolBytes : ℕ

/-- What a returning run leaves: its vault, the text domain, the tables that it wrote and its result. -/
structure EngineRun where
  vault : VaultState
  textDomainId : Option Text
  written : List TableWritten
  result : TwoPassResult

/-- The temporal domain of a run, if its plan shifts a field. -/
def temporalDomainOf (env : PassOneEnvironment) (plan : EnginePlan) : Option Text :=
  if plan.temporalPresent then some env.temporalDomainId else none

/-- The ledger and pass two, behind a returning pass one. -/
def runBehindPassOne (env : RunEnvironment) (plan : EnginePlan) (source : DatasetFiles) (st : PassOneState) :
    Except Raised EngineRun :=
  match registerTransformFields env.sha16 env.fieldsControl plan source st.outcome.textDomainId
      (temporalDomainOf env.passes plan) st.vault with
  | (.error e, _) => .error e
  | (.ok _, vault) => do
    let (written, result) ← runPassTwo env.passes.batch plan source vault env.passes.temporalDomainId
      st.outcome env.render env.spoolBytes st.spool.evidence
    return ⟨vault, st.outcome.textDomainId, written, result⟩

/-- The passes meet the memo bindings that the run has registered. -/
def RunEnvironment.bound (env : RunEnvironment) (bindings : List ((Text × Text) × Text × Text)) : PassOneEnvironment :=
  { env.passes with memoBindings := bindings }

/-- The core of the two-pass run; `none` where the finalization of the text domain does not come to an end. -/
def engineRun (env : RunEnvironment) (plan : EnginePlan) (source : DatasetFiles) (vault : VaultState) :
    Option (Except Raised EngineRun) :=
  match registerMemoStructure env.sha16 env.memoControl plan vault with
  | (.error e, _) => some (.error e)
  | (.ok bindings, vault) =>
    (passOne (env.bound bindings) plan source vault).map fun st => do runBehindPassOne env plan source (← st)

/-- A vault that a run can start from, and that it leaves again. -/
structure RunVault (env : PassOneEnvironment) (P : PlannedDataset) (vault : VaultState) : Prop where
  engine : EngineVault env P vault
  ledger : LedgerVault P vault
  temporal_kind : ∀ kind, vault.domainKind env.temporalDomainId = some kind → kind = .temporal

theorem runVault_empty (env : PassOneEnvironment) (P : PlannedDataset) : RunVault env P .empty where
  engine := engineVault_empty env P
  ledger := ledgerVault_empty P
  temporal_kind := by simp [VaultState.domainKind, VaultState.empty]

structure RunDone (env : RunEnvironment) (P : PlannedDataset) (bindings : List ((Text × Text) × Text × Text))
    (run : EngineRun) : Prop where
  ready : RunVault env.passes P run.vault
  bindings_sound : BindingsSound bindings run.vault
  textDomain : run.textDomainId = if P.plan.textPresent = true ∧ P.scan.spool.encodings ≠ [] then some globalTextDomainId
    else none
  text_registered : run.textDomainId ≠ none → run.vault.domainKind globalTextDomainId = some .text
  numeric_registered : ∀ r ∈ P.plan.relations, ∀ domainId, r.numericDomainId = some domainId →
    run.vault.domainKind domainId = some .numericKey
  registered : ∀ t ∈ P.plan.tables, TableRegistered P.source run.textDomainId (temporalDomainOf env.passes P.plan)
    run.vault run.vault t
  mapped : ∀ t ∈ P.plan.tables, ∃ stored, P.source.table t.relativePath = some stored ∧
    ∀ record ∈ stored.records, ∀ d ∈ t.transformed,
      FieldMapped (env.bound bindings) t.relativePath record d run.textDomainId run.vault
  rewritten : ∃ sources, passTwoSources P.plan run.vault env.passes.temporalDomainId run.textDomainId env.render =
    .ok sources ∧ List.Forall₂ (TableRewritten P sources) P.plan.tables run.written
  tablesWritten_eq : run.result.tablesWritten = run.written.map TableWritten.relativePath
  recordsWritten_eq : run.result.passTwoRecordsWritten = (run.written.map fun t => t.records.length).sum

section Run
variable {env : RunEnvironment} {P : PlannedDataset} {vault : VaultState} {run : EngineRun}

theorem engineRun_eq_ok (h : engineRun env P.plan P.source vault = some (.ok run)) :
    ∃ bindings ready st u, registerMemoStructure env.sha16 env.memoControl P.plan vault = (.ok bindings, ready) ∧
      passOne (env.bound bindings) P.plan P.source ready = some (.ok st) ∧
      registerTransformFields env.sha16 env.fieldsControl P.plan P.source st.outcome.textDomainId
        (temporalDomainOf env.passes P.plan) st.vault = (.ok u, run.vault) ∧
      runPassTwo env.passes.batch P.plan P.source run.vault env.passes.temporalDomainId st.outcome env.render
        env.spoolBytes st.spool.evidence = .ok (run.written, run.result) ∧ run.textDomainId = st.outcome.textDomainId := by
  unfold engineRun at h
  cases hmemo : registerMemoStructure env.sha16 env.memoControl P.plan vault with
  | mk bound ready =>
    cases bound with
    | error e => simp [hmemo] at h
    | ok bindings =>
      simp only [hmemo, Option.map_eq_some_iff] at h
      obtain ⟨scanned, hscanned, hbehind⟩ := h
      obtain ⟨st, hst, h⟩ := bind_eq_ok.mp hbehind
      rw [hst] at hscanned
      unfold runBehindPassOne at h
      cases hfields : registerTransformFields env.sha16 env.fieldsControl P.plan P.source st.outcome.textDomainId
          (temporalDomainOf env.passes P.plan) st.vault with
      | mk done final =>
        cases done with
        | error e => simp [hfields] at h
        | ok u =>
          simp only [hfields] at h
          obtain ⟨⟨written, result⟩, hwritten, h⟩ := bind_eq_ok.mp h
          cases h
          exact ⟨bindings, ready, st, u, rfl, hscanned, hfields, hwritten, rfl⟩

/-- A registration does not touch what pass one reads of a vault. -/
theorem EngineVault.ledgerGrows {env : PassOneEnvironment} {after : VaultState} (h : EngineVault env P vault)
    (hgrows : LedgerGrows vault after) : EngineVault env P after := by
  obtain ⟨_, _, rfl⟩ := hgrows
  exact ⟨h.text_kind, h.text, h.numeric_kind, h.numeric, h.temporal⟩

theorem EngineVault.bound (h : EngineVault env.passes P vault) (bindings : List ((Text × Text) × Text × Text)) :
    EngineVault (env.bound bindings) P vault := ⟨h.text_kind, h.text, h.numeric_kind, h.numeric, h.temporal⟩

theorem FieldMapped.ledgerGrows {env : PassOneEnvironment} {after : VaultState} {path : Text} {record : DirectRecord}
    {d : FieldDirective} {textDomainId : Option Text} (h : FieldMapped env path record d textDomainId vault)
    (hgrows : LedgerGrows vault after) : FieldMapped env path record d textDomainId after := by
  obtain ⟨_, _, rfl⟩ := hgrows
  exact h

theorem LedgerVault.congr {after : VaultState} (h : LedgerVault P vault) (htables : after.tables = vault.tables)
    (hfields : after.fields = vault.fields) : LedgerVault P after := by
  constructor
  · exact ⟨htables ▸ h.unique.paths_nodup, htables ▸ h.unique.tableIds_nodup, hfields ▸ h.unique.names_nodup⟩
  · rw [htables]
    exact h.planned
  · rw [hfields, htables]
    exact h.owned
  · simp only [VaultState.tableId, VaultState.fieldRows, hfields, htables]
    exact h.names

/-- Pass one registers the temporal domain under its own kind. -/
theorem passOne_temporal_kind {env : PassOneEnvironment} {st : PassOneState}
    (hdistinct : DistinctDomains P.plan env.temporalDomainId) (hinv : EngineVault env P vault)
    (h : passOne env P.plan P.source vault = some (.ok st))
    (hbefore : ∀ kind, vault.domainKind env.temporalDomainId = some kind → kind = .temporal) :
    ∀ kind, st.vault.domainKind env.temporalDomainId = some kind → kind = .temporal := by
  intro kind hkind
  rcases passOne_kinds hdistinct hinv h hkind with hcase | ⟨heq, -⟩ | ⟨-, r, hr, hid⟩ | ⟨-, hcase⟩
  · exact hbefore kind hcase
  · exact absurd heq hdistinct.temporal_ne_text
  · exact absurd hid (hdistinct.numeric_ne_temporal r hr)
  · exact hcase

/-- A returning run leaves a vault from which the next run can start, with a complete ledger, a mapping for every
value of the dataset, and every record of every table rewritten. -/
theorem engineRun_done {P : NormalDataset} (hdistinct : DistinctDomains P.plan env.passes.temporalDomainId)
    (hready : RunVault env.passes P vault) (h : engineRun env P.plan P.source vault = some (.ok run)) :
    ∃ bindings, RunDone env P bindings run := by
  obtain ⟨bindings, bound, st, u, hmemo, hpass, hfields, hwritten, htext⟩ := engineRun_eq_ok h
  obtain ⟨hgrows, hledger, hsound⟩ := registerMemoStructure_spec P.normal hready.ledger hmemo
  have hengine : EngineVault (env.bound bindings) P bound := (hready.engine.ledgerGrows hgrows).bound bindings
  have hdomains : DistinctDomains P.plan (env.bound bindings).temporalDomainId := hdistinct
  have hdone := passOne_done hdomains hengine hpass
  have hregistered := registerTransformFields_spec P.normal (hledger.congr hdone.tables_eq hdone.fields_eq) hfields
  have hfinal := hregistered.grows
  have hkind : ∀ kind, st.vault.domainKind env.passes.temporalDomainId = some kind → kind = .temporal := by
    apply passOne_temporal_kind hdomains hengine hpass
    rw [hgrows.domainKind_eq]
    exact hready.temporal_kind
  refine ⟨bindings, ?_⟩
  constructor
  case ready =>
    have hengine' := hdone.engineVault.ledgerGrows hfinal
    refine ⟨⟨hengine'.text_kind, hengine'.text, hengine'.numeric_kind, hengine'.numeric, hengine'.temporal⟩,
      hregistered.ledger, ?_⟩
    rw [hfinal.domainKind_eq]
    exact hkind
  case bindings_sound => exact hsound.mono (hdone.grows.trans hfinal.le)
  case textDomain => exact htext.trans hdone.textDomain
  case text_registered =>
    rw [htext, hfinal.domainKind_eq]
    exact hdone.text_registered
  case numeric_registered =>
    intro r hr domainId hid
    rw [hfinal.domainKind_eq]
    exact hdone.numeric_registered r hr domainId hid
  case registered =>
    intro t ht stored hstored
    obtain ⟨tableId, htable, hall⟩ := hregistered.registered t ht stored hstored
    refine ⟨tableId, htable, ?_⟩
    intro field hfield
    obtain ⟨row, hrow, hcarries⟩ := hall field hfield
    rw [htext, hfinal.expectedFacts_eq]
    exact ⟨row, hrow, hcarries⟩
  case mapped =>
    intro t ht
    obtain ⟨stored, hstored, hmapped⟩ := hdone.mapped t ht
    refine ⟨stored, hstored, ?_⟩
    intro record hrecord d hd
    rw [htext]
    exact (hmapped record hrecord d hd).ledgerGrows hfinal
  case rewritten =>
    rw [htext]
    exact runPassTwo_rewritten hwritten
  case tablesWritten_eq =>
    obtain ⟨-, -, -, hresult⟩ := runPassTwo_eq_ok_iff.mp hwritten
    rw [hresult]
    exact (result_acceptAll ..).1
  case recordsWritten_eq =>
    obtain ⟨-, -, -, hresult⟩ := runPassTwo_eq_ok_iff.mp hwritten
    rw [hresult]
    exact (result_acceptAll ..).2

end Run
end DbfAnonymizer.Engine
