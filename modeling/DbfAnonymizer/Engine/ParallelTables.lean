import DbfAnonymizer.Engine.PassTwoComplete
import DbfAnonymizer.Lib.WorkerBatches

/-! Pass two with several workers: batches of tables, one stop flag, one stable failure, and tables accepted in order. -/
namespace DbfAnonymizer.Engine
open Transforms Vault Lib Verification

/-- Where a worker is with its table. -/
inductive TableWorker
  | submitted (directive : TableDirective)
  | streaming (directive : TableDirective) (schema : TableSchema) (records : List DirectRecord)
      (written : List (DirectRecord × List RelationObservation))

def coordinatorCancelled : Raised := .typed .operationCancelled "two_pass" "CANCELLED_BY_COORDINATOR"

def workerCleanupFailure : Raised := .typed .publicationIncomplete "two_pass" "ENGINE_WORKER_CLEANUP_FAILED"

def isCancellationError (e : Raised) : Bool := e.code? = some .operationCancelled

/-- A worker reads its table and writes it record by record. -/
def tableWorkerNext (sources : PassTwoSources) (relations : List RelationDirective) (source : DatasetFiles) :
    TableWorker → TableWorker ⊕ Except Raised TableWritten
  | .submitted directive =>
    match source.readTable directive.relativePath with
    | .error e => .inr (.error e)
    | .ok table => .inl (.streaming directive table.schema table.records [])
  | .streaming directive _ [] written =>
    .inr (.ok ⟨directive.relativePath, written.map Prod.fst, written.flatMap Prod.snd⟩)
  | .streaming directive schema (record :: records) written =>
    match writeRecord sources relations directive schema record with
    | .error e => .inr (.error e)
    | .ok out => .inl (.streaming directive schema records (written ++ [out]))

def TableWorker.size (source : DatasetFiles) : TableWorker → ℕ
  | .submitted directive => (source.recordsOf directive.relativePath).length + 1
  | .streaming _ _ records _ => records.length

section Failures
variable {sources : PassTwoSources} {relations : List RelationDirective} {source : DatasetFiles} {value : Value}

theorem maskMemoValue_uncancelled {dbfType : Char} : RaisesOnly (isCancellationError · = false) (maskMemoValue dbfType value) := by
  have hmask : RaisesOnly (isCancellationError · = false) (memoSafeMask value) := by
    cases value <;> first | exact raisesOnly_ok _ | exact raisesOnly_error rfl
  unfold maskMemoValue
  split
  · exact raisesOnly_error rfl
  · split
    · split
      · exact raisesOnly_error rfl
      · exact hmask
    · exact hmask

theorem temporalShift_uncancelled {offset : ℤ} : RaisesOnly (isCancellationError · = false) (temporalShift value offset) := by
  have hday : ∀ (day : CalendarDay) (f : CalendarDay → Value),
      RaisesOnly (isCancellationError · = false) ((CalendarDay.shift day offset).map f) := by
    intro day f
    unfold CalendarDay.shift
    split_ifs
    · exact raisesOnly_ok _
    · exact raisesOnly_error rfl
  cases value with
  | null => exact raisesOnly_ok _
  | date day => exact hday day _
  | datetime day timeOfDay => exact hday day _
  | _ => exact raisesOnly_error rfl

theorem transformField_uncancelled (d : FieldDirective) :
    RaisesOnly (isCancellationError · = false) (transformField sources d value) := by
  unfold transformField
  split
  · split
    · exact raisesOnly_ok _
    · split
      · exact raisesOnly_error rfl
      · exact raisesOnly_ok _
    · exact raisesOnly_error rfl
  · split
    · split_ifs
      · exact raisesOnly_ok _
      · split
        · exact raisesOnly_error rfl
        · split
          · exact raisesOnly_error rfl
          · exact raisesOnly_ok _
    · exact maskMemoValue_uncancelled
    · split
      · exact raisesOnly_error rfl
      · exact temporalShift_uncancelled
    · exact raisesOnly_ok _

theorem observeRelations_uncancelled (side : EvidenceSide) (path : Text) (values : Values) :
    RaisesOnly (isCancellationError · = false) (observeRelations side relations path values) := by
  apply raisesOnly_mapM
  intro s _
  apply RaisesOnly.bind
  · apply raisesOnly_mapM
    intro field _
    cases values field <;> first | exact raisesOnly_ok _ | exact raisesOnly_error rfl
  · exact fun _ _ => raisesOnly_ok _

theorem writeRecord_uncancelled (directive : TableDirective) (schema : TableSchema) (record : DirectRecord) :
    RaisesOnly (isCancellationError · = false) (writeRecord sources relations directive schema record) := by
  apply RaisesOnly.bind
  · apply RaisesOnly.bind
    · apply raisesOnly_foldlM
      intro values d _
      exact (transformField_uncancelled d).bind fun _ _ => raisesOnly_ok _
    · exact fun _ _ => raisesOnly_ok _
  · exact fun out _ => (observeRelations_uncancelled _ _ _).bind fun _ _ => raisesOnly_ok _

end Failures

/-- The workers of pass two under one coordinator, who may be interrupted and whose merging, assembling and reporting of
a table may raise. -/
def tableWriters (sources : PassTwoSources) (relations : List RelationDirective) (source : DatasetFiles)
    (interrupts acceptRaises : Raised → Prop) : WorkerMachine TableDirective TableWorker Raised TableWritten where
  init := .submitted
  next := tableWorkerNext sources relations source
  size := TableWorker.size source
  size_lt := by
    intro s s' h
    unfold tableWorkerNext at h
    split at h
    · split at h
      · cases h
      · next table htable =>
        cases h
        have htable := DatasetFiles.recordsOf_eq (DatasetFiles.readTable_eq_ok.mp htable)
        simp only [TableWorker.size, htable]
        omega
    · cases h
    · split at h
      · cases h
      · cases h
        exact Nat.lt_succ_self _
  isCancellation := isCancellationError
  own := by
    intro s e h
    unfold tableWorkerNext at h
    split at h
    · split at h
      · next other hread =>
        cases h
        unfold DatasetFiles.readTable at hread
        split at hread
        all_goals cases hread
        rfl
      · cases h
    · cases h
    · split at h
      · next other hwrite =>
        cases h
        exact writeRecord_uncancelled _ _ _ _ hwrite
      · cases h
  cancelled := coordinatorCancelled
  cancelled_eq := rfl
  cleanupFailure := workerCleanupFailure
  cleanupFailure_eq := rfl
  notRetained := .assertionError
  interrupts := interrupts
  acceptRaises := acceptRaises

section Runs
variable {sources : PassTwoSources} {relations : List RelationDirective} {source : DatasetFiles}
  {interrupts acceptRaises : Raised → Prop} {directive : TableDirective}

theorem run_streaming (schema : TableSchema) (records : List DirectRecord)
    (written : List (DirectRecord × List RelationObservation)) :
    (tableWriters sources relations source interrupts acceptRaises).run (.streaming directive schema records written) =
      (records.mapM (writeRecord sources relations directive schema)).map fun rest =>
        ⟨directive.relativePath, (written ++ rest).map Prod.fst, (written ++ rest).flatMap Prod.snd⟩ := by
  induction records generalizing written with
  | nil =>
    rw [WorkerMachine.run_inr _ rfl, List.mapM_nil, pure_eq_ok, Except.map, List.append_nil]
  | cons record records ih =>
    rw [List.mapM_cons]
    cases hwrite : writeRecord sources relations directive schema record with
    | error e =>
      have hnext : (tableWriters sources relations source interrupts acceptRaises).next
          (.streaming directive schema (record :: records) written) = .inr (.error e) := by
        simp only [tableWriters, tableWorkerNext, hwrite]
      rw [WorkerMachine.run_inr _ hnext]
      rfl
    | ok out =>
      have hnext : (tableWriters sources relations source interrupts acceptRaises).next
          (.streaming directive schema (record :: records) written) =
            .inl (.streaming directive schema records (written ++ [out])) := by
        simp only [tableWriters, tableWorkerNext, hwrite]
      rw [WorkerMachine.run_inl _ hnext, ih, ok_bind]
      cases records.mapM (writeRecord sources relations directive schema) with
      | error e => rfl
      | ok rest => simp [Except.map]

theorem outcome_tableWriters : (tableWriters sources relations source interrupts acceptRaises).outcome directive =
    writeTable sources relations source directive := by
  unfold WorkerMachine.outcome writeTable
  show (tableWriters sources relations source interrupts acceptRaises).run (.submitted directive) = _
  cases hread : source.readTable directive.relativePath with
  | error e =>
    have hnext : (tableWriters sources relations source interrupts acceptRaises).next (.submitted directive) = .inr (.error e) := by
      simp only [tableWriters, tableWorkerNext, hread]
    rw [WorkerMachine.run_inr _ hnext]
    rfl
  | ok table =>
    have hnext : (tableWriters sources relations source interrupts acceptRaises).next (.submitted directive) =
        .inl (.streaming directive table.schema table.records []) := by
      simp only [tableWriters, tableWorkerNext, hread]
    rw [WorkerMachine.run_inl _ hnext, run_streaming, ok_bind]
    cases table.records.mapM (writeRecord sources relations directive table.schema) with
    | error e => rfl
    | ok rest => rfl

theorem mapM_writeTable_iff {tables : List TableDirective} {written : List TableWritten} :
    tables.mapM (writeTable sources relations source) = .ok written ↔
      Pool.Yields (tableWriters sources relations source interrupts acceptRaises) tables written := by
  simp only [Pool.Yields, mapM_eq_ok_iff, outcome_tableWriters]

end Runs

section Parallel
variable {plan : EnginePlan} {source : DatasetFiles} {vault : VaultState} {temporalDomainId : Text}
  {outcome : PassOneOutcome} {render : Value → Text} {evidence : EvidenceStore} {sources : PassTwoSources}
  {interrupts acceptRaises : Raised → Prop} {batch workers spoolBytes : ℕ} {p : Pool TableDirective TableWorker Raised TableWritten}

theorem returned_of_runPassTwo {written : List TableWritten} {result : TwoPassResult} (hquiet : ∀ e, ¬ interrupts e)
    (haccepts : ∀ e, ¬ acceptRaises e)
    (hsources : passTwoSources plan vault temporalDomainId outcome.textDomainId render = .ok sources)
    (h : runPassTwo batch plan source vault temporalDomainId outcome render spoolBytes evidence = .ok (written, result))
    (hrun : Pool.Reaches (tableWriters sources plan.relations source interrupts acceptRaises) workers (.start plan.tables) p)
    (hended : p.Ended) : p.phase = .returned ∧ p.results = written ∧
      (PassTwoProgress.acceptAll batch ⟨evidence, []⟩ p.results).result plan.relations outcome spoolBytes = result := by
  unfold runPassTwo at h
  rw [hsources, ok_bind] at h
  obtain ⟨progress, hprogress, hresult⟩ := bind_eq_ok.mp h
  obtain ⟨all, hall, rfl⟩ := writeSequentially_eq_ok_iff.mp hprogress
  have houtcomes : Pool.Yields (tableWriters sources plan.relations source interrupts acceptRaises) plan.tables all :=
    mapM_writeTable_iff.mp hall
  have hreturned : p.phase = .returned := by
    apply Pool.returned_of_outcomes hquiet haccepts _ hrun hended
    intro t ht
    obtain ⟨w, -, hw⟩ := exists_of_forall₂_left houtcomes ht
    exact ⟨w, hw⟩
  have hsame := mapM_writeTable_iff.mpr (Pool.results_of_returned hrun hreturned)
  obtain rfl := Except.ok.inj (hall.symm.trans hsame)
  rw [written_acceptAll, List.nil_append] at hresult
  cases hresult
  exact ⟨hreturned, rfl, rfl⟩

/-- Where one worker returns, nothing interrupts and no acceptance raises, several workers never run for ever, are never
stuck, and can only end by returning the same. -/
theorem runPassTwo_parallel_completes {written : List TableWritten} {result : TwoPassResult} (hworkers : 0 < workers)
    (hquiet : ∀ e, ¬ interrupts e) (haccepts : ∀ e, ¬ acceptRaises e)
    (hsources : passTwoSources plan vault temporalDomainId outcome.textDomainId render = .ok sources)
    (h : runPassTwo batch plan source vault temporalDomainId outcome render spoolBytes evidence = .ok (written, result)) :
    (WellFounded fun q p => Pool.Step (tableWriters sources plan.relations source interrupts acceptRaises) workers p q) ∧
    ∀ p, Pool.Reaches (tableWriters sources plan.relations source interrupts acceptRaises) workers (.start plan.tables) p →
      (¬ p.Ended → ∃ q, Pool.Step (tableWriters sources plan.relations source interrupts acceptRaises) workers p q) ∧
      (p.Ended → p.phase = .returned ∧ p.results = written ∧
        (PassTwoProgress.acceptAll batch ⟨evidence, []⟩ p.results).result plan.relations outcome spoolBytes = result) :=
  ⟨Pool.wellFounded_step hworkers, fun _ hrun => ⟨Pool.exists_step hrun, returned_of_runPassTwo hquiet haccepts hsources h hrun⟩⟩

end Parallel

section Dated

theorem datedOrders_written : ∃ st sources written result,
    passOne datedEnvironment datedOrders.plan datedOrders.source .empty = some (.ok st) ∧
    passTwoSources datedOrders.plan st.vault ['t', 'd'] st.outcome.textDomainId (fun _ => []) = .ok sources ∧
    runPassTwo 2 datedOrders.plan datedOrders.source st.vault ['t', 'd'] st.outcome (fun _ => []) 0
      st.spool.evidence = .ok (written, result) := ⟨_, _, _, _, rfl, rfl, rfl⟩

theorem datedOrders_twoWorkers_end : ∃ sources written,
    ∀ p, Pool.Reaches (tableWriters sources datedOrders.plan.relations datedOrders.source (fun _ => False) fun _ => False) 2
      (.start datedOrders.plan.tables) p → p.Ended → p.phase = .returned ∧ p.results = written := by
  obtain ⟨st, sources, written, result, hst, hsources, hwritten⟩ := datedOrders_written
  have hcompletes := runPassTwo_parallel_completes Nat.two_pos (fun _ => not_false) (fun _ => not_false) hsources hwritten
  refine ⟨sources, written, ?_⟩
  intro p hrun hended
  obtain ⟨hphase, hresults, -⟩ := (hcompletes.2 p hrun).2 hended
  exact ⟨hphase, hresults⟩

end Dated
end DbfAnonymizer.Engine
