import DbfAnonymizer.Engine.EvidencePreserved
import DbfAnonymizer.Engine.PassTwoComplete

/-! The evidence that both passes of one run leave, in terms of the dataset before and after. -/
namespace DbfAnonymizer.Engine
open Transforms Vault Lib Verification

def recordObservations (side : EvidenceSide) (relations : List RelationDirective) (relativePath : Text)
    (values : Values) : List RelationObservation :=
  ((observeRelations side relations relativePath values).toOption).getD []

/-- A planned table as the first pass spools it: a flush before and after its records. -/
def tableEvents (plan : EnginePlan) (source : DatasetFiles) (t : TableDirective) : List (Option RelationObservation) :=
  none :: ((source.recordsOf t.relativePath).flatMap fun record =>
    recordObservations .before plan.relations t.relativePath record.values).map some ++ [none]

def valuesBefore (plan : EnginePlan) (source : DatasetFiles) : List (Text × List Values) :=
  plan.tables.map fun t => (t.relativePath, (source.recordsOf t.relativePath).map DirectRecord.values)

def valuesAfter (written : List TableWritten) : List (Text × List Values) :=
  written.map fun w => (w.relativePath, w.records.map DirectRecord.values)

theorem recordObservations_eq {side : EvidenceSide} {relations : List RelationDirective} {relativePath : Text}
    {values : Values} {observations : List RelationObservation}
    (h : observeRelations side relations relativePath values = .ok observations) :
    recordObservations side relations relativePath values = observations := by
  rw [recordObservations, h]
  rfl

theorem observeDataset_eq_ok {side : EvidenceSide} {relations : List RelationDirective}
    {tables : List (Text × List Values)}
    (h : ∀ table ∈ tables, ∀ values ∈ table.2, ∃ observations, observeRelations side relations table.1 values = .ok observations) :
    observeDataset side relations tables = .ok (tables.flatMap fun table =>
      table.2.flatMap (recordObservations side relations table.1)) := by
  have htable : ∀ table ∈ tables, (do
      let records ← table.2.mapM (observeRelations side relations table.1)
      return records.flatten : Except Raised (List RelationObservation)) =
        .ok (table.2.flatMap (recordObservations side relations table.1)) := by
    intro table htable
    have hrecords : table.2.mapM (observeRelations side relations table.1) =
        .ok (table.2.map (recordObservations side relations table.1)) := by
      apply mapM_eq_ok_map
      intro values hvalues
      obtain ⟨observations, hobservations⟩ := h table htable values hvalues
      rw [recordObservations_eq hobservations, hobservations]
    rw [hrecords]
    rfl
  unfold observeDataset
  rw [mapM_eq_ok_map htable]
  rfl

section PassOne
variable {env : PassOneEnvironment} {P : PlannedDataset} {vault : VaultState} {st st' : PassOneState}
  {relations : List RelationDirective} {t : TableDirective} {record : DirectRecord}

theorem observeField_evidence {relativePath : Text} {d : FieldDirective}
    (h : observeField env relativePath record st d = .ok st') : st'.spool.evidence = st.spool.evidence := by
  unfold observeField at h
  dsimp only at h
  split at h
  · obtain ⟨_, -, h⟩ := bind_eq_ok.mp h
    cases h
    rfl
  · split at h
    · obtain ⟨_, -, h⟩ := bind_eq_ok.mp h
      cases h
      rfl
    · split at h
      · cases h
        rfl
      · obtain ⟨_, -, h⟩ := bind_eq_ok.mp h
        cases h
        rfl
    · split at h
      · cases h
      · split at h
        · cases h
        · cases h
          rfl
    · cases h
      rfl

/-- The spool's answer to one event. -/
def spoolEvent (batch : ℕ) (s : EvidenceStore) : Option RelationObservation → EvidenceStore
  | some o => s.observe .passOneSpool batch o
  | none => s.flush .passOneSpool

theorem passOneSpool_eq (batch : ℕ) (events : List (Option RelationObservation)) :
    EvidenceStore.passOneSpool batch events = events.foldl (spoolEvent batch) .empty := rfl

/-- The projected read shows a record's relation fields, so it is observed like the whole record. -/
theorem observeRelations_projected (ht : t ∈ P.plan.tables) (values : Values) :
    observeRelations .before P.plan.relations t.relativePath (values.project (projectionFields t)) =
      observeRelations .before P.plan.relations t.relativePath values := by
  unfold observeRelations
  have hsides : ∀ sides : List ObservedSide, sides ⊆ observedSides P.plan.relations t.relativePath →
      sides.mapM (fun s => observeSide .before s.relationId s.role s.fields (values.project (projectionFields t))) =
        sides.mapM fun s => observeSide .before s.relationId s.role s.fields values := by
    intro sides
    induction sides with
    | nil => exact fun _ => rfl
    | cons s sides ih =>
      intro hsubset
      rw [List.mapM_cons, List.mapM_cons, ih fun x hx => hsubset (List.mem_cons_of_mem _ hx)]
      have hfields : ∀ field ∈ s.fields, values.project (projectionFields t) field = values field :=
        fun field hfield => project_relationFields ht (hsubset List.mem_cons_self) hfield values
      rw [observeSide_congr hfields]
  exact hsides _ (List.Subset.refl _)

theorem scanTable_evidence (ht : t ∈ P.plan.tables)
    (h : scanTable env P.plan.relations P.source st t = .ok st') :
    st'.spool.evidence = (tableEvents P.plan P.source t).foldl (spoolEvent env.batch) st.spool.evidence := by
  obtain ⟨table, scanned, htable, hscanned, rfl⟩ := scanTable_eq_ok h
  have hrecords := view_of_foldlM (fun st : PassOneState => st.spool.evidence) (spoolEvent env.batch)
    (fun record : DirectRecord => (recordObservations .before P.plan.relations t.relativePath record.values).map some) ?_
      hscanned
  · unfold tableEvents
    rw [DatasetFiles.recordsOf_eq htable, List.cons_append, List.foldl_cons, List.foldl_append]
    change EvidenceStore.flush .passOneSpool scanned.spool.evidence = _
    rw [hrecords, projectedRecords, List.flatMap_map, List.map_flatMap]
    have hsame : ∀ record : DirectRecord, recordObservations .before P.plan.relations t.relativePath
        (record.values.project (projectionFields t)) =
          recordObservations .before P.plan.relations t.relativePath record.values := by
      intro record
      rw [recordObservations, recordObservations, observeRelations_projected ht]
    simp only [hsame]
    rfl
  · intro record _ a b hrecord
    obtain ⟨fields, observations, hfields, hobservations, rfl⟩ := observeRecord_eq_ok hrecord
    have hkept : fields.spool.evidence = a.spool.evidence :=
      invariant_of_foldlM (fun st : PassOneState => st.spool.evidence = a.spool.evidence)
        (fun _ _ _ _ hfield hsame => (observeField_evidence hfield).trans hsame) hfields rfl
    rw [recordObservations_eq hobservations, List.foldl_map, ← hkept]
    rfl

theorem runPassOne_evidence (h : runPassOne env P.plan P.source vault = .ok st) :
    st.spool.evidence = .passOneSpool env.batch (P.plan.tables.flatMap (tableEvents P.plan P.source)) := by
  rw [passOneSpool_eq]
  exact view_of_foldlM (fun st : PassOneState => st.spool.evidence) (spoolEvent env.batch) (tableEvents P.plan P.source)
    (fun t ht _ _ hscan => scanTable_evidence ht hscan) h

theorem passOne_evidence (h : passOne env P.plan P.source vault = some (.ok st)) :
    st.spool.evidence = .passOneSpool env.batch (P.plan.tables.flatMap (tableEvents P.plan P.source)) := by
  obtain ⟨scanned, text, relations, hscan, htext, hrelations, htemporal⟩ := passOne_eq_ok h
  have htext : text.spool.evidence = scanned.spool.evidence := by
    unfold finalizeTextDomain at htext
    split_ifs at htext
    · obtain ⟨finalized, -, hfinalized⟩ := Option.map_eq_some_iff.mp htext
      obtain ⟨out, -, hfinalized⟩ := bind_eq_ok.mp hfinalized
      cases hfinalized
      rfl
    · cases htext
      rfl
  have hrelations : relations.spool.evidence = text.spool.evidence := by
    refine invariant_of_foldlM (fun st : PassOneState => st.spool.evidence = text.spool.evidence) ?_ hrelations rfl
    intro r _ a b hstep hsame
    unfold finalizeRelation at hstep
    split at hstep
    · unfold finalizeNumericDomain at hstep
      obtain ⟨⟨allocated, final⟩, -, hstep⟩ := bind_eq_ok.mp hstep
      cases hstep
      exact hsame
    · cases hstep
      exact hsame
  have htemporal : st.spool.evidence = relations.spool.evidence := by
    unfold finalizeTemporalDomain at htemporal
    split at htemporal
    · cases htemporal
      rfl
    · split at htemporal
      · cases htemporal
      · cases htemporal
        rfl
  rw [htemporal, hrelations, htext]
  exact runPassOne_evidence hscan

end PassOne

theorem reduceOption_tableEvents (plan : EnginePlan) (source : DatasetFiles) (tables : List TableDirective) :
    (tables.flatMap (tableEvents plan source)).reduceOption = tables.flatMap fun t =>
      (source.recordsOf t.relativePath).flatMap fun record =>
        recordObservations .before plan.relations t.relativePath record.values := by
  have hsome : ∀ observations : List RelationObservation, (observations.map some).reduceOption = observations := by
    intro observations
    simp [List.reduceOption]
  induction tables with
  | nil => rfl
  | cons t tables ih =>
    rw [List.flatMap_cons, List.flatMap_cons, List.reduceOption_append, ih, tableEvents, List.cons_append,
      List.reduceOption_cons_of_none, List.reduceOption_append, hsome]
    simp

section TwoPasses
variable {env : PassOneEnvironment} {P : PlannedDataset} {vault : VaultState} {st : PassOneState}
  {sources : PassTwoSources} {t : TableDirective} {w : TableWritten} {written : List TableWritten}

theorem observeDataset_before (h : runPassOne env P.plan P.source vault = .ok st) :
    observeDataset .before P.plan.relations (valuesBefore P.plan P.source) =
      .ok (P.plan.tables.flatMap (tableEvents P.plan P.source)).reduceOption := by
  have hall : ∀ table ∈ valuesBefore P.plan P.source, ∀ values ∈ table.2,
      ∃ observations, observeRelations .before P.plan.relations table.1 values = .ok observations := by
    intro table htable values hvalues
    obtain ⟨t, ht, rfl⟩ := List.mem_map.mp htable
    obtain ⟨record, hrecord, rfl⟩ := List.mem_map.mp hvalues
    obtain ⟨stored, hbehind⟩ := PlannedDataset.exists_behind ht
    rw [DatasetFiles.recordsOf_eq hbehind.stored_eq] at hrecord
    apply exists_mapM_ok
    intro s hs
    exact exists_observeSide_iff.mpr (keyComponent_of_runPassOne h ht hbehind.stored_eq hrecord hs)
  rw [observeDataset_eq_ok hall, reduceOption_tableEvents, valuesBefore, List.flatMap_map]
  simp only [List.flatMap_map]

theorem writeTable_observations (h : writeTable sources P.plan.relations P.source t = .ok w) :
    (∀ values ∈ w.records.map DirectRecord.values,
        ∃ observations, observeRelations .after P.plan.relations w.relativePath values = .ok observations) ∧
      w.observations = (w.records.map DirectRecord.values).flatMap
        (recordObservations .after P.plan.relations w.relativePath) := by
  unfold writeTable at h
  obtain ⟨table, -, h⟩ := bind_eq_ok.mp h
  obtain ⟨outs, houts, h⟩ := bind_eq_ok.mp h
  rw [pure_eq_ok, Except.ok.injEq] at h
  subst h
  have hall : ∀ out ∈ outs, observeRelations .after P.plan.relations t.relativePath out.1.values = .ok out.2 := by
    intro out hout
    obtain ⟨record, -, hrecord⟩ := exists_of_mem_mapM_ok houts hout
    obtain ⟨transformed, -, hrecord⟩ := bind_eq_ok.mp hrecord
    obtain ⟨observations, hobservations, hrecord⟩ := bind_eq_ok.mp hrecord
    cases hrecord
    exact hobservations
  constructor
  · intro values hvalues
    rw [List.map_map] at hvalues
    obtain ⟨out, hout, rfl⟩ := List.mem_map.mp hvalues
    exact ⟨out.2, hall out hout⟩
  · dsimp only
    rw [List.map_map, List.flatMap_map]
    apply List.flatMap_congr
    intro out hout
    exact (recordObservations_eq (hall out hout)).symm

/-- The second pass observes the dataset as it was written; each worker's shard has its own table's part. -/
theorem observeDataset_after (h : P.plan.tables.mapM (writeTable sources P.plan.relations P.source) = .ok written) :
    observeDataset .after P.plan.relations (valuesAfter written) =
      .ok (written.map TableWritten.observations).flatten := by
  have hwritten : ∀ w ∈ written, ∃ t ∈ P.plan.tables, writeTable sources P.plan.relations P.source t = .ok w := by
    intro w hw
    exact exists_of_mem_mapM_ok h hw
  have hall : ∀ table ∈ valuesAfter written, ∀ values ∈ table.2,
      ∃ observations, observeRelations .after P.plan.relations table.1 values = .ok observations := by
    intro table htable
    obtain ⟨w, hw, rfl⟩ := List.mem_map.mp htable
    obtain ⟨t, -, hwrite⟩ := hwritten w hw
    exact (writeTable_observations hwrite).1
  rw [observeDataset_eq_ok hall, valuesAfter, List.flatMap_map, List.flatMap_def]
  congr 2
  apply List.map_congr_left
  intro w hw
  obtain ⟨t, -, hwrite⟩ := hwritten w hw
  exact (writeTable_observations hwrite).2.symm

/-- The evidence that a run compares: the first pass with its flushes, and the shard of each written table. -/
def runSpool (batch : ℕ) (P : PlannedDataset) (written : List TableWritten) : EvidenceStore :=
  comparedSpool batch (P.plan.tables.flatMap (tableEvents P.plan P.source)) (written.map TableWritten.observations)

theorem relations_acceptAll (batch : ℕ) (events : List (Option RelationObservation)) (outcome : PassOneOutcome)
    (spoolBytes : ℕ) :
    ((PassTwoProgress.acceptAll batch ⟨.passOneSpool batch events, []⟩ written).result P.plan.relations outcome
        spoolBytes).relations =
      compareRelations P.plan.relations (comparedSpool batch events (written.map TableWritten.observations)) := by
  have hevidence : ∀ (progress : PassTwoProgress), (progress.acceptAll batch written).evidence =
      (written.map TableWritten.observations).foldl
        (fun s observations => s.mergeRelationShard (.closedShard batch observations)) progress.evidence := by
    induction written with
    | nil => exact fun _ => rfl
    | cons w written ih => exact fun progress => ih (progress.accept batch w)
  rw [PassTwoProgress.result, hevidence]
  rfl

end TwoPasses
end DbfAnonymizer.Engine
