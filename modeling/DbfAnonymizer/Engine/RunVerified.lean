import DbfAnonymizer.Engine.RunLedger
import DbfAnonymizer.Verification.RecordCounts

/-! What a run has written passes the verification of its values, whatever the vault it started from. -/
namespace DbfAnonymizer.Engine
open Transforms Vault Lib Verification

/-- What the reader gives back of the records that a writer was handed under a schema: the schema facts without any
coupling, and each record at its position with its marker and its application values. -/
structure ReadsBack (schema : TableSchema) (written : List DirectRecord) (output : StoredTable) : Prop where
  facts_eq : schemaFacts schema = schemaFacts output.schema
  uncoupled : dbcCoupled output.schema = false
  positioned : Positioned output.records
  records : List.Forall₂ (fun record out => out.deleted = record.deleted ∧
    ∀ field ∈ schema.applicationFields, out.values field.name = record.values field.name) written output.records

section Run
variable {env : RunEnvironment} {P : PlannedDataset} {bindings : List ((Text × Text) × Text × Text)} {run : EngineRun}
  {sources : PassTwoSources} {t : TableDirective} {stored output : StoredTable} {tableId : Text} {field : FieldInfo}
  {row : FieldRow} {d : FieldDirective} {record out : DirectRecord}

theorem TableLedger.exists_binding (h : RunDone env P bindings run) (hledger : TableLedger env P run t stored tableId)
    (hfield : field ∈ stored.schema.applicationFields) : ∃ row,
      (run.vault.fieldRows tableId).find? (·.name = field.name) = some row ∧ row.tableId = tableId ∧
        run.vault.fieldRow tableId field.name = some row ∧
        FieldDecided run.vault run.textDomainId (temporalDomainOf env.passes P.plan) t stored.schema field row := by
  obtain ⟨row, hrow, hname, hdecided⟩ := hledger.decided field hfield
  obtain ⟨hmem, hid⟩ := List.mem_filter.mp hrow
  rw [decide_eq_true_eq] at hid
  have hfound := h.ready.ledger.unique.fieldRow_eq hmem
  rw [hid, hname] at hfound
  exact ⟨row, by rw [find?_fieldRows, hfound], hid, hfound, hdecided⟩

theorem RunDone.memoBinding_eq (h : RunDone env P bindings run) (hledger : TableLedger env P run t stored tableId)
    {other fieldId name : Text} (hbinding : memoBinding (env.bound bindings) t.relativePath name = some (other, fieldId))
    (hrow : run.vault.fieldRow tableId name = some row) : other = tableId ∧ fieldId = row.fieldId := by
  obtain ⟨entry, hentry, hvalue⟩ := Option.map_eq_some_iff.mp hbinding
  have hkey : entry.1 = (t.relativePath, name) := by simpa using List.find?_some hentry
  obtain ⟨htable, found, hfound, hid⟩ := h.bindings_sound entry (List.mem_of_find?_eq_some hentry)
  simp only [hkey, hvalue] at htable hfound hid
  obtain rfl := Option.some.inj (htable.symm.trans hledger.tableId_eq)
  obtain rfl := Option.some.inj (hfound.symm.trans hrow)
  exact ⟨rfl, hid.symm⟩

theorem RunDone.image_transformed (h : RunDone env P bindings run) (ht : t ∈ P.plan.tables)
    (hledger : TableLedger env P run t stored tableId)
    (hsources : passTwoSources P.plan run.vault env.passes.temporalDomainId run.textDomainId env.render = .ok sources)
    (hd : d ∈ t.transformed)
    (hmapped : FieldMapped (env.bound bindings) t.relativePath record d run.textDomainId run.vault)
    (hwritten : transformField sources d (record.values d.fieldName) = .ok (out.values d.fieldName))
    (hrow : run.vault.fieldRow tableId d.fieldName = some row) (htype : row.dbfType = d.dbfType)
    (haction : row.transformAction = some d.action)
    (hdomain : row.mappingDomainId = mappingDomainOf run.vault run.textDomainId (temporalDomainOf env.passes P.plan) d) :
    FieldImage run.vault tableId record.physicalIndex row (record.values d.fieldName) (out.values d.fieldName) := by
  obtain ⟨hoffset, rfl⟩ := passTwoSources_eq_ok_iff.mp hsources
  unfold FieldMapped at hmapped
  unfold transformField at hwritten
  dsimp only at hmapped hwritten
  unfold mappingDomainOf at hdomain
  generalize record.values d.fieldName = value at hmapped hwritten ⊢
  generalize out.values d.fieldName = written at hwritten ⊢
  cases hnumeric : d.numericDomainId with
  | some domainId =>
    obtain ⟨r, hr, hid⟩ := PlannedDataset.exists_relation_of_numeric ht hd hnumeric
    have hkind := h.numeric_registered r hr domainId hid
    rw [action_of_numeric ht hd hnumeric] at haction
    simp only [hnumeric] at hmapped hwritten hdomain
    rcases hmapped with rfl | ⟨n, p, rfl, hp, hne⟩
    · cases hwritten
      exact .nullKey domainId haction hdomain hkind
    · simp only [hp, Except.ok.injEq] at hwritten
      subst hwritten
      exact .key n p domainId haction hdomain hkind hne (BijectiveTable.keyOf?_of_valueOf? hp)
  | none =>
    cases hcase : d.action with
    | pseudonymizeReversible =>
      rw [hcase] at haction
      simp only [hnumeric, hcase] at hmapped hwritten hdomain
      have hkind : ∀ domainId, row.mappingDomainId = some domainId → run.vault.domainKind domainId = some .text := by
        intro domainId hsome
        rw [hdomain] at hsome
        have hregistered := h.text_registered (by simp [hsome])
        rw [h.textDomain] at hsome
        split_ifs at hsome
        rwa [← Option.some.inj hsome]
      by_cases hblank : value.isNullOrEmpty = true
      · rw [if_pos hblank, Except.ok.injEq] at hwritten
        subst hwritten
        exact .blank value haction hkind hblank
      · rw [if_neg hblank, if_pos (textPresent_of_mem ht hd hnumeric hcase)] at hwritten
        rcases hmapped with hempty | ⟨original, p, rfl, hid, hp, hne, hpseudonym⟩
        · exact absurd hempty hblank
        · simp only [hid, PassTwoSources.str, hp, Except.ok.injEq] at hwritten
          subst hwritten
          rw [hid] at hdomain
          have horiginal : original ≠ [] := by
            intro hnil
            exact hblank (by simp [Value.isNullOrEmpty, hnil])
          exact .text original p globalTextDomainId haction hdomain (hkind _ hdomain) horiginal hpseudonym hne
            (BijectiveTable.keyOf?_of_valueOf? hp)
    | shiftReversible =>
      have hshifts := h.mappingDomainOf_shift ht hd hnumeric hcase
      obtain ⟨-, offset, hne, hstored⟩ := h.temporal (temporalPresent_of_mem ht hd hnumeric hcase)
      rw [mappingDomainOf] at hshifts
      rw [hshifts] at hdomain
      rw [hcase] at haction
      simp only [hnumeric, hcase, temporalPresent_of_mem ht hd hnumeric hcase, if_true, hstored] at hwritten
      exact .shifted value written _ offset haction hdomain hstored hne hwritten
    | maskReversible =>
      rw [hcase] at haction
      simp only [hnumeric, hcase] at hmapped hwritten
      obtain ⟨other, fieldId, mask, hbinding, hmask, hpayload⟩ := hmapped
      obtain ⟨rfl, rfl⟩ := h.memoBinding_eq hledger hbinding hrow
      rw [hmask, Except.ok.injEq] at hwritten
      subst hwritten
      rcases hpayload with rfl | ⟨payload, hvalue, hne, hstored⟩
      · have hnull : mask = .null := by
          unfold maskMemoValue at hmask
          split_ifs at hmask
          all_goals exact (Except.ok.inj hmask).symm
        rw [hnull]
        exact .nullMemo haction
      · have hlogical : value = payload.logical := by
          cases value with
          | text _ =>
            cases hvalue
            rfl
          | binary _ =>
            cases hvalue
            rfl
          | _ => cases hvalue
        subst hlogical
        exact .memo payload mask haction hstored (htype ▸ hmask) hne
    | keep =>
      rw [hcase] at haction
      simp only [hnumeric, hcase, Except.ok.injEq] at hwritten
      subst hwritten
      exact .kept value haction

theorem RunDone.image (h : RunDone env P bindings run) (ht : t ∈ P.plan.tables) (hbehind : P.Behind t stored)
    (hledger : TableLedger env P run t stored tableId)
    (hsources : passTwoSources P.plan run.vault env.passes.temporalDomainId run.textDomainId env.render = .ok sources)
    (hrecord : record ∈ stored.records) (hwritten : RecordWritten sources t stored.schema record out)
    (hfield : field ∈ stored.schema.applicationFields) : ∃ row,
      (run.vault.fieldRows tableId).find? (·.name = field.name) = some row ∧
        FieldImage run.vault tableId record.physicalIndex row (record.values field.name) (out.values field.name) := by
  obtain ⟨row, hbinding, -, hrow, hdecided⟩ := hledger.exists_binding h hfield
  refine ⟨row, hbinding, ?_⟩
  rcases hdecided.decision with ⟨d, hd, hname, haction, hdomain⟩ | ⟨hkept, haction, -⟩
  · obtain ⟨other, hother, hmapped⟩ := h.mapped t ht
    obtain rfl := Option.some.inj (hother.symm.trans hbehind.stored_eq)
    obtain ⟨htype, -, -⟩ := directive_facts hbehind hd hfield hname
    have hrowType : row.dbfType = d.dbfType := by
      rw [htype]
      exact congrArg Prod.fst hdecided.facts_eq
    rw [← hname] at hrow ⊢
    exact h.image_transformed ht hledger hsources hd (hmapped record hrecord d hd) (hwritten.transformed d hd) hrow hrowType
      haction hdomain
  · rw [hwritten.kept field.name hkept, withoutSystemFields_application hbehind.names_nodup hfield]
    exact .kept _ haction

/-- The record that is read back at a place holds what stands for the source record's values. -/
theorem RunDone.image_readBack (h : RunDone env P bindings run) (ht : t ∈ P.plan.tables) (hbehind : P.Behind t stored)
    (hledger : TableLedger env P run t stored tableId)
    (hsources : passTwoSources P.plan run.vault env.passes.temporalDomainId run.textDomainId env.render = .ok sources)
    (hpositioned : Positioned stored.records) {w : TableWritten}
    (hwritten : List.Forall₂ (RecordWritten sources t stored.schema) stored.records w.records)
    (hback : ReadsBack stored.schema w.records output) :
    List.Forall₂ (RecordImage run.vault tableId (run.vault.fieldRows tableId) stored.schema) stored.records
      output.records := by
  have hrecords := hback.records
  rw [List.forall₂_iff_get] at hwritten hrecords ⊢
  refine ⟨hwritten.1.trans hrecords.1, ?_⟩
  intro i hi hi'
  have hmiddle : i < w.records.length := hwritten.1 ▸ hi
  have hout := hwritten.2 i hi hmiddle
  obtain ⟨hdeleted, hvalues⟩ := hrecords.2 i hmiddle hi'
  refine ⟨?_, hdeleted.trans hout.deleted_eq, ?_⟩
  · exact (hback.positioned i hi').trans (hpositioned i hi).symm
  · intro field hfield
    rw [hvalues field hfield]
    exact h.image ht hbehind hledger hsources (List.get_mem _ _) hout hfield

/-- The verification of a written table finds nothing but what its ledger check finds, and kept NaN values. -/
theorem RunDone.cleanTable_iff (h : RunDone env P bindings run) (ht : t ∈ P.plan.tables) (hbehind : P.Behind t stored)
    (hledger : TableLedger env P run t stored tableId) (huncoupled : dbcCoupled output.schema = false)
    (hfacts : schemaFacts stored.schema = schemaFacts output.schema)
    (himages : List.Forall₂ (RecordImage run.vault tableId (run.vault.fieldRows tableId) stored.schema) stored.records
      output.records) :
    CleanTable run.vault t.relativePath stored output ↔ ¬ TextUnobserved P t ∧ ¬ P.HoldsNan t := by
  obtain ⟨hrows, hclean⟩ := h.verifyFieldLedger_eq ht hbehind hledger
  let Passes (record back : DirectRecord) : Prop :=
    verifyRecordPair stored.schema run.vault tableId (run.vault.fieldRows tableId) record back = .ok ([], false)
  have hpairs : (∀ p ∈ stored.records.zip output.records, Passes p.1 p.2) ↔ ¬ P.HoldsNan t := by
    have hpass : ∀ record back, RecordImage run.vault tableId (run.vault.fieldRows tableId) stored.schema record back →
        (Passes record back ↔ ¬ record.HoldsNan stored.schema) := fun _ _ himage => verifyRecordPair_image himage
    rw [forall_zip_iff_of_forall₂ himages hpass, hbehind.holdsNan_iff]
    simp [StoredTable.HoldsNan]
  constructor
  · intro hc
    obtain ⟨other, hother, hledgerClean, hrecords⟩ := hc.registered
    obtain rfl := Option.some.inj (hother.symm.trans hledger.tableId_eq)
    rw [hrows] at hrecords
    exact ⟨hclean.mp hledgerClean, hpairs.mp hrecords⟩
  · intro hobserved
    refine ⟨huncoupled, hfacts, tableId, hledger.tableId_eq, hclean.mpr hobserved.1, ?_⟩
    rw [hrows]
    exact hpairs.mpr hobserved.2

/-- What the reader gives back of the tables that a run has written. -/
def WrittenOut (P : PlannedDataset) (run : EngineRun) (output : DatasetFiles) : Prop :=
  List.Forall₂ (fun t w => ∃ stored table, P.source.table t.relativePath = some stored ∧
    output.table t.relativePath = some table ∧ ReadsBack stored.schema w.records table) P.plan.tables run.written

/-- A table of a run, as it was read, written and read back. -/
structure PublishedTable (env : RunEnvironment) (P : PlannedDataset) (run : EngineRun) (files : DatasetFiles)
    (t : TableDirective) (w : TableWritten) (stored output : StoredTable) (tableId : Text) : Prop where
  path_eq : w.relativePath = t.relativePath
  behind : P.Behind t stored
  output_eq : files.table t.relativePath = some output
  length_eq : output.records.length = w.records.length
  uncoupled : dbcCoupled output.schema = false
  facts_eq : schemaFacts stored.schema = schemaFacts output.schema
  ledger : TableLedger env P run t stored tableId
  images : List.Forall₂ (RecordImage run.vault tableId (run.vault.fieldRows tableId) stored.schema) stored.records
    output.records

theorem RunDone.publishedTables {P : PresentedDataset} {files : DatasetFiles} (h : RunDone env P bindings run)
    (hfiles : WrittenOut P run files) :
    List.Forall₂ (fun t w => ∃ stored output tableId, PublishedTable env P run files t w stored output tableId)
      P.plan.tables run.written := by
  obtain ⟨sources, hsources, hrewritten⟩ := h.rewritten
  unfold WrittenOut at hfiles
  rw [List.forall₂_iff_get] at hrewritten hfiles ⊢
  refine ⟨hrewritten.1, ?_⟩
  intro i hi hi'
  obtain ⟨hpath, stored, hstored, hrecords⟩ := hrewritten.2 i hi hi'
  obtain ⟨other, output, hother, hread, hback⟩ := hfiles.2 i hi hi'
  obtain rfl := Option.some.inj (hstored.symm.trans hother)
  have ht : P.plan.tables.get ⟨i, hi⟩ ∈ P.plan.tables := List.get_mem _ _
  obtain ⟨behind, hbehind⟩ := PlannedDataset.exists_behind ht
  obtain rfl := Option.some.inj (hstored.symm.trans hbehind.stored_eq)
  obtain ⟨tableId, hledger⟩ := h.tableLedger ht hbehind
  have himages := h.image_readBack ht hbehind hledger hsources (P.positioned _ _ hstored) hrecords hback
  exact ⟨stored, output, tableId, hpath, hbehind, hread, hback.records.length_eq.symm, hback.uncoupled, hback.facts_eq,
    hledger, himages⟩

end Run

/-- A verification of what a run has published: the files that it read, what the reader gives back of those it wrote,
its vault and its counts, with fingerprints, topology and vault phase as they should be. -/
structure VerifiesRun (V : VerificationInput) (P : PlannedDataset) (run : EngineRun) : Prop where
  source_eq : V.source = P.source
  vault_eq : V.vault = run.vault
  tablePaths_eq : V.result.tablePaths = run.result.tablesWritten
  tableCount_eq : V.result.tableCount = run.result.tablesWritten.length
  recordCount_eq : V.result.recordCount = run.result.passTwoRecordsWritten
  sourceFingerprint_eq : V.source.fingerprint = V.result.sourceFingerprint
  outputFingerprint_eq : V.output.fingerprint = V.result.outputFingerprint
  topology : (V.topologyFindings V.sources).failures = []
  idx : ((V.result.indexArtifacts.map V.idxFinding).foldl Findings.append ⟨[], []⟩).failures = []
  vaultPhase_ok : ∃ findings, V.vaultPhase = .ok findings ∧ findings.failures = []
  output : WrittenOut P run V.output

section Verified
variable {env : RunEnvironment} {P : PresentedDataset} {vault : VaultState} {run : EngineRun} {V : VerificationInput}

/-- The verification of a run's own result records no failure exactly when no table has a text field to replace while
the dataset has no text, and no table holds a NaN, which is kept but is not equal to itself. -/
theorem verify_run_iff (hdistinct : DistinctDomains P.plan env.passes.temporalDomainId)
    (hready : RunVault env.passes P vault) (h : engineRun env P.plan P.source vault = some (.ok run))
    (hV : VerifiesRun V P run) :
    (∃ verdict, V.verify = .ok verdict ∧ verdict.1.failures = []) ↔
      ∀ t ∈ P.plan.tables, ¬ TextUnobserved P t ∧ ¬ P.HoldsNan t := by
  obtain ⟨bindings, hdone⟩ := engineRun_done hdistinct hready h
  have htables := hdone.publishedTables hV.output
  have hpaths : V.result.tablePaths = run.written.map TableWritten.relativePath :=
    hV.tablePaths_eq.trans hdone.tablesWritten_eq
  have hlength : ∀ w ∈ run.written, w.records.length = (V.output.recordsOf w.relativePath).length := by
    intro w hw
    obtain ⟨t, -, stored, output, tableId, hpublished⟩ := exists_of_forall₂_right htables hw
    rw [hpublished.path_eq, DatasetFiles.recordsOf_eq hpublished.output_eq, hpublished.length_eq]
  have hcount : V.result.recordCount = V.output.recordTotal V.result.tablePaths := by
    rw [hV.recordCount_eq, hdone.recordsWritten_eq, hpaths, DatasetFiles.recordTotal, List.map_map]
    exact congrArg List.sum (List.map_congr_left hlength)
  rw [VerificationInput.verify_noFailure_iff hcount]
  constructor
  · intro hverified t ht
    obtain ⟨w, hw, stored, output, tableId, hpublished⟩ := exists_of_forall₂_left htables ht
    have hmem : t.relativePath ∈ V.result.tablePaths := by
      rw [hpaths, ← hpublished.path_eq]
      exact List.mem_map_of_mem hw
    obtain ⟨source, output', hsource, houtput, hclean⟩ := hverified.1.tables _ hmem
    rw [hV.source_eq] at hsource
    obtain rfl := Option.some.inj (hpublished.behind.stored_eq.symm.trans hsource)
    obtain rfl := Option.some.inj (hpublished.output_eq.symm.trans houtput)
    rw [hV.vault_eq] at hclean
    exact (hdone.cleanTable_iff ht hpublished.behind hpublished.ledger hpublished.uncoupled hpublished.facts_eq
      hpublished.images).mp hclean
  · intro hobserved
    have hread : ∀ path ∈ V.result.tablePaths, ∃ t ∈ P.plan.tables, ∃ w stored output tableId, path = t.relativePath ∧
        PublishedTable env P run V.output t w stored output tableId := by
      intro path hpath
      rw [hpaths] at hpath
      obtain ⟨w, hw, rfl⟩ := List.mem_map.mp hpath
      obtain ⟨t, ht, stored, output, tableId, hpublished⟩ := exists_of_forall₂_right htables hw
      exact ⟨t, ht, w, stored, output, tableId, hpublished.path_eq, hpublished⟩
    constructor
    · constructor
      case sourceFingerprint_eq => exact hV.sourceFingerprint_eq
      case outputFingerprint_eq => exact hV.outputFingerprint_eq
      case tableCount_eq => rw [hV.tablePaths_eq, hV.tableCount_eq]
      case topology => exact hV.topology
      case idx => exact hV.idx
      case vaultPhase_ok => exact hV.vaultPhase_ok
      case tables =>
        intro path hpath
        obtain ⟨t, ht, w, stored, output, tableId, rfl, hpublished⟩ := hread path hpath
        refine ⟨stored, output, by rw [hV.source_eq, hpublished.behind.stored_eq], hpublished.output_eq, ?_⟩
        rw [hV.vault_eq]
        exact (hdone.cleanTable_iff ht hpublished.behind hpublished.ledger hpublished.uncoupled hpublished.facts_eq
          hpublished.images).mpr (hobserved t ht)
    · intro path hpath
      obtain ⟨t, ht, w, stored, output, tableId, rfl, hpublished⟩ := hread path hpath
      left
      rw [hV.source_eq, DatasetFiles.recordsOf_eq hpublished.behind.stored_eq,
        DatasetFiles.recordsOf_eq hpublished.output_eq, hpublished.images.length_eq]

end Verified

section Blank

theorem readsBack_self {schema : TableSchema} {records : List DirectRecord} (huncoupled : dbcCoupled schema = false)
    (hpositioned : Positioned records) : ReadsBack schema records ⟨schema, records⟩ :=
  ⟨rfl, huncoupled, hpositioned, List.forall₂_same.mpr fun _ _ => ⟨rfl, fun _ _ => rfl⟩⟩

/-- The verification of a run over the blank names. -/
def blankVerification (run : EngineRun) : VerificationInput where
  result := ⟨[], [], run.result.tablesWritten, [], run.result.tablesWritten.length, run.result.passTwoRecordsWritten, []⟩
  source := blankSource
  output := {
    fingerprint := []
    paths := [parentPath]
    sha256 := fun _ => none
    table := fun path => if path = parentPath then
      some ⟨keyTable [blankField], run.written.flatMap TableWritten.records⟩ else none }
  vault := run.vault
  vaultPhase := .ok ⟨[], []⟩

/-- What the run has published of two blank names is refused. -/
theorem blankNames_refused : ∃ run, engineRun datedRun blankNames.plan blankNames.source .empty = some (.ok run) ∧
    VerifiesRun (blankVerification run) blankNames run ∧
      ¬ ∃ verdict, (blankVerification run).verify = .ok verdict ∧ verdict.1.failures = [] := by
  obtain ⟨run, w, a, b, hrun, hwritten, hrecords, ha, hb, hpaths⟩ : ∃ run w a b,
      engineRun datedRun blankNames.plan blankNames.source .empty = some (.ok run) ∧ run.written = [w] ∧
        w.records = [a, b] ∧ a.physicalIndex = 0 ∧ b.physicalIndex = 1 ∧ run.result.tablesWritten = [parentPath] :=
    ⟨_, _, _, _, rfl, rfl, rfl, rfl, rfl, rfl⟩
  have hverifies : VerifiesRun (blankVerification run) blankNames run := by
    constructor
    case source_eq => rfl
    case vault_eq => rfl
    case tablePaths_eq => rfl
    case tableCount_eq => rfl
    case recordCount_eq => rfl
    case sourceFingerprint_eq => rfl
    case outputFingerprint_eq => rfl
    case topology =>
      unfold VerificationInput.topologyFindings VerificationInput.sources VerificationInput.expectedOutput
      unfold blankVerification VerificationInput.rebuiltIdxPaths
      dsimp only
      rw [hpaths]
      rfl
    case idx => rfl
    case vaultPhase_ok => exact ⟨_, rfl, rfl⟩
    case output =>
      have hplan : ∃ t, blankNames.plan.tables = [t] ∧ t.relativePath = parentPath := ⟨_, rfl, rfl⟩
      obtain ⟨t, ht, hpath⟩ := hplan
      rw [WrittenOut, ht, hwritten]
      refine .cons ⟨_, _, by rw [hpath]; rfl, by rw [hpath]; rfl, ?_⟩ .nil
      rw [hwritten, List.flatMap_singleton, hrecords]
      exact readsBack_self rfl (positioned_pair ha hb)
  refine ⟨run, hrun, hverifies, ?_⟩
  rw [verify_run_iff blankNames_distinct (runVault_empty datedEnvironment blankNames) hrun hverifies]
  have hplanned : ∃ t ∈ blankNames.plan.tables, ∃ d ∈ t.transformed, d.numericDomainId = none ∧
      d.action = .pseudonymizeReversible := by
    decide +kernel
  obtain ⟨t, ht, d, hd, htext⟩ := hplanned
  intro hobserved
  exact (hobserved t ht).1 ⟨⟨d, hd, htext⟩, rfl⟩

end Blank
end DbfAnonymizer.Engine
