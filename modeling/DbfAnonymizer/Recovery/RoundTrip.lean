import DbfAnonymizer.Engine.RunVerified
import DbfAnonymizer.Recovery.Reversal

/-! What a run has pseudonymized is recovered record for record, and the staged recovery verifies itself. -/
namespace DbfAnonymizer.Recovery
open Transforms Vault Lib Verification Engine

def originalOf (schema : TableSchema) (record : DirectRecord) : DirectRecord :=
  ⟨0, record.deleted, fun name =>
    if name ∈ schema.applicationFields.map FieldInfo.name then record.values name else .null⟩

@[simp] theorem originalOf_values {schema : TableSchema} {record : DirectRecord} {name : Text}
    (h : name ∈ schema.applicationFields.map FieldInfo.name) : (originalOf schema record).values name = record.values name :=
  if_pos h

def originalsOf (source : DatasetFiles) (path : Text) : List DirectRecord :=
  ((source.table path).map fun stored => stored.records.map (originalOf stored.schema)).getD []

/-- The planned paths in the order in which a recovery takes them. -/
def sortedPaths (P : PlannedDataset) : List Text :=
  (P.plan.tables.map TableDirective.relativePath).insertionSort (· ≤ ·)

theorem mem_sortedPaths {P : PlannedDataset} {path : Text} :
    path ∈ sortedPaths P ↔ ∃ t ∈ P.plan.tables, t.relativePath = path := by
  rw [sortedPaths, List.mem_insertionSort, List.mem_map]

def ledgerOf (vault : VaultState) (paths : List Text) : List (Text × List FieldRow) :=
  paths.map fun path => (path, vault.fieldRows ((vault.tableId path).getD []))

theorem originalsOf_eq {source : DatasetFiles} {path : Text} {stored : StoredTable}
    (h : source.table path = some stored) : originalsOf source path = stored.records.map (originalOf stored.schema) := by
  simp [originalsOf, h]

section Tables
variable {env : RunEnvironment} {P : PlannedDataset} {bindings : List ((Text × Text) × Text × Text)} {run : EngineRun}
  {files : DatasetFiles} {t : TableDirective} {w : TableWritten} {stored output : StoredTable} {tableId : Text}

theorem vaultPaths_perm {P : PresentedDataset} (h : RunDone env P bindings run) :
    (run.vault.tables.map Prod.fst).Perm (P.plan.tables.map TableDirective.relativePath) := by
  rw [List.perm_ext_iff_of_nodup h.ready.ledger.unique.paths_nodup P.paths_nodup]
  intro path
  constructor
  · intro hpath
    obtain ⟨entry, hentry, rfl⟩ := List.mem_map.mp hpath
    obtain ⟨t, ht, hsame⟩ := h.ready.ledger.planned entry hentry
    exact hsame ▸ List.mem_map_of_mem ht
  · intro hpath
    obtain ⟨t, ht, rfl⟩ := List.mem_map.mp hpath
    obtain ⟨stored, hbehind⟩ := PlannedDataset.exists_behind ht
    obtain ⟨tableId, hledger⟩ := h.tableLedger ht hbehind
    obtain ⟨entry, hentry, -⟩ := Option.map_eq_some_iff.mp hledger.tableId_eq
    have hname : entry.1 = t.relativePath := by simpa using List.find?_some hentry
    exact hname ▸ List.mem_map_of_mem (List.mem_of_find?_eq_some hentry)

theorem verifyFieldLedger_published (h : RunDone env P bindings run) (ht : t ∈ P.plan.tables)
    (hpublished : PublishedTable env P run files t w stored output tableId) :
    (verifyFieldLedger output.schema run.vault (run.vault.fieldRows tableId)).1 = run.vault.fieldRows tableId ∧
      ((verifyFieldLedger output.schema run.vault (run.vault.fieldRows tableId)).2 = [] ↔ ¬ TextUnobserved P t) := by
  rw [verifyFieldLedger_congr hpublished.facts_eq]
  exact h.verifyFieldLedger_eq ht hpublished.behind hpublished.ledger

theorem recoverTable_published (hpublished : PublishedTable env P run files t w stored output tableId) :
    recoverTable run.vault (run.vault.fieldRows tableId) t.relativePath output =
      .ok (stored.records.map (originalOf stored.schema)) := by
  have hnames := (applicationFields_congr hpublished.facts_eq).1
  have himages := hpublished.images
  rw [recoverTable, hpublished.ledger.tableId_eq]
  dsimp only
  rw [mapM_eq_ok_iff, List.forall₂_map_right_iff]
  apply himages.flip.imp
  intro back record himage
  rw [recoveredRecord_image (himage.congr hnames), hnames]
  rfl

/-- The authority reads the ledger of every published table, unless a table's texts are unobserved. -/
theorem recoveryLedger_published {P : PresentedDataset} (h : RunDone env P bindings run)
    (htables : List.Forall₂ (fun t w => ∃ stored output tableId, PublishedTable env P run files t w stored output tableId)
      P.plan.tables run.written) :
    ((∀ t ∈ P.plan.tables, ¬ TextUnobserved P t) → recoveryLedger run.vault files =
      .ok (ledgerOf run.vault (sortedPaths P))) ∧
    ((∃ t ∈ P.plan.tables, TextUnobserved P t) → recoveryLedger run.vault files =
      .error (recoveryFailure "RECOVERY_LEDGER_INCOMPLETE")) := by
  have hsorted : (run.vault.tables.map Prod.fst).insertionSort (· ≤ ·) = sortedPaths P := by
    apply List.Perm.eq_of_sortedLE List.sortedLE_insertionSort List.sortedLE_insertionSort
    exact (List.perm_insertionSort _ _).trans ((vaultPaths_perm h).trans (List.perm_insertionSort _ _).symm)
  let entry (path : Text) : Except Raised (Text × List FieldRow) := do
    let table ← files.readTable path
    let ledger := verifyFieldLedger table.schema run.vault (run.vault.fieldRows ((run.vault.tableId path).getD []))
    refuseIf (ledger.2 ≠ []) (recoveryFailure "RECOVERY_LEDGER_INCOMPLETE")
    return (path, ledger.1)
  have hentry : ∀ t ∈ P.plan.tables, (¬ TextUnobserved P t → entry t.relativePath =
      .ok (t.relativePath, run.vault.fieldRows ((run.vault.tableId t.relativePath).getD []))) ∧
      (TextUnobserved P t → entry t.relativePath = .error (recoveryFailure "RECOVERY_LEDGER_INCOMPLETE")) := by
    intro t ht
    obtain ⟨w, -, stored, output, tableId, hpublished⟩ := exists_of_forall₂_left htables ht
    obtain ⟨hrows, hclean⟩ := verifyFieldLedger_published h ht hpublished
    have hread := DatasetFiles.readTable_eq_ok.mpr hpublished.output_eq
    dsimp only [entry]
    rw [hread, ok_bind, hpublished.ledger.tableId_eq, Option.getD_some]
    constructor
    · intro hobserved
      rw [refuseIf_bind_neg (not_not.mpr (hclean.mpr hobserved)), hrows, pure_eq_ok]
    · intro hunobserved
      exact refuseIf_bind_pos fun hnil => hclean.mp hnil hunobserved
  have hledger : recoveryLedger run.vault files = (sortedPaths P).mapM entry := by rw [recoveryLedger, hsorted]
  rw [hledger]
  constructor
  · intro hobserved
    apply mapM_eq_ok_map
    intro path hpath
    obtain ⟨t, ht, rfl⟩ := mem_sortedPaths.mp hpath
    exact (hentry t ht).1 (hobserved t ht)
  · intro hunobserved
    obtain ⟨t, ht, htext⟩ := hunobserved
    apply mapM_eq_error
    · intro path hpath
      obtain ⟨t, ht, rfl⟩ := mem_sortedPaths.mp hpath
      by_cases htext : TextUnobserved P t
      · exact Or.inr ((hentry t ht).2 htext)
      · exact Or.inl ⟨_, (hentry t ht).1 htext⟩
    · exact ⟨t.relativePath, mem_sortedPaths.mpr ⟨t, ht, rfl⟩, (hentry t ht).2 htext⟩

theorem recordsWritten_originals (h : RunDone env P bindings run)
    (htables : List.Forall₂ (fun t w => ∃ stored output tableId, PublishedTable env P run files t w stored output tableId)
      P.plan.tables run.written) :
    ((sortedPaths P).map fun path => (originalsOf P.source path).length).sum = run.result.passTwoRecordsWritten := by
  have hlengths : (P.plan.tables.map fun t => (originalsOf P.source t.relativePath).length) =
      run.written.map fun w => w.records.length := by
    rw [← List.forall₂_eq_eq_eq, List.forall₂_map_left_iff, List.forall₂_map_right_iff]
    refine htables.imp ?_
    intro t w hpublished
    obtain ⟨stored, output, tableId, hpublished⟩ := hpublished
    rw [originalsOf_eq hpublished.behind.stored_eq, List.length_map, hpublished.images.length_eq, hpublished.length_eq]
  rw [sortedPaths, h.recordsWritten_eq, ← hlengths, ((List.perm_insertionSort _ _).map _).sum_eq, List.map_map]
  rfl

theorem recoverTables_published (h : RunDone env P bindings run)
    (htables : List.Forall₂ (fun t w => ∃ stored output tableId, PublishedTable env P run files t w stored output tableId)
      P.plan.tables run.written) :
    recoverTables run.vault files run.result.passTwoRecordsWritten (ledgerOf run.vault (sortedPaths P)) =
      .ok ((sortedPaths P).map fun path => (path, originalsOf P.source path)) := by
  have hcount : ¬ ((((sortedPaths P).map fun path => (path, originalsOf P.source path)).map fun r => r.2.length).sum ≠
      run.result.passTwoRecordsWritten) := by
    rw [List.map_map, not_not]
    exact recordsWritten_originals h htables
  apply bind_eq_ok.mpr
  refine ⟨(sortedPaths P).map fun path => (path, originalsOf P.source path), ?_, by rw [refuseIf_bind_neg hcount]; rfl⟩
  rw [ledgerOf, mapM_eq_ok_iff, List.forall₂_map_left_iff, List.forall₂_map_right_iff, List.forall₂_same]
  intro path hpath
  obtain ⟨t, ht, rfl⟩ := mem_sortedPaths.mp hpath
  obtain ⟨w, -, stored, output, tableId, hpublished⟩ := exists_of_forall₂_left htables ht
  dsimp only
  rw [DatasetFiles.readTable_eq_ok.mpr hpublished.output_eq, ok_bind, hpublished.ledger.tableId_eq, Option.getD_some,
    recoverTable_published hpublished, originalsOf_eq hpublished.behind.stored_eq]
  rfl

end Tables

section Recovery
variable {env : RunEnvironment} {P : PresentedDataset} {vault : VaultState} {run : EngineRun} {files : DatasetFiles}

/-- From the vault of a run and what the reader gives back of its output, the recovery has every record of every table
with its marker and its original application values; it is refused exactly where a table has a text field to replace
and the dataset no text. -/
theorem recoverDataset_run (hdistinct : DistinctDomains P.plan env.passes.temporalDomainId)
    (hready : RunVault env.passes P vault) (h : engineRun env P.plan P.source vault = some (.ok run))
    (hfiles : WrittenOut P run files) :
    ((∀ t ∈ P.plan.tables, ¬ TextUnobserved P t) → recoverDataset run.vault files run.result.passTwoRecordsWritten =
      .ok ((sortedPaths P).map fun path => (path, originalsOf P.source path))) ∧
    ((∃ t ∈ P.plan.tables, TextUnobserved P t) → recoverDataset run.vault files run.result.passTwoRecordsWritten =
      .error (recoveryFailure "RECOVERY_LEDGER_INCOMPLETE")) := by
  obtain ⟨bindings, hdone⟩ := engineRun_done hdistinct hready h
  have htables := hdone.publishedTables hfiles
  obtain ⟨hledger, hrefused⟩ := recoveryLedger_published hdone htables
  constructor
  · intro hobserved
    rw [recoverDataset, hledger hobserved, ok_bind]
    exact recoverTables_published hdone htables
  · intro hunobserved
    rw [recoverDataset, hrefused hunobserved]
    rfl

/-- What the reader gives back of the recovered tables, in a staging directory that holds nothing else. -/
structure StagedBack (P : PlannedDataset) (files staged : DatasetFiles) : Prop where
  tables : ∀ t ∈ P.plan.tables, ∃ output table, files.table t.relativePath = some output ∧
    staged.table t.relativePath = some table ∧ ReadsBack output.schema (originalsOf P.source t.relativePath) table
  topology : ∀ path, path ∈ staged.paths ↔ path ∈ sortedPaths P ∨ ∃ t ∈ P.plan.tables, ∃ output,
    files.table t.relativePath = some output ∧ output.schema.hasMemoFields = true ∧
      path = withSuffix t.relativePath fptSuffix

def stagedRecovery (P : PlannedDataset) (run : EngineRun) (files staged : DatasetFiles) : StagedRecovery where
  pseudonymized := files
  staged := staged
  vault := run.vault
  ledger := ledgerOf run.vault (sortedPaths P)
  expectedRecords := run.result.passTwoRecordsWritten

section Staged
variable {bindings : List ((Text × Text) × Text × Text)} {staged : DatasetFiles} {t : TableDirective} {w : TableWritten}
  {stored output table : StoredTable} {tableId : Text}

theorem verifyStagedPair_published (hpublished : PublishedTable env P run files t w stored output tableId)
    (hback : ReadsBack output.schema (stored.records.map (originalOf stored.schema)) table) {i : ℕ}
    (hi : i < stored.records.length) (ho : i < output.records.length) (hs : i < table.records.length) :
    (¬ stored.records[i].HoldsNan stored.schema → verifyStagedPair output.schema run.vault tableId
      (run.vault.fieldRows tableId) output.records[i] table.records[i] = .ok ([], false)) ∧
    (stored.records[i].HoldsNan stored.schema → verifyStagedPair output.schema run.vault tableId
      (run.vault.fieldRows tableId) output.records[i] table.records[i] =
        .error (recoveryFailure "RECOVERY_STAGED_INVALID")) := by
  have hpositioned := P.positioned _ _ hpublished.behind.stored_eq
  have hnames := (applicationFields_congr hpublished.facts_eq).1
  have himage := ((List.forall₂_iff_get.mp hpublished.images).2 i hi ho).congr hnames
  have hrecords := List.forall₂_map_left_iff.mp hback.records
  obtain ⟨hdeleted, hvalues⟩ := (List.forall₂_iff_get.mp hrecords).2 i hi hs
  rw [← DirectRecord.holdsNan_congr hnames]
  apply verifyStagedPair_image himage
  · exact (hback.positioned i hs).trans (hpositioned i hi).symm
  · exact hdeleted
  · intro field hfield
    exact (hvalues field hfield).trans (originalOf_values (hnames ▸ List.mem_map_of_mem hfield))

theorem verifyStagedTable_published (hpublished : PublishedTable env P run files t w stored output tableId)
    (hback : ReadsBack output.schema (originalsOf P.source t.relativePath) table) :
    (¬ P.HoldsNan t → verifyStagedTable run.vault (run.vault.fieldRows tableId) t.relativePath output table =
      .ok (originalsOf P.source t.relativePath).length) ∧
    (P.HoldsNan t → verifyStagedTable run.vault (run.vault.fieldRows tableId) t.relativePath output table =
      .error (recoveryFailure "RECOVERY_STAGED_INVALID")) := by
  rw [hpublished.behind.holdsNan_iff]
  rw [originalsOf_eq hpublished.behind.stored_eq] at hback ⊢
  have himages : stored.records.length = output.records.length := hpublished.images.length_eq
  have hrecords : stored.records.length = table.records.length := by
    have hlength := hback.records.length_eq
    rwa [List.length_map] at hlength
  rw [List.length_map, hrecords]
  constructor
  · intro hnone
    apply verifyStagedTable_of_pairs hback.facts_eq hpublished.ledger.tableId_eq
    rw [List.forall₂_iff_get]
    refine ⟨himages.symm.trans hrecords, ?_⟩
    intro i ho hs
    have hi : i < stored.records.length := himages ▸ ho
    exact (verifyStagedPair_published hpublished hback hi ho hs).1 fun hnan => hnone ⟨_, List.getElem_mem hi, hnan⟩
  · intro hnan
    obtain ⟨record, hrecord, hnan⟩ := hnan
    apply verifyStagedTable_of_refused hback.facts_eq hpublished.ledger.tableId_eq
    · intro p hp
      obtain ⟨i, hi, rfl⟩ := List.mem_iff_getElem.mp hp
      rw [List.length_zip, lt_min_iff] at hi
      rw [List.getElem_zip]
      have hlt : i < stored.records.length := himages ▸ hi.1
      have hpair := verifyStagedPair_published hpublished hback hlt hi.1 hi.2
      by_cases hheld : stored.records[i].HoldsNan stored.schema
      · exact Or.inr (hpair.2 hheld)
      · exact Or.inl (hpair.1 hheld)
    · obtain ⟨i, hi, rfl⟩ := List.mem_iff_getElem.mp hrecord
      have ho : i < output.records.length := himages ▸ hi
      have hs : i < table.records.length := hrecords ▸ hi
      refine ⟨(output.records[i], table.records[i]), ?_, (verifyStagedPair_published hpublished hback hi ho hs).2 hnan⟩
      exact List.mem_iff_getElem.mpr ⟨i, by simp [ho, hs], List.getElem_zip⟩

theorem stagedRecovery_paths : (stagedRecovery P run files staged).paths = sortedPaths P := by
  have hledger : (stagedRecovery P run files staged).ledger = ledgerOf run.vault (sortedPaths P) := rfl
  rw [StagedRecovery.paths, hledger, ledgerOf, List.map_map]
  exact List.map_id _

theorem mem_memoCompanions {tables : List (Text × StoredTable)}
    (hreads : (stagedRecovery P run files staged).ledger.mapM (fun entry => (files.readTable entry.1).map (entry.1, ·)) =
      .ok tables) {path : Text} :
    path ∈ (tables.filter (·.2.schema.hasMemoFields)).map (fun s => withSuffix s.1 fptSuffix) ↔
      ∃ t ∈ P.plan.tables, ∃ output, files.table t.relativePath = some output ∧ output.schema.hasMemoFields = true ∧
        path = withSuffix t.relativePath fptSuffix := by
  have hledger : (stagedRecovery P run files staged).ledger = ledgerOf run.vault (sortedPaths P) := rfl
  rw [List.mem_map]
  constructor
  · intro hpath
    obtain ⟨s, hs, rfl⟩ := hpath
    obtain ⟨hs, hmemo⟩ := List.mem_filter.mp hs
    obtain ⟨entry, hentry, hread⟩ := exists_of_mem_mapM_ok hreads hs
    rw [hledger, ledgerOf] at hentry
    obtain ⟨path, hpath, rfl⟩ := List.mem_map.mp hentry
    obtain ⟨t, ht, rfl⟩ := mem_sortedPaths.mp hpath
    cases houtput : files.readTable t.relativePath with
    | error e => simp [houtput, Except.map] at hread
    | ok output =>
      rw [houtput] at hread
      obtain rfl := Except.ok.inj hread
      exact ⟨t, ht, output, DatasetFiles.readTable_eq_ok.mp houtput, hmemo, rfl⟩
  · intro hpath
    obtain ⟨t, ht, output, houtput, hmemo, rfl⟩ := hpath
    have hentry : (t.relativePath, run.vault.fieldRows ((run.vault.tableId t.relativePath).getD [])) ∈
        (stagedRecovery P run files staged).ledger := by
      rw [hledger, ledgerOf]
      exact List.mem_map_of_mem (mem_sortedPaths.mpr ⟨t, ht, rfl⟩)
    obtain ⟨s, hs, hread⟩ := exists_of_mapM_ok hreads hentry
    rw [DatasetFiles.readTable_eq_ok.mpr houtput] at hread
    obtain rfl := Except.ok.inj hread
    exact ⟨_, List.mem_filter.mpr ⟨hs, hmemo⟩, rfl⟩

def ledgerEntry (run : EngineRun) (path : Text) : Text × List FieldRow :=
  (path, run.vault.fieldRows ((run.vault.tableId path).getD []))

theorem verifyLedgerTable_published
    (htables : List.Forall₂ (fun t w => ∃ stored output tableId, PublishedTable env P run files t w stored output tableId)
      P.plan.tables run.written)
    (hstaged : StagedBack P files staged) (ht : t ∈ P.plan.tables) :
    (¬ P.HoldsNan t → (stagedRecovery P run files staged).verifyLedgerTable (ledgerEntry run t.relativePath) =
      .ok (originalsOf P.source t.relativePath).length) ∧
    (P.HoldsNan t → (stagedRecovery P run files staged).verifyLedgerTable (ledgerEntry run t.relativePath) =
      .error (recoveryFailure "RECOVERY_STAGED_INVALID")) := by
  obtain ⟨w, -, stored, output, tableId, hpublished⟩ := exists_of_forall₂_left htables ht
  obtain ⟨other, table, hother, htable, hback⟩ := hstaged.tables t ht
  obtain rfl := Option.some.inj (hpublished.output_eq.symm.trans hother)
  have hverified := verifyStagedTable_published hpublished hback
  unfold StagedRecovery.verifyLedgerTable stagedRecovery ledgerEntry
  dsimp only
  rw [DatasetFiles.readTable_eq_ok.mpr hpublished.output_eq, ok_bind, DatasetFiles.readTable_eq_ok.mpr htable, ok_bind,
    hpublished.ledger.tableId_eq, Option.getD_some]
  exact hverified

theorem verifyLedgerTables_published
    (htables : List.Forall₂ (fun t w => ∃ stored output tableId, PublishedTable env P run files t w stored output tableId)
      P.plan.tables run.written)
    (hstaged : StagedBack P files staged) :
    ((∀ t ∈ P.plan.tables, ¬ P.HoldsNan t) →
      (stagedRecovery P run files staged).ledger.mapM (stagedRecovery P run files staged).verifyLedgerTable =
        .ok ((sortedPaths P).map fun path => (originalsOf P.source path).length)) ∧
    ((∃ t ∈ P.plan.tables, P.HoldsNan t) →
      (stagedRecovery P run files staged).ledger.mapM (stagedRecovery P run files staged).verifyLedgerTable =
        .error (recoveryFailure "RECOVERY_STAGED_INVALID")) := by
  have hledger : (stagedRecovery P run files staged).ledger = (sortedPaths P).map (ledgerEntry run) := rfl
  rw [hledger]
  constructor
  · intro hnone
    rw [mapM_eq_ok_iff, List.forall₂_map_left_iff, List.forall₂_map_right_iff, List.forall₂_same]
    intro path hpath
    obtain ⟨t, ht, rfl⟩ := mem_sortedPaths.mp hpath
    exact (verifyLedgerTable_published htables hstaged ht).1 (hnone t ht)
  · intro hnan
    obtain ⟨t, ht, hnan⟩ := hnan
    apply mapM_eq_error
    · intro entry hentry
      obtain ⟨path, hpath, rfl⟩ := List.mem_map.mp hentry
      obtain ⟨t, ht, rfl⟩ := mem_sortedPaths.mp hpath
      by_cases hheld : P.HoldsNan t
      · exact Or.inr ((verifyLedgerTable_published htables hstaged ht).2 hheld)
      · exact Or.inl ⟨_, (verifyLedgerTable_published htables hstaged ht).1 hheld⟩
    · exact ⟨_, List.mem_map_of_mem (mem_sortedPaths.mpr ⟨t, ht, rfl⟩),
        (verifyLedgerTable_published htables hstaged ht).2 hnan⟩

/-- The staged verification accepts the recovery of what a run has written, unless a table holds a NaN: the recovery
hands it over as it was, and the verification finds it different from itself. -/
theorem verifyStagedRecovery_run (hdistinct : DistinctDomains P.plan env.passes.temporalDomainId)
    (hready : RunVault env.passes P vault) (h : engineRun env P.plan P.source vault = some (.ok run))
    (hfiles : WrittenOut P run files) (hstaged : StagedBack P files staged) :
    ((∀ t ∈ P.plan.tables, ¬ P.HoldsNan t) →
      (stagedRecovery P run files staged).verifyStagedRecovery = .ok ()) ∧
    ((∃ t ∈ P.plan.tables, P.HoldsNan t) → (stagedRecovery P run files staged).verifyStagedRecovery =
      .error (recoveryFailure "RECOVERY_STAGED_INVALID")) := by
  obtain ⟨bindings, hdone⟩ := engineRun_done hdistinct hready h
  have htables := hdone.publishedTables hfiles
  obtain ⟨hscanned, hrefused⟩ := verifyLedgerTables_published htables hstaged
  have hfound : (stagedRecovery P run files staged).staged = staged := rfl
  obtain ⟨tables, hreads⟩ : ∃ tables, (stagedRecovery P run files staged).ledger.mapM
      (fun entry => (files.readTable entry.1).map (entry.1, ·)) = .ok tables := by
    apply exists_mapM_ok
    intro entry hentry
    obtain ⟨path, hpath, rfl⟩ := List.mem_map.mp hentry
    obtain ⟨t, ht, rfl⟩ := mem_sortedPaths.mp hpath
    obtain ⟨w, -, stored, output, tableId, hpublished⟩ := exists_of_forall₂_left htables ht
    exact ⟨(t.relativePath, output), by rw [DatasetFiles.readTable_eq_ok.mpr hpublished.output_eq]; rfl⟩
  have htopology : ¬ ¬ (staged.paths ⊆ sortedPaths P ++
      (tables.filter (·.2.schema.hasMemoFields)).map (fun s => withSuffix s.1 fptSuffix) ∧
        sortedPaths P ++ (tables.filter (·.2.schema.hasMemoFields)).map (fun s => withSuffix s.1 fptSuffix) ⊆
          staged.paths) := by
    rw [not_not]
    constructor
    · intro path hpath
      rw [List.mem_append, mem_memoCompanions hreads]
      exact (hstaged.topology path).mp hpath
    · intro path hpath
      rw [List.mem_append, mem_memoCompanions hreads] at hpath
      exact (hstaged.topology path).mpr hpath
  have htotal : ¬ (((sortedPaths P).map fun path => (originalsOf P.source path).length).sum ≠ run.result.passTwoRecordsWritten) :=
    not_not.mpr (recordsWritten_originals hdone htables)
  have hchecked : (stagedRecovery P run files staged).verifyStagedRecovery =
      ((stagedRecovery P run files staged).ledger.mapM (stagedRecovery P run files staged).verifyLedgerTable >>=
        fun scanned => refuseStaged (scanned.sum ≠ run.result.passTwoRecordsWritten)) := by
    unfold StagedRecovery.verifyStagedRecovery
    show (List.mapM (fun entry : Text × List FieldRow => (files.readTable entry.1).map (entry.1, ·)) _ >>= _) = _
    rw [hreads, ok_bind, stagedRecovery_paths, hfound]
    unfold refuseStaged
    show (refuseIf _ _ >>= _) = _
    rw [refuseIf_bind_neg htopology]
    rfl
  rw [hchecked]
  constructor
  · intro hnone
    rw [hscanned hnone, ok_bind]
    exact refuseIf_eq_ok.mpr htotal
  · intro hnan
    rw [hrefused hnan, error_bind]

end Staged
end Recovery

section Dated

def readBack (schema : TableSchema) (records : List DirectRecord) : StoredTable :=
  ⟨schema, records.mapIdx fun i record => { record with physicalIndex := i }⟩

theorem readsBack_readBack {schema : TableSchema} {records : List DirectRecord} (huncoupled : dbcCoupled schema = false) :
    ReadsBack schema records (readBack schema records) where
  facts_eq := rfl
  uncoupled := huncoupled
  positioned := by
    intro i hi
    simp [readBack]
  records := by
    rw [List.forall₂_iff_get]
    exact ⟨by simp [readBack], fun i hi hi' => by simp [readBack]⟩

def datedFiles (parents children : List DirectRecord) : DatasetFiles where
  fingerprint := []
  paths := [parentPath, childPath]
  sha256 := fun _ => none
  table := fun path =>
    if path = parentPath then some (readBack (keyTable [keyField 'I' 4, dayField]) parents)
    else if path = childPath then some (readBack (keyTable [keyField 'I' 4]) children)
    else none

def presentedOrders : PresentedDataset where
  toPlannedDataset := datedOrders
  normal := by decide +kernel
  paths_nodup := by decide +kernel
  positioned := by
    intro path stored h
    change (if path = parentPath then _ else if path = childPath then _ else none) = some stored at h
    split_ifs at h
    · rw [← Option.some.inj h]
      exact positioned_pair rfl rfl
    · rw [← Option.some.inj h]
      exact positioned_pair rfl rfl

theorem presentedOrders_distinct : DistinctDomains presentedOrders.plan datedRun.passes.temporalDomainId :=
  datedOrders_distinct

theorem datedOrders_nanFree (t : TableDirective) : ¬ presentedOrders.HoldsNan t := by
  intro hnan
  obtain ⟨stored, hstored, record, hrecord, field, -, hvalue⟩ := hnan
  change (if _ = parentPath then _ else if _ = childPath then _ else none) = some stored at hstored
  split_ifs at hstored
  all_goals
    rw [← Option.some.inj hstored] at hrecord
    rcases List.mem_pair.mp hrecord with rfl | rfl
    all_goals
      simp only [datedRecord] at hvalue
      split_ifs at hvalue

theorem datedOrders_writtenOut : ∃ run parents children,
    engineRun datedRun datedOrders.plan datedOrders.source .empty = some (.ok run) ∧
      WrittenOut datedOrders run (datedFiles parents children) := by
  obtain ⟨run, a, b, hrun, hwritten⟩ : ∃ run a b,
      engineRun datedRun datedOrders.plan datedOrders.source .empty = some (.ok run) ∧ run.written = [a, b] :=
    ⟨_, _, _, rfl, rfl⟩
  obtain ⟨t, t', ht, hpath, hpath'⟩ : ∃ t t', datedOrders.plan.tables = [t, t'] ∧ t.relativePath = parentPath ∧
      t'.relativePath = childPath := ⟨_, _, rfl, rfl, rfl⟩
  refine ⟨run, a.records, b.records, hrun, ?_⟩
  rw [WrittenOut, ht, hwritten]
  refine .cons ⟨_, _, by rw [hpath]; rfl, by rw [hpath]; rfl, ?_⟩ (.cons ⟨_, _, by rw [hpath']; rfl, by rw [hpath']; rfl, ?_⟩ .nil)
  · exact readsBack_readBack rfl
  · exact readsBack_readBack rfl

/-- The dated orders are recovered from a run's vault and output. -/
theorem datedOrders_recovered : ∃ run files, engineRun datedRun datedOrders.plan datedOrders.source .empty = some (.ok run) ∧
    recoverDataset run.vault files run.result.passTwoRecordsWritten =
      .ok ((sortedPaths datedOrders).map fun path => (path, originalsOf datedOrders.source path)) := by
  obtain ⟨run, parents, children, hrun, hwritten⟩ := datedOrders_writtenOut
  obtain ⟨hrecovered, -⟩ := recoverDataset_run presentedOrders_distinct
    (runVault_empty datedEnvironment datedOrders) hrun hwritten
  have hkept : ∀ t ∈ datedOrders.plan.tables, ∀ d ∈ t.transformed, ¬ (d.numericDomainId = none ∧
      d.action = .pseudonymizeReversible) := by
    decide +kernel
  refine ⟨run, _, hrun, hrecovered ?_⟩
  intro t ht htext
  obtain ⟨d, hd, hplanned⟩ := htext.1
  exact hkept t ht d hd hplanned

theorem mem_datedPaths {path : Text} : path ∈ sortedPaths datedOrders ↔ path = parentPath ∨ path = childPath := by
  have hplanned : datedOrders.plan.tables.map TableDirective.relativePath = [parentPath, childPath] := rfl
  rw [sortedPaths, List.mem_insertionSort, hplanned, List.mem_pair]

theorem datedOrders_stagedBack (parents children : List DirectRecord) : StagedBack datedOrders (datedFiles parents children)
    (datedFiles (originalsOf datedSource parentPath) (originalsOf datedSource childPath)) where
  tables := by
    intro t ht
    rcases mem_datedPaths.mp (mem_sortedPaths.mpr ⟨t, ht, rfl⟩) with hpath | hpath
    · exact ⟨_, _, by rw [hpath]; rfl, by rw [hpath]; rfl, by rw [hpath]; exact readsBack_readBack rfl⟩
    · exact ⟨_, _, by rw [hpath]; rfl, by rw [hpath]; rfl, by rw [hpath]; exact readsBack_readBack rfl⟩
  topology := by
    have hmemoless : ∀ path output, (datedFiles parents children).table path = some output →
        output.schema.hasMemoFields = false := by
      intro path output houtput
      change (if path = parentPath then _ else if path = childPath then _ else none) = some output at houtput
      split_ifs at houtput
      · rw [← Option.some.inj houtput]
        rfl
      · rw [← Option.some.inj houtput]
        rfl
    intro path
    rw [mem_datedPaths]
    constructor
    · intro hpath
      exact Or.inl (List.mem_pair.mp hpath)
    · intro hpath
      rcases hpath with hpath | ⟨t, -, output, houtput, hmemo, -⟩
      · exact List.mem_pair.mpr hpath
      · rw [hmemoless _ _ houtput] at hmemo
        cases hmemo

theorem datedOrders_staged : ∃ run files staged,
    engineRun datedRun datedOrders.plan datedOrders.source .empty = some (.ok run) ∧
      StagedBack datedOrders files staged ∧ (stagedRecovery datedOrders run files staged).verifyStagedRecovery = .ok () := by
  obtain ⟨run, parents, children, hrun, hwritten⟩ := datedOrders_writtenOut
  have hstaged := datedOrders_stagedBack parents children
  obtain ⟨haccepted, -⟩ := verifyStagedRecovery_run presentedOrders_distinct
    (runVault_empty datedEnvironment datedOrders) hrun hwritten hstaged
  refine ⟨run, _, _, hrun, hstaged, haccepted ?_⟩
  exact fun t _ => datedOrders_nanFree t

end Dated
end DbfAnonymizer.Recovery
