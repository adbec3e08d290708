import DbfAnonymizer.Recovery.Staged

/-! Which differences between record counts the verifications notice. -/
namespace DbfAnonymizer.Verification
open Transforms Vault Lib Recovery

theorem reduceOption_map_some {α β : Type*} (items : List α) (f : α → β) :
    (items.map fun i => some (f i)).reduceOption = items.map f := by
  induction items with
  | nil => rfl
  | cons i items ih => simp [ih]

namespace VerificationInput
variable (V : VerificationInput)

def sources : List (Text × StoredTable) :=
  V.result.tablePaths.filterMap fun path => (V.source.table path).map (path, ·)

/-- Everything the verification checks apart from the lengths of the record streams. -/
structure OtherwiseClean : Prop where
  sourceFingerprint_eq : V.source.fingerprint = V.result.sourceFingerprint
  outputFingerprint_eq : V.output.fingerprint = V.result.outputFingerprint
  tableCount_eq : V.result.tablePaths.length = V.result.tableCount
  topology : (V.topologyFindings V.sources).failures = []
  idx : ((V.result.indexArtifacts.map V.idxFinding).foldl Findings.append ⟨[], []⟩).failures = []
  vaultPhase_ok : ∃ findings, V.vaultPhase = .ok findings ∧ findings.failures = []
  tables : ∀ path ∈ V.result.tablePaths, ∃ source output, V.source.table path = some source ∧
    V.output.table path = some output ∧ CleanTable V.vault path source output

/-- No stream pair differs but by one extra record on the source side. -/
def AllTolerated : Prop :=
  ∀ path ∈ V.result.tablePaths, (V.source.recordsOf path).length = (V.output.recordsOf path).length ∨
    (V.source.recordsOf path).length = (V.output.recordsOf path).length + 1

/-- The two streams of some planned table differ in length. -/
def LengthsDiffer : Prop :=
  ∃ path ∈ V.result.tablePaths, (V.source.recordsOf path).length ≠ (V.output.recordsOf path).length

/-- A difference in length never goes without a failure. -/
def LengthsGuarded : Prop := V.LengthsDiffer → ∀ verdict, V.verify = .ok verdict → verdict.1.failures ≠ []

variable {V}

theorem Findings.failures_foldl_append (items : List Findings) (start : Findings) :
    (items.foldl Findings.append start).failures = start.failures ++ items.flatMap Findings.failures := by
  induction items generalizing start with
  | nil => simp
  | cons f items ih => simp [ih, Findings.append]

theorem mem_paths_of_topology {sources : List (Text × StoredTable)}
    (h : (V.topologyFindings sources).failures = []) {path : Text} (hpath : path ∈ V.expectedOutput sources) :
    path ∈ V.output.paths := by
  unfold topologyFindings at h
  simp only [Findings.failures_foldl_append, List.append_eq_nil_iff, List.map_eq_nil_iff] at h
  by_contra hmissing
  have hfiltered : path ∈ (V.expectedOutput sources).filter (· ∉ V.output.paths) := by
    simp [hpath, hmissing]
  rw [h.1.2] at hfiltered
  cases hfiltered

theorem verifyPlannedTable_clean_iff {sources : List (Text × StoredTable)}
    (h : (V.topologyFindings sources).failures = []) {path : Text} (hpath : path ∈ V.result.tablePaths)
    {verdict : Option (List FindingCode × ℕ)} :
    (V.verifyPlannedTable sources path = .ok verdict ∧ ∀ r ∈ verdict, r.1 = []) ↔
      (∃ source output, V.source.table path = some source ∧ V.output.table path = some output ∧
        CleanTable V.vault path source output ∧ LengthsTolerated source output) ∧
      verdict = some ([], (V.output.recordsOf path).length) := by
  have hmem : path ∈ V.output.paths := mem_paths_of_topology h (by simp [expectedOutput, hpath])
  have hmemo : ¬ (withSuffix path fptSuffix ∈ memoCompanions sources ∧
      withSuffix path fptSuffix ∉ V.output.paths) := by
    rintro ⟨hin, hout⟩
    exact hout (mem_paths_of_topology h (by simp [expectedOutput, hin]))
  unfold verifyPlannedTable
  simp only [hmem, not_true_eq_false, if_false, hmemo]
  constructor
  · rintro ⟨hrun, hclean⟩
    obtain ⟨source, hs, hrun⟩ := bind_eq_ok.mp hrun
    obtain ⟨output, ho, hrun⟩ := bind_eq_ok.mp hrun
    obtain ⟨⟨findings, scanned⟩, hverdict, hrun⟩ := bind_eq_ok.mp hrun
    obtain rfl := Except.ok.inj hrun
    obtain rfl : findings = [] := hclean _ rfl
    obtain ⟨hc, hl, rfl⟩ := verifyTable_clean_iff.mp hverdict
    rw [DatasetFiles.readTable_eq_ok] at hs ho
    exact ⟨⟨source, output, hs, ho, hc, hl⟩, by rw [DatasetFiles.recordsOf_eq ho]⟩
  · rintro ⟨⟨source, output, hs, ho, hc, hl⟩, rfl⟩
    have hverdict := verifyTable_clean_iff.mpr ⟨hc, hl, rfl⟩
    rw [DatasetFiles.readTable_eq_ok.mpr hs, DatasetFiles.readTable_eq_ok.mpr ho, ok_bind, ok_bind, hverdict,
      DatasetFiles.recordsOf_eq ho]
    refine ⟨rfl, ?_⟩
    intro r hr
    obtain rfl := Option.some.inj hr
    rfl

theorem readSources_eq_ok_iff {tables : List (Text × StoredTable)} :
    (V.result.tablePaths.mapM fun path => (V.source.readTable path).map (path, ·)) = .ok tables ↔
      (∀ path ∈ V.result.tablePaths, ∃ table, V.source.table path = some table) ∧ tables = V.sources := by
  unfold sources
  induction V.result.tablePaths generalizing tables with
  | nil => simp [eq_comm]
  | cons path paths ih =>
    rw [List.mapM_cons, List.forall_mem_cons]
    unfold DatasetFiles.readTable at ih ⊢
    cases htable : V.source.table path with
    | none => simp [htable, Except.map]
    | some table =>
      simp only [Except.map, ok_bind, List.filterMap_cons, htable, Option.map_some]
      constructor
      · intro h
        obtain ⟨rest, hrest, h⟩ := bind_eq_ok.mp h
        obtain rfl := Except.ok.inj h
        obtain ⟨hall, rfl⟩ := ih.mp hrest
        exact ⟨⟨⟨table, rfl⟩, hall⟩, rfl⟩
      · rintro ⟨⟨-, hall⟩, rfl⟩
        have hrest := ih.mpr ⟨hall, rfl⟩
        simp only [Except.map] at hrest
        rw [hrest]
        rfl

/-- A verification records no failure exactly when all is clean but for tolerated lengths. -/
theorem verify_noFailure_iff
    (hcount : V.result.recordCount = V.output.recordTotal V.result.tablePaths) :
    (∃ verdict, V.verify = .ok verdict ∧ verdict.1.failures = []) ↔ V.OtherwiseClean ∧ V.AllTolerated := by
  unfold verify
  constructor
  · rintro ⟨verdict, h, hnone⟩
    obtain ⟨tables, htables, h⟩ := bind_eq_ok.mp h
    obtain ⟨vaultFindings, hvault, h⟩ := bind_eq_ok.mp h
    obtain ⟨verdicts, hverdicts, h⟩ := bind_eq_ok.mp h
    obtain rfl := Except.ok.inj h
    obtain ⟨-, rfl⟩ := readSources_eq_ok_iff.mp htables
    simp only [List.append_eq_nil_iff, failWhen_eq_nil, not_not, List.flatMap_eq_nil_iff] at hnone
    obtain ⟨⟨⟨⟨⟨⟨hsource, htopology⟩, hidx⟩, hvaultNone⟩, hscanned⟩, houtput⟩, htotals⟩ := hnone
    have heach : ∀ path ∈ V.result.tablePaths, ∀ v ∈ verdicts, V.verifyPlannedTable V.sources path = .ok v →
        (∃ source output, V.source.table path = some source ∧ V.output.table path = some output ∧
          CleanTable V.vault path source output ∧ LengthsTolerated source output) ∧
        v = some ([], (V.output.recordsOf path).length) := by
      intro path hpath v hmem hv
      refine (verifyPlannedTable_clean_iff htopology hpath).mp ⟨hv, ?_⟩
      rintro r rfl
      exact hscanned r (List.reduceOption_mem_iff.mpr hmem)
    have hall : ∀ path ∈ V.result.tablePaths, ∃ source output, V.source.table path = some source ∧
        V.output.table path = some output ∧ CleanTable V.vault path source output ∧
          LengthsTolerated source output := by
      intro path hpath
      obtain ⟨v, hmem, hv⟩ := exists_of_mapM_ok hverdicts hpath
      exact (heach path hpath v hmem hv).1
    have hverdicts_eq : verdicts = V.result.tablePaths.map fun path =>
        some ([], (V.output.recordsOf path).length) :=
      mapM_ok_eq_map hverdicts fun path hpath v hmem hv => (heach path hpath v hmem hv).2
    refine ⟨⟨hsource, houtput, ?_, htopology, hidx, ⟨vaultFindings, hvault, hvaultNone⟩, ?_⟩, ?_⟩
    · have hlen := (not_or.mp htotals).1
      rw [not_not, hverdicts_eq, reduceOption_map_some, List.length_map] at hlen
      exact hlen
    · intro path hpath
      obtain ⟨source, output, hs, ho, hc, -⟩ := hall path hpath
      exact ⟨source, output, hs, ho, hc⟩
    · intro path hpath
      obtain ⟨source, output, hs, ho, -, hl⟩ := hall path hpath
      rw [DatasetFiles.recordsOf_eq hs, DatasetFiles.recordsOf_eq ho]
      exact hl
  · rintro ⟨hclean, hlengths⟩
    obtain ⟨vaultFindings, hvault, hvaultNone⟩ := hclean.vaultPhase_ok
    have hsources := readSources_eq_ok_iff.mpr ⟨fun path hpath => by
      obtain ⟨source, -, hs, -⟩ := hclean.tables path hpath
      exact ⟨source, hs⟩, rfl⟩
    have hverdicts : V.result.tablePaths.mapM (V.verifyPlannedTable V.sources) =
        .ok (V.result.tablePaths.map fun path => some ([], (V.output.recordsOf path).length)) := by
      apply mapM_eq_ok_map
      intro path hpath
      obtain ⟨source, output, hs, ho, hc⟩ := hclean.tables path hpath
      have hl := hlengths path hpath
      rw [DatasetFiles.recordsOf_eq hs, DatasetFiles.recordsOf_eq ho] at hl
      exact ((verifyPlannedTable_clean_iff hclean.topology hpath).mpr
        ⟨⟨source, output, hs, ho, hc, hl⟩, rfl⟩).1
    rw [hsources, hvault, ok_bind, ok_bind, hverdicts, ok_bind]
    refine ⟨_, rfl, ?_⟩
    have htotal : (V.result.tablePaths.map fun path => (V.output.recordsOf path).length).sum =
        V.result.recordCount := hcount.symm
    simp [hclean.sourceFingerprint_eq, hclean.outputFingerprint_eq, hclean.tableCount_eq, hclean.topology,
      hclean.idx, hvaultNone, reduceOption_map_some, htotal, Function.comp_def]

/-- The dataset verification notices a difference in length unless all else is clean and every
difference is one extra source record; the staged recovery notices every difference. -/
theorem lengthsGuarded_iff (V : VerificationInput) (R : StagedRecovery)
    (hcount : V.result.recordCount = V.output.recordTotal V.result.tablePaths)
    (htotal : R.expectedRecords = R.pseudonymized.recordTotal R.paths) :
    (V.LengthsGuarded ↔ ¬ (V.OtherwiseClean ∧ V.AllTolerated ∧ V.LengthsDiffer)) ∧
      ((∃ path ∈ R.paths, (R.pseudonymized.recordsOf path).length ≠ (R.staged.recordsOf path).length) →
        ∃ e, R.verifyStagedRecovery = .error e) := by
  refine ⟨?_, R.refused_of_lengths_ne htotal⟩
  constructor
  · rintro hguarded ⟨hclean, htolerated, hdiffer⟩
    obtain ⟨verdict, hverdict, hnone⟩ := (verify_noFailure_iff hcount).mpr ⟨hclean, htolerated⟩
    exact hguarded hdiffer verdict hverdict hnone
  · intro h hdiffer verdict hverdict hnone
    obtain ⟨hclean, htolerated⟩ := (verify_noFailure_iff hcount).mp ⟨verdict, hverdict, hnone⟩
    exact h ⟨hclean, htolerated, hdiffer⟩

end VerificationInput

section Sample

def codePath : Text := ['a', '.', 'd', 'b', 'f']

def codeSchema : TableSchema where
  fields := [⟨['N'], 'N', 5, 0, true, false, false, false, false, false, false⟩]
  encoding := ['c', 'p', '8', '5', '2']
  languageDriver := 100
  recordCount := 2
  hasStructuralCdx := false
  dbcBound := false
  dbcBacklinkPath := none
  isDatabaseContainer := false

def sevens (count : ℕ) : StoredTable :=
  ⟨codeSchema, (List.range count).map fun i => ⟨i + 1, false, fun _ => .int 7⟩⟩

def sevensFiles (fingerprint : Char) (count : ℕ) : DatasetFiles where
  fingerprint := [fingerprint]
  paths := [codePath]
  sha256 := fun _ => none
  table := fun path => if path = codePath then some (sevens count) else none

def keepRow : FieldRow := ⟨['f'], ['t'], ['N'], 'N', 5, ['c', 'p', '8', '5', '2'], some .keep, none⟩

def keepVault : VaultState := { VaultState.empty with tables := [(codePath, ['t'])], fields := [keepRow] }

def sevensVerification (n m : ℕ) : VerificationInput where
  result := ⟨['s'], ['o'], [codePath], [], 1, m, []⟩
  source := sevensFiles 's' n
  output := sevensFiles 'o' m
  vault := keepVault
  vaultPhase := .ok ⟨[], []⟩

def sevensRecovery (n m : ℕ) : StagedRecovery where
  pseudonymized := sevensFiles 's' n
  staged := sevensFiles 'o' m
  vault := keepVault
  ledger := [(codePath, [keepRow])]
  expectedRecords := n

theorem sevens_lengthsGuarded :
    (sevensVerification 3 1).LengthsGuarded ∧ ∃ e, (sevensRecovery 2 1).verifyStagedRecovery = .error e := by
  obtain ⟨hverify, hrecover⟩ := VerificationInput.lengthsGuarded_iff (sevensVerification 3 1)
    (sevensRecovery 2 1) rfl rfl
  refine ⟨hverify.mpr ?_, hrecover ⟨codePath, List.mem_cons_self, by decide⟩⟩
  rintro ⟨-, htolerated, -⟩
  exact absurd (htolerated codePath List.mem_cons_self) (by decide)

/-- Two source records against one output record verify without a finding. -/
theorem sevens_lostRecord_passes :
    ∃ V : VerificationInput, V.result.recordCount = V.output.recordTotal V.result.tablePaths ∧
      V.LengthsDiffer ∧ V.verify = .ok (⟨[], []⟩, 1, 1) := by
  refine ⟨sevensVerification 2 1, rfl, ⟨codePath, List.mem_cons_self, by decide⟩, by decide +kernel⟩

end Sample
end DbfAnonymizer.Verification
