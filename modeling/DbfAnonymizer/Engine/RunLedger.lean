import DbfAnonymizer.Engine.EngineRun
import DbfAnonymizer.Verification.Completeness

/-! The field ledger that a run leaves, and what the verification finds in it. -/
namespace DbfAnonymizer.Engine
open Transforms Vault Lib Verification

/-- The decision that a ledger row records of a field. -/
structure FieldDecided (vault : VaultState) (textDomainId temporalDomainId : Option Text) (t : TableDirective)
    (schema : TableSchema) (field : FieldInfo) (row : FieldRow) : Prop where
  facts_eq : (row.dbfType, row.width, row.encoding) = (field.dbfType.toUpper, field.length, schema.encoding)
  decision : (∃ d ∈ t.transformed, d.fieldName = field.name ∧ row.transformAction = some d.action ∧
      row.mappingDomainId = mappingDomainOf vault textDomainId temporalDomainId d) ∨
    (field.name ∉ t.transformed.map FieldDirective.fieldName ∧ row.transformAction = some .keep ∧
      row.mappingDomainId = none)

/-- A field whose texts pass two replaces. -/
def FieldDirective.IsText (d : FieldDirective) : Prop := d.numericDomainId = none ∧ d.action = .pseudonymizeReversible

/-- The table has a text field to replace, and the dataset has no text. -/
def TextUnobserved (P : PlannedDataset) (t : TableDirective) : Prop :=
  (∃ d ∈ t.transformed, d.IsText) ∧ textOccurrences P.plan P.source = []

section Decisions
variable {P : PlannedDataset} {t : TableDirective} {stored : StoredTable} {vault : VaultState}
  {textDomainId temporalDomainId : Option Text} {field : FieldInfo} {row : FieldRow}

theorem directive_facts (hbehind : P.Behind t stored) {d : FieldDirective} (hd : d ∈ t.transformed)
    (hfield : field ∈ stored.schema.applicationFields) (hname : d.fieldName = field.name) :
    d.dbfType = field.dbfType.toUpper ∧ d.byteWidth = field.length ∧ d.encoding = stored.schema.encoding := by
  obtain ⟨other, hother, hdirective, hsame⟩ := hbehind.exists_field hd
  obtain ⟨-, hwidth, htype, hencoding, -⟩ := fieldDirective_eq_some hdirective
  have hequal := List.inj_on_of_nodup_map hbehind.names_nodup (List.mem_of_mem_filter hother)
    (List.mem_of_mem_filter hfield) (hsame.symm.trans hname)
  rw [hequal] at hwidth htype
  exact ⟨htype, hwidth, hencoding⟩

theorem fieldDecided_of_carries (hbehind : P.Behind t stored) (hfield : field ∈ stored.schema.applicationFields)
    (h : row.carries (expectedFacts vault textDomainId temporalDomainId t stored.schema field)) :
    FieldDecided vault textDomainId temporalDomainId t stored.schema field row := by
  unfold expectedFacts at h
  cases hfind : t.transformed.reverse.find? (·.fieldName = field.name) with
  | none =>
    rw [hfind] at h
    dsimp only [FieldRow.carries] at h
    obtain ⟨htype, hwidth, hencoding, haction, hdomain⟩ := h
    refine ⟨by rw [htype, hwidth, hencoding], Or.inr ⟨?_, haction, hdomain⟩⟩
    intro hmem
    obtain ⟨d, hd, hname⟩ := List.mem_map.mp hmem
    have hnone := List.find?_eq_none.mp hfind d (List.mem_reverse.mpr hd)
    simp [hname] at hnone
  | some d =>
    rw [hfind] at h
    dsimp only [FieldRow.carries] at h
    obtain ⟨htype, hwidth, hencoding, haction, hdomain⟩ := h
    have hd := List.mem_reverse.mp (List.mem_of_find?_eq_some hfind)
    have hname : d.fieldName = field.name := by simpa using List.find?_some hfind
    obtain ⟨htype', hwidth', hencoding'⟩ := directive_facts hbehind hd hfield hname
    refine ⟨?_, Or.inl ⟨d, hd, hname, haction, hdomain⟩⟩
    rw [htype, hwidth, hencoding, htype', hwidth', hencoding']

theorem encodings_spoolOf_eq_nil {occurrences : List TextOccurrence} :
    (spoolOf occurrences).encodings = [] ↔ occurrences = [] := by
  constructor
  · intro h
    cases occurrences using List.reverseRecOn with
    | nil => rfl
    | append_singleton occurrences o =>
      have hlast : (spoolOf (occurrences ++ [o])).encodings =
          (((spoolOf occurrences).observeText o.value o.byteWidth).observeTextEncoding o.encoding).encodings := by
        simp [spoolOf]
      rw [hlast, TextSpool.observeTextEncoding] at h
      split_ifs at h with hmem
      · rw [h] at hmem
        cases hmem
      · simp at h
  · intro h
    rw [h]
    rfl

end Decisions

section Run
variable {env : RunEnvironment} {P : PlannedDataset} {bindings : List ((Text × Text) × Text × Text)} {run : EngineRun}
  {t : TableDirective} {stored : StoredTable} {d : FieldDirective} {tableId : Text} {field : FieldInfo} {row : FieldRow}

theorem RunDone.textDomainId_eq_none (h : RunDone env P bindings run) (ht : t ∈ P.plan.tables) (hd : d ∈ t.transformed)
    (htext : d.IsText) : run.textDomainId = none ↔ textOccurrences P.plan P.source = [] := by
  rw [h.textDomain, ← encodings_spoolOf_eq_nil, PlannedDataset.scan, TextScan.spool]
  have hpresent := textPresent_of_mem ht hd htext.1 htext.2
  simp [hpresent]

theorem RunDone.temporal (h : RunDone env P bindings run) (hpresent : P.plan.temporalPresent = true) :
    run.vault.domainKind env.passes.temporalDomainId = some .temporal ∧
      ∃ offset, offset ≠ 0 ∧ run.vault.temporalParameter (some env.passes.temporalDomainId) = some offset := by
  obtain ⟨sources, hsources, -⟩ := h.rewritten
  obtain ⟨offset, hoffset⟩ := Option.isSome_iff_exists.mp ((passTwoSources_eq_ok_iff.mp hsources).1 hpresent)
  obtain ⟨hkind, hne⟩ := h.ready.engine.temporal offset hoffset
  exact ⟨hkind, offset, hne, hoffset⟩

theorem RunDone.mappingDomainOf_shift (h : RunDone env P bindings run) (ht : t ∈ P.plan.tables) (hd : d ∈ t.transformed)
    (hnone : d.numericDomainId = none) (haction : d.action = .shiftReversible) :
    mappingDomainOf run.vault run.textDomainId (temporalDomainOf env.passes P.plan) d =
      some env.passes.temporalDomainId := by
  have hpresent := temporalPresent_of_mem ht hd hnone haction
  obtain ⟨hkind, -⟩ := h.temporal hpresent
  rw [mappingDomainOf, temporalDomainOf, if_pos hpresent]
  simp only [hnone, haction]
  rw [Option.filter_some_pos]
  rw [hkind]
  rfl

theorem action_of_numeric (ht : t ∈ P.plan.tables) (hd : d ∈ t.transformed) {domainId : Text}
    (hdomain : d.numericDomainId = some domainId) : d.action = .pseudonymizeReversible := by
  obtain ⟨stored, hbehind⟩ := PlannedDataset.exists_behind ht
  obtain ⟨field, -, hdirective, -⟩ := hbehind.exists_field hd
  rcases (fieldDirective_eq_some hdirective).2.2.2.2 with ⟨_, _, -, -, haction, -⟩ | ⟨-, -, -, hnone, -⟩
  · exact haction
  · rw [hdomain] at hnone
    cases hnone

/-- The domain of a directive is one that its action may be bound to, but for a text field without a text. -/
theorem RunDone.domainAgrees_iff (h : RunDone env P bindings run) (ht : t ∈ P.plan.tables) (hd : d ∈ t.transformed) :
    domainAgrees run.vault d.action
        (mappingDomainOf run.vault run.textDomainId (temporalDomainOf env.passes P.plan) d) = true ↔
      ¬ (d.IsText ∧ textOccurrences P.plan P.source = []) := by
  cases hdomain : d.numericDomainId with
  | some domainId =>
    have haction := action_of_numeric ht hd hdomain
    obtain ⟨r, hr, hid⟩ := PlannedDataset.exists_relation_of_numeric ht hd hdomain
    have hkind := h.numeric_registered r hr domainId hid
    simp [mappingDomainOf, hdomain, haction, domainAgrees, hkind, FieldDirective.IsText]
  | none =>
    cases haction : d.action with
    | pseudonymizeReversible =>
      have htext : d.IsText := ⟨hdomain, haction⟩
      have hnone := h.textDomainId_eq_none ht hd htext
      rw [mappingDomainOf]
      simp only [hdomain, haction, htext, true_and, ← hnone]
      cases hid : run.textDomainId with
      | none => simp [domainAgrees]
      | some domainId =>
        have hsome : run.textDomainId ≠ none := by simp [hid]
        have hglobal := h.textDomain
        rw [hid] at hglobal
        split_ifs at hglobal
        obtain rfl := Option.some.inj hglobal
        simp [domainAgrees, h.text_registered hsome]
    | shiftReversible =>
      rw [h.mappingDomainOf_shift ht hd hdomain haction]
      obtain ⟨hkind, -⟩ := h.temporal (temporalPresent_of_mem ht hd hdomain haction)
      simp [domainAgrees, hkind, FieldDirective.IsText, haction]
    | maskReversible => simp [mappingDomainOf, hdomain, haction, domainAgrees, FieldDirective.IsText]
    | keep => simp [mappingDomainOf, hdomain, haction, domainAgrees, FieldDirective.IsText]

/-- The ledger that a run leaves of one table: one row for each application field, with the field's decision. -/
structure TableLedger (env : RunEnvironment) (P : PlannedDataset) (run : EngineRun) (t : TableDirective)
    (stored : StoredTable) (tableId : Text) : Prop where
  tableId_eq : run.vault.tableId t.relativePath = some tableId
  names_perm : ((run.vault.fieldRows tableId).map FieldRow.name).Perm (stored.schema.applicationFields.map FieldInfo.name)
  decided : ∀ field ∈ stored.schema.applicationFields, ∃ row ∈ run.vault.fieldRows tableId, row.name = field.name ∧
    FieldDecided run.vault run.textDomainId (temporalDomainOf env.passes P.plan) t stored.schema field row

theorem applicationFields_nodup (hbehind : P.Behind t stored) :
    (stored.schema.applicationFields.map FieldInfo.name).Nodup :=
  (List.filter_sublist.map FieldInfo.name).nodup hbehind.names_nodup

theorem RunDone.tableLedger (h : RunDone env P bindings run) (ht : t ∈ P.plan.tables) (hbehind : P.Behind t stored) :
    ∃ tableId, TableLedger env P run t stored tableId := by
  obtain ⟨tableId, htable, hall⟩ := h.registered t ht stored hbehind.stored_eq
  have hunique := h.ready.ledger.unique
  have hrows : ∀ field ∈ stored.schema.applicationFields, ∃ row ∈ run.vault.fieldRows tableId, row.name = field.name ∧
      FieldDecided run.vault run.textDomainId (temporalDomainOf env.passes P.plan) t stored.schema field row := by
    intro field hfield
    obtain ⟨row, hrow, hcarries⟩ := hall field hfield
    rw [← find?_fieldRows] at hrow
    have hname : row.name = field.name := by simpa using List.find?_some hrow
    exact ⟨row, List.mem_of_find?_eq_some hrow, hname, fieldDecided_of_carries hbehind hfield hcarries⟩
  refine ⟨tableId, htable, ?_, hrows⟩
  rw [List.perm_ext_iff_of_nodup (hunique.fieldRows_nodup tableId) (applicationFields_nodup hbehind)]
  intro name
  constructor
  · intro hname
    obtain ⟨row, hrow, rfl⟩ := List.mem_map.mp hname
    exact h.ready.ledger.names t ht stored hbehind.stored_eq tableId htable row hrow
  · intro hname
    obtain ⟨field, hfield, rfl⟩ := List.mem_map.mp hname
    obtain ⟨row, hrow, hsame, -⟩ := hrows field hfield
    exact hsame ▸ List.mem_map_of_mem hrow

theorem TableLedger.exists_field (hledger : TableLedger env P run t stored tableId)
    (hnodup : ((run.vault.fieldRows tableId).map FieldRow.name).Nodup) (hrow : row ∈ run.vault.fieldRows tableId) :
    ∃ field ∈ stored.schema.applicationFields, row.name = field.name ∧
      FieldDecided run.vault run.textDomainId (temporalDomainOf env.passes P.plan) t stored.schema field row := by
  have hname := hledger.names_perm.subset (List.mem_map_of_mem hrow)
  obtain ⟨field, hfield, hsame⟩ := List.mem_map.mp hname
  obtain ⟨other, hother, hotherName, hdecided⟩ := hledger.decided field hfield
  have hequal := List.inj_on_of_nodup_map hnodup hother hrow (hotherName.trans hsame)
  exact ⟨field, hfield, hsame.symm, hequal ▸ hdecided⟩

/-- The verification keeps every row, and finds nothing but text fields of a dataset without texts. -/
theorem RunDone.verifyFieldLedger_eq (h : RunDone env P bindings run) (ht : t ∈ P.plan.tables)
    (hbehind : P.Behind t stored) (hledger : TableLedger env P run t stored tableId) :
    (verifyFieldLedger stored.schema run.vault (run.vault.fieldRows tableId)).1 = run.vault.fieldRows tableId ∧
      ((verifyFieldLedger stored.schema run.vault (run.vault.fieldRows tableId)).2 = [] ↔ ¬ TextUnobserved P t) := by
  have hnodup := h.ready.ledger.unique.fieldRows_nodup tableId
  have hnames : ∀ field ∈ stored.schema.applicationFields,
      field.name ∈ (run.vault.fieldRows tableId).map FieldRow.name :=
    fun field hfield => hledger.names_perm.symm.subset (List.mem_map_of_mem hfield)
  have hfindings : ∀ row ∈ run.vault.fieldRows tableId, ledgerRowFindings stored.schema run.vault row = [] ↔
      ∀ d ∈ t.transformed, d.fieldName = row.name → ¬ (d.IsText ∧ textOccurrences P.plan P.source = []) := by
    intro row hrow
    obtain ⟨field, hfield, hname, hdecided⟩ := hledger.exists_field hnodup hrow
    unfold ledgerRowFindings
    rw [hname, ledgerFacts_of_mem hbehind.names_nodup hfield]
    dsimp only
    rw [List.append_eq_nil_iff, failWhen_eq_nil, not_not]
    rcases hdecided.decision with ⟨d, hd, hsame, haction, hdomain⟩ | ⟨hkept, haction, hdomain⟩
    · rw [haction, hdomain]
      dsimp only
      rw [failWhen_eq_nil, Bool.not_eq_false, h.domainAgrees_iff ht hd]
      constructor
      · intro hclean other hother hotherName
        have hequal := List.inj_on_of_nodup_map hbehind.transformed_nodup hother hd (hotherName.trans hsame.symm)
        rw [hequal]
        exact hclean.2
      · intro hclean
        exact ⟨hdecided.facts_eq, hclean d hd hsame⟩
    · rw [haction, hdomain]
      constructor
      · intro _ d hd hsame
        exact absurd (hsame ▸ List.mem_map_of_mem hd) hkept
      · intro _
        exact ⟨hdecided.facts_eq, by simp [domainAgrees]⟩
  rw [verifyFieldLedger_of_nodup hnodup hnames]
  refine ⟨rfl, ?_⟩
  dsimp only
  rw [List.flatMap_eq_nil_iff]
  constructor
  · intro hclean hmissing
    obtain ⟨⟨d, hd, htext⟩, hnone⟩ := hmissing
    obtain ⟨field, hfield, -, hsame⟩ := hbehind.exists_field hd
    obtain ⟨row, hrow, hname, -⟩ := hledger.decided field hfield
    exact (hfindings row hrow).mp (hclean row hrow) d hd (hsame.trans hname.symm) ⟨htext, hnone⟩
  · intro hobserved row hrow
    rw [hfindings row hrow]
    intro d hd _ hmissing
    exact hobserved ⟨⟨d, hd, hmissing.1⟩, hmissing.2⟩

/-- A returning run leaves a vault from which the next one can start, with one ledger row for each application field
of each table; the verification's ledger check passes a table unless it has a text field to replace and the dataset
has no text at all. -/
theorem engineRun_ledger {P : NormalDataset} {vault : VaultState}
    (hdistinct : DistinctDomains P.plan env.passes.temporalDomainId) (hready : RunVault env.passes P vault)
    (h : engineRun env P.plan P.source vault = some (.ok run)) :
    RunVault env.passes P run.vault ∧ ∀ t ∈ P.plan.tables, ∀ stored, P.source.table t.relativePath = some stored →
      ∃ tableId, TableLedger env P run t stored tableId ∧
        ((verifyFieldLedger stored.schema run.vault (run.vault.fieldRows tableId)).2 = [] ↔ ¬ TextUnobserved P t) := by
  obtain ⟨bindings, hdone⟩ := engineRun_done hdistinct hready h
  refine ⟨hdone.ready, ?_⟩
  intro t ht stored hstored
  obtain ⟨other, hbehind⟩ := PlannedDataset.exists_behind ht
  obtain rfl := Option.some.inj (hstored.symm.trans hbehind.stored_eq)
  obtain ⟨tableId, hledger⟩ := hdone.tableLedger ht hbehind
  exact ⟨tableId, hledger, (hdone.verifyFieldLedger_eq ht hbehind hledger).2⟩

end Run

section Blank

def blankField : FieldInfo := { keyField 'C' 10 with name := ['N', 'A', 'M', 'E'] }

def blankTables : List (Text × TableSchema) := [(parentPath, keyTable [blankField])]

def blankSource : DatasetFiles where
  fingerprint := []
  paths := [parentPath]
  sha256 := fun _ => none
  table := fun path => if path = parentPath then
    some ⟨keyTable [blankField], [datedRecord 0 false .null .null, ⟨1, false, fun _ => .text []⟩]⟩ else none

theorem positioned_pair {a b : DirectRecord} (ha : a.physicalIndex = 0) (hb : b.physicalIndex = 1) :
    Positioned [a, b] := by
  intro i hi
  match i with
  | 0 => exact ha
  | 1 => exact hb

def blankNames : PresentedDataset where
  policy := defaultPolicy
  hashing := plainHashing
  document := none
  tables := blankTables
  plan := (buildEnginePlan defaultPolicy plainHashing none blankTables).toOption.get rfl
  source := blankSource
  built := rfl
  readable := by
    intro t ht
    rw [List.mem_singleton.mp ht]
    exact ⟨_, rfl, rfl⟩
  names_nodup := by decide
  few := by decide +kernel
  normal := by decide +kernel
  paths_nodup := by decide +kernel
  positioned := by
    intro path stored hstored
    change (if path = parentPath then _ else none) = some stored at hstored
    split_ifs at hstored
    rw [← Option.some.inj hstored]
    exact positioned_pair rfl rfl

def datedRun : RunEnvironment := ⟨datedEnvironment, id, .sound, .sound, fun _ => [], 0⟩

theorem blankNames_distinct : DistinctDomains blankNames.plan datedEnvironment.temporalDomainId where
  numeric_unique := by
    have hnone : blankNames.plan.relations = [] := rfl
    simp [hnone]
  numeric_ne_text := by decide +kernel
  numeric_ne_temporal := by decide +kernel
  temporal_ne_text := by decide

/-- The run returns, and the verification refuses its ledger. -/
theorem blankNames_ledger : ∃ run, engineRun datedRun blankNames.plan blankNames.source .empty = some (.ok run) ∧
    ∃ tableId, run.vault.tableId parentPath = some tableId ∧
      (verifyFieldLedger (keyTable [blankField]) run.vault (run.vault.fieldRows tableId)).2 ≠ [] := by
  obtain ⟨run, hrun⟩ : ∃ run, engineRun datedRun blankNames.plan blankNames.source .empty = some (.ok run) := ⟨_, rfl⟩
  obtain ⟨-, htables⟩ := engineRun_ledger (P := blankNames) blankNames_distinct
    (runVault_empty datedEnvironment blankNames) hrun
  have hplanned : ∃ t ∈ blankNames.plan.tables, t.relativePath = parentPath ∧
      ∃ d ∈ t.transformed, d.numericDomainId = none ∧ d.action = .pseudonymizeReversible := by
    decide +kernel
  obtain ⟨t, ht, hpath, d, hd, htext⟩ := hplanned
  obtain ⟨tableId, hledger, hclean⟩ := htables t ht _ (by rw [hpath]; rfl)
  refine ⟨run, hrun, tableId, hpath ▸ hledger.tableId_eq, ?_⟩
  intro hnil
  exact hclean.mp hnil ⟨⟨d, hd, htext⟩, rfl⟩

end Blank
end DbfAnonymizer.Engine
