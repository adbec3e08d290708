import DbfAnonymizer.Engine.PassOneComplete
import DbfAnonymizer.Engine.PassTwoRun

/-! What pass two writes for every field of every record, and exactly when it writes all of them. -/
namespace DbfAnonymizer.Engine
open Transforms Vault Lib Verification

section Values
variable {sources : PassTwoSources} {d : FieldDirective} {directives : List FieldDirective} {values values' : Values}

/-- Directives of distinct names each write the image of the original value, and nothing else is written. -/
theorem transformValues_eq_ok_iff (hnodup : (directives.map FieldDirective.fieldName).Nodup) :
    transformValues sources directives values = .ok values' ↔
      (∀ d ∈ directives, transformField sources d (values d.fieldName) = .ok (values' d.fieldName)) ∧
        ∀ name, name ∉ directives.map FieldDirective.fieldName → values' name = values name := by
  induction directives generalizing values with
  | nil =>
    rw [transformValues, List.foldlM_nil, pure_eq_ok, Except.ok.injEq]
    constructor
    · intro h
      simp [h]
    · intro h
      funext name
      exact (h.2 name (by simp)).symm
  | cons d directives ih =>
    rw [List.map_cons, List.nodup_cons] at hnodup
    obtain ⟨hfirst, hrest⟩ := hnodup
    unfold transformValues at ih ⊢
    rw [List.foldlM_cons]
    have hother : ∀ (value : Value), ∀ e ∈ directives,
        Function.update values d.fieldName value e.fieldName = values e.fieldName := by
      intro value e he
      apply Function.update_of_ne
      intro heq
      exact hfirst (heq ▸ List.mem_map_of_mem he)
    cases hone : transformField sources d (values d.fieldName) with
    | error e =>
      constructor
      · intro h
        cases h
      · intro h
        rw [h.1 d (by simp)] at hone
        cases hone
    | ok value =>
      rw [ok_bind, pure_eq_ok, ok_bind, ih hrest]
      constructor
      · intro h
        obtain ⟨htransformed, hkept⟩ := h
        have hvalue : values' d.fieldName = value := by
          rw [hkept _ hfirst, Function.update_self]
        refine ⟨?_, ?_⟩
        · intro e he
          rcases List.mem_cons.mp he with rfl | he
          · rw [hone, hvalue]
          · rw [← hother value e he]
            exact htransformed e he
        · intro name hname
          rw [List.map_cons, List.mem_cons, not_or] at hname
          rw [hkept name hname.2, Function.update_of_ne hname.1]
      · intro h
        obtain ⟨htransformed, hkept⟩ := h
        have hvalue : values' d.fieldName = value := by
          have heq := htransformed d (by simp)
          rw [hone, Except.ok.injEq] at heq
          exact heq.symm
        refine ⟨?_, ?_⟩
        · intro e he
          rw [hother value e he]
          exact htransformed e (by simp [he])
        · intro name hname
          by_cases heq : name = d.fieldName
          · rw [heq, Function.update_self, hvalue]
          · rw [Function.update_of_ne heq]
            exact hkept name (by simp [heq, hname])

theorem withoutSystemFields_application {schema : TableSchema} (hnodup : (schema.fields.map FieldInfo.name).Nodup)
    {field : FieldInfo} (hfield : field ∈ schema.applicationFields) (values : Values) :
    withoutSystemFields schema values field.name = values field.name := by
  unfold withoutSystemFields
  rw [if_neg]
  intro hmem
  obtain ⟨other, hother, hname⟩ := List.mem_map.mp hmem
  obtain ⟨hother, hsystem⟩ := List.mem_filter.mp hother
  obtain ⟨hfield, happlication⟩ := List.mem_filter.mp hfield
  have hsame := List.inj_on_of_nodup_map hnodup hother hfield hname
  rw [hsame] at hsystem
  simp [hsystem] at happlication

end Values

/-- One record behind pass two: its place and its marker as they were, each transformed field the image of its
original, every other application field as it was. -/
structure RecordWritten (sources : PassTwoSources) (t : TableDirective) (schema : TableSchema)
    (record out : DirectRecord) : Prop where
  physicalIndex_eq : out.physicalIndex = record.physicalIndex
  deleted_eq : out.deleted = record.deleted
  transformed : ∀ d ∈ t.transformed,
    transformField sources d (record.values d.fieldName) = .ok (out.values d.fieldName)
  kept : ∀ name, name ∉ t.transformed.map FieldDirective.fieldName →
    out.values name = withoutSystemFields schema record.values name

section Records
variable {P : PlannedDataset} {sources : PassTwoSources} {t : TableDirective} {stored : StoredTable}
  {record out : DirectRecord}

theorem transformRecord_eq_ok_iff (hbehind : P.Behind t stored) :
    transformRecord sources stored.schema t record = .ok out ↔ RecordWritten sources t stored.schema record out := by
  have hvalue : ∀ d ∈ t.transformed,
      withoutSystemFields stored.schema record.values d.fieldName = record.values d.fieldName := by
    intro d hd
    obtain ⟨field, hfield, -, hname⟩ := hbehind.exists_field hd
    rw [hname]
    exact withoutSystemFields_application hbehind.names_nodup hfield record.values
  have hexact : ∀ values', transformValues sources t.transformed (withoutSystemFields stored.schema record.values) =
      .ok values' ↔ (∀ d ∈ t.transformed, transformField sources d (record.values d.fieldName) = .ok (values' d.fieldName)) ∧
        ∀ name, name ∉ t.transformed.map FieldDirective.fieldName →
          values' name = withoutSystemFields stored.schema record.values name := by
    intro values'
    rw [transformValues_eq_ok_iff hbehind.transformed_nodup]
    constructor
    · intro h
      exact ⟨fun d hd => by rw [← hvalue d hd]; exact h.1 d hd, h.2⟩
    · intro h
      exact ⟨fun d hd => by rw [hvalue d hd]; exact h.1 d hd, h.2⟩
  unfold transformRecord
  constructor
  · intro h
    obtain ⟨values', hvalues, h⟩ := bind_eq_ok.mp h
    cases h
    obtain ⟨htransformed, hkept⟩ := (hexact values').mp hvalues
    exact ⟨rfl, rfl, htransformed, hkept⟩
  · intro h
    rw [(hexact out.values).mpr ⟨h.transformed, h.kept⟩, ok_bind, pure_eq_ok, Except.ok.injEq]
    cases out
    rw [DirectRecord.mk.injEq]
    exact ⟨h.physicalIndex_eq.symm, h.deleted_eq.symm, rfl⟩

theorem exists_recordWritten (hbehind : P.Behind t stored)
    (h : ∀ d ∈ t.transformed, ∃ value, transformField sources d (record.values d.fieldName) = .ok value) :
    ∃ out, RecordWritten sources t stored.schema record out := by
  choose image himage using h
  let values' : Values := fun name =>
    match t.transformed.attach.find? (·.1.fieldName = name) with
    | some d => image d.1 d.2
    | none => withoutSystemFields stored.schema record.values name
  refine ⟨{ record with values := values' }, rfl, rfl, ?_, ?_⟩
  · intro d hd
    have hfound : t.transformed.attach.find? (·.1.fieldName = d.fieldName) = some ⟨d, hd⟩ := by
      cases hfind : t.transformed.attach.find? (·.1.fieldName = d.fieldName) with
      | none =>
        have hnone := List.find?_eq_none.mp hfind ⟨d, hd⟩ (List.mem_attach _ _)
        simp at hnone
      | some found =>
        have hname : found.1.fieldName = d.fieldName := by simpa using List.find?_some hfind
        have hsame := List.inj_on_of_nodup_map hbehind.transformed_nodup found.2 hd hname
        rw [Option.some.injEq, Subtype.ext_iff]
        exact hsame
    change transformField sources d (record.values d.fieldName) = .ok (values' d.fieldName)
    simp only [values', hfound]
    exact himage d hd
  · intro name hname
    have hnone : t.transformed.attach.find? (·.1.fieldName = name) = none := by
      rw [List.find?_eq_none]
      intro found _ hfound
      rw [decide_eq_true_eq] at hfound
      exact hname (hfound ▸ List.mem_map_of_mem found.2)
    simp only [values', hnone]

end Records

/-- The sources of pass two: the offset is read only where the plan shifts a field, and then it must be there. -/
theorem passTwoSources_eq_ok_iff {plan : EnginePlan} {vault : VaultState} {temporalDomainId : Text}
    {textDomainId : Option Text} {render : Value → Text} {sources : PassTwoSources} :
    passTwoSources plan vault temporalDomainId textDomainId render = .ok sources ↔
      (plan.temporalPresent = true → (vault.temporalParameter (some temporalDomainId)).isSome = true) ∧
        sources = ⟨vault, if plan.textPresent then textDomainId else none,
          if plan.temporalPresent then vault.temporalParameter (some temporalDomainId) else none, render⟩ := by
  unfold passTwoSources persistedTemporalOffset
  cases hpresent : plan.temporalPresent with
  | false =>
    constructor
    · intro h
      cases h
      exact ⟨fun hfalse => absurd hfalse Bool.false_ne_true, rfl⟩
    · intro h
      rw [h.2]
      rfl
  | true =>
    cases vault.temporalParameter (some temporalDomainId) with
    | none =>
      constructor
      · intro h
        cases h
      · intro h
        exact absurd (h.1 rfl) Bool.false_ne_true
    | some offset =>
      constructor
      · intro h
        cases h
        exact ⟨fun _ => rfl, rfl⟩
      · intro h
        rw [h.2]
        rfl

section Fields
variable {env : PassOneEnvironment} {P : PlannedDataset} {vault : VaultState} {textDomainId : Option Text}
  {render : Value → Text} {sources : PassTwoSources} {t : TableDirective} {d : FieldDirective} {record : DirectRecord}

theorem exists_transformField (ht : t ∈ P.plan.tables) (hd : d ∈ t.transformed)
    (hsources : passTwoSources P.plan vault env.temporalDomainId textDomainId render = .ok sources)
    (hmapped : FieldMapped env t.relativePath record d textDomainId vault) :
    ∃ value, transformField sources d (record.values d.fieldName) = .ok value := by
  obtain ⟨hoffset, rfl⟩ := passTwoSources_eq_ok_iff.mp hsources
  unfold FieldMapped at hmapped
  unfold transformField
  dsimp only at hmapped ⊢
  cases hdomain : d.numericDomainId with
  | some domainId =>
    simp only [hdomain] at hmapped
    rcases hmapped with hnull | ⟨n, p, hn, hp, -⟩
    · rw [hnull]
      exact ⟨.null, rfl⟩
    · rw [hn]
      dsimp only
      rw [hp]
      exact ⟨.int p, rfl⟩
  | none =>
    simp only [hdomain] at hmapped
    dsimp only
    cases haction : d.action with
    | pseudonymizeReversible =>
      simp only [haction] at hmapped
      dsimp only
      rcases hmapped with hempty | ⟨text, p, htext, hid, hp, -⟩
      · rw [if_pos hempty]
        exact ⟨_, rfl⟩
      · by_cases hempty : (record.values d.fieldName).isNullOrEmpty = true
        · rw [if_pos hempty]
          exact ⟨_, rfl⟩
        · rw [if_neg hempty, if_pos (textPresent_of_mem ht hd hdomain haction), hid, htext]
          dsimp only [PassTwoSources.str]
          rw [hp]
          exact ⟨.text p, rfl⟩
    | shiftReversible =>
      simp only [haction] at hmapped
      have hpresent := temporalPresent_of_mem ht hd hdomain haction
      obtain ⟨offset, hsome⟩ := Option.isSome_iff_exists.mp (hoffset hpresent)
      rw [if_pos hpresent, hsome]
      rcases hmapped with hnull | ⟨other, value, -, hother, hshift⟩
      · rw [hnull]
        exact ⟨.null, rfl⟩
      · rw [hsome, Option.some.injEq] at hother
        exact ⟨value, hother ▸ hshift⟩
    | maskReversible =>
      simp only [haction] at hmapped
      obtain ⟨-, -, mask, -, hmask, -⟩ := hmapped
      exact ⟨mask, hmask⟩
    | keep => exact ⟨_, rfl⟩

theorem exists_keyComponent_of_transformField {value value' : Value} {c : Option KeyComponent}
    (h : transformField sources d value = .ok value') (hkey : keyComponent value = .ok c) :
    ∃ c', keyComponent value' = .ok c' := by
  unfold transformField at h
  cases hdomain : d.numericDomainId with
  | some domainId =>
    simp only [hdomain] at h
    cases value with
    | null =>
      cases h
      exact ⟨_, rfl⟩
    | int n =>
      dsimp only at h
      cases hp : sources.vault.numericPseudonym domainId n with
      | none => simp [hp] at h
      | some p =>
        simp only [hp, Except.ok.injEq] at h
        exact ⟨some (.int p), h ▸ rfl⟩
    | _ => cases h
  | none =>
    simp only [hdomain] at h
    cases haction : d.action with
    | pseudonymizeReversible =>
      simp only [haction] at h
      split_ifs at h
      · cases h
        exact ⟨c, hkey⟩
      · cases hid : sources.textDomainId with
        | none => simp [hid] at h
        | some domainId =>
          simp only [hid] at h
          cases hp : sources.vault.textPseudonym domainId (sources.str value) with
          | none => simp [hp] at h
          | some p =>
            simp only [hp, Except.ok.injEq] at h
            exact ⟨some (.text p), h ▸ rfl⟩
    | shiftReversible =>
      simp only [haction] at h
      cases hoffset : sources.temporalOffset with
      | none => simp [hoffset] at h
      | some offset =>
        simp only [hoffset] at h
        cases value with
        | null =>
          cases h
          exact ⟨_, rfl⟩
        | date day => cases hkey
        | datetime day time => cases hkey
        | _ => cases h
    | maskReversible =>
      simp only [haction, maskMemoValue] at h
      cases value with
      | null =>
        dsimp only at h
        split_ifs at h
        cases h
        exact ⟨_, rfl⟩
      | text text =>
        dsimp only at h
        split_ifs at h
        cases h
        exact ⟨_, rfl⟩
      | int n =>
        dsimp only at h
        split_ifs at h
        cases h
      | _ => cases hkey
    | keep =>
      simp only [haction] at h
      cases h
      exact ⟨c, hkey⟩

end Fields

section Relations
variable {env : PassOneEnvironment} {P : PlannedDataset} {vault : VaultState} {st : PassOneState}
  {sources : PassTwoSources} {t : TableDirective} {stored : StoredTable} {record out : DirectRecord}

theorem PlannedDataset.relationFields_eq (ht : t ∈ P.plan.tables) :
    t.relationFields = relationFieldsOf P.plan.relations t.relativePath := by
  have hbuilt := P.built
  unfold buildEnginePlan at hbuilt
  obtain ⟨directives, -, hbuilt⟩ := bind_eq_ok.mp hbuilt
  obtain ⟨relations, -, hbuilt⟩ := bind_eq_ok.mp hbuilt
  rw [← Except.ok.inj hbuilt] at ht ⊢
  obtain ⟨directive, -, rfl⟩ := List.mem_map.mp ht
  rfl

theorem project_relationFields (ht : t ∈ P.plan.tables) {s : ObservedSide}
    (hs : s ∈ observedSides P.plan.relations t.relativePath) {field : Text} (hfield : field ∈ s.fields)
    (values : Values) : values.project (projectionFields t) field = values field := by
  have hmem : field ∈ t.relationFields := by
    rw [PlannedDataset.relationFields_eq ht, relationFieldsOf, List.mem_insertionSort, List.mem_dedup, List.mem_flatMap]
    obtain ⟨r, hr, role, htable, rfl⟩ := mem_observedSides.mp hs
    refine ⟨r, hr, List.mem_append.mpr ?_⟩
    cases role with
    | parent => exact Or.inl (by rw [if_pos (show r.parentTable = t.relativePath from htable)]; exact hfield)
    | foreign => exact Or.inr (by rw [if_pos (show r.foreignTable = t.relativePath from htable)]; exact hfield)
  have hname : field ∈ (t.transformed.map FieldDirective.fieldName ++ t.relationFields).dedup := by
    rw [List.mem_dedup, List.mem_append]
    exact Or.inr hmem
  unfold projectionFields
  dsimp only
  rw [if_neg (List.ne_nil_of_mem hname)]
  exact Values.project_some ((List.mem_insertionSort _).mpr hname)

/-- A side is observed exactly when each of its fields holds what can be part of a key. -/
theorem exists_observeSide_iff {side : EvidenceSide} {relationId : Text} {role : SideRole} {fields : List Text}
    {values : Values} : (∃ o, observeSide side relationId role fields values = .ok o) ↔
      ∀ field ∈ fields, ∃ c, keyComponent (values field) = .ok c := by
  constructor
  · intro h field hfield
    obtain ⟨o, h⟩ := h
    obtain ⟨components, hcomponents, -⟩ := bind_eq_ok.mp h
    obtain ⟨c, -, hc⟩ := exists_of_mapM_ok hcomponents hfield
    exact ⟨c, hc⟩
  · intro h
    obtain ⟨components, hcomponents⟩ := exists_mapM_ok h
    exact ⟨_, by rw [observeSide, hcomponents]; rfl⟩

theorem keyComponent_of_runPassOne (h : runPassOne env P.plan P.source vault = .ok st) (ht : t ∈ P.plan.tables)
    (hstored : P.source.table t.relativePath = some stored) (hrecord : record ∈ stored.records) {s : ObservedSide}
    (hs : s ∈ observedSides P.plan.relations t.relativePath) :
    ∀ field ∈ s.fields, ∃ c, keyComponent (record.values field) = .ok c := by
  obtain ⟨before, after, hscan⟩ := exists_step_of_foldlM h ht
  obtain ⟨table, scanned, htable, hscanned, -⟩ := scanTable_eq_ok hscan
  obtain rfl := Option.some.inj (hstored.symm.trans htable)
  obtain ⟨before, after, hobserve⟩ := exists_step_of_foldlM hscanned (List.mem_map_of_mem hrecord)
  obtain ⟨fields, observations, -, hobservations, -⟩ := observeRecord_eq_ok hobserve
  obtain ⟨o, -, ho⟩ := exists_of_mapM_ok hobservations hs
  intro field hfield
  obtain ⟨c, hc⟩ := exists_observeSide_iff.mp ⟨o, ho⟩ field hfield
  dsimp only at hc
  rw [project_relationFields ht hs hfield] at hc
  exact ⟨c, hc⟩

theorem exists_observeRelations (hwritten : RecordWritten sources t stored.schema record out)
    (hbefore : ∀ s ∈ observedSides P.plan.relations t.relativePath, ∀ field ∈ s.fields,
      ∃ c, keyComponent (record.values field) = .ok c) :
    ∃ observations, observeRelations .after P.plan.relations t.relativePath out.values = .ok observations := by
  apply exists_mapM_ok
  intro s hs
  apply exists_observeSide_iff.mpr
  intro field hfield
  obtain ⟨c, hc⟩ := hbefore s hs field hfield
  by_cases hname : field ∈ t.transformed.map FieldDirective.fieldName
  · obtain ⟨d, hd, rfl⟩ := List.mem_map.mp hname
    exact exists_keyComponent_of_transformField (hwritten.transformed d hd) hc
  · rw [hwritten.kept field hname]
    unfold withoutSystemFields
    split_ifs
    · exact ⟨none, rfl⟩
    · exact ⟨c, hc⟩

end Relations

/-- One table behind pass two: every record of the source once, in its place. -/
def TableRewritten (P : PlannedDataset) (sources : PassTwoSources) (t : TableDirective) (written : TableWritten) : Prop :=
  written.relativePath = t.relativePath ∧ ∃ stored, P.source.table t.relativePath = some stored ∧
    List.Forall₂ (RecordWritten sources t stored.schema) stored.records written.records

section PassTwo
variable {env : PassOneEnvironment} {P : PlannedDataset} {vault : VaultState} {st : PassOneState}
  {sources : PassTwoSources} {t : TableDirective} {batch : ℕ} {temporalDomainId : Text} {textDomainId : Option Text}
  {render : Value → Text} {evidence : EvidenceStore}

theorem writeTable_rewritten (ht : t ∈ P.plan.tables) {written : TableWritten}
    (h : writeTable sources P.plan.relations P.source t = .ok written) : TableRewritten P sources t written := by
  obtain ⟨stored, hbehind⟩ := PlannedDataset.exists_behind ht
  unfold writeTable at h
  rw [DatasetFiles.readTable_eq_ok.mpr hbehind.stored_eq, ok_bind] at h
  obtain ⟨outs, houts, h⟩ := bind_eq_ok.mp h
  rw [pure_eq_ok, Except.ok.injEq] at h
  subst h
  refine ⟨rfl, stored, hbehind.stored_eq, ?_⟩
  rw [List.forall₂_map_right_iff]
  refine (mapM_eq_ok_iff.mp houts).imp ?_
  intro record out hout
  obtain ⟨transformed, htransformed, hout⟩ := bind_eq_ok.mp hout
  obtain ⟨observations, -, hout⟩ := bind_eq_ok.mp hout
  cases hout
  exact (transformRecord_eq_ok_iff hbehind).mp htransformed

theorem exists_writeTable (ht : t ∈ P.plan.tables)
    (himage : ∀ stored, P.source.table t.relativePath = some stored → ∀ record ∈ stored.records, ∀ d ∈ t.transformed,
      ∃ value, transformField sources d (record.values d.fieldName) = .ok value)
    (hkey : ∀ stored, P.source.table t.relativePath = some stored → ∀ record ∈ stored.records,
      ∀ s ∈ observedSides P.plan.relations t.relativePath, ∀ field ∈ s.fields,
        ∃ c, keyComponent (record.values field) = .ok c) :
    ∃ written, writeTable sources P.plan.relations P.source t = .ok written := by
  obtain ⟨stored, hbehind⟩ := PlannedDataset.exists_behind ht
  have hstored := hbehind.stored_eq
  have hrecords : ∃ outs, stored.records.mapM (writeRecord sources P.plan.relations t stored.schema) = .ok outs := by
    apply exists_mapM_ok
    intro record hrecord
    obtain ⟨out, hout⟩ := exists_recordWritten hbehind (himage stored hstored record hrecord)
    obtain ⟨observations, hobservations⟩ := exists_observeRelations hout (hkey stored hstored record hrecord)
    refine ⟨(out, observations), ?_⟩
    rw [writeRecord, (transformRecord_eq_ok_iff hbehind).mpr hout, ok_bind, hobservations]
    rfl
  obtain ⟨outs, houts⟩ := hrecords
  exact ⟨_, by rw [writeTable, DatasetFiles.readTable_eq_ok.mpr hstored, ok_bind, houts]; rfl⟩

theorem runPassTwo_eq_ok_iff {outcome : PassOneOutcome} {spoolBytes : ℕ} {written : List TableWritten}
    {result : TwoPassResult} :
    runPassTwo batch P.plan P.source vault temporalDomainId outcome render spoolBytes evidence = .ok (written, result) ↔
      ∃ sources, passTwoSources P.plan vault temporalDomainId outcome.textDomainId render = .ok sources ∧
        P.plan.tables.mapM (writeTable sources P.plan.relations P.source) = .ok written ∧
          result = (PassTwoProgress.acceptAll batch ⟨evidence, []⟩ written).result P.plan.relations outcome spoolBytes := by
  unfold runPassTwo
  constructor
  · intro h
    obtain ⟨sources, hsources, h⟩ := bind_eq_ok.mp h
    obtain ⟨progress, hprogress, h⟩ := bind_eq_ok.mp h
    obtain ⟨all, hall, rfl⟩ := writeSequentially_eq_ok_iff.mp hprogress
    have hwritten := written_acceptAll batch ⟨evidence, []⟩ all
    rw [List.nil_append] at hwritten
    rw [pure_eq_ok, Except.ok.injEq, Prod.mk.injEq, hwritten] at h
    obtain ⟨rfl, hresult⟩ := h
    exact ⟨sources, hsources, hall, hresult.symm⟩
  · intro h
    obtain ⟨sources, hsources, hall, rfl⟩ := h
    have hwritten := written_acceptAll batch ⟨evidence, []⟩ written
    rw [List.nil_append] at hwritten
    rw [hsources, ok_bind, writeSequentially_eq_ok_iff.mpr ⟨written, hall, rfl⟩, ok_bind, pure_eq_ok, hwritten]

/-- What a returning pass two hands over has every table rewritten from the sources it asked for. -/
theorem runPassTwo_rewritten {outcome : PassOneOutcome} {spoolBytes : ℕ} {written : List TableWritten}
    {result : TwoPassResult} (h : runPassTwo batch P.plan P.source vault temporalDomainId outcome render spoolBytes evidence =
      .ok (written, result)) :
    ∃ sources, passTwoSources P.plan vault temporalDomainId outcome.textDomainId render = .ok sources ∧
      List.Forall₂ (TableRewritten P sources) P.plan.tables written := by
  obtain ⟨sources, hsources, hwritten, -⟩ := runPassTwo_eq_ok_iff.mp h
  refine ⟨sources, hsources, ?_⟩
  have hwrites := mapM_eq_ok_iff.mp hwritten
  rw [List.forall₂_iff_get] at hwrites ⊢
  exact ⟨hwrites.1, fun i hi hi' => writeTable_rewritten (List.get_mem _ _) (hwrites.2 i hi hi')⟩

/-- Behind a returning pass one, pass two returns unless the plan shifts a field, no offset was stored before and
no shifted field holds a value; what it returns has every record of every table, rewritten in its place. -/
theorem runPassTwo_completes (hdistinct : DistinctDomains P.plan env.temporalDomainId) (hinv : EngineVault env P vault)
    (h : passOne env P.plan P.source vault = some (.ok st)) (batch : ℕ) (render : Value → Text) (spoolBytes : ℕ) :
    ((∃ out, runPassTwo batch P.plan P.source st.vault env.temporalDomainId st.outcome render spoolBytes
        st.spool.evidence = .ok out) ↔
      (P.plan.temporalPresent = true → (vault.temporalParameter (some env.temporalDomainId)).isSome = true ∨
        HoldsTemporalValue P.plan P.source)) ∧
    ∀ written result, runPassTwo batch P.plan P.source st.vault env.temporalDomainId st.outcome render spoolBytes
        st.spool.evidence = .ok (written, result) →
      result.tablesWritten = P.plan.tables.map TableDirective.relativePath ∧
        result.passTwoRecordsWritten = P.source.recordTotal result.tablesWritten ∧
          ∃ sources, passTwoSources P.plan st.vault env.temporalDomainId st.outcome.textDomainId render = .ok sources ∧
            List.Forall₂ (TableRewritten P sources) P.plan.tables written := by
  have hdone := passOne_done hdistinct hinv h
  obtain ⟨scanned, -, -, hscan, -⟩ := passOne_eq_ok h
  constructor
  · constructor
    · intro hreturns hpresent
      obtain ⟨⟨written, result⟩, hrun⟩ := hreturns
      obtain ⟨sources, hsources, -⟩ := runPassTwo_eq_ok_iff.mp hrun
      exact hdone.temporal_iff.mp ((passTwoSources_eq_ok_iff.mp hsources).1 hpresent)
    · intro hoffset
      obtain ⟨sources, hsources⟩ : ∃ sources, passTwoSources P.plan st.vault env.temporalDomainId
          st.outcome.textDomainId render = .ok sources :=
        ⟨_, passTwoSources_eq_ok_iff.mpr ⟨fun hpresent => hdone.temporal_iff.mpr (hoffset hpresent), rfl⟩⟩
      have htables : ∃ written, P.plan.tables.mapM (writeTable sources P.plan.relations P.source) = .ok written := by
        apply exists_mapM_ok
        intro t ht
        obtain ⟨stored, hstored, hmapped⟩ := hdone.mapped t ht
        apply exists_writeTable ht
        · intro other hother record hrecord d hd
          obtain rfl := Option.some.inj (hstored.symm.trans hother)
          exact exists_transformField ht hd hsources (hmapped record hrecord d hd)
        · intro other hother record hrecord s hs
          exact keyComponent_of_runPassOne hscan ht hother hrecord hs
      obtain ⟨written, hwritten⟩ := htables
      exact ⟨(written, _), runPassTwo_eq_ok_iff.mpr ⟨sources, hsources, hwritten, rfl⟩⟩
  · intro written result hrun
    obtain ⟨sources, hsources, hall⟩ := runPassTwo_rewritten hrun
    obtain ⟨-, -, -, rfl⟩ := runPassTwo_eq_ok_iff.mp hrun
    have hpaths : written.map TableWritten.relativePath = P.plan.tables.map TableDirective.relativePath := by
      clear hrun
      generalize P.plan.tables = tables at hall
      induction hall with
      | nil => rfl
      | cons hhead _ ih => rw [List.map_cons, List.map_cons, hhead.1, ih]
    have hcounts : (written.map fun t => t.records.length).sum =
        P.source.recordTotal (P.plan.tables.map TableDirective.relativePath) := by
      unfold DatasetFiles.recordTotal
      clear hrun hpaths
      generalize P.plan.tables = tables at hall
      induction hall with
      | nil => rfl
      | cons hhead _ ih =>
        obtain ⟨-, stored, hstored, hrecords⟩ := hhead
        rw [List.map_cons, List.sum_cons, ih, List.map_cons, List.map_cons, List.sum_cons,
          DatasetFiles.recordsOf_eq hstored, hrecords.length_eq]
    refine ⟨?_, ?_, sources, hsources, hall⟩
    · exact (result_acceptAll ..).1.trans hpaths
    · rw [(result_acceptAll ..).2, (result_acceptAll ..).1, hpaths]
      exact hcounts

end PassTwo

section Dated

def dayField : FieldInfo := { keyField 'D' 8 with name := ['D', 'A', 'Y'] }

/-- The orders of two related tables, the parent's with their day. -/
def datedTables : List (Text × TableSchema) :=
  [(parentPath, keyTable [keyField 'I' 4, dayField]), (childPath, keyTable [keyField 'I' 4])]

def datedRecord (physicalIndex : ℕ) (deleted : Bool) (key day : Value) : DirectRecord where
  physicalIndex
  deleted
  values := fun name => if name = ['I', 'D'] then key else if name = ['D', 'A', 'Y'] then day else .null

def datedSource : DatasetFiles where
  fingerprint := []
  paths := [parentPath, childPath]
  sha256 := fun _ => none
  table := fun path =>
    if path = parentPath then some ⟨keyTable [keyField 'I' 4, dayField],
      [datedRecord 0 false (.int 1) (.date ⟨738000, by decide, by decide⟩), datedRecord 1 true (.int 2) .null]⟩
    else if path = childPath then some ⟨keyTable [keyField 'I' 4],
      [datedRecord 0 false (.int 1) .null, datedRecord 1 false .null .null]⟩
    else none

def datedEnvironment : PassOneEnvironment where
  codecs := singleByteCodecs
  textRng := default
  numericRng := fun _ => default
  temporalRandomBelow := fun _ => 0
  temporalDomainId := ['t', 'd']
  memoUnit := fun _ => .sound
  temporalUnit := .sound
  memoBindings := []
  batch := 2

def datedOrders : PlannedDataset where
  policy := defaultPolicy
  hashing := plainHashing
  document := some sameTypeOrders.document
  tables := datedTables
  plan := (buildEnginePlan defaultPolicy plainHashing (some sameTypeOrders.document) datedTables).toOption.get rfl
  source := datedSource
  built := rfl
  readable := by
    intro t ht
    rcases List.mem_pair.mp ht with rfl | rfl
    · exact ⟨_, rfl, rfl⟩
    · exact ⟨_, rfl, rfl⟩
  names_nodup := by decide
  few := by decide +kernel

theorem datedOrders_distinct : DistinctDomains datedOrders.plan datedEnvironment.temporalDomainId where
  numeric_unique := by
    intro r hr r' hr'
    rw [List.mem_singleton.mp hr, List.mem_singleton.mp hr']
    exact fun _ _ _ => rfl
  numeric_ne_text := by decide +kernel
  numeric_ne_temporal := by decide +kernel
  temporal_ne_text := by decide

theorem datedOrders_completes : ∃ st, passOne datedEnvironment datedOrders.plan datedOrders.source .empty = some (.ok st) ∧
    ∃ out, runPassTwo 2 datedOrders.plan datedOrders.source st.vault ['t', 'd'] st.outcome (fun _ => []) 0
      st.spool.evidence = .ok out := by
  obtain ⟨st, hst⟩ : ∃ st, passOne datedEnvironment datedOrders.plan datedOrders.source .empty = some (.ok st) := ⟨_, rfl⟩
  refine ⟨st, hst, ?_⟩
  have hcompletes := runPassTwo_completes datedOrders_distinct (engineVault_empty datedEnvironment datedOrders) hst 2
    (fun _ => []) 0
  apply hcompletes.1.mpr
  intro _
  have hparent : ∃ t ∈ datedOrders.plan.tables, t.relativePath = parentPath ∧
      ∃ d ∈ t.transformed, d.fieldName = ['D', 'A', 'Y'] ∧ d.numericDomainId = none ∧ d.action = .shiftReversible := by
    decide +kernel
  obtain ⟨t, ht, hpath, d, hd, hname, hnone, haction⟩ := hparent
  refine Or.inr ⟨t, ht, _, by rw [hpath]; rfl, _, List.mem_cons_self, d, hd, hnone, haction, ?_⟩
  rw [hname]
  exact Value.noConfusion

end Dated
end DbfAnonymizer.Engine
