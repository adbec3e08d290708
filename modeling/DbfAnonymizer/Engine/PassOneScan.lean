import DbfAnonymizer.Engine.PassOne
import DbfAnonymizer.Engine.PlannedDataset
import DbfAnonymizer.Lib.Growth
import DbfAnonymizer.Vault.Growth

/-! What a returning scan has spooled and stored for every transformed field it visited. -/
namespace DbfAnonymizer.Engine
open Transforms Vault Lib Verification

/-- Whether the extrema that a domain retains bound a day. -/
def covers (domain : TemporalShiftDomain) (day : ℤ) : Prop :=
  ∃ low, domain.minOrdinal = some low ∧ low ≤ day ∧ day ≤ domain.maxOrdinal

/-- Along a scan nothing leaves the spool, the extrema only widen, and the vault gains recovery rows. -/
structure PassOneState.Grows (a b : PassOneState) : Prop where
  text : ∀ t ∈ a.spool.text.observations.keys, t ∈ b.spool.text.observations.keys
  encodings : a.spool.text.encodings ⊆ b.spool.text.encodings
  numeric : ∀ domainId, (a.spool.numeric domainId).rows ⊆ (b.spool.numeric domainId).rows
  temporal_none : a.temporalDomain = none → b.temporalDomain = none
  temporal : ∀ domain, a.temporalDomain = some domain → ∃ domain', b.temporalDomain = some domain' ∧
    domain'.domainId = domain.domainId ∧ ∀ day, covers domain day → covers domain' day
  vault : ∃ added, b.vault = { a.vault with memoRecovery := a.vault.memoRecovery ++ added }

instance : Preorder PassOneState where
  le := PassOneState.Grows
  le_refl a :=
    { text := fun _ h => h
      encodings := List.Subset.refl _
      numeric := fun _ => List.Subset.refl _
      temporal_none := fun h => h
      temporal := fun domain h => ⟨domain, h, rfl, fun _ h => h⟩
      vault := ⟨[], by simp⟩ }
  le_trans a b c h h' :=
    { text := fun t ht => h'.text t (h.text t ht)
      encodings := List.Subset.trans h.encodings h'.encodings
      numeric := fun d => List.Subset.trans (h.numeric d) (h'.numeric d)
      temporal_none := fun ha => h'.temporal_none (h.temporal_none ha)
      temporal := by
        intro domain ha
        obtain ⟨domain', hb, hid, hcovers⟩ := h.temporal domain ha
        obtain ⟨domain'', hc, hid', hcovers'⟩ := h'.temporal domain' hb
        exact ⟨domain'', hc, hid'.trans hid, fun day hday => hcovers' day (hcovers day hday)⟩
      vault := by
        obtain ⟨added, hb⟩ := h.vault
        obtain ⟨more, hc⟩ := h'.vault
        exact ⟨added ++ more, by rw [hc, hb, List.append_assoc]⟩ }

/-- What the scan holds of one transformed field of one record. -/
def FieldObserved (env : PassOneEnvironment) (relativePath : Text) (record : DirectRecord)
    (directive : FieldDirective) (st : PassOneState) : Prop :=
  let value := record.values directive.fieldName
  match directive.numericDomainId with
  | some domainId => value = .null ∨ ∃ n, value = .int n ∧ n ∈ (st.spool.numeric domainId).rows
  | none =>
    match directive.action with
    | .pseudonymizeReversible => value.isNullOrEmpty = true ∨ ∃ t, value = .text t ∧ t ≠ [] ∧
        t ∈ st.spool.text.observations.keys ∧ st.spool.text.encodings ≠ []
    | .shiftReversible => value = .null ∨ st.temporalDomain = none ∨ ∃ domain day, st.temporalDomain = some domain ∧
        temporalOrdinal value = .ok day ∧ covers domain day
    | .maskReversible => ∃ tableId fieldId mask, memoBinding env relativePath directive.fieldName =
          some (tableId, fieldId) ∧ maskMemoValue directive.dbfType value = .ok mask ∧
        (value = .null ∨ ∃ payload, memoPayload? value = some payload ∧ mask ≠ value ∧
          st.vault.memoRow ⟨tableId, record.physicalIndex, fieldId⟩ = some payload)
    | .keep => True

section Step
variable {env : PassOneEnvironment} {relativePath : Text} {record : DirectRecord} {directive : FieldDirective}
  {st st' : PassOneState}

theorem le_vault {a b : PassOneState} (h : a ≤ b) : a.vault ≤ b.vault := by
  obtain ⟨added, hb⟩ := PassOneState.Grows.vault h
  rw [hb]
  exact le_withMemoRecovery added

theorem FieldObserved.mono {a b : PassOneState} (h : a ≤ b) (ha : FieldObserved env relativePath record directive a) :
    FieldObserved env relativePath record directive b := by
  unfold FieldObserved at ha ⊢
  dsimp only at ha ⊢
  cases hdomain : directive.numericDomainId with
  | some domainId =>
    rw [hdomain] at ha
    rcases ha with hnull | ⟨n, hn, hmem⟩
    · exact Or.inl hnull
    · exact Or.inr ⟨n, hn, h.numeric domainId hmem⟩
  | none =>
    rw [hdomain] at ha
    dsimp only at ha ⊢
    cases haction : directive.action with
    | pseudonymizeReversible =>
      rw [haction] at ha
      rcases ha with hempty | ⟨t, ht, hne, hmem, hencodings⟩
      · exact Or.inl hempty
      · refine Or.inr ⟨t, ht, hne, h.text t hmem, fun hnil => hencodings ?_⟩
        exact List.subset_nil.mp (hnil ▸ h.encodings)
    | shiftReversible =>
      rw [haction] at ha
      rcases ha with hnull | hnone | ⟨domain, day, hsome, hday, hcovers⟩
      · exact Or.inl hnull
      · exact Or.inr (Or.inl (h.temporal_none hnone))
      · obtain ⟨domain', hsome', -, hwider⟩ := h.temporal domain hsome
        exact Or.inr (Or.inr ⟨domain', day, hsome', hday, hwider day hcovers⟩)
    | maskReversible =>
      rw [haction] at ha
      obtain ⟨tableId, fieldId, mask, hbinding, hmask, hrow⟩ := ha
      refine ⟨tableId, fieldId, mask, hbinding, hmask, ?_⟩
      rcases hrow with hnull | ⟨payload, hpayload, hne, hstored⟩
      · exact Or.inl hnull
      · exact Or.inr ⟨payload, hpayload, hne, VaultState.memoRow_mono (le_vault h) hstored⟩
    | keep => trivial

theorem observe_covers {domain domain' : TemporalShiftDomain} {value : Value} (h : domain.observe value = .ok domain') :
    domain'.domainId = domain.domainId ∧ (∀ day, covers domain day → covers domain' day) ∧
      (value = .null ∨ ∃ day, temporalOrdinal value = .ok day ∧ covers domain' day) ∧
      (value = .null → domain' = domain) := by
  rcases (TemporalShiftDomain.observe_eq_ok h).2 with ⟨hnull, rfl⟩ | ⟨day, hday, hcases⟩
  · exact ⟨rfl, fun _ h => h, Or.inl hnull, fun _ => rfl⟩
  · have hvalue : value ≠ .null := by
      intro hnull
      rw [hnull] at hday
      cases hday
    rcases hcases with ⟨hnone, rfl⟩ | ⟨low, hlow, rfl⟩
    · refine ⟨rfl, ?_, Or.inr ⟨day, hday, day, rfl, le_refl day, le_refl day⟩, fun hnull => absurd hnull hvalue⟩
      intro other hother
      obtain ⟨low, hlow, -⟩ := hother
      rw [hnone] at hlow
      cases hlow
    · refine ⟨rfl, ?_, Or.inr ⟨day, hday, min day low, rfl, min_le_left day low, le_max_left day _⟩,
        fun hnull => absurd hnull hvalue⟩
      intro other hother
      obtain ⟨low', hlow', hle, hge⟩ := hother
      obtain rfl := Option.some.inj (hlow.symm.trans hlow')
      exact ⟨min day low, rfl, (min_le_right day low).trans hle, hge.trans (le_max_right day _)⟩

theorem mem_observeText_keys {spool : TextSpool} {t x : Text} {width : ℕ} :
    x ∈ (spool.observeText t width).observations.keys ↔ x = t ∨ x ∈ spool.observations.keys :=
  KeyedTable.mem_keys_upsert

@[simp] theorem observeTextEncoding_observations (spool : TextSpool) (encoding : Text) :
    (spool.observeTextEncoding encoding).observations = spool.observations := by
  unfold TextSpool.observeTextEncoding
  split_ifs
  all_goals rfl

theorem mem_observeTextEncoding {spool : TextSpool} {encoding x : Text} :
    x ∈ (spool.observeTextEncoding encoding).encodings ↔ x = encoding ∨ x ∈ spool.encodings := by
  unfold TextSpool.observeTextEncoding
  split_ifs with hmem
  · constructor
    · exact Or.inr
    · intro h
      rcases h with rfl | h
      · exact hmem
      · exact h
  · simp [or_comm]

theorem mem_observe_rows {observations : NumericObservations} {n x : ℤ} :
    x ∈ (observations.observe n).rows ↔ x = n ∨ x ∈ observations.rows := by
  unfold NumericObservations.observe
  dsimp only
  split_ifs with hmem
  · constructor
    · exact Or.inr
    · intro h
      rcases h with rfl | h
      · exact hmem
      · exact h
  · simp [or_comm]

theorem observeText_eq_ok {value : Value} {spool spool' : TextSpool} (h : observeText directive value spool = .ok spool') :
    (value.isNullOrEmpty = true ∧ spool' = spool) ∨ ∃ t, value = .text t ∧ t ≠ [] ∧
      spool' = (spool.observeText t directive.byteWidth).observeTextEncoding directive.encoding := by
  unfold observeText at h
  split_ifs at h with hempty
  · cases h
    exact Or.inl ⟨hempty, rfl⟩
  · cases value with
    | text t =>
      cases h
      refine Or.inr ⟨t, rfl, ?_, rfl⟩
      rintro rfl
      exact hempty (by decide)
    | _ => cases h

theorem observeNumeric_eq_ok {domainId : Text} {value : Value} {numeric numeric' : Text → NumericObservations}
    (h : observeNumeric directive domainId value numeric = .ok numeric') :
    (value = .null ∧ numeric' = numeric) ∨ ∃ n, value = .int n ∧
      numeric' = Function.update numeric domainId ((numeric domainId).observe n) := by
  unfold observeNumeric at h
  cases value with
  | null =>
    cases h
    exact Or.inl ⟨rfl, rfl⟩
  | int n =>
    dsimp only at h
    split at h
    · cases h
    · split at h
      · cases h
      · cases h
      · cases h
        exact Or.inr ⟨n, rfl, rfl⟩
  | _ => cases h

theorem observeField_spec (h : observeField env relativePath record st directive = .ok st') :
    st ≤ st' ∧ FieldObserved env relativePath record directive st' := by
  unfold observeField at h
  unfold FieldObserved
  dsimp only at h ⊢
  cases hdomain : directive.numericDomainId with
  | some domainId =>
    simp only [hdomain] at h ⊢
    obtain ⟨numeric, hnumeric, h⟩ := bind_eq_ok.mp h
    cases h
    rcases observeNumeric_eq_ok hnumeric with ⟨hnull, rfl⟩ | ⟨n, hn, rfl⟩
    · exact ⟨le_refl st, Or.inl hnull⟩
    · refine ⟨{ le_refl st with numeric := ?_ }, Or.inr ⟨n, hn, ?_⟩⟩
      · intro other x hx
        by_cases hother : other = domainId
        · subst hother
          simp [mem_observe_rows, hx]
        · simp [hother, hx]
      · simp [mem_observe_rows]
  | none =>
    simp only [hdomain] at h ⊢
    cases haction : directive.action with
    | pseudonymizeReversible =>
      simp only [haction] at h ⊢
      obtain ⟨text, htext, h⟩ := bind_eq_ok.mp h
      cases h
      rcases observeText_eq_ok htext with ⟨hempty, rfl⟩ | ⟨t, ht, hne, rfl⟩
      · exact ⟨le_refl st, Or.inl hempty⟩
      · refine ⟨{ le_refl st with text := ?_, encodings := ?_ }, Or.inr ⟨t, ht, hne, ?_, ?_⟩⟩
        · intro x hx
          rw [observeTextEncoding_observations, mem_observeText_keys]
          exact Or.inr hx
        · intro x hx
          exact mem_observeTextEncoding.mpr (Or.inr hx)
        · rw [observeTextEncoding_observations, mem_observeText_keys]
          exact Or.inl rfl
        · exact List.ne_nil_of_mem (mem_observeTextEncoding.mpr (Or.inl rfl))
    | shiftReversible =>
      simp only [haction] at h ⊢
      cases htemporal : st.temporalDomain with
      | none =>
        simp only [htemporal] at h
        cases h
        exact ⟨le_refl st, Or.inr (Or.inl htemporal)⟩
      | some domain =>
        simp only [htemporal] at h
        obtain ⟨domain', hobserve, h⟩ := bind_eq_ok.mp h
        cases h
        obtain ⟨hid, hwider, hvalue, -⟩ := observe_covers hobserve
        refine ⟨{ le_refl st with temporal_none := ?_, temporal := ?_ }, ?_⟩
        · intro hnone
          rw [htemporal] at hnone
          cases hnone
        · intro other hother
          obtain rfl := Option.some.inj (htemporal.symm.trans hother)
          exact ⟨domain', rfl, hid, hwider⟩
        · rcases hvalue with hnull | ⟨day, hday, hcovers⟩
          · exact Or.inl hnull
          · exact Or.inr (Or.inr ⟨domain', day, rfl, hday, hcovers⟩)
    | maskReversible =>
      simp only [haction] at h ⊢
      split at h
      · cases h
      · next tableId fieldId hbinding =>
        split at h
        · cases h
        · next mask vault hstored =>
          cases h
          refine ⟨{ le_refl st with vault := persistMemoRecovery_frame hstored }, tableId, fieldId, mask, hbinding, ?_⟩
          obtain ⟨hmask, hcases⟩ := persistMemoRecovery_eq_ok hstored
          refine ⟨hmask, ?_⟩
          rcases hcases with ⟨hnull, -, -⟩ | ⟨payload, hpayload, hne, hunit⟩
          · exact Or.inl hnull
          · exact Or.inr ⟨payload, hpayload, hne, (storeMemo_eq_ok hunit).2.1⟩
    | keep =>
      simp only [haction] at h ⊢
      cases h
      exact ⟨le_refl st, trivial⟩

end Step

/-- The scan holds every transformed field of every record of a planned table. -/
def TableObserved (env : PassOneEnvironment) (source : DatasetFiles) (directive : TableDirective)
    (st : PassOneState) : Prop :=
  ∃ table, source.table directive.relativePath = some table ∧ ∀ record ∈ table.records,
    ∀ d ∈ directive.transformed, FieldObserved env directive.relativePath record d st

section Run
variable {env : PassOneEnvironment} {relations : List RelationDirective} {directive : TableDirective}
  {record : DirectRecord} {source : DatasetFiles} {plan : EnginePlan} {st st' : PassOneState}

theorem grows_of_eq {a b : PassOneState} (htext : b.spool.text = a.spool.text) (hnumeric : b.spool.numeric = a.spool.numeric)
    (htemporal : b.temporalDomain = a.temporalDomain) (hvault : b.vault = a.vault) : a ≤ b where
  text := by
    rw [htext]
    exact fun _ h => h
  encodings := by
    rw [htext]
    exact List.Subset.refl _
  numeric := by
    rw [hnumeric]
    exact fun _ => List.Subset.refl _
  temporal_none := by
    rw [htemporal]
    exact fun h => h
  temporal := by
    rw [htemporal]
    exact fun domain h => ⟨domain, h, rfl, fun _ h => h⟩
  vault := ⟨[], by simp [hvault]⟩

theorem project_transformed {values : Values} {d : FieldDirective} (hd : d ∈ directive.transformed) :
    values.project (projectionFields directive) d.fieldName = values d.fieldName := by
  unfold projectionFields
  have hname : d.fieldName ∈ (directive.transformed.map FieldDirective.fieldName ++ directive.relationFields).dedup := by
    rw [List.mem_dedup, List.mem_append]
    exact Or.inl (List.mem_map_of_mem hd)
  dsimp only
  rw [if_neg (List.ne_nil_of_mem hname)]
  apply Values.project_some
  exact (List.mem_insertionSort _).mpr hname

theorem fieldObserved_congr {relativePath : Text} {other : DirectRecord} {d : FieldDirective}
    (hindex : other.physicalIndex = record.physicalIndex) (hvalue : other.values d.fieldName = record.values d.fieldName) :
    FieldObserved env relativePath other d st ↔ FieldObserved env relativePath record d st := by
  unfold FieldObserved
  rw [hindex, hvalue]

/-- The state behind a record: its fields one after the other, then its evidence and its count. -/
def recordDone (env : PassOneEnvironment) (observations : List RelationObservation) (record : DirectRecord)
    (st : PassOneState) : PassOneState := { st with
  spool := { st.spool with
    evidence := observations.foldl (EvidenceStore.observe .passOneSpool env.batch) st.spool.evidence }
  outcome := { st.outcome with
    recordsScanned := st.outcome.recordsScanned + 1
    deletedScanned := st.outcome.deletedScanned + if record.deleted then 1 else 0 } }

def tableDone (st : PassOneState) : PassOneState := { st with
  spool := st.spool.flush
  outcome := { st.outcome with tablesScanned := st.outcome.tablesScanned + 1 } }

theorem observeRecord_eq_ok (h : observeRecord env relations directive st record = .ok st') :
    ∃ fields observations, directive.transformed.foldlM (observeField env directive.relativePath record) st = .ok fields ∧
      observeRelations .before relations directive.relativePath record.values = .ok observations ∧
      st' = recordDone env observations record fields := by
  unfold observeRecord at h
  obtain ⟨fields, hfields, h⟩ := bind_eq_ok.mp h
  obtain ⟨observations, hobservations, h⟩ := bind_eq_ok.mp h
  exact ⟨fields, observations, hfields, hobservations, (Except.ok.inj h).symm⟩

theorem scanTable_eq_ok (h : scanTable env relations source st directive = .ok st') :
    ∃ table scanned, source.table directive.relativePath = some table ∧
      (projectedRecords directive table).foldlM (observeRecord env relations directive) (st.openTable directive) =
        .ok scanned ∧ st' = tableDone scanned := by
  unfold scanTable at h
  obtain ⟨table, htable, h⟩ := bind_eq_ok.mp h
  obtain ⟨scanned, hscanned, h⟩ := bind_eq_ok.mp h
  exact ⟨table, scanned, DatasetFiles.readTable_eq_ok.mp htable, hscanned, (Except.ok.inj h).symm⟩

theorem observeRecord_spec (h : observeRecord env relations directive st record = .ok st') :
    st ≤ st' ∧ ∀ d ∈ directive.transformed, FieldObserved env directive.relativePath record d st' := by
  obtain ⟨fields, observations, hfields, -, rfl⟩ := observeRecord_eq_ok h
  obtain ⟨hup, hall⟩ := forall_of_foldlM (fun d => FieldObserved env directive.relativePath record d)
    (fun _ _ _ hle hp => hp.mono hle) (fun _ _ _ _ => observeField_spec) hfields
  have hlast : fields ≤ recordDone env observations record fields := grows_of_eq rfl rfl rfl rfl
  exact ⟨hup.trans hlast, fun d hd => (hall d hd).mono hlast⟩

theorem scanTable_spec (h : scanTable env relations source st directive = .ok st') :
    st ≤ st' ∧ TableObserved env source directive st' := by
  obtain ⟨table, scanned, htable, hscanned, rfl⟩ := scanTable_eq_ok h
  obtain ⟨hup, hall⟩ := forall_of_foldlM
    (fun record st => ∀ d ∈ directive.transformed, FieldObserved env directive.relativePath record d st)
    (fun _ _ _ hle hp d hd => (hp d hd).mono hle) (fun _ _ _ _ => observeRecord_spec) hscanned
  have hfirst : st ≤ st.openTable directive := grows_of_eq rfl rfl rfl rfl
  have hlast : scanned ≤ tableDone scanned := grows_of_eq rfl rfl rfl rfl
  refine ⟨(hfirst.trans hup).trans hlast, table, htable, ?_⟩
  intro record hrecord d hd
  have hprojected := hall _ (List.mem_map_of_mem hrecord) d hd
  have hsame : ∀ now, FieldObserved env directive.relativePath
      { record with values := record.values.project (projectionFields directive) } d now ↔
        FieldObserved env directive.relativePath record d now :=
    fun now => fieldObserved_congr rfl (project_transformed hd)
  exact ((hsame scanned).mp hprojected).mono hlast

/-- A scan that returns holds every transformed field of the planned dataset. -/
theorem runPassOne_spec {vault : VaultState} (h : runPassOne env plan source vault = .ok st') :
    PassOneState.start env plan vault ≤ st' ∧ ∀ directive ∈ plan.tables, TableObserved env source directive st' := by
  unfold runPassOne at h
  apply forall_of_foldlM (TableObserved env source) _ _ h
  · intro directive a b hle ha
    obtain ⟨table, htable, hall⟩ := ha
    exact ⟨table, htable, fun record hrecord d hd => (hall record hrecord d hd).mono hle⟩
  · intro directive _ a b hstep
    exact scanTable_spec hstep

end Run

def observeOccurrence (spool : TextSpool) (o : TextOccurrence) : TextSpool :=
  (spool.observeText o.value o.byteWidth).observeTextEncoding o.encoding

/-- Whether a planned field that is shifted holds a value. -/
def HoldsTemporalValue (plan : EnginePlan) (source : DatasetFiles) : Prop :=
  ∃ t ∈ plan.tables, ∃ table, source.table t.relativePath = some table ∧ ∃ record ∈ table.records,
    ∃ d ∈ t.transformed, d.numericDomainId = none ∧ d.action = .shiftReversible ∧ record.values d.fieldName ≠ .null

section Texts
variable {env : PassOneEnvironment} {relations : List RelationDirective} {directive : TableDirective}
  {record : DirectRecord} {source : DatasetFiles} {plan : EnginePlan} {st st' : PassOneState}

theorem observeField_text {relativePath : Text} {d : FieldDirective}
    (h : observeField env relativePath record st d = .ok st') :
    st'.spool.text = (d.occurrence? (record.values d.fieldName)).toList.foldl observeOccurrence st.spool.text := by
  unfold observeField at h
  unfold FieldDirective.occurrence?
  dsimp only at h
  cases hdomain : d.numericDomainId with
  | some domainId =>
    simp only [hdomain] at h
    obtain ⟨numeric, -, h⟩ := bind_eq_ok.mp h
    cases h
    rfl
  | none =>
    simp only [hdomain] at h
    cases haction : d.action with
    | pseudonymizeReversible =>
      simp only [haction] at h
      obtain ⟨text, htext, h⟩ := bind_eq_ok.mp h
      cases h
      rcases observeText_eq_ok htext with ⟨hempty, rfl⟩ | ⟨t, ht, hne, rfl⟩
      · unfold Value.isNullOrEmpty at hempty
        rw [decide_eq_true_eq] at hempty
        rcases hempty with hnull | hnil
        · rw [hnull]
          rfl
        · rw [hnil]
          rfl
      · rw [ht]
        cases t with
        | nil => exact absurd rfl hne
        | cons c rest => rfl
    | shiftReversible =>
      simp only [haction] at h
      split at h
      · cases h
        rfl
      · obtain ⟨domain, -, h⟩ := bind_eq_ok.mp h
        cases h
        rfl
    | maskReversible =>
      simp only [haction] at h
      split at h
      · cases h
      · split at h
        · cases h
        · cases h
          rfl
    | keep =>
      simp only [haction] at h
      cases h
      rfl

theorem runPassOne_text {vault : VaultState} (h : runPassOne env plan source vault = .ok st') :
    st'.spool.text = spoolOf (textOccurrences plan source) := by
  unfold runPassOne at h
  apply view_of_foldlM (fun st => st.spool.text) observeOccurrence
    (fun t : TableDirective => (source.recordsOf t.relativePath).flatMap (recordOccurrences t)) _ h
  intro t _ a b ht
  obtain ⟨table, scanned, htable, hscanned, rfl⟩ := scanTable_eq_ok ht
  rw [DatasetFiles.recordsOf_eq htable]
  have hrecords := view_of_foldlM (fun st : PassOneState => st.spool.text) observeOccurrence (recordOccurrences t) ?_ hscanned
  · rw [projectedRecords, List.flatMap_map] at hrecords
    refine hrecords.trans ?_
    have hsame : ∀ record : DirectRecord, recordOccurrences t
        { record with values := record.values.project (projectionFields t) } = recordOccurrences t record := by
      intro record
      apply List.filterMap_congr
      intro d hd
      dsimp only
      rw [project_transformed hd]
    simp only [hsame]
    rfl
  · intro record _ a b hrecord
    obtain ⟨fields, observations, hfields, -, rfl⟩ := observeRecord_eq_ok hrecord
    have hview := view_of_foldlM (fun st : PassOneState => st.spool.text) observeOccurrence
      (fun d : FieldDirective => (d.occurrence? (record.values d.fieldName)).toList)
      (fun _ _ _ _ hd => observeField_text hd) hfields
    rw [recordOccurrences, List.filterMap_eq_flatMap_toList]
    exact hview

/-- A day is only retained where a planned field holds a value. -/
theorem observeField_day {relativePath : Text} {d : FieldDirective} {domain : TemporalShiftDomain}
    (h : observeField env relativePath record st d = .ok st') (hsome : st'.temporalDomain = some domain)
    (hlow : domain.minOrdinal ≠ none) :
    (∃ domain, st.temporalDomain = some domain ∧ domain.minOrdinal ≠ none) ∨
      d.numericDomainId = none ∧ d.action = .shiftReversible ∧ record.values d.fieldName ≠ .null := by
  unfold observeField at h
  dsimp only at h
  cases hdomain : d.numericDomainId with
  | some domainId =>
    simp only [hdomain] at h
    obtain ⟨numeric, -, h⟩ := bind_eq_ok.mp h
    cases h
    exact Or.inl ⟨domain, hsome, hlow⟩
  | none =>
    simp only [hdomain] at h
    cases haction : d.action with
    | pseudonymizeReversible =>
      simp only [haction] at h
      obtain ⟨text, -, h⟩ := bind_eq_ok.mp h
      cases h
      exact Or.inl ⟨domain, hsome, hlow⟩
    | shiftReversible =>
      simp only [haction] at h
      split at h
      · cases h
        exact Or.inl ⟨domain, hsome, hlow⟩
      · next before hbefore =>
        obtain ⟨after, hafter, h⟩ := bind_eq_ok.mp h
        cases h
        by_cases hnull : record.values d.fieldName = .null
        · obtain rfl := (observe_covers hafter).2.2.2 hnull
          exact Or.inl ⟨domain, hbefore.trans hsome, hlow⟩
        · exact Or.inr ⟨rfl, rfl, hnull⟩
    | maskReversible =>
      simp only [haction] at h
      split at h
      · cases h
      · split at h
        · cases h
        · cases h
          exact Or.inl ⟨domain, hsome, hlow⟩
    | keep =>
      simp only [haction] at h
      cases h
      exact Or.inl ⟨domain, hsome, hlow⟩

/-- A retained day comes from a planned field. -/
def DaysObserved (plan : EnginePlan) (source : DatasetFiles) (st : PassOneState) : Prop :=
  (∃ domain, st.temporalDomain = some domain ∧ domain.minOrdinal ≠ none) → HoldsTemporalValue plan source

theorem daysObserved_of_runPassOne {vault : VaultState} (h : runPassOne env plan source vault = .ok st') :
    DaysObserved plan source st' := by
  unfold runPassOne at h
  apply invariant_of_foldlM (DaysObserved plan source) _ h
  · intro hstart
    obtain ⟨domain, hdomain, hlow⟩ := hstart
    unfold PassOneState.start at hdomain
    dsimp only at hdomain
    split_ifs at hdomain
    cases hdomain
    exact absurd rfl hlow
  · intro t ht a b hscan hbefore
    obtain ⟨table, scanned, htable, hscanned, rfl⟩ := scanTable_eq_ok hscan
    have hrecords : DaysObserved plan source scanned := by
      refine invariant_of_foldlM (DaysObserved plan source) ?_ hscanned hbefore
      intro projected hprojected a b hrecord hbefore
      obtain ⟨record, hmem, rfl⟩ := List.mem_map.mp hprojected
      obtain ⟨fields, observations, hfields, -, rfl⟩ := observeRecord_eq_ok hrecord
      have hall : DaysObserved plan source fields := by
        refine invariant_of_foldlM (DaysObserved plan source) ?_ hfields hbefore
        intro d hd a b hfield hbefore hafter
        obtain ⟨domain, hsome, hlow⟩ := hafter
        rcases observeField_day hfield hsome hlow with hearlier | ⟨hnone, haction, hvalue⟩
        · exact hbefore hearlier
        · dsimp only at hvalue
          rw [project_transformed hd] at hvalue
          exact ⟨t, ht, table, htable, record, hmem, d, hd, hnone, haction, hvalue⟩
      exact hall
    exact hrecords

end Texts
end DbfAnonymizer.Engine
