import DbfAnonymizer.Engine.PassOneComplete

/-! What a later pass one counts on a vault that already holds the rows of an earlier one. -/
namespace DbfAnonymizer.Engine
open Transforms Vault Lib Verification

/-- Two environments of one vault: random draws, unit ends and memo bindings may differ. -/
structure SameSetting (env env' : PassOneEnvironment) : Prop where
  codecs_eq : env'.codecs = env.codecs
  temporalDomainId_eq : env'.temporalDomainId = env.temporalDomainId
  batch_eq : env'.batch = env.batch

section Scan
variable {env env' : PassOneEnvironment} {P : PlannedDataset} {a b a' b' : PassOneState}

/-- States that differ in their vaults alone. -/
def SameScan (a b : PassOneState) : Prop := ∃ vault, b = { a with vault }

theorem observeField_sameScan {relativePath : Text} {record : DirectRecord} {d : FieldDirective}
    (h : observeField env relativePath record a d = .ok a') (h' : observeField env' relativePath record b d = .ok b')
    (hsame : SameScan a b) : SameScan a' b' := by
  obtain ⟨other, rfl⟩ := hsame
  unfold observeField at h h'
  dsimp only at h h'
  cases hdomain : d.numericDomainId with
  | some domainId =>
    simp only [hdomain] at h h'
    obtain ⟨numeric, hnumeric, h⟩ := bind_eq_ok.mp h
    rw [hnumeric, ok_bind] at h'
    cases h
    cases h'
    exact ⟨other, rfl⟩
  | none =>
    simp only [hdomain] at h h'
    cases haction : d.action with
    | pseudonymizeReversible =>
      simp only [haction] at h h'
      obtain ⟨text, htext, h⟩ := bind_eq_ok.mp h
      rw [htext, ok_bind] at h'
      cases h
      cases h'
      exact ⟨other, rfl⟩
    | shiftReversible =>
      simp only [haction] at h h'
      cases htemporal : a.temporalDomain with
      | none =>
        simp only [htemporal] at h h'
        cases h
        cases h'
        exact ⟨other, by rw [htemporal]⟩
      | some domain =>
        simp only [htemporal] at h h'
        obtain ⟨observed, hobserved, h⟩ := bind_eq_ok.mp h
        rw [hobserved, ok_bind] at h'
        cases h
        cases h'
        exact ⟨other, rfl⟩
    | maskReversible =>
      simp only [haction] at h h'
      split at h
      · cases h
      · split at h
        · cases h
        · split at h'
          · cases h'
          · split at h'
            · cases h'
            · cases h
              cases h'
              exact ⟨_, rfl⟩
    | keep =>
      simp only [haction] at h h'
      cases h
      cases h'
      exact ⟨other, rfl⟩

theorem observeRecord_sameScan (hsetting : SameSetting env env') {relations : List RelationDirective} {t : TableDirective}
    {record : DirectRecord} (h : observeRecord env relations t a record = .ok a')
    (h' : observeRecord env' relations t b record = .ok b') (hsame : SameScan a b) : SameScan a' b' := by
  obtain ⟨fields, observations, hfields, hobservations, rfl⟩ := observeRecord_eq_ok h
  obtain ⟨fields', observations', hfields', hobservations', rfl⟩ := observeRecord_eq_ok h'
  rw [hobservations] at hobservations'
  cases hobservations'
  have hfields : SameScan fields fields' := by
    apply related_of_foldlM SameScan _ hfields hfields' hsame
    intro d _ a a' b b' ha hb
    exact observeField_sameScan ha hb
  obtain ⟨vault, rfl⟩ := hfields
  exact ⟨vault, by rw [recordDone, recordDone, hsetting.batch_eq]⟩

theorem scanTable_sameScan (hsetting : SameSetting env env') {relations : List RelationDirective} {source : DatasetFiles}
    {t : TableDirective} (h : scanTable env relations source a t = .ok a')
    (h' : scanTable env' relations source b t = .ok b') (hsame : SameScan a b) : SameScan a' b' := by
  obtain ⟨table, scanned, htable, hscanned, rfl⟩ := scanTable_eq_ok h
  obtain ⟨table', scanned', htable', hscanned', rfl⟩ := scanTable_eq_ok h'
  rw [htable] at htable'
  cases htable'
  obtain ⟨vault, rfl⟩ := hsame
  have hopened : SameScan (a.openTable t) (PassOneState.openTable { a with vault } t) := ⟨vault, rfl⟩
  have hrecords : SameScan scanned scanned' := by
    apply related_of_foldlM SameScan _ hscanned hscanned' hopened
    intro record _ a a' b b' ha hb
    exact observeRecord_sameScan hsetting ha hb
  obtain ⟨last, rfl⟩ := hrecords
  exact ⟨last, rfl⟩

/-- Two scans of one dataset differ in their vaults alone. -/
theorem runPassOne_sameScan (hsetting : SameSetting env env') {vault later : VaultState}
    (h : runPassOne env P.plan P.source vault = .ok a) (h' : runPassOne env' P.plan P.source later = .ok b) :
    SameScan a b := by
  have hstart : SameScan (.start env P.plan vault) (.start env' P.plan later) := by
    refine ⟨later, ?_⟩
    rw [PassOneState.start, PassOneState.start, hsetting.temporalDomainId_eq]
  apply related_of_foldlM SameScan _ h h' hstart
  intro t _ a a' b b' ha hb
  exact scanTable_sameScan hsetting ha hb

end Scan

section Text
variable {codecs : Codecs} {rng : Csprng} {draws : ℕ} {scan : TextScan} {vault : VaultState} {out : TextFinalized}

theorem length_materializeTextAssignment {alphabet : Text} {graph : ResidualGraph} {rows : List (ResOriginal × Resource)}
    {st st' : TextState} (h : materializeTextAssignment rng alphabet graph rows st = .ok st') :
    st'.mappings.table.rows.length = st.mappings.table.rows.length + rows.length := by
  refine foldlM_induction [] (fun done (now : TextState) => now.mappings.table.rows.length =
    st.mappings.table.rows.length + done.length) ?_ rfl h
  intro done row now next hdone hrun
  obtain ⟨⟨token, draws⟩, -, hrun⟩ := bind_eq_ok.mp hrun
  obtain ⟨mappings, hadd, hrun⟩ := bind_eq_ok.mp hrun
  cases hrun
  unfold addTextMapping at hadd
  cases htable : now.mappings.table.insert? row.1.canonical token with
  | none => simp [htable] at hadd
  | some table =>
    simp only [htable, Except.ok.injEq] at hadd
    rw [← hadd, (BijectiveTable.insert?_eq_some_iff.mp htable).2.2, List.length_append, hdone, List.length_append]
    rfl

/-- A finalization reuses the originals that are persisted and allocates the others. -/
theorem finalizeText_counts
    (hinv : TextInvariant (candidateAlphabet codecs scan.spool.encodings) (vault.textMappings globalTextDomainId))
    (h : finalizeText codecs rng draws vault scan.spool = some (.ok out)) :
    out.allocated = (remainingRows (vault.textMappings globalTextDomainId) scan.spool).length ∧
      out.reused = (scan.spool.observations.rows.filter
        (·.1 ∈ (vault.textMappings globalTextDomainId).table.keys)).length := by
  by_cases hencodings : scan.spool.encodings = []
  · have hnone : scan.spool.observations.rows = [] := observations_of_encodings_nil hencodings
    rw [finalizeText, prepareText, if_pos hencodings] at h
    cases h
    simp [remainingRows, hnone]
  · have hc := (textReady_of_success hinv h).completable hencodings
    rcases prepareText_cases hinv hencodings with ⟨-, prep, hprepare, hprep⟩ | ⟨hno, -⟩
    · obtain ⟨-, st, -, hrun, -, -, hcompleted⟩ := hprep.exists_stop hinv hc rng draws 0
      have hmappings : prep.vault.textMappings = vault.textMappings := by
        rw [hprep.vault_eq, textMappings_ensureTextDomain]
      simp only [finalizeText, hprepare, Option.map_some, ok_bind, TextPreparation.commit, hmappings, hrun, pure_eq_ok,
        Option.some.injEq, Except.ok.injEq] at h
      subst h
      refine ⟨?_, hprep.reused_eq⟩
      obtain ⟨added, hadded, hperm⟩ := hcompleted.extends_rows
      have hlength := length_materializeTextAssignment hrun
      have hremaining := hperm.length_eq
      rw [hadded, List.length_append] at hlength
      rw [List.length_map, List.length_map] at hremaining
      dsimp only at hlength ⊢
      omega
    · exact absurd hc hno

theorem length_remainingRows_add (mappings : TextMappings) (spool : TextSpool) :
    (remainingRows mappings spool).length + (spool.observations.rows.filter (·.1 ∈ mappings.table.keys)).length =
      spool.observations.rows.length := by
  have hsplit := List.length_eq_length_filter_add (l := spool.observations.rows)
    fun row : Text × ℕ => decide (row.1 ∈ mappings.table.keys)
  have hremaining : remainingRows mappings spool =
      spool.observations.rows.filter fun row => !decide (row.1 ∈ mappings.table.keys) := by
    simp [remainingRows]
  rw [hremaining, hsplit, Nat.add_comm]

end Text

def PassOneOutcome.rerun (outcome : PassOneOutcome) : PassOneOutcome := { outcome with
  textAllocated := 0
  textReused := outcome.textAllocated + outcome.textReused
  numericAllocated := outcome.numericAllocated.mapValues fun _ => 0 }

theorem PassOneOutcome.Unfinalized.rerun_eq {outcome : PassOneOutcome} (h : outcome.Unfinalized) :
    outcome.rerun = outcome := by
  obtain ⟨-, hallocated, hreused, hnumeric⟩ := h
  cases outcome
  dsimp only at hallocated hreused hnumeric
  subst hallocated hreused hnumeric
  rfl

/-- A state of the later run beside the one of the earlier run at the same place. -/
structure Recounted (P : PlannedDataset) (a b : PassOneState) : Prop where
  outcome_eq : b.outcome = a.outcome.rerun
  temporalDomain_eq : b.temporalDomain = a.temporalDomain
  persisted : ∀ r ∈ P.plan.relations, ∀ domainId, r.numericDomainId = some domainId →
    ∀ n ∈ (b.spool.numeric domainId).rows, n ∈ (b.vault.numericKeyMappings domainId).keys

section Finalize
variable {env env' : PassOneEnvironment} {P : PlannedDataset} {a b a' b' : PassOneState}

theorem finalizeTextDomain_recount (houtcome : b.outcome = a.outcome) (hunfinalized : a.outcome.Unfinalized)
    (hspool : a.spool.text = P.scan.spool) (hspool' : b.spool.text = P.scan.spool)
    (hinv : TextInvariant (P.alphabet env.codecs) (a.vault.textMappings globalTextDomainId))
    (hinv' : TextInvariant (P.alphabet env'.codecs) (b.vault.textMappings globalTextDomainId))
    (hpersisted : P.plan.textPresent = true → ∀ row ∈ P.scan.spool.observations.rows,
      row.1 ∈ (b.vault.textMappings globalTextDomainId).table.keys)
    (h : finalizeTextDomain env P.plan a = some (.ok a')) (h' : finalizeTextDomain env' P.plan b = some (.ok b')) :
    b'.outcome = a'.outcome.rerun := by
  unfold finalizeTextDomain at h h'
  by_cases hpresent : P.plan.textPresent = true
  · rw [if_pos hpresent] at h h'
    obtain ⟨run, hrun, h⟩ := Option.map_eq_some_iff.mp h
    obtain ⟨run', hrun', h'⟩ := Option.map_eq_some_iff.mp h'
    obtain ⟨out, hout, h⟩ := bind_eq_ok.mp h
    obtain ⟨out', hout', h'⟩ := bind_eq_ok.mp h'
    cases h
    cases h'
    rw [hout, hspool] at hrun
    rw [hout', hspool'] at hrun'
    obtain ⟨hallocated, hreused⟩ := finalizeText_counts hinv hrun
    obtain ⟨hallocated', hreused'⟩ := finalizeText_counts hinv' hrun'
    have hnone : remainingRows (b.vault.textMappings globalTextDomainId) P.scan.spool = [] := by
      apply List.filter_eq_nil_iff.mpr
      intro row hrow
      simpa using hpersisted hpresent row hrow
    have hall := length_remainingRows_add (a.vault.textMappings globalTextDomainId) P.scan.spool
    have hall' := length_remainingRows_add (b.vault.textMappings globalTextDomainId) P.scan.spool
    rw [hnone, List.length_nil] at hallocated' hall'
    have hdomain : out'.domainId = out.domainId := by
      rcases finalizeText_frame hrun with ⟨hencodings, -, hid⟩ | ⟨hencodings, hid, -⟩
      · rcases finalizeText_frame hrun' with ⟨-, -, hid'⟩ | ⟨hne, -⟩
        · rw [hid, hid']
        · exact absurd hencodings hne
      · rcases finalizeText_frame hrun' with ⟨heq, -⟩ | ⟨-, hid', -⟩
        · exact absurd heq hencodings
        · rw [hid, hid']
    have htotal : out'.reused = out.allocated + out.reused := by omega
    have hzero := hunfinalized.numericAllocated_eq
    simp only [PassOneOutcome.rerun, houtcome, hallocated', htotal, hdomain, hzero]
    rfl
  · rw [if_neg hpresent] at h h'
    cases h
    cases h'
    rw [houtcome, hunfinalized.rerun_eq]

theorem allocateNumeric_reused {rng : Csprng} {domain : NumericKeyDomain} {stream : List ℤ} {occupied remaining : ℤ}
    {allocated count : ℕ} {st st' : NumericState} (hpersisted : ∀ value ∈ stream, value ∈ st.mappings.keys)
    (h : allocateNumeric rng domain stream occupied remaining allocated st = .ok (count, st')) :
    count = allocated ∧ st'.mappings = st.mappings ∧ st'.observed.rows ⊆ st.observed.rows := by
  induction stream generalizing st with
  | nil =>
    cases h
    exact ⟨rfl, rfl, List.Subset.refl _⟩
  | cons value rest ih =>
    rw [List.forall_mem_cons] at hpersisted
    obtain ⟨p, hp⟩ := BijectiveTable.mem_keys.mp hpersisted.1
    rw [allocateNumeric, BijectiveTable.valueOf?_eq_some_iff.mpr hp] at h
    have hpersisted' : ∀ later ∈ rest, later ∈
        ({ st with observed := st.observed.dropNumericObservation value } : NumericState).mappings.keys := hpersisted.2
    obtain ⟨hcount, hmappings, hobserved⟩ := ih hpersisted' h
    exact ⟨hcount, hmappings, List.Subset.trans hobserved List.erase_subset⟩

theorem finalizeNumericDomain_reused {domainId : Text} {domain : NumericKeyDomain}
    (hpersisted : ∀ n ∈ (b.spool.numeric domainId).rows, n ∈ (b.vault.numericKeyMappings domainId).keys)
    (h : finalizeNumericDomain env domainId domain b = .ok b') :
    b'.outcome = { b.outcome with
      numericDomains := b.outcome.numericDomains ++ [domainId]
      numericAllocated := b.outcome.numericAllocated.upsert domainId 0 } ∧
    b'.temporalDomain = b.temporalDomain ∧ b'.vault.numericKeyMappings = b.vault.numericKeyMappings ∧
    ∀ other, (b'.spool.numeric other).rows ⊆ (b.spool.numeric other).rows := by
  unfold finalizeNumericDomain at h
  obtain ⟨⟨allocated, final⟩, hrun, h⟩ := bind_eq_ok.mp h
  cases h
  obtain ⟨domains, hensure, -⟩ := ensureDomain_frame b.vault domainId .numericKey
  change ensureNumericDomain b.vault domainId = _ at hensure
  have hmappings : (ensureNumericDomain b.vault domainId).numericKeyMappings = b.vault.numericKeyMappings := by
    rw [hensure]
  simp only [hmappings] at hrun
  unfold finalizeNumeric at hrun
  obtain ⟨feasible, -, hrun⟩ := bind_eq_ok.mp hrun
  cases feasible with
  | false => cases hrun
  | true =>
    have hstream : ∀ value ∈ (b.spool.numeric domainId).numericObservationStream,
        value ∈ (b.vault.numericKeyMappings domainId).keys :=
      fun value hvalue => hpersisted value ((perm_numericObservationStream _).mem_iff.mp hvalue)
    obtain ⟨hcount, hkept, hobserved⟩ := allocateNumeric_reused hstream hrun
    dsimp only at hkept hobserved ⊢
    refine ⟨by rw [hcount], rfl, ?_, ?_⟩
    · rw [hmappings, hkept, Function.update_eq_self]
    · intro other
      by_cases heq : other = domainId
      · subst heq
        rw [Function.update_self]
        exact hobserved
      · rw [Function.update_of_ne heq]
        exact List.Subset.refl _

theorem finalizeRelation_recount {r : RelationDirective} (hr : r ∈ P.plan.relations)
    (h : finalizeRelation env a r = .ok a') (h' : finalizeRelation env' b r = .ok b') (hab : Recounted P a b) :
    Recounted P a' b' := by
  unfold finalizeRelation at h h'
  split at h
  · next domainId domain hid hdomain =>
    simp only [hid, hdomain] at h'
    obtain ⟨houtcome, htemporal, hmappings, hobserved⟩ := finalizeNumericDomain_reused (hab.persisted r hr domainId hid) h'
    unfold finalizeNumericDomain at h
    obtain ⟨⟨allocated, final⟩, -, h⟩ := bind_eq_ok.mp h
    cases h
    constructor
    case outcome_eq =>
      rw [houtcome, hab.outcome_eq]
      simp only [PassOneOutcome.rerun, KeyedTable.mapValues_upsert]
    case temporalDomain_eq => exact htemporal.trans hab.temporalDomain_eq
    case persisted =>
      intro other hother otherId hotherId n hn
      rw [hmappings]
      exact hab.persisted other hother otherId hotherId n (hobserved otherId hn)
  · next hnone =>
    split at h'
    · next domainId domain hid hdomain => exact absurd hdomain (hnone domainId domain hid)
    · cases h
      cases h'
      exact hab

theorem finalizeTemporalDomain_recount (hab : Recounted P a b) (hup : a'.vault ≤ b'.vault)
    (h : finalizeTemporalDomain env a = .ok a') (h' : finalizeTemporalDomain env' b = .ok b') :
    b'.outcome = a'.outcome.rerun := by
  unfold finalizeTemporalDomain at h h'
  rw [hab.temporalDomain_eq] at h'
  cases hdomain : a.temporalDomain with
  | none =>
    simp only [hdomain] at h h'
    cases h
    cases h'
    exact hab.outcome_eq
  | some domain =>
    simp only [hdomain] at h h'
    split at h
    · cases h
    · next offset domain₁ vault hrun =>
      split at h'
      · cases h'
      · next offset' domain₂ vault' hrun' =>
        cases h
        cases h'
        have hsame : offset' = offset ∧ domain₂.domainId = domain₁.domainId := by
          cases hlow : domain.minOrdinal with
          | none =>
            rw [TemporalShiftDomain.finalize, hlow] at hrun hrun'
            cases hrun
            cases hrun'
            exact ⟨rfl, rfl⟩
          | some low =>
            obtain ⟨n, rfl, rfl, -, -, hstored, -⟩ := TemporalShiftDomain.finalize_eq_ok hlow hrun
            obtain ⟨n', rfl, rfl, -, -, hstored', -⟩ := TemporalShiftDomain.finalize_eq_ok hlow hrun'
            have hparameter := VaultState.temporalParameter_mono hup (persistedTemporalState_eq_some hstored).2.1
            rw [(persistedTemporalState_eq_some hstored').2.1] at hparameter
            exact ⟨hparameter, rfl⟩
        dsimp only
        rw [hab.outcome_eq, hsame.1, hsame.2]
        rfl

end Finalize

section PassOne
variable {env env' : PassOneEnvironment} {P : PlannedDataset} {vault later : VaultState} {st st' : PassOneState}

theorem EngineVault.congr (hsetting : SameSetting env env') (h : EngineVault env P vault) : EngineVault env' P vault where
  text_kind := h.text_kind
  text := by
    rw [hsetting.codecs_eq]
    exact h.text
  numeric_kind := h.numeric_kind
  numeric := h.numeric
  temporal := by
    rw [hsetting.temporalDomainId_eq]
    exact h.temporal

/-- Behind an earlier run over the same dataset a run allocates nothing and reuses every mapping. -/
theorem passOne_recount (hdistinct : DistinctDomains P.plan env.temporalDomainId) (hinv : EngineVault env P vault)
    (h : passOne env P.plan P.source vault = some (.ok st)) (hup : st.vault ≤ later) (hlater : EngineVault env P later)
    (hsetting : SameSetting env env') (h' : passOne env' P.plan P.source later = some (.ok st')) :
    st'.outcome = st.outcome.rerun := by
  have hdistinct' : DistinctDomains P.plan env'.temporalDomainId := hsetting.temporalDomainId_eq ▸ hdistinct
  have hlater' := hlater.congr hsetting
  obtain ⟨scanned, text, relations, hstages⟩ := exists_stages hdistinct hinv h
  obtain ⟨scanned', text', relations', hstages'⟩ := exists_stages hdistinct' hlater' h'
  obtain ⟨other, hsame⟩ := runPassOne_sameScan hsetting hstages.scan_eq hstages'.scan_eq
  have hscan : later ≤ scanned'.vault := hstages'.vault_le_scanned
  have htext : text'.outcome = text.outcome.rerun := by
    apply finalizeTextDomain_recount (P := P) (by rw [hsame]) (runPassOne_unfinalized hstages.scan_eq) hstages.spooled
      hstages'.spooled _ _ _ hstages.text_eq hstages'.text_eq
    · obtain ⟨memos, hmemos⟩ := hstages.exists_memos
      rw [hmemos]
      exact hinv.text
    · obtain ⟨memos, hmemos⟩ := hstages'.exists_memos
      rw [hmemos]
      exact hlater'.text
    · intro hpresent row hrow
      have hkey : row.1 ∈ scanned.spool.text.observations.keys := by
        rw [hstages.spooled]
        exact List.mem_map_of_mem hrow
      obtain ⟨p, hp⟩ := hstages.textDone.mapped hpresent row.1 hkey
      rw [← hstages.textMappings_eq] at hp
      exact BijectiveTable.mem_keys.mpr ⟨p, ((hup.trans hscan).textMappings globalTextDomainId).subset hp⟩
  have hrelations : Recounted P relations relations' := by
    have hstart : Recounted P text text' := by
      constructor
      case outcome_eq => exact htext
      case temporalDomain_eq =>
        rw [hstages'.textDone.temporalDomain_eq, hstages.textDone.temporalDomain_eq, hsame]
      case persisted =>
        intro r hr domainId hid n hn
        rw [hstages'.textDone.numeric_eq, hsame] at hn
        dsimp only at hn
        rw [← hstages.textDone.numeric_eq] at hn
        have hmapped := hstages.relationsDone.mapped r hr domainId hid n hn
        rw [← hstages.numericKeyMappings_eq] at hmapped
        have hgrown := hup.trans (hscan.trans hstages'.scanned_le_text)
        exact mem_keys_of_extends (hgrown.numericKeyMappings domainId) hmapped
    apply related_of_foldlM (Recounted P) _ hstages.relations_eq hstages'.relations_eq hstart
    intro r hr a a' b b' ha hb
    exact finalizeRelation_recount hr ha hb
  exact finalizeTemporalDomain_recount hrelations (hup.trans hstages'.grows) hstages.temporal_eq hstages'.temporal_eq

end PassOne
end DbfAnonymizer.Engine
