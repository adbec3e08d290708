import DbfAnonymizer.Engine.TextFinalize

/-! Finalizing the text domain again after interruptions keeps every row and completes the missing ones. -/
namespace DbfAnonymizer.Engine
open Transforms Lib Vault

/-- What one scan spooled; a spool table has fewer than `2^63` rows. -/
structure TextScan where
  occurrences : List TextOccurrence
  few : (spoolOf occurrences).observations.rows.length < 2 ^ 63

def TextScan.spool (scan : TextScan) : TextSpool := spoolOf scan.occurrences

/-- The rows of a text domain: safe tokens stored with their lengths, none of them its own original. -/
structure TextInvariant (alphabet : Text) (mappings : TextMappings) : Prop where
  pseudonyms_safe : ∀ p ∈ mappings.table.values, isSafeToken p alphabet = true
  lengths_stored : ∀ p ∈ mappings.table.values, mappings.logicalByteLength p = p.length
  no_fixed_point : ∀ row ∈ mappings.table.rows, row.2 ≠ row.1

/-- The persisted pseudonyms of observed originals fit the strictest widths. -/
def Compatible (mappings : TextMappings) (rows : List (Text × ℕ)) : Prop :=
  ∀ row ∈ rows, ∀ p, (row.1, p) ∈ mappings.table.rows → p.length ≤ row.2

/-- The observations that are not persisted. -/
def remainingRows (mappings : TextMappings) (spool : TextSpool) : List (Text × ℕ) :=
  spool.observations.rows.filter (·.1 ∉ mappings.table.keys)

/-- The vault rows can be completed for these observations. -/
structure Completable (codecs : Codecs) (spool : TextSpool) (mappings : TextMappings) : Prop where
  alphabet_ne : candidateAlphabet codecs spool.encodings ≠ []
  compatible : Compatible mappings spool.observations.rows
  widths_pos : ∀ row ∈ remainingRows mappings spool, 0 < row.2
  feasible : ResidualFeasible (candidateAlphabet codecs spool.encodings) mappings (remainingRows mappings spool)

theorem nodup_candidateAlphabet (codecs : Codecs) (encodings : List Text) :
    (candidateAlphabet codecs encodings).Nodup := by
  have hnodup : safeTextAlphabet.Nodup := by decide
  exact hnodup.filter _

theorem nul_notMem_candidateAlphabet (codecs : Codecs) (encodings : List Text) :
    '\x00' ∉ candidateAlphabet codecs encodings := by
  have hnul : '\x00' ∉ safeTextAlphabet := by decide
  exact fun hmem => hnul (List.mem_of_mem_filter hmem)

theorem observations_of_encodings_nil {occurrences : List TextOccurrence}
    (h : (spoolOf occurrences).encodings = []) : (spoolOf occurrences).observations.rows = [] := by
  induction occurrences using List.reverseRecOn with
  | nil => rfl
  | append_singleton occurrences o _ =>
    have hstep : (spoolOf (occurrences ++ [o])).encodings =
        (((spoolOf occurrences).observeText o.value o.byteWidth).observeTextEncoding o.encoding).encodings := by
      simp [spoolOf]
    rw [hstep] at h
    unfold TextSpool.observeTextEncoding at h
    split_ifs at h with hmem
    · rw [h] at hmem
      cases hmem
    · exact absurd h (by simp)

@[simp] theorem textMappings_ensureTextDomain (vault : VaultState) :
    (ensureTextDomain vault).textMappings = vault.textMappings := by
  unfold ensureTextDomain
  split_ifs <;> rfl

theorem ResidualFeasible.congr {alphabet : Text} {mappings : TextMappings} {a b : List (Text × ℕ)}
    (h : ∀ row, row ∈ a ↔ row ∈ b) :
    ResidualFeasible alphabet mappings a ↔ ResidualFeasible alphabet mappings b := by
  have hkeys : ∀ value, value ∈ a.map Prod.fst ↔ value ∈ b.map Prod.fst := by
    intro value
    simp only [List.mem_map, h]
  simp only [ResidualFeasible, h, hkeys]

section Reuse
variable {mappings : TextMappings}

/-- The reuse drops exactly the persisted originals, or refuses a row that no longer fits. -/
theorem reusePersisted_cases (mappings : TextMappings) (rows : List (Text × ℕ)) (spool : TextSpool) (reused : ℕ) :
    (Compatible mappings rows ∧ ∃ spool' reused', reusePersisted mappings rows spool reused = .ok (spool', reused') ∧
      spool'.observations.rows = spool.observations.rows.filter
        (fun row => ¬ (row.1 ∈ mappings.table.keys ∧ row.1 ∈ rows.map Prod.fst)) ∧
      reused' = reused + (rows.filter (·.1 ∈ mappings.table.keys)).length) ∨
    (¬ Compatible mappings rows ∧ ∃ e, reusePersisted mappings rows spool reused = .error e) := by
  induction rows generalizing spool reused with
  | nil => exact Or.inl ⟨by simp [Compatible], spool, reused, rfl, by simp, rfl⟩
  | cons row rest ih =>
    obtain ⟨value, width⟩ := row
    have hcompatible : Compatible mappings ((value, width) :: rest) ↔
        (∀ p, (value, p) ∈ mappings.table.rows → p.length ≤ width) ∧ Compatible mappings rest := by
      simp [Compatible]
    rw [hcompatible]
    cases hv : mappings.table.valueOf? value with
    | none =>
      have hkey := BijectiveTable.valueOf?_eq_none_iff.mp hv
      have hfits : ∀ p, (value, p) ∈ mappings.table.rows → p.length ≤ width :=
        fun p hp => absurd (BijectiveTable.mem_keys.mpr ⟨p, hp⟩) hkey
      simp only [reusePersisted, hv]
      rcases ih spool reused with ⟨hrest, spool', reused', hrun, hrows, hcount⟩ | ⟨hrest, herror⟩
      · refine Or.inl ⟨⟨hfits, hrest⟩, spool', reused', hrun, hrows.trans ?_, by simpa [hkey] using hcount⟩
        apply List.filter_congr
        intro row _
        rw [decide_eq_decide, List.map_cons, List.mem_cons]
        constructor
        · rintro hnot ⟨hmem, heq | htail⟩
          · exact hkey ((show row.1 = value from heq) ▸ hmem)
          · exact hnot ⟨hmem, htail⟩
        · exact fun hnot hboth => hnot ⟨hboth.1, Or.inr hboth.2⟩
      · exact Or.inr ⟨fun hboth => hrest hboth.2, herror⟩
    | some existing =>
      have hexisting := BijectiveTable.valueOf?_eq_some_iff.mp hv
      have hkey : value ∈ mappings.table.keys := BijectiveTable.mem_keys.mpr ⟨existing, hexisting⟩
      simp only [reusePersisted, hv]
      by_cases hwidth : width < existing.length
      · rw [if_pos hwidth]
        exact Or.inr ⟨fun hboth => absurd (hboth.1 existing hexisting) (not_le.mpr hwidth), _, rfl⟩
      · rw [if_neg hwidth]
        have hfits : ∀ p, (value, p) ∈ mappings.table.rows → p.length ≤ width := by
          intro p hp
          rw [mappings.table.snd_eq_of_mem hp hexisting]
          exact not_lt.mp hwidth
        rcases ih (spool.dropTextObservation value) (reused + 1) with
          ⟨hrest, spool', reused', hrun, hrows, hcount⟩ | ⟨hrest, herror⟩
        · refine Or.inl ⟨⟨hfits, hrest⟩, spool', reused', hrun, hrows.trans ?_, ?_⟩
          · have hdrop : (spool.dropTextObservation value).observations.rows =
                spool.observations.rows.filter fun row => row.1 ≠ value := rfl
            rw [hdrop, List.filter_filter]
            apply List.filter_congr
            intro row _
            rw [← Bool.decide_and, decide_eq_decide, List.map_cons, List.mem_cons]
            constructor
            · rintro ⟨hnot, hne⟩ ⟨hmem, heq | htail⟩
              · exact hne heq
              · exact hnot ⟨hmem, htail⟩
            · intro hnot
              exact ⟨fun hboth => hnot ⟨hboth.1, Or.inr hboth.2⟩, fun heq => hnot ⟨heq ▸ hkey, Or.inl heq⟩⟩
          · simp [hkey, hcount, Nat.add_assoc, Nat.add_comm 1]
        · exact Or.inr ⟨fun hboth => hrest hboth.2, herror⟩

end Reuse

/-- What the preparation of a finalization hands to the commits. -/
structure Prepared (codecs : Codecs) (scan : TextScan) (vault : VaultState) (prep : TextPreparation) : Prop where
  alphabet_eq : prep.alphabet = candidateAlphabet codecs scan.spool.encodings
  vault_eq : prep.vault = ensureTextDomain vault
  rows_eq : prep.spool.observations.rows = remainingRows (vault.textMappings globalTextDomainId) scan.spool
  reused_eq : prep.reused =
    (scan.spool.observations.rows.filter (·.1 ∈ (vault.textMappings globalTextDomainId).table.keys)).length
  solved : solveTextResidual prep.alphabet (vault.textMappings globalTextDomainId) prep.spool = some (.ok prep.plan)

section Prepare
variable {codecs : Codecs} {scan : TextScan} {vault : VaultState}

def remainingProblem (codecs : Codecs) (scan : TextScan) (mappings : TextMappings)
    (hinv : TextInvariant (candidateAlphabet codecs scan.spool.encodings) mappings) (spool : TextSpool)
    (hrows : spool.observations.rows = remainingRows mappings scan.spool)
    (hwidths : ∀ row ∈ remainingRows mappings scan.spool, 0 < row.2) : RemainingProblem where
  alphabet := candidateAlphabet codecs scan.spool.encodings
  alphabet_nodup := nodup_candidateAlphabet codecs _
  mappings := mappings
  pseudonyms_safe := hinv.pseudonyms_safe
  lengths_stored := hinv.lengths_stored
  spool := spool
  widths_pos row hrow := hwidths row (hrows ▸ hrow)
  few := by
    rw [hrows]
    exact (List.length_filter_le _ _).trans_lt scan.few
  alphabet_nul := nul_notMem_candidateAlphabet codecs _
  originals_unpersisted row hrow := by
    rw [hrows] at hrow
    simpa using (List.mem_filter.mp hrow).2

/-- The checks in front of the solver pass exactly on compatible rows and positive widths. -/
theorem reuseText_cases (codecs : Codecs) (vault : VaultState) (spool : TextSpool) :
    ((candidateAlphabet codecs spool.encodings ≠ [] ∧
        Compatible (vault.textMappings globalTextDomainId) spool.observations.rows ∧
        ∀ row ∈ remainingRows (vault.textMappings globalTextDomainId) spool, 0 < row.2) ∧
      ∃ spool', reuseText codecs vault spool = .ok (candidateAlphabet codecs spool.encodings, ensureTextDomain vault,
          spool', (spool.observations.rows.filter
            (·.1 ∈ (vault.textMappings globalTextDomainId).table.keys)).length) ∧
        spool'.observations.rows = remainingRows (vault.textMappings globalTextDomainId) spool) ∨
    (¬ (candidateAlphabet codecs spool.encodings ≠ [] ∧
        Compatible (vault.textMappings globalTextDomainId) spool.observations.rows ∧
        ∀ row ∈ remainingRows (vault.textMappings globalTextDomainId) spool, 0 < row.2) ∧
      ∃ e, reuseText codecs vault spool = .error e) := by
  generalize hmappings : vault.textMappings globalTextDomainId = mappings
  have hsame : ∀ row, row ∈ spool.textObservations ↔ row ∈ spool.observations.rows :=
    fun row => TextSpool.mem_textObservations
  unfold reuseText
  dsimp only
  rw [textMappings_ensureTextDomain, hmappings]
  by_cases halphabet : candidateAlphabet codecs spool.encodings = []
  · exact Or.inr ⟨fun h => h.1 halphabet, _, refuseIf_bind_pos halphabet⟩
  rw [refuseIf_bind_neg halphabet]
  rcases reusePersisted_cases mappings spool.textObservations spool 0 with
    ⟨hcompatible, spool', reused, hrun, hrows, hcount⟩ | ⟨hcompatible, e, hrun⟩
  · have hremaining : spool'.observations.rows = remainingRows mappings spool := by
      rw [hrows]
      apply List.filter_congr
      intro row hrow
      have hmem : row.1 ∈ spool.textObservations.map Prod.fst := List.mem_map_of_mem ((hsame row).mpr hrow)
      simp [hmem]
    have hreused : reused = (spool.observations.rows.filter (·.1 ∈ mappings.table.keys)).length := by
      rw [hcount, Nat.zero_add]
      exact (spool.textObservations_perm.filter _).length_eq
    rw [hrun, ok_bind]
    dsimp only
    by_cases hwidths : ∃ row ∈ spool'.observations.rows, row.2 < 1
    · refine Or.inr ⟨fun h => ?_, _, refuseIf_bind_pos hwidths⟩
      obtain ⟨row, hrow, hlt⟩ := hwidths
      have hpos := h.2.2 row (hremaining ▸ hrow)
      omega
    · have hpos : ∀ row ∈ remainingRows mappings spool, 0 < row.2 := by
        intro row hrow
        by_contra hzero
        exact hwidths ⟨row, hremaining ▸ hrow, by omega⟩
      rw [refuseIf_bind_neg hwidths, pure_eq_ok, hreused]
      exact Or.inl ⟨⟨halphabet, fun row hrow => hcompatible row ((hsame row).mpr hrow), hpos⟩, spool', rfl, hremaining⟩
  · refine Or.inr ⟨fun h => hcompatible fun row hrow => h.2.1 row ((hsame row).mp hrow), e, ?_⟩
    rw [hrun, error_bind]

theorem prepareText_cases (hinv : TextInvariant (candidateAlphabet codecs scan.spool.encodings)
      (vault.textMappings globalTextDomainId)) (hencodings : scan.spool.encodings ≠ []) :
    (Completable codecs scan.spool (vault.textMappings globalTextDomainId) ∧
      ∃ prep, prepareText codecs vault scan.spool = some (.ok (some prep)) ∧ Prepared codecs scan vault prep) ∨
    (¬ Completable codecs scan.spool (vault.textMappings globalTextDomainId) ∧
      ∃ e, prepareText codecs vault scan.spool = some (.error e)) := by
  unfold prepareText
  rw [if_neg hencodings]
  rcases reuseText_cases codecs vault scan.spool with
    ⟨⟨halphabet, hcompatible, hpos⟩, spool, hrun, hremaining⟩ | ⟨hrefused, e, hrun⟩
  · rw [hrun]
    dsimp only
    rw [textMappings_ensureTextDomain]
    let P := remainingProblem codecs scan _ hinv spool hremaining hpos
    have hfeasible : ResidualFeasible P.alphabet P.mappings P.rows ↔
        ResidualFeasible (candidateAlphabet codecs scan.spool.encodings) (vault.textMappings globalTextDomainId)
          (remainingRows (vault.textMappings globalTextDomainId) scan.spool) :=
      ResidualFeasible.congr fun row => by
        rw [← hremaining]
        exact TextSpool.mem_textObservations
    rcases P.toResidualProblem.solve_verdict P.alphabet_nul with ⟨plan, hsolve, -, -, hyes⟩ | ⟨hsolve, hno⟩
    · refine Or.inl ⟨⟨halphabet, hcompatible, hpos, hfeasible.mp hyes⟩, _, congrArg (Option.map _) hsolve, ?_⟩
      exact ⟨rfl, rfl, hremaining, rfl, hsolve⟩
    · exact Or.inr ⟨fun h => hno (hfeasible.mpr h.feasible), _, congrArg (Option.map _) hsolve⟩
  · rw [hrun]
    exact Or.inr ⟨fun h => hrefused ⟨h.alphabet_ne, h.compatible, h.widths_pos⟩, e, rfl⟩

end Prepare

/-- What a completed run leaves: the old rows, and one new row for each original that was missing. -/
structure TextCompleted (spool : TextSpool) (before after : TextMappings) : Prop where
  extends_rows : ∃ added, after.table.rows = before.table.rows ++ added ∧
    (added.map Prod.fst).Perm ((remainingRows before spool).map Prod.fst)
  total : ∀ row ∈ spool.observations.rows, ∃ p, (row.1, p) ∈ after.table.rows ∧ p.length ≤ row.2
  injective : (after.table.rows.map Prod.snd).Nodup
  no_fixed_point : ∀ row ∈ after.table.rows, row.2 ≠ row.1

theorem feasible_of_completion {alphabet : Text} {spool : TextSpool} {before after : TextMappings}
    (hinv : TextInvariant alphabet after) (hrows : ∃ more, after.table.rows = before.table.rows ++ more)
    (htotal : ∀ row ∈ spool.observations.rows, ∃ p, (row.1, p) ∈ after.table.rows ∧ p.length ≤ row.2) :
    ResidualFeasible alphabet before (remainingRows before spool) := by
  obtain ⟨more, hrows⟩ := hrows
  let f : Text → Text := fun value => (after.table.valueOf? value).getD []
  have hf : ∀ value p, (value, p) ∈ after.table.rows → f value = p := by
    intro value p hp
    simp only [f, BijectiveTable.valueOf?_eq_some_iff.mpr hp, Option.getD_some]
  have hreceives : ∀ row ∈ remainingRows before spool, ∃ p, f row.1 = p ∧ (row.1, p) ∈ after.table.rows ∧
      p.length ≤ row.2 := by
    intro row hrow
    obtain ⟨p, hp, hle⟩ := htotal row (List.mem_of_mem_filter hrow)
    exact ⟨p, hf _ _ hp, hp, hle⟩
  refine ⟨f, ?_, ?_⟩
  · rintro a ha b hb hab
    obtain ⟨rowa, hrowa, rfl⟩ := List.mem_map.mp ha
    obtain ⟨rowb, hrowb, rfl⟩ := List.mem_map.mp hb
    obtain ⟨p, hp, hpmem, -⟩ := hreceives rowa hrowa
    obtain ⟨q, hq, hqmem, -⟩ := hreceives rowb hrowb
    rw [hp, hq] at hab
    exact after.table.fst_eq_of_mem hpmem (hab ▸ hqmem)
  · intro row hrow
    obtain ⟨p, hp, hmem, hle⟩ := hreceives row hrow
    have hvalue : p ∈ after.table.values := BijectiveTable.mem_values.mpr ⟨_, hmem⟩
    rw [hp]
    refine ⟨hinv.pseudonyms_safe p hvalue, ?_, hle, hinv.no_fixed_point _ hmem⟩
    -- a persisted pseudonym belongs to a persisted original
    intro hold
    obtain ⟨key, hkey⟩ := BijectiveTable.mem_values.mp hold
    have hsame := after.table.fst_eq_of_mem hmem (hrows ▸ List.mem_append_left more hkey)
    have hunpersisted := (List.mem_filter.mp hrow).2
    rw [decide_eq_true_iff] at hunpersisted
    exact hunpersisted (hsame ▸ BijectiveTable.mem_keys.mpr ⟨p, hkey⟩)

theorem materializeTextAssignment_extends {rng : Csprng} {alphabet : Text} {graph : ResidualGraph}
    {rows : List (ResOriginal × Resource)} {st st' : TextState}
    (h : materializeTextAssignment rng alphabet graph rows st = .ok st') :
    ∃ more, st'.mappings.table.rows = st.mappings.table.rows ++ more := by
  refine foldlM_induction [] (fun _ (now : TextState) => ∃ more, now.mappings.table.rows =
    st.mappings.table.rows ++ more) ?_ ⟨[], by simp⟩ h
  rintro done row now next ⟨more, hmore⟩ hrun
  obtain ⟨⟨token, draws⟩, -, hrun⟩ := bind_eq_ok.mp hrun
  obtain ⟨mappings, hadd, hrun⟩ := bind_eq_ok.mp hrun
  cases hrun
  unfold addTextMapping at hadd
  cases htable : now.mappings.table.insert? row.1.canonical token with
  | none => simp [htable] at hadd
  | some table =>
    simp only [htable, Except.ok.injEq] at hadd
    rw [← hadd, (BijectiveTable.insert?_eq_some_iff.mp htable).2.2, hmore, List.append_assoc]
    exact ⟨_, rfl⟩

section Commits
variable {codecs : Codecs} {scan : TextScan} {vault : VaultState} {prep : TextPreparation}

theorem CommitInv.textInvariant {P : RemainingProblem} {done : List (ResOriginal × Resource)} {st : TextState}
    (h : CommitInv P done st) (hinv : TextInvariant P.alphabet P.mappings) :
    TextInvariant P.alphabet st.mappings where
  pseudonyms_safe := h.pseudonyms_safe
  lengths_stored := h.stored
  no_fixed_point row hrow := by
    obtain ⟨added, hrows, hall⟩ := h.rows
    rw [hrows, List.mem_append] at hrow
    rcases hrow with hrow | hrow
    · exact hinv.no_fixed_point row hrow
    · obtain ⟨_, -, hpair⟩ := exists_of_forall₂_right hall hrow
      exact hpair.2.2.2.2

/-- A run over completable rows completes them, and every stop on the way leaves completable rows. -/
theorem Prepared.exists_stop (hprep : Prepared codecs scan vault prep)
    (hinv : TextInvariant (candidateAlphabet codecs scan.spool.encodings) (vault.textMappings globalTextDomainId))
    (hc : Completable codecs scan.spool (vault.textMappings globalTextDomainId)) (rng : Csprng) (draws commits : ℕ) :
    ∃ stopped st, materializeTextAssignment rng prep.alphabet prep.plan.graph (prep.plan.assignments.take commits)
        ⟨vault.textMappings globalTextDomainId, prep.spool, draws⟩ = .ok stopped ∧
      materializeTextAssignment rng prep.alphabet prep.plan.graph prep.plan.assignments
        ⟨vault.textMappings globalTextDomainId, prep.spool, draws⟩ = .ok st ∧
      TextInvariant (candidateAlphabet codecs scan.spool.encodings) stopped.mappings ∧
      Completable codecs scan.spool stopped.mappings ∧
      TextCompleted scan.spool (vault.textMappings globalTextDomainId) st.mappings := by
  let P := remainingProblem codecs scan _ hinv prep.spool hprep.rows_eq hc.widths_pos
  have hsolve : solveTextResidual P.alphabet P.mappings P.spool = some (.ok prep.plan) := by
    have hsolved := hprep.solved
    rw [hprep.alphabet_eq] at hsolved
    exact hsolved
  rw [hprep.alphabet_eq]
  obtain ⟨stopped, hstop, hstopped⟩ := P.exists_commits hsolve rng draws commits
  obtain ⟨hgraph, hplan⟩ := P.assigned_of_solve hsolve
  obtain ⟨st, hrun, hcommits⟩ := P.exists_commits hsolve rng draws prep.plan.assignments.length
  rw [List.take_length] at hrun hcommits
  have hdone := hcommits.materialized hgraph hplan
  have hafter := hcommits.textInvariant hinv
  have hmore : ∃ more, st.mappings.table.rows = stopped.mappings.table.rows ++ more := by
    have hsplit := hrun
    rw [← List.take_append_drop commits prep.plan.assignments, materializeTextAssignment, List.foldlM_append] at hsplit
    obtain ⟨middle, hmiddle, hrest⟩ := bind_eq_ok.mp hsplit
    rw [materializeTextAssignment, hmiddle] at hstop
    cases hstop
    exact materializeTextAssignment_extends hrest
  obtain ⟨added, hrows, hreceived, hkeys⟩ := hdone.extends_rows
  have hremaining : ∀ row, row ∈ P.rows ↔ row ∈ remainingRows P.mappings scan.spool := by
    intro row
    have hrows_eq : P.spool.observations.rows = remainingRows P.mappings scan.spool := hprep.rows_eq
    rw [← hrows_eq]
    exact TextSpool.mem_textObservations
  have htotal : ∀ row ∈ scan.spool.observations.rows, ∃ p, (row.1, p) ∈ st.mappings.table.rows ∧ p.length ≤ row.2 := by
    intro row hrow
    by_cases hkey : row.1 ∈ P.mappings.table.keys
    · obtain ⟨p, hp⟩ := BijectiveTable.mem_keys.mp hkey
      exact ⟨p, hrows ▸ List.mem_append_left _ hp, hc.compatible row hrow p hp⟩
    · exact hdone.exists_row hsolve ((hremaining row).mpr (List.mem_filter.mpr ⟨hrow, decide_eq_true hkey⟩))
  have hsub : ∀ pair ∈ stopped.mappings.table.rows, pair ∈ st.mappings.table.rows := by
    obtain ⟨more, hmore⟩ := hmore
    exact fun pair hpair => hmore ▸ List.mem_append_left more hpair
  refine ⟨stopped, st, hstop, hrun, hstopped.textInvariant hinv, ⟨hc.alphabet_ne, ?_, ?_, ?_⟩, ⟨?_, htotal,
    hdone.injective, hafter.no_fixed_point⟩⟩
  · intro row hrow p hp
    obtain ⟨q, hq, hle⟩ := htotal row hrow
    exact st.mappings.table.snd_eq_of_mem (hsub _ hp) hq ▸ hle
  · intro row hrow
    obtain ⟨hobserved, hkey⟩ := List.mem_filter.mp hrow
    rw [decide_eq_true_iff] at hkey
    obtain ⟨old, hold, -⟩ := hstopped.rows
    have hunpersisted : row.1 ∉ P.mappings.table.keys := by
      intro hmem
      obtain ⟨p, hp⟩ := BijectiveTable.mem_keys.mp hmem
      exact hkey (BijectiveTable.mem_keys.mpr ⟨p, hold ▸ List.mem_append_left old hp⟩)
    exact hc.widths_pos row (List.mem_filter.mpr ⟨hobserved, decide_eq_true hunpersisted⟩)
  · exact feasible_of_completion hafter hmore htotal
  · refine ⟨added, hrows, ?_⟩
    have hrows_eq : P.spool.observations.rows = remainingRows P.mappings scan.spool := hprep.rows_eq
    rw [hkeys]
    exact hrows_eq ▸ P.spool.textObservations_perm.map Prod.fst

end Commits

/-- A run that stops before its first durable effect, between two commits, or after the last one. -/
inductive Interrupted (codecs : Codecs) (spool : TextSpool) : VaultState → VaultState → Prop
  | untouched (vault : VaultState) : Interrupted codecs spool vault vault
  | stopped {vault : VaultState} {rng : Csprng} {draws commits : ℕ} {out : TextFinalized}
      (h : finalizeTextUpTo codecs rng draws commits vault spool = some (.ok out)) :
      Interrupted codecs spool vault out.vault

/-- Vault rows from which every run over these observations succeeds. -/
structure TextReady (codecs : Codecs) (scan : TextScan) (vault : VaultState) : Prop where
  invariant : TextInvariant (candidateAlphabet codecs scan.spool.encodings) (vault.textMappings globalTextDomainId)
  completable : scan.spool.encodings ≠ [] → Completable codecs scan.spool (vault.textMappings globalTextDomainId)

section Runs
variable {codecs : Codecs} {scan : TextScan} {vault : VaultState}

theorem textReady_of_success (hinv : TextInvariant (candidateAlphabet codecs scan.spool.encodings)
      (vault.textMappings globalTextDomainId)) {rng : Csprng} {draws : ℕ} {out : TextFinalized}
    (h : finalizeText codecs rng draws vault scan.spool = some (.ok out)) : TextReady codecs scan vault where
  invariant := hinv
  completable hencodings := by
    rcases prepareText_cases hinv hencodings with ⟨hc, -⟩ | ⟨-, e, herror⟩
    · exact hc
    · rw [finalizeText, herror] at h
      cases h

@[simp] theorem textMappings_withMappings (prep : TextPreparation) (mappings : TextMappings) :
    (prep.withMappings mappings).textMappings globalTextDomainId = mappings := by
  simp [TextPreparation.withMappings]

theorem TextReady.interrupted (h : TextReady codecs scan vault) {vault' : VaultState}
    (hrun : Interrupted codecs scan.spool vault vault') : TextReady codecs scan vault' ∧
      ∃ more, (vault'.textMappings globalTextDomainId).table.rows =
        (vault.textMappings globalTextDomainId).table.rows ++ more := by
  cases hrun with
  | untouched => exact ⟨h, [], by simp⟩
  | @stopped rng draws commits out hrun =>
    by_cases hencodings : scan.spool.encodings = []
    · rw [finalizeTextUpTo, prepareText, if_pos hencodings] at hrun
      cases hrun
      exact ⟨h, [], by simp⟩
    · have hc := h.completable hencodings
      obtain ⟨prep, hprepare, hprep⟩ : ∃ prep, prepareText codecs vault scan.spool = some (.ok (some prep)) ∧
          Prepared codecs scan vault prep := by
        rcases prepareText_cases h.invariant hencodings with ⟨-, hprepared⟩ | ⟨hno, -⟩
        · exact hprepared
        · exact absurd hc hno
      obtain ⟨stopped, st, hstop, -, hinv, hcompletable, -⟩ := hprep.exists_stop h.invariant hc rng draws commits
      have hmappings : prep.vault.textMappings = vault.textMappings := by
        rw [hprep.vault_eq, textMappings_ensureTextDomain]
      have hout : out = ⟨prep.withMappings stopped.mappings, some globalTextDomainId,
          (prep.plan.assignments.take commits).length, prep.reused⟩ := by
        simp only [finalizeTextUpTo, hprepare, Option.map_some, ok_bind, TextPreparation.commit, hmappings, hstop,
          pure_eq_ok, Option.some.injEq, Except.ok.injEq] at hrun
        exact hrun.symm
      subst hout
      refine ⟨⟨?_, fun _ => ?_⟩, ?_⟩
      · rwa [textMappings_withMappings]
      · rwa [textMappings_withMappings]
      · rw [textMappings_withMappings]
        exact materializeTextAssignment_extends hstop

theorem TextReady.finalizeText (h : TextReady codecs scan vault) (rng : Csprng) (draws : ℕ) :
    ∃ out, Engine.finalizeText codecs rng draws vault scan.spool = some (.ok out) ∧
      TextCompleted scan.spool (vault.textMappings globalTextDomainId)
        (out.vault.textMappings globalTextDomainId) := by
  by_cases hencodings : scan.spool.encodings = []
  · have hnone : scan.spool.observations.rows = [] := observations_of_encodings_nil hencodings
    refine ⟨⟨vault, none, 0, 0⟩, ?_, ⟨[], by simp, by simp [remainingRows, hnone]⟩, ?_, ?_, ?_⟩
    · rw [Engine.finalizeText, prepareText, if_pos hencodings]
      rfl
    · simp [hnone]
    · exact (vault.textMappings globalTextDomainId).table.values_nodup
    · exact h.invariant.no_fixed_point
  · have hc := h.completable hencodings
    rcases prepareText_cases h.invariant hencodings with ⟨-, prep, hprepare, hprep⟩ | ⟨hno, -⟩
    · obtain ⟨-, st, -, hrun, -, -, hcompleted⟩ := hprep.exists_stop h.invariant hc rng draws 0
      have hmappings : prep.vault.textMappings = vault.textMappings := by
        rw [hprep.vault_eq, textMappings_ensureTextDomain]
      refine ⟨⟨prep.withMappings st.mappings, some globalTextDomainId, prep.plan.assignments.length, prep.reused⟩,
        ?_, ?_⟩
      · simp only [Engine.finalizeText, hprepare, Option.map_some, ok_bind, TextPreparation.commit, hmappings, hrun,
          pure_eq_ok]
      · rwa [textMappings_withMappings]
    · exact absurd hc hno

/-- The rows of a vault survive any number of interrupted runs. -/
theorem TextReady.interruptedRuns (h : TextReady codecs scan vault) {vault' : VaultState}
    (hruns : Relation.ReflTransGen (Interrupted codecs scan.spool) vault vault') : TextReady codecs scan vault' ∧
      ∃ more, (vault'.textMappings globalTextDomainId).table.rows =
        (vault.textMappings globalTextDomainId).table.rows ++ more := by
  induction hruns with
  | refl => exact ⟨h, [], by simp⟩
  | tail _ hrun ih =>
    obtain ⟨hready, more, hmore⟩ := ih
    obtain ⟨hnext, added, hadded⟩ := hready.interrupted hrun
    exact ⟨hnext, more ++ added, by rw [hadded, hmore, List.append_assoc]⟩

end Runs

/-- After any number of interruptions a run completes, with every earlier row and the missing ones. -/
theorem finalizeText_resumes (codecs : Codecs) (scan : TextScan) {first vault : VaultState}
    (hinv : TextInvariant (candidateAlphabet codecs scan.spool.encodings) (first.textMappings globalTextDomainId))
    (hfirst : ∃ rng draws out, finalizeText codecs rng draws first scan.spool = some (.ok out))
    (hruns : Relation.ReflTransGen (Interrupted codecs scan.spool) first vault) (rng : Csprng) (draws : ℕ) :
    (∃ more, (vault.textMappings globalTextDomainId).table.rows =
        (first.textMappings globalTextDomainId).table.rows ++ more) ∧
      ∃ out, finalizeText codecs rng draws vault scan.spool = some (.ok out) ∧
        TextCompleted scan.spool (vault.textMappings globalTextDomainId)
          (out.vault.textMappings globalTextDomainId) := by
  obtain ⟨rng₀, draws₀, out, hsuccess⟩ := hfirst
  obtain ⟨hready, hmore⟩ := (textReady_of_success hinv hsuccess).interruptedRuns hruns
  exact ⟨hmore, hready.finalizeText rng draws⟩

/-- Every character takes one byte. -/
def plainCodecs : Codecs := fun _ text => some (text.map fun _ => 0)

/-- Two one-letter originals and a longer one. -/
def threeNames : TextScan where
  occurrences := [⟨['A'], 1, ['e']⟩, ⟨['B'], 1, ['e']⟩, ⟨['J', 'O'], 2, ['e']⟩]
  few := by decide

theorem threeNames_resumed : ∃ vault, Interrupted plainCodecs threeNames.spool .empty vault ∧
    (vault.textMappings globalTextDomainId).table.rows.length = 1 ∧
    ∃ out, finalizeText plainCodecs default 0 vault threeNames.spool = some (.ok out) ∧
      TextCompleted threeNames.spool (vault.textMappings globalTextDomainId)
        (out.vault.textMappings globalTextDomainId) := by
  have hinv : TextInvariant (candidateAlphabet plainCodecs threeNames.spool.encodings)
      (VaultState.empty.textMappings globalTextDomainId) := by
    constructor <;> simp [VaultState.empty, TextMappings.empty]
  obtain ⟨out, hstop, hone⟩ : ∃ out, finalizeTextUpTo plainCodecs default 0 1 .empty threeNames.spool =
      some (.ok out) ∧ (out.vault.textMappings globalTextDomainId).table.rows.length = 1 := ⟨_, rfl, rfl⟩
  obtain ⟨-, hdone⟩ := finalizeText_resumes plainCodecs threeNames hinv ⟨default, 0, _, rfl⟩
    (.single (.stopped hstop)) default 0
  exact ⟨out.vault, .stopped hstop, hone, hdone⟩

end DbfAnonymizer.Engine
