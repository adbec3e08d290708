import DbfAnonymizer.Engine.PassOneReruns
import DbfAnonymizer.Engine.TwoPassEvidence

/-! Later runs on the same vault write the dataset of the first run again. -/
namespace DbfAnonymizer.Engine
open Transforms Vault Lib Verification

section Mono
variable {sources sources' : PassTwoSources} {d : FieldDirective} {value value' : Value}

/-- What a run reads stays in the vault, so its sources extend to those of a later run. -/
structure PassTwoSources.Extends (sources sources' : PassTwoSources) : Prop where
  vault : sources.vault ≤ sources'.vault
  textDomainId_eq : sources'.textDomainId = sources.textDomainId
  temporalOffset : ∀ offset, sources.temporalOffset = some offset → sources'.temporalOffset = some offset
  render_eq : sources'.render = sources.render

theorem transformField_mono (hextends : sources.Extends sources') (h : transformField sources d value = .ok value') :
    transformField sources' d value = .ok value' := by
  have hstr : sources'.str value = sources.str value := by
    cases value with
    | text _ => rfl
    | _ => simp only [PassTwoSources.str, hextends.render_eq]
  unfold transformField at h ⊢
  cases hdomain : d.numericDomainId with
  | some domainId =>
    simp only [hdomain] at h ⊢
    cases value with
    | int n =>
      dsimp only at h ⊢
      cases hp : sources.vault.numericPseudonym domainId n with
      | none => simp [hp] at h
      | some p =>
        rw [VaultState.numericPseudonym_mono hextends.vault hp]
        simpa [hp] using h
    | _ => exact h
  | none =>
    simp only [hdomain] at h ⊢
    cases haction : d.action with
    | pseudonymizeReversible =>
      simp only [haction] at h ⊢
      split_ifs at h ⊢
      · exact h
      · rw [hextends.textDomainId_eq]
        cases hid : sources.textDomainId with
        | none => simp [hid] at h
        | some domainId =>
          simp only [hid, hstr] at h ⊢
          cases hp : sources.vault.textPseudonym domainId (sources.str value) with
          | none => simp [hp] at h
          | some p =>
            rw [VaultState.textPseudonym_mono hextends.vault hp]
            simpa [hp] using h
    | shiftReversible =>
      simp only [haction] at h ⊢
      cases hoffset : sources.temporalOffset with
      | none => simp [hoffset] at h
      | some offset =>
        rw [hextends.temporalOffset offset hoffset]
        simpa [hoffset] using h
    | maskReversible =>
      simp only [haction] at h ⊢
      exact h
    | keep =>
      simp only [haction] at h ⊢
      exact h

variable {P : PlannedDataset} {t : TableDirective} {w : TableWritten}

theorem writeTable_mono (ht : t ∈ P.plan.tables) (hextends : sources.Extends sources')
    (h : writeTable sources P.plan.relations P.source t = .ok w) :
    writeTable sources' P.plan.relations P.source t = .ok w := by
  obtain ⟨stored, hbehind⟩ := PlannedDataset.exists_behind ht
  unfold writeTable at h ⊢
  rw [DatasetFiles.readTable_eq_ok.mpr hbehind.stored_eq, ok_bind] at h ⊢
  obtain ⟨outs, houts, h⟩ := bind_eq_ok.mp h
  have hrecords : stored.records.mapM (writeRecord sources' P.plan.relations t stored.schema) = .ok outs := by
    rw [mapM_eq_ok_iff] at houts ⊢
    refine houts.imp ?_
    intro record out hout
    unfold writeRecord at hout ⊢
    obtain ⟨transformed, htransformed, hout⟩ := bind_eq_ok.mp hout
    have hwritten := (transformRecord_eq_ok_iff hbehind).mp htransformed
    have hlater : RecordWritten sources' t stored.schema record transformed :=
      { hwritten with transformed := fun d hd => transformField_mono hextends (hwritten.transformed d hd) }
    rw [(transformRecord_eq_ok_iff hbehind).mpr hlater]
    exact hout
  rw [hrecords]
  exact h

end Mono

section Reruns
variable {env env' : PassOneEnvironment} {P : PlannedDataset} {vault later : VaultState} {st st' : PassOneState}

/-- The result of a later run: the same tables, records and relations, with every mapping reused. -/
def TwoPassResult.rerun (result : TwoPassResult) (spoolBytes : ℕ) : TwoPassResult := { result with
  textAllocated := 0
  textReused := result.textAllocated + result.textReused
  numericAllocated := result.numericAllocated.map fun row => (row.1, 0)
  evidenceSpoolBytes := spoolBytes }

/-- On any later vault a run writes the tables of the first one again, draws and all, and reports the same result but
for its allocations, of which there are none left, and the size of its spool. -/
theorem runPassTwo_stable (hdistinct : DistinctDomains P.plan env.temporalDomainId) (hinv : EngineVault env P vault)
    (h : passOne env P.plan P.source vault = some (.ok st)) (hup : st.vault ≤ later) (hlater : EngineVault env P later)
    (hsetting : SameSetting env env') (h' : passOne env' P.plan P.source later = some (.ok st')) (batch : ℕ)
    (render : Value → Text) (spoolBytes spoolBytes' : ℕ) {written : List TableWritten} {result : TwoPassResult}
    (hout : runPassTwo batch P.plan P.source st.vault env.temporalDomainId st.outcome render spoolBytes
      st.spool.evidence = .ok (written, result)) :
    runPassTwo batch P.plan P.source st'.vault env'.temporalDomainId st'.outcome render spoolBytes'
      st'.spool.evidence = .ok (written, result.rerun spoolBytes') := by
  have hdistinct' : DistinctDomains P.plan env'.temporalDomainId := hsetting.temporalDomainId_eq ▸ hdistinct
  have hgrown := hup.trans (passOne_done hdistinct' (hlater.congr hsetting) h').grows
  have houtcome := passOne_recount hdistinct hinv h hup hlater hsetting h'
  have hid : st'.outcome.textDomainId = st.outcome.textDomainId := by
    rw [houtcome]
    rfl
  obtain ⟨sources, hsources, hwritten, hresult⟩ := runPassTwo_eq_ok_iff.mp hout
  obtain ⟨hoffset, rfl⟩ := passTwoSources_eq_ok_iff.mp hsources
  have hparameter : ∀ offset, st.vault.temporalParameter (some env.temporalDomainId) = some offset →
      st'.vault.temporalParameter (some env'.temporalDomainId) = some offset := by
    intro offset hsome
    rw [hsetting.temporalDomainId_eq]
    exact VaultState.temporalParameter_mono hgrown hsome
  have hoffset' : P.plan.temporalPresent = true →
      (st'.vault.temporalParameter (some env'.temporalDomainId)).isSome = true := by
    intro hpresent
    obtain ⟨offset, hsome⟩ := Option.isSome_iff_exists.mp (hoffset hpresent)
    rw [hparameter offset hsome]
    rfl
  have hextends : PassTwoSources.Extends ⟨st.vault, if P.plan.textPresent then st.outcome.textDomainId else none,
        if P.plan.temporalPresent then st.vault.temporalParameter (some env.temporalDomainId) else none, render⟩
      ⟨st'.vault, if P.plan.textPresent then st'.outcome.textDomainId else none,
        if P.plan.temporalPresent then st'.vault.temporalParameter (some env'.temporalDomainId) else none, render⟩ := by
    constructor
    case vault => exact hgrown
    case textDomainId_eq => rw [hid]
    case temporalOffset =>
      intro offset hsome
      dsimp only at hsome ⊢
      split_ifs at hsome ⊢
      exact hparameter offset hsome
    case render_eq => rfl
  have hwritten' := mapM_ok_mono hwritten fun t ht w hw => writeTable_mono ht hextends hw
  refine runPassTwo_eq_ok_iff.mpr ⟨_, passTwoSources_eq_ok_iff.mpr ⟨hoffset', rfl⟩, hwritten', ?_⟩
  rw [hresult, passOne_evidence h, passOne_evidence h', hsetting.batch_eq, houtcome]
  rfl

/-- The same setting with another draw for the offset. -/
def redrawnEnvironment : PassOneEnvironment := { datedEnvironment with temporalRandomBelow := fun _ => 5 }

/-- A second run with other draws writes what the first one wrote. -/
theorem datedOrders_stable : ∃ st st' written result,
    passOne datedEnvironment datedOrders.plan datedOrders.source .empty = some (.ok st) ∧
    passOne redrawnEnvironment datedOrders.plan datedOrders.source st.vault = some (.ok st') ∧
    runPassTwo 2 datedOrders.plan datedOrders.source st'.vault ['t', 'd'] st'.outcome (fun _ => []) 0
      st'.spool.evidence = .ok (written, result) := by
  obtain ⟨st, st', out, hst, hst', hout⟩ : ∃ st st' out,
      passOne datedEnvironment datedOrders.plan datedOrders.source .empty = some (.ok st) ∧
        passOne redrawnEnvironment datedOrders.plan datedOrders.source st.vault = some (.ok st') ∧
        runPassTwo 2 datedOrders.plan datedOrders.source st.vault ['t', 'd'] st.outcome (fun _ => []) 0
          st.spool.evidence = .ok out := ⟨_, _, _, rfl, rfl, rfl⟩
  have hempty := engineVault_empty datedEnvironment datedOrders
  have hlater := (passOne_done datedOrders_distinct hempty hst).engineVault
  have hsetting : SameSetting datedEnvironment redrawnEnvironment := ⟨rfl, rfl, rfl⟩
  exact ⟨st, st', out.1, out.2.rerun 0, hst, hst', runPassTwo_stable datedOrders_distinct hempty hst (le_refl _) hlater
    hsetting hst' 2 (fun _ => []) 0 0 hout⟩

end Reruns
end DbfAnonymizer.Engine
