import DbfAnonymizer.Engine.PublicationFailure
import DbfAnonymizer.Engine.PublicationRetry

/-! What a completed publication still answers, wherever the removal of its private metadata stops. -/
namespace DbfAnonymizer.Engine
open Lib

section Cleanup
variable (sha256 : List UInt8 → Text) (identity : PublicationIdentity) (b : Build)

/-- Disks behind a completed run whose cleanup is killed or raises, and behind retries that each stop anywhere. -/
inductive CleanupStops : Disk → Prop
  | killed {start : Disk} (hready : Ready identity start) (count : ℕ)
      (hdone : Effect.position (.completeOperation b.result) <
        positionOf (stopAfter sha256 identity count (runEffects b) (.start start)).2) :
      CleanupStops (stopAfter sha256 identity count (runEffects b) (.start start)).1.disk
  | raised {start final : Disk} {s : RunState} {next : Effect} (hready : Ready identity start) (count : ℕ)
      (hstop : stopAfter sha256 identity count (runEffects b) (.start start) = (s, some next))
      (hdone : Effect.position (.completeOperation b.result) < next.position) (kind : ExceptionKind)
      (hfinal : handle identity s next kind = .ok final) : CleanupStops final
  | retried {d d' : Disk} (h : CleanupStops d) (hd : Classified sha256 identity d d') : CleanupStops d'
  -- a stale lease and the leftovers of a spool are removed by hand
  | released {d : Disk} (h : CleanupStops d) (writerLease spool evidence : Bool) :
      CleanupStops { d with writerLease, spool, evidence }

def completedResult (outputFingerprint : Text) : TwoPassResult :=
  { b.result with operationId := identity.operationId, outputFingerprint := some outputFingerprint, reusedExisting := true }

/-- What may be left of the staging root of a completed run. -/
structure Residue (outputFingerprint : Text) (t : StagingTree) : Prop where
  tables : t.tables = none ∨ t.tables = some []
  dataset : t.dataset = none
  strays : t.strays = []
  transaction : t.transaction = none ∨ t.transaction = some (.record (crashRecord identity .promoted outputFingerprint))

/-- The completed row, the published dataset it speaks of, and a residue at most. -/
structure CompletedDisk (outputFingerprint : Text) (d : Disk) : Prop where
  row : d.vault.operationRecord identity.operationId =
    some (operationRowAt identity b.result (Effect.position .removeTables) outputFingerprint)
  bound : (d.vault.operationForDestination identity.destinationIdentity).map Prod.fst = some identity.operationId
  published : fingerprintDataset sha256 d.destination = .ok outputFingerprint
  residue : ∀ t, d.staging = some t → Residue identity outputFingerprint t

end Cleanup

section Cleanup
variable {sha256 : List UInt8 → Text} {identity : PublicationIdentity} {b : Build} {start d d' : Disk} {n : ℕ}
  {result : TwoPassResult} {tables : List ℕ} {tree : DatasetTree} {s : RunState} {output : Text}

theorem VaultAt.bound {vault : OperationStore} (h : VaultAt identity start result n output vault)
    (hready : Ready identity start) (hbegun : 1 < n) :
    (vault.operationForDestination identity.destinationIdentity).map Prod.fst = some identity.operationId := by
  have hown := h.own (passed_eq_true.mpr hbegun)
  have hmem : (identity.operationId, operationRowAt identity result n output) ∈ vault.operations.rows :=
    KeyedTable.lookup_eq_some_iff.mp hown
  unfold OperationStore.operationForDestination
  cases hfind : vault.operations.rows.find? (·.2.destinationIdentity = some identity.destinationIdentity) with
  | none => exact absurd (List.find?_eq_none.mp hfind _ hmem) (by simp [operationRowAt])
  | some row =>
    have hdestination := List.find?_some hfind
    by_contra hother
    have hkept : row ∈ (vault.operations.erase identity.operationId).rows := by
      refine KeyedTable.mem_erase.mpr ⟨?_, List.mem_of_find?_eq_some hfind⟩
      simpa using hother
    rw [h.others] at hkept
    exact absurd hdestination (List.find?_eq_none.mp hready.destination_free row hkept)

theorem At.completed (hready : Ready identity start) (h : At identity start b.result n sha256 [] tree s) (hn : 28 < n) :
    CompletedDisk sha256 identity b s.outputFingerprint s.disk where
  row := by
    have hrow := h.vault.own (passed_eq_true.mpr (lt_trans (by decide) hn))
    have hpassed : passed (.completeOperation b.result) n = true := passed_eq_true.mpr hn
    rw [hrow]
    simp [operationRowAt, hpassed, Effect.position]
  bound := h.vault.bound hready (lt_trans (by decide) hn)
  published := by
    rw [(h.destination_after (lt_trans (by decide) hn)).1]
    exact h.fingerprinted (passed_eq_true.mpr (lt_trans (by decide) hn))
  residue t ht := by
    rw [h.staging, stagingAt] at ht
    have hrename : passed .rename n = true := passed_eq_true.mpr (lt_trans (by decide) hn)
    have hphase : phaseAt n = .promoted := if_pos (passed_eq_true.mpr (lt_trans (by decide) hn))
    by_cases hroot : (passed .makeRoot n && !passed .removeRoot n) = true
    · rw [if_pos hroot] at ht
      cases ht
      refine ⟨?_, by simp [hrename], rfl, ?_⟩
      · dsimp only
        split_ifs
        · exact Or.inr rfl
        · exact Or.inl rfl
      · dsimp only
        rw [hphase]
        split_ifs
        · exact Or.inr rfl
        · exact Or.inl rfl
    · rw [if_neg hroot] at ht
      cases ht

/-- Behind the completion no record is written, and no handler takes anything back but the lease and the spool. -/
theorem handle_completed {next : Effect} {kind : ExceptionKind} {final : Disk} (hrenamed : s.renamed = true)
    (hnext : 28 < next.position) (hfinal : handle identity s next kind = .ok final) :
    final.vault = s.disk.vault ∧ final.destination = s.disk.destination ∧ final.staging = s.disk.staging := by
  have hdrop : dropTemporary next kind s.disk = s.disk := by
    cases next with
    | writeTemporary phase => cases phase <;> exact absurd hnext (by decide)
    | replaceRecord phase => cases phase <;> exact absurd hnext (by decide)
    | _ => cases kind <;> rfl
  rw [handle_keeps (Or.inr (Or.inl hrenamed)), hdrop] at hfinal
  cases hfinal
  exact ⟨rfl, rfl, rfl⟩

theorem CompletedDisk.congr (h : CompletedDisk sha256 identity b output d) (hvault : d'.vault = d.vault)
    (hdestination : d'.destination = d.destination)
    (hresidue : ∀ t, d'.staging = some t → Residue identity output t) : CompletedDisk sha256 identity b output d' :=
  ⟨hvault ▸ h.row, hvault ▸ h.bound, hdestination ▸ h.published, hresidue⟩

theorem Residue.partlyRemoved {t t' : StagingTree} (h : Residue identity output t) (hleft : PartlyRemoved t (some t')) :
    Residue identity output t' := by
  cases hleft with
  | entries htables htransaction htemporary =>
    refine ⟨?_, h.dataset, h.strays, ?_⟩
    · rcases htables with hnone | hsame
      · exact Or.inl hnone
      · exact hsame ▸ h.tables
    · rcases htransaction with hnone | hsame
      · exact Or.inl hnone
      · exact hsame ▸ h.transaction

/-- Wherever the cleanup and the retries stop, the operation stays completed. -/
theorem CleanupStops.completed (h : CleanupStops sha256 identity b d) :
    ∃ output, CompletedDisk sha256 identity b output d := by
  induction h with
  | @killed start hready count hdone =>
    have hfront : InFront sha256 identity start b.result (stopAfter sha256 identity count (runEffects b) (.start start)) :=
      inFront_stopAfter hready b count
    obtain ⟨tables, tree, hat, htables⟩ := hfront
    change 28 < _ at hdone
    obtain rfl := htables (by omega)
    exact ⟨_, hat.completed hready hdone⟩
  | @raised start final s next hready count hstop hdone kind hfinal =>
    have hfront : InFront sha256 identity start b.result (s, some next) := hstop ▸ inFront_stopAfter hready b count
    obtain ⟨tables, tree, hat, htables⟩ := hfront
    change 28 < next.position at hdone
    change next.position ≠ 13 → tables = [] at htables
    change At identity start b.result next.position sha256 tables tree s at hat
    obtain rfl := htables (by omega)
    have hrenamed : s.renamed = true := hat.renamed.trans (passed_eq_true.mpr (lt_trans (by decide) hdone))
    obtain ⟨hvault, hdestination, hstaging⟩ := handle_completed hrenamed hdone hfinal
    have hcompleted := hat.completed hready hdone
    exact ⟨_, hcompleted.congr hvault hdestination fun t ht => hcompleted.residue t (hstaging ▸ ht)⟩
  | retried h hd ih =>
    obtain ⟨output, hcompleted⟩ := ih
    cases hd with
    | unchanged => exact ⟨output, hcompleted⟩
    | @reconciled t result staging ht hresult hleft =>
      refine ⟨output, hcompleted.congr rfl rfl fun t' ht' => ?_⟩
      obtain rfl : staging = some t' := ht'
      exact (hcompleted.residue t ht).partlyRemoved hleft
  | released h writerLease spool evidence ih =>
    obtain ⟨output, hcompleted⟩ := ih
    exact ⟨output, hcompleted.congr rfl rfl hcompleted.residue⟩

theorem crashRecord_coherent : (crashRecord identity .promoted output).coherent identity output = true := by
  simp [crashRecord, CrashRecord.coherent]

theorem Residue.reconcile {t : StagingTree} (h : Residue identity output t) :
    reconcileCompletedStagingResidual identity output t =
      if t.transaction = none then .error (publicationFailure "COMPLETED_STAGING_STATE_MISSING") else .ok () := by
  rcases h.transaction with hnone | hrecord
  · rw [reconcileCompletedStagingResidual, hnone, if_pos rfl]
  · have howned : t.residualIsOwned = true := by
      rcases h.tables with htables | htables <;> simp [StagingTree.residualIsOwned, h.dataset, h.strays, htables]
    simp [reconcileCompletedStagingResidual, hrecord, crashRecord_coherent, howned, refuseIf]

theorem operationRowAt_boundTo : (operationRowAt identity result n output).boundTo identity = true := by
  simp [operationRowAt, OperationRow.boundTo]

theorem completedEvidence_eq (result : TwoPassResult) {row : OperationRow} {receipt : Receipt}
    (hstored : row.outputFingerprint = some output)
    (hreceipt : row.resultJson = some receipt) (hpublished : fingerprintDataset sha256 d.destination = .ok output)
    (hparsed : resultFromReceipt receipt = .ok result) (hoperation : result.operationId = some identity.operationId)
    (houtput : result.outputFingerprint = some output) :
    completedEvidence sha256 identity d row =
      match d.staging with
      | none => .ok result
      | some t => do
        reconcileCompletedStagingResidual identity output t
        return result := by
  have hsame : ¬ (result.operationId ≠ some identity.operationId ∨ result.outputFingerprint ≠ some output) := by
    simp [hoperation, houtput]
  simp only [completedEvidence, hstored, hreceipt, hpublished, ok_bind, hparsed]
  rw [refuseIf_bind_neg (by simp), refuseIf_bind_neg hsame]
  rfl

theorem CompletedDisk.existing (h : CompletedDisk sha256 identity b output d) :
    existingCompletedResult sha256 identity d =
      if (d.staging.bind StagingTree.transaction).isNone ∧ d.staging.isSome then
        .error (publicationFailure "COMPLETED_STAGING_STATE_MISSING")
      else .ok (some (completedResult identity b output)) := by
  have hevidence : completedEvidence sha256 identity d
      (operationRowAt identity b.result (Effect.position .removeTables) output) =
        if (d.staging.bind StagingTree.transaction).isNone ∧ d.staging.isSome then
          .error (publicationFailure "COMPLETED_STAGING_STATE_MISSING")
        else .ok (completedResult identity b output) := by
    rw [completedEvidence_eq (completedResult identity b output) rfl rfl h.published rfl rfl rfl]
    cases hstaging : d.staging with
    | none => simp
    | some t =>
      dsimp only
      rw [(h.residue t hstaging).reconcile]
      cases htransaction : t.transaction <;> simp [htransaction]
  unfold existingCompletedResult
  rw [h.row]
  dsimp only
  rw [refuseIf_bind_neg (by simp [operationRowAt_boundTo]), refuseIf_bind_neg (by simp [h.bound]), hevidence]
  split_ifs
  · rfl
  · rfl

/-- While its residue can be told, a completed operation answers every retry, unless sensitive residue is left. -/
theorem CleanupStops.retry_eq (h : CleanupStops sha256 identity b d)
    (hrecord : ∀ t, d.staging = some t → t.transaction ≠ none) :
    ∃ output, fingerprintDataset sha256 d.destination = .ok output ∧ retry sha256 identity d = do
      refuseLeftovers d
      return some (completedResult identity b output) := by
  obtain ⟨output, hcompleted⟩ := h.completed
  refine ⟨output, hcompleted.published, ?_⟩
  have hkept : ¬ ((d.staging.bind StagingTree.transaction).isNone ∧ d.staging.isSome) := by
    rintro ⟨hnone, hsome⟩
    obtain ⟨t, ht⟩ := Option.isSome_iff_exists.mp hsome
    rw [ht, Option.bind_some, Option.isNone_iff_eq_none] at hnone
    exact hrecord t ht hnone
  rw [retry, hcompleted.existing, if_neg hkept]
  rfl

end Cleanup

/-- A cleanup that cannot remove the crash record raises, and the retry returns what was completed. -/
theorem ordersCleanup_retry : ∃ final, CleanupStops ordersDigest ordersIdentity ordersBuild final ∧
    final.staging.isSome = true ∧ ∃ output, fingerprintDataset ordersDigest final.destination = .ok output ∧
      retry ordersDigest ordersIdentity final =
        .ok (some (completedResult ordersIdentity ordersBuild output)) := by
  have hstop : (stopAfter ordersDigest ordersIdentity 31 (runEffects ordersBuild) (.start blankDisk)).2 =
      some .removeRecord := by decide
  have hraised := CleanupStops.raised blankDisk_ready 31 (Prod.ext rfl hstop) (by decide) .osError rfl
  obtain ⟨output, hpublished, hretry⟩ := hraised.retry_eq fun t ht => by
    cases ht
    simp
  exact ⟨_, hraised, rfl, output, hpublished, hretry⟩

/-- A killed cleanup leaves its spool, and a cleanup that stops behind the crash record leaves its root. -/
theorem ordersCleanup_refused :
    (∃ d, CleanupStops ordersDigest ordersIdentity ordersBuild d ∧
      retry ordersDigest ordersIdentity d = .error (spoolFailure "LEFTOVER_REFUSED")) ∧
    ∃ d, CleanupStops ordersDigest ordersIdentity ordersBuild d ∧
      retry ordersDigest ordersIdentity d = .error (publicationFailure "COMPLETED_STAGING_STATE_MISSING") := by
  have hstop : (stopAfter ordersDigest ordersIdentity 32 (runEffects ordersBuild) (.start blankDisk)).2 =
      some .removeRoot := by decide
  constructor
  · exact ⟨_, CleanupStops.killed blankDisk_ready 31 (by decide), rfl⟩
  · exact ⟨_, CleanupStops.raised blankDisk_ready 32 (Prod.ext rfl hstop) (by decide) .osError rfl, rfl⟩

end DbfAnonymizer.Engine
