import DbfAnonymizer.Engine.PublicationProgress

/-! What a run that fails while it is being built leaves behind. -/
namespace DbfAnonymizer.Engine
open Lib

/-- The exception comes between an effect and the statement that records it. -/
def unrecorded (next : Effect) (kind : ExceptionKind) : Bool :=
  next = .noteStarted || next = .noteCreated || next = .noteSpool || next = .noteEvidence ||
    next = .noteRenamed || next = .closeParent || (next = .openParent || next = .syncParent) && kind = .other

/-- The promoted dataset stays, with its operation row and its crash record. -/
structure Kept (identity : PublicationIdentity) (raised final : Disk) : Prop where
  destination_eq : final.destination = raised.destination
  operation_kept : ∃ row, final.vault.operationRecord identity.operationId = some row ∧ row.state = .started
  record_kept : ∃ t r, final.staging = some t ∧ t.transaction = some (.record r)

section Failure
variable {sha256 : List UInt8 → Text} {identity : PublicationIdentity} {start : Disk} {result : TwoPassResult}
  {n : ℕ} {tables : List ℕ} {tree : DatasetTree} {s : RunState} {next : Effect} {kind : ExceptionKind}

theorem unrecorded_iff : unrecorded next kind = true ↔ next.position ∈ [2, 4, 10, 12, 24, 25] ∨
    next.position ∈ [22, 23] ∧ kind = .other := by
  cases next with
  | writeTemporary phase => cases phase <;> simp [unrecorded, Effect.position]
  | replaceRecord phase => cases phase <;> simp [unrecorded, Effect.position]
  | _ => simp [unrecorded, Effect.position]

theorem noticed_iff : noticed next kind = true ↔ next.position ∈ [22, 23] ∧ kind = .osError := by
  cases next with
  | writeTemporary phase => cases phase <;> simp [noticed, Effect.position]
  | replaceRecord phase => cases phase <;> simp [noticed, Effect.position]
  | _ => simp [noticed, Effect.position]

theorem dropTemporary_frame (next : Effect) (kind : ExceptionKind) (d : Disk) :
    (dropTemporary next kind d).vault = d.vault ∧ (dropTemporary next kind d).writerLease = d.writerLease ∧
      (dropTemporary next kind d).destination = d.destination ∧ (dropTemporary next kind d).spool = d.spool ∧
        (dropTemporary next kind d).evidence = d.evidence ∧
          (dropTemporary next kind d).staging.map StagingTree.transaction = d.staging.map StagingTree.transaction := by
  unfold dropTemporary
  split <;> simp [Function.comp_def]

/-- The handler of any other run only gives back the lease and the spool. -/
theorem handle_keeps (hkeep : s.operationStarted = false ∨ s.renamed = true ∨ noticed next kind = true) :
    handle identity s next kind = .ok
      { vault := s.disk.vault
        writerLease := if next = .acquireLease then s.disk.writerLease else false
        staging := (dropTemporary next kind s.disk).staging
        destination := s.disk.destination
        spool := if s.spoolOwned then false else s.disk.spool
        evidence := s.disk.evidence } := by
  obtain ⟨hvault, hlease, hdestination, hspool, hevidence, -⟩ := dropTemporary_frame next kind s.disk
  have hcond : (s.operationStarted && !(s.renamed || noticed next kind)) = false := by
    rcases hkeep with h | h | h <;> simp [h]
  simp only [handle, hcond, Bool.false_eq_true, if_false, ok_bind, pure_eq_ok, hvault, hlease, hdestination, hspool,
    hevidence]

theorem At.untouched (h : At identity start result n sha256 tables tree s) (hn : n ≤ 1) :
    s.operationStarted = false ∧ s.disk.vault = start.vault ∧ s.disk.staging = none ∧ s.disk.spool = false ∧
      s.disk.evidence = false := by
  refine ⟨h.started.trans (passed_eq_false.mpr ?_), h.vault.untouched (passed_eq_false.mpr hn), ?_, ?_, ?_⟩
  · exact hn.trans (by decide)
  · rw [h.staging, stagingAt, passed_eq_false.mpr (hn.trans (by decide))]
    rfl
  · rw [h.spool, passed_eq_false.mpr (hn.trans (by decide)), Bool.false_and]
  · rw [h.evidence, passed_eq_false.mpr (hn.trans (by decide)), Bool.false_and]

theorem At.record (h : At identity start result n sha256 tables tree s) (hafter : 8 < n) (hbefore : n ≤ 30) :
    ∃ t, s.disk.staging = some t ∧
      t.transaction = some (.record (crashRecord identity (phaseAt n) s.outputFingerprint)) := by
  have hroot : (passed .makeRoot n && !passed .removeRoot n) = true := by
    rw [passed_eq_true.mpr (lt_trans (by decide) hafter), passed_eq_false.mpr (hbefore.trans (by decide))]
    rfl
  have hrecord : (passed (.replaceRecord .running) n && !passed .removeRecord n) = true := by
    rw [passed_eq_true.mpr hafter, passed_eq_false.mpr hbefore]
    rfl
  refine ⟨_, h.staging.trans (if_pos hroot), ?_⟩
  exact if_pos hrecord

theorem At.destination_after (h : At identity start result n sha256 tables tree s) (hn : 21 < n) :
    s.disk.destination = some (.directory tree) ∧ start.destination = none :=
  ⟨h.destination.trans (if_pos (passed_eq_true.mpr hn)), h.target_free (passed_eq_true.mpr (lt_trans (by decide) hn))⟩

theorem At.kept (h : At identity start result n sha256 tables tree s) (hn : next.position = n) (hafter : 21 < n)
    (hopen : n ≤ 28) (hrecorded : unrecorded next kind = false) :
    ∃ final, handle identity s next kind = .ok final ∧ Kept identity s.disk final := by
  have hknown : s.renamed = true ∨ noticed next kind = true := by
    rw [Bool.eq_false_iff, ne_eq, unrecorded_iff, hn] at hrecorded
    simp only [List.mem_cons, List.not_mem_nil, or_false, not_or, not_and] at hrecorded
    by_cases hcall : n = 22 ∨ n = 23
    · refine Or.inr (noticed_iff.mpr ⟨by simpa [hn] using hcall, ?_⟩)
      cases kind with
      | osError => rfl
      | other => exact absurd rfl (hrecorded.2 hcall)
    · exact Or.inl (h.renamed.trans (passed_eq_true.mpr (show 25 < n by omega)))
  refine ⟨_, handle_keeps (Or.inr hknown), rfl, ?_, ?_⟩
  · refine ⟨_, h.vault.own (passed_eq_true.mpr (lt_trans (by decide) hafter)), ?_⟩
    have hnot : passed (.completeOperation result) n = false := passed_eq_false.mpr hopen
    simp [operationRowAt, hnot]
  · obtain ⟨t, ht, hrecord⟩ := h.record (by omega) (by omega)
    have hframe := (dropTemporary_frame next kind s.disk).2.2.2.2.2
    rw [ht, Option.map_some, Option.map_eq_some_iff] at hframe
    obtain ⟨t', ht', hsame⟩ := hframe
    exact ⟨t', _, ht', hsame.trans hrecord⟩

end Failure

theorem blankDisk_ready : Ready ordersIdentity blankDisk where
  operation_absent := by simp [blankDisk]
  destination_free := rfl
  lease_free := rfl
  staging_absent := rfl
  spool_absent := rfl
  evidence_absent := rfl

end DbfAnonymizer.Engine
