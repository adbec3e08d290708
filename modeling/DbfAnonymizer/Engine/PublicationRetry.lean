import DbfAnonymizer.Engine.PublicationProgress

/-! How a later run of the same plan classifies what an interrupted one left on the disk. -/
namespace DbfAnonymizer.Engine
open Lib

section Classify
variable {sha256 : List UInt8 → Text} {identity : PublicationIdentity} {d d' start : Disk} {row : OperationRow}
  {result : TwoPassResult} {answer : Option TwoPassResult}

theorem refuseLeftovers_eq_ok : refuseLeftovers d = .ok () ↔ d.spool = false ∧ d.evidence = false := by
  cases hspool : d.spool <;> cases hevidence : d.evidence <;> simp [refuseLeftovers, refuseIf, hspool, hevidence]

theorem retry_eq_ok : retry sha256 identity d = .ok answer ↔
    existingCompletedResult sha256 identity d = .ok answer ∧ d.spool = false ∧ d.evidence = false := by
  unfold retry
  constructor
  · intro h
    obtain ⟨existing, hexisting, h⟩ := bind_eq_ok.mp h
    obtain ⟨_, hleftovers, h⟩ := bind_eq_ok.mp h
    cases h
    exact ⟨hexisting, refuseLeftovers_eq_ok.mp hleftovers⟩
  · rintro ⟨hexisting, hleftovers⟩
    rw [hexisting, ok_bind, refuseLeftovers_eq_ok.mpr hleftovers]
    rfl

/-- A run starts afresh only where nothing of the operation or its destination is left. -/
theorem existingCompletedResult_fresh (h : existingCompletedResult sha256 identity d = .ok none) :
    d.vault.operationRecord identity.operationId = none ∧
      d.vault.operationForDestination identity.destinationIdentity = none ∧ d.staging = none ∧ d.destination = none := by
  unfold existingCompletedResult at h
  cases hrow : d.vault.operationRecord identity.operationId with
  | none =>
    rw [hrow] at h
    obtain ⟨_, hbound, h⟩ := bind_eq_ok.mp h
    obtain ⟨_, hstaging, h⟩ := bind_eq_ok.mp h
    obtain ⟨_, hdestination, -⟩ := bind_eq_ok.mp h
    simp only [refuseIf_eq_ok, Bool.not_eq_true, Option.isSome_eq_false_iff, Option.isNone_iff_eq_none] at hbound
    simp only [refuseIf_eq_ok, Bool.not_eq_true, Option.isSome_eq_false_iff, Option.isNone_iff_eq_none] at hstaging
    simp only [refuseIf_eq_ok, Bool.not_eq_true, Option.isSome_eq_false_iff, Option.isNone_iff_eq_none] at hdestination
    exact ⟨rfl, hbound, hstaging, hdestination⟩
  | some row =>
    rw [hrow] at h
    obtain ⟨_, _, h⟩ := bind_eq_ok.mp h
    obtain ⟨_, _, h⟩ := bind_eq_ok.mp h
    cases hstate : row.state with
    | started =>
      rw [hstate] at h
      cases h
    | completed =>
      rw [hstate] at h
      obtain ⟨_, _, h⟩ := bind_eq_ok.mp h
      cases h

theorem completedEvidence_sound (h : completedEvidence sha256 identity d row = .ok result) :
    ∃ stored receipt, row.outputFingerprint = some stored ∧ row.resultJson = some receipt ∧
      fingerprintDataset sha256 d.destination = .ok stored ∧ resultFromReceipt receipt = .ok result ∧
        result.outputFingerprint = some stored := by
  unfold completedEvidence at h
  cases hstored : row.outputFingerprint with
  | none =>
    rw [hstored] at h
    cases h
  | some stored =>
    cases hreceipt : row.resultJson with
    | none =>
      rw [hstored, hreceipt] at h
      cases h
    | some receipt =>
      rw [hstored, hreceipt] at h
      obtain ⟨actual, hactual, h⟩ := bind_eq_ok.mp h
      obtain ⟨_, hsame, h⟩ := bind_eq_ok.mp h
      obtain ⟨parsed, hparsed, h⟩ := bind_eq_ok.mp h
      obtain ⟨_, hmatch, h⟩ := bind_eq_ok.mp h
      have hresult : parsed = result := by
        cases hstaging : d.staging with
        | none =>
          rw [hstaging] at h
          cases h
          rfl
        | some t =>
          rw [hstaging] at h
          obtain ⟨_, _, h⟩ := bind_eq_ok.mp h
          cases h
          rfl
      subst hresult
      simp only [refuseIf_eq_ok, ne_eq, not_not] at hsame
      simp only [refuseIf_eq_ok, not_or, ne_eq, not_not] at hmatch
      exact ⟨stored, receipt, rfl, rfl, hsame ▸ hactual, hparsed, hmatch.2⟩

theorem existingCompletedResult_completed (h : existingCompletedResult sha256 identity d = .ok (some result)) :
    ∃ row, d.vault.operationRecord identity.operationId = some row ∧ row.state = .completed ∧
      completedEvidence sha256 identity d row = .ok result := by
  unfold existingCompletedResult at h
  cases hrow : d.vault.operationRecord identity.operationId with
  | none =>
    rw [hrow] at h
    obtain ⟨_, _, h⟩ := bind_eq_ok.mp h
    obtain ⟨_, _, h⟩ := bind_eq_ok.mp h
    obtain ⟨_, _, h⟩ := bind_eq_ok.mp h
    cases h
  | some row =>
    rw [hrow] at h
    obtain ⟨_, _, h⟩ := bind_eq_ok.mp h
    obtain ⟨_, _, h⟩ := bind_eq_ok.mp h
    cases hstate : row.state with
    | started =>
      rw [hstate] at h
      cases h
    | completed =>
      rw [hstate] at h
      obtain ⟨evidence, hevidence, h⟩ := bind_eq_ok.mp h
      cases h
      exact ⟨row, rfl, hstate, hevidence⟩

/-- A refusal that does not speak of a destination of someone else. -/
def NoConflict (e : Raised) : Prop := e.code? ≠ some .destinationConflict

theorem publicationFailure_noConflict (detailCode : String) : NoConflict (publicationFailure detailCode) := by
  simp [NoConflict, publicationFailure, Raised.code?]

theorem spoolFailure_noConflict (detailCode : String) : NoConflict (spoolFailure detailCode) := by
  simp [NoConflict, spoolFailure, Raised.code?]

theorem identityFailure_noConflict (detailCode : String) : NoConflict (identityFailure detailCode) := by
  simp [NoConflict, identityFailure, Raised.code?]

theorem fingerprintDataset_noConflict (root : Option PathNode) :
    RaisesOnly NoConflict (fingerprintDataset sha256 root) := by
  unfold fingerprintDataset
  split
  · refine RaisesOnly.bind (raisesOnly_mapM fun entry _ => ?_) fun _ _ => raisesOnly_ok _
    cases entry with
    | file relativePath content => exact raisesOnly_ok _
    | directoryLink => exact raisesOnly_error (publicationFailure_noConflict _)
    | irregular => exact raisesOnly_error (publicationFailure_noConflict _)
  · exact raisesOnly_error (publicationFailure_noConflict _)

theorem resultFromReceipt_noConflict (receipt : Receipt) : RaisesOnly NoConflict (resultFromReceipt receipt) := by
  cases receipt with
  | unreadable => exact raisesOnly_error (publicationFailure_noConflict _)
  | payload schemaVersion result =>
    by_cases hversion : schemaVersion = receiptSchemaVersion
    · simp only [resultFromReceipt, hversion, ne_eq, not_true, if_false]
      exact raisesOnly_ok _
    · simp only [resultFromReceipt, ne_eq, hversion, not_false_iff, if_true]
      exact raisesOnly_error (publicationFailure_noConflict _)

theorem reconcileCompletedStagingResidual_noConflict (stored : Text) (t : StagingTree) :
    RaisesOnly NoConflict (reconcileCompletedStagingResidual identity stored t) := by
  unfold reconcileCompletedStagingResidual
  split
  · exact raisesOnly_error (publicationFailure_noConflict _)
  · exact raisesOnly_error (publicationFailure_noConflict _)
  · refine (raisesOnly_refuseIf fun _ => publicationFailure_noConflict _).bind fun _ _ => ?_
    exact raisesOnly_refuseIf fun _ => publicationFailure_noConflict _

theorem completedEvidence_noConflict (row : OperationRow) :
    RaisesOnly NoConflict (completedEvidence sha256 identity d row) := by
  unfold completedEvidence
  split
  · refine (fingerprintDataset_noConflict _).bind fun _ _ => ?_
    refine (raisesOnly_refuseIf fun _ => publicationFailure_noConflict _).bind fun _ _ => ?_
    refine (resultFromReceipt_noConflict _).bind fun _ _ => ?_
    refine (raisesOnly_refuseIf fun _ => publicationFailure_noConflict _).bind fun _ _ => ?_
    split
    · exact raisesOnly_ok _
    · exact (reconcileCompletedStagingResidual_noConflict _ _).bind fun _ _ => raisesOnly_ok _
  · exact raisesOnly_error (publicationFailure_noConflict _)

/-- A row of the operation keeps every refusal apart from those of a destination that belongs to no one. -/
theorem retry_noConflict (hrow : d.vault.operationRecord identity.operationId = some row) :
    RaisesOnly NoConflict (retry sha256 identity d) := by
  have hexisting : RaisesOnly NoConflict (existingCompletedResult sha256 identity d) := by
    unfold existingCompletedResult
    rw [hrow]
    refine (raisesOnly_refuseIf fun _ => identityFailure_noConflict _).bind fun _ _ => ?_
    refine (raisesOnly_refuseIf fun _ => publicationFailure_noConflict _).bind fun _ _ => ?_
    split
    · exact raisesOnly_error (publicationFailure_noConflict _)
    · exact (completedEvidence_noConflict row).bind fun _ _ => raisesOnly_ok _
  have hleftovers : RaisesOnly NoConflict (refuseLeftovers d) := by
    refine (raisesOnly_refuseIf fun _ => spoolFailure_noConflict _).bind fun _ _ => ?_
    exact raisesOnly_refuseIf fun _ => spoolFailure_noConflict _
  exact hexisting.bind fun _ _ => hleftovers.bind fun _ _ => raisesOnly_ok _

end Classify

section Crash
variable (sha256 : List UInt8 → Text) (identity : PublicationIdentity)

/-- Disks behind runs and retries that each stop anywhere; the mark says that one of them has promoted. -/
inductive Crashed : Disk → Bool → Prop
  | initial (d : Disk) : Crashed d false
  | run {d : Disk} {promoted : Bool} (h : Crashed d promoted) (hfresh : retry sha256 identity d = .ok none) (b : Build)
      (count : ℕ) : Crashed (stopAfter sha256 identity count (runEffects b) (.start d)).1.disk
        (promoted || (stopAfter sha256 identity count (runEffects b) (.start d)).1.disk.destination.isSome)
  | classified {d d' : Disk} {promoted : Bool} (h : Crashed d promoted) (hd : Classified sha256 identity d d') :
      Crashed d' promoted
  -- a stale lease and the leftovers of a spool are removed by hand
  | released {d : Disk} {promoted : Bool} (h : Crashed d promoted) (writerLease spool evidence : Bool) :
      Crashed { d with writerLease, spool, evidence } promoted

end Crash

section Crash
variable {sha256 : List UInt8 → Text} {identity : PublicationIdentity} {d d' : Disk} {promoted : Bool} {b : Build}
  {count : ℕ}

theorem Ready.of_fresh (h : retry sha256 identity d = .ok none) (hlease : d.writerLease = false) : Ready identity d := by
  obtain ⟨hexisting, hspool, hevidence⟩ := retry_eq_ok.mp h
  obtain ⟨hrow, hbound, hstaging, -⟩ := existingCompletedResult_fresh hexisting
  exact ⟨KeyedTable.lookup_eq_none_iff.mp hrow, hbound, hlease, hstaging, hspool, hevidence⟩

theorem stopAfter_leaseHeld (hlease : d.writerLease = true) :
    (stopAfter sha256 identity count (runEffects b) (.start d)).1 = .start d := by
  cases count with
  | zero => rfl
  | succ count =>
    rw [runEffects, openingEffects, List.cons_append, stopAfter, perform, RunState.start, hlease]
    rfl

theorem operationRecord_of_promoted (hfresh : retry sha256 identity d = .ok none)
    (hdestination : (stopAfter sha256 identity count (runEffects b) (.start d)).1.disk.destination.isSome = true) :
    ∃ row, (stopAfter sha256 identity count (runEffects b) (.start d)).1.disk.vault.operationRecord
      identity.operationId = some row := by
  have hnone := (existingCompletedResult_fresh (retry_eq_ok.mp hfresh).1).2.2.2
  cases hlease : d.writerLease with
  | true =>
    rw [stopAfter_leaseHeld hlease, RunState.start, hnone] at hdestination
    cases hdestination
  | false =>
    obtain ⟨tables, tree, hat, -⟩ := inFront_stopAfter (Ready.of_fresh hfresh hlease) b count
    have hrename : passed .rename (positionOf (stopAfter sha256 identity count (runEffects b) (.start d)).2) = true := by
      by_contra hnot
      rw [hat.destination, destinationAt, if_neg hnot, hnone] at hdestination
      cases hdestination
    have hbegun := lt_trans (show Effect.position .beginOperation < Effect.position .rename by decide)
      (passed_eq_true.mp hrename)
    exact ⟨_, hat.vault.own (passed_eq_true.mpr hbegun)⟩

theorem Classified.vault_eq (h : Classified sha256 identity d d') : d'.vault = d.vault := by
  cases h <;> rfl

theorem Classified.destination_eq (h : Classified sha256 identity d d') : d'.destination = d.destination := by
  cases h <;> rfl

theorem Crashed.operation_kept (h : Crashed sha256 identity d promoted) (hpromoted : promoted = true) :
    ∃ row, d.vault.operationRecord identity.operationId = some row := by
  induction h with
  | initial d => cases hpromoted
  | @run d promoted h hfresh b count ih =>
    cases promoted with
    | true =>
      obtain ⟨row, hrow⟩ := ih rfl
      rw [(existingCompletedResult_fresh (retry_eq_ok.mp hfresh).1).1] at hrow
      cases hrow
    | false => exact operationRecord_of_promoted hfresh hpromoted
  | classified h hd ih => exact hd.vault_eq ▸ ih hpromoted
  | released h writerLease spool evidence ih => exact ih hpromoted

/-- Behind any crash a retry starts afresh, returns what is completed, or raises; what was promoted is not disowned. -/
theorem Crashed.retry_safe (h : Crashed sha256 identity d promoted) :
    (retry sha256 identity d = .ok none → d.vault.operationRecord identity.operationId = none ∧
      d.vault.operationForDestination identity.destinationIdentity = none ∧ d.staging = none ∧ d.destination = none) ∧
    (∀ result, retry sha256 identity d = .ok (some result) →
      ∃ row stored receipt, d.vault.operationRecord identity.operationId = some row ∧ row.state = .completed ∧
        row.outputFingerprint = some stored ∧ row.resultJson = some receipt ∧
          fingerprintDataset sha256 d.destination = .ok stored ∧ resultFromReceipt receipt = .ok result ∧
            result.outputFingerprint = some stored) ∧
    (∀ d', Classified sha256 identity d d' → d'.destination = d.destination) ∧
    (promoted = true → retry sha256 identity d ≠ .ok none ∧
      retry sha256 identity d ≠ .error (destinationConflict "UNOWNED_TARGET_EXISTS")) := by
  refine ⟨fun hfresh => ?_, fun result hresult => ?_, fun d' hd => hd.destination_eq, fun hpromoted => ?_⟩
  · exact existingCompletedResult_fresh (retry_eq_ok.mp hfresh).1
  · obtain ⟨row, hrow, hstate, hevidence⟩ := existingCompletedResult_completed (retry_eq_ok.mp hresult).1
    obtain ⟨stored, receipt, hall⟩ := completedEvidence_sound hevidence
    exact ⟨row, stored, receipt, hrow, hstate, hall⟩
  · obtain ⟨row, hrow⟩ := h.operation_kept hpromoted
    constructor
    · intro hfresh
      rw [(existingCompletedResult_fresh (retry_eq_ok.mp hfresh).1).1] at hrow
      cases hrow
    · intro hunowned
      exact retry_noConflict hrow _ hunowned rfl

end Crash

/-- A run that stops before it has closed the parent directory has promoted, and a retry raises for another reason. -/
theorem ordersClose_retry_safe :
    Crashed ordersDigest ordersIdentity
      (stopAfter ordersDigest ordersIdentity 25 (runEffects ordersBuild) (.start blankDisk)).1.disk true ∧
    retry ordersDigest ordersIdentity
      (stopAfter ordersDigest ordersIdentity 25 (runEffects ordersBuild) (.start blankDisk)).1.disk ≠ .ok none ∧
    retry ordersDigest ordersIdentity
      (stopAfter ordersDigest ordersIdentity 25 (runEffects ordersBuild) (.start blankDisk)).1.disk ≠
        .error (destinationConflict "UNOWNED_TARGET_EXISTS") := by
  have hcrashed : Crashed ordersDigest ordersIdentity
      (stopAfter ordersDigest ordersIdentity 25 (runEffects ordersBuild) (.start blankDisk)).1.disk true :=
    Crashed.run (Crashed.initial blankDisk) rfl ordersBuild 25
  exact ⟨hcrashed, hcrashed.retry_safe.2.2.2 rfl⟩

end DbfAnonymizer.Engine
