import DbfAnonymizer.Engine.PublicationRun

/-! The state of a building run at each of its positions, whatever it writes. -/
namespace DbfAnonymizer.Engine
open Lib

/-- The place of an effect in a run; all table effects share one. -/
def Effect.position : Effect → ℕ
  | .acquireLease => 0
  | .beginOperation => 1
  | .noteStarted => 2
  | .makeRoot => 3
  | .noteCreated => 4
  | .makeTables => 5
  | .makeDataset => 6
  | .writeTemporary .running => 7
  | .replaceRecord .running => 8
  | .createSpool => 9
  | .noteSpool => 10
  | .createEvidence => 11
  | .noteEvidence => 12
  | .stageTable _ | .assembleTable _ _ => 13
  | .cleanupEvidence => 14
  | .rebuildIndexes _ => 15
  | .fingerprintPayload => 16
  | .recordStaged => 17
  | .writeTemporary .readyToPromote => 18
  | .replaceRecord .readyToPromote => 19
  | .checkTarget => 20
  | .rename => 21
  | .openParent => 22
  | .syncParent => 23
  | .closeParent => 24
  | .noteRenamed => 25
  | .writeTemporary .promoted => 26
  | .replaceRecord .promoted => 27
  | .completeOperation _ => 28
  | .removeTables => 29
  | .removeRecord => 30
  | .removeRoot => 31
  | .releaseLease => 32
  | .cleanupSpool => 33

def Effect.isTable : Effect → Bool
  | .stageTable _ | .assembleTable _ _ => true
  | _ => false

/-- The parts of a run's state that its effects work on, one each. -/
inductive StatePart
  | notes | files | vault | trees | fingerprint
  deriving DecidableEq, Repr

def Effect.part : Effect → StatePart
  | .noteStarted | .noteCreated | .noteSpool | .noteEvidence | .noteRenamed => .notes
  | .openParent | .syncParent | .closeParent => .notes
  | .acquireLease | .createSpool | .createEvidence | .cleanupEvidence | .releaseLease | .cleanupSpool => .files
  | .beginOperation | .recordStaged | .completeOperation _ => .vault
  | .makeRoot | .makeTables | .makeDataset | .writeTemporary _ | .replaceRecord _ => .trees
  | .stageTable _ | .assembleTable _ _ | .rebuildIndexes _ | .checkTarget | .rename => .trees
  | .removeTables | .removeRecord | .removeRoot => .trees
  | .fingerprintPayload => .fingerprint

/-- The disk a building run starts on; only the destination may have appeared since the classification. -/
structure Ready (identity : PublicationIdentity) (d : Disk) : Prop where
  operation_absent : identity.operationId ∉ d.vault.operations.keys
  destination_free : d.vault.operationForDestination identity.destinationIdentity = none
  lease_free : d.writerLease = false
  staging_absent : d.staging = none
  spool_absent : d.spool = false
  evidence_absent : d.evidence = false

/-- Whether an effect lies before a position of the run. -/
def passed (e : Effect) (n : ℕ) : Bool := e.position < n

@[simp] theorem passed_eq_true {e : Effect} {n : ℕ} : passed e n = true ↔ e.position < n := by
  simp [passed]

@[simp] theorem passed_eq_false {e : Effect} {n : ℕ} : passed e n = false ↔ n ≤ e.position := by
  simp [passed]

theorem passed_succ {e : Effect} {n : ℕ} (h : n ≠ e.position) : passed e (n + 1) = passed e n := by
  rw [Bool.eq_iff_iff, passed_eq_true, passed_eq_true]
  omega

section At
variable (identity : PublicationIdentity) (start : Disk) (result : TwoPassResult) (n : ℕ)

def phaseAt : PublicationTxnPhase :=
  if passed (.replaceRecord .promoted) n then .promoted
  else if passed (.replaceRecord .readyToPromote) n then .readyToPromote else .running

/-- The staging root in front of the effect at a position. -/
def stagingAt (tables : List ℕ) (tree : DatasetTree) (outputFingerprint : Text) : Option StagingTree :=
  if passed .makeRoot n && !passed .removeRoot n then some
    { tables := if passed .makeTables n && !passed .removeTables n then some tables else none
      dataset := if passed .makeDataset n && !passed .rename n then some tree else none
      transaction :=
        if passed (.replaceRecord .running) n && !passed .removeRecord n then
          some (.record (crashRecord identity (phaseAt n) outputFingerprint))
        else none
      temporary := n = Effect.position (.replaceRecord .running) ||
        n = Effect.position (.replaceRecord .readyToPromote) || n = Effect.position (.replaceRecord .promoted)
      strays := [] }
  else none

def destinationAt (tree : DatasetTree) : Option PathNode :=
  if passed .rename n then some (.directory tree) else start.destination

def operationRowAt (outputFingerprint : Text) : OperationRow where
  state := if passed (.completeOperation result) n then .completed else .started
  sourceFingerprint := identity.sourceFingerprint
  policyFingerprint := identity.policyFingerprint
  relationshipFingerprint := identity.relationshipFingerprint
  vaultFingerprint := identity.vaultFingerprint
  destinationIdentity := identity.destinationIdentity
  bindingFingerprint := identity.bindingFingerprint
  outputFingerprint := if passed (.completeOperation result) n then some outputFingerprint else none
  resultJson :=
    if passed (.completeOperation result) n then some (resultReceipt
      { result with operationId := identity.operationId, outputFingerprint := some outputFingerprint })
    else none

/-- The rows of other operations stay, and from its start on the operation has one row of its own. -/
structure VaultAt (outputFingerprint : Text) (vault : OperationStore) : Prop where
  untouched : passed .beginOperation n = false → vault = start.vault
  others : vault.operations.erase identity.operationId = start.vault.operations
  publication : vault.publication.retain (·.1 ≠ identity.operationId) = start.vault.publication
  own : passed .beginOperation n = true →
    vault.operationRecord identity.operationId = some (operationRowAt identity result n outputFingerprint)

/-- The variables that the exception handler reads. -/
structure NotesAt (started created renamed spoolOwned evidenceRoot : Bool) : Prop where
  started : started = passed .noteStarted n
  created : created = passed .noteCreated n
  renamed : renamed = passed .noteRenamed n
  spoolOwned : spoolOwned = passed .noteSpool n
  evidenceRoot : evidenceRoot = passed .noteEvidence n

structure FilesAt (writerLease spool evidence : Bool) : Prop where
  writerLease : writerLease = (passed .acquireLease n && !passed .releaseLease n)
  spool : spool = (passed .createSpool n && !passed .cleanupSpool n)
  evidence : evidence = (passed .createEvidence n && !passed .cleanupEvidence n)

structure TreesAt (sha256 : List UInt8 → Text) (tables : List ℕ) (tree : DatasetTree) (staging : Option StagingTree)
    (destination : Option PathNode) (outputFingerprint : Text) : Prop where
  staging : staging = stagingAt identity n tables tree outputFingerprint
  destination : destination = destinationAt start n tree
  target_free : passed .checkTarget n = true → start.destination = none
  fingerprinted : passed .fingerprintPayload n = true →
    fingerprintDataset sha256 (some (.directory tree)) = .ok outputFingerprint

/-- A run in front of its effect at position `n`. -/
structure At (sha256 : List UInt8 → Text) (tables : List ℕ) (tree : DatasetTree) (s : RunState) : Prop extends
    NotesAt n s.operationStarted s.created s.renamed s.spoolOwned s.evidenceRoot,
    FilesAt n s.disk.writerLease s.disk.spool s.disk.evidence,
    TreesAt identity start n sha256 tables tree s.disk.staging s.disk.destination s.outputFingerprint where
  vault : VaultAt identity start result n s.outputFingerprint s.disk.vault

end At

section Step
variable {sha256 : List UInt8 → Text} {identity : PublicationIdentity} {start : Disk} {result : TwoPassResult}
  {n : ℕ} {tables : List ℕ} {tree : DatasetTree} {s s' : RunState} {vault : OperationStore} {output : Text}

theorem at_start (h : Ready identity start) : At identity start result 0 sha256 [] [] (.start start) where
  started := rfl
  created := rfl
  renamed := rfl
  spoolOwned := rfl
  evidenceRoot := rfl
  writerLease := h.lease_free
  spool := h.spool_absent
  evidence := h.evidence_absent
  vault :=
    { untouched := fun _ => rfl
      others := KeyedTable.erase_eq_self h.operation_absent
      publication := KeyedTable.retain_eq_self fun key hkey => by
        have howned := start.vault.publication_owned key hkey
        simpa using fun heq : key.1 = identity.operationId => h.operation_absent (heq ▸ howned)
      own := fun hn => absurd hn (by decide) }
  staging := h.staging_absent
  destination := rfl
  target_free hn := absurd hn (by decide)
  fingerprinted hn := absurd hn (by decide)

theorem onStaging_eq_ok {detailCode : String} {f : StagingTree → Except Raised StagingTree} :
    s.onStaging detailCode f = .ok s' ↔ ∃ t t', s.disk.staging = some t ∧ f t = .ok t' ∧
      s' = { s with disk := { s.disk with staging := some t' } } := by
  unfold RunState.onStaging
  cases hs : s.disk.staging with
  | none => simp
  | some t =>
    cases hf : f t with
    | error e => simp [hf]
    | ok t' => simp [hf, eq_comm]

theorem vaultAt_begin (h : VaultAt identity start result 1 output vault) {vault' : OperationStore}
    (hbegin : vault.beginOperation identity = .ok vault') : VaultAt identity start result 2 output vault' := by
  unfold OperationStore.beginOperation at hbegin
  split_ifs at hbegin with hid hdest
  cases hbegin
  refine ⟨fun hn => absurd hn (by decide), (KeyedTable.erase_upsert _ _ _).trans h.others, h.publication, fun _ => ?_⟩
  exact (KeyedTable.lookup_upsert _ _ _ _).trans (if_pos rfl)

theorem vaultAt_record (h : VaultAt identity start result n output vault) {vault' : OperationStore}
    {phase : PublicationRowPhase} {outputFingerprint vaultFingerprint : Text}
    (hbegun : passed .beginOperation n = true)
    (hrecord : vault.recordPublication identity.operationId phase outputFingerprint vaultFingerprint = .ok vault') :
    VaultAt identity start result n output vault' := by
  unfold OperationStore.recordPublication at hrecord
  split_ifs at hrecord
  cases hrecord
  refine ⟨fun hn => absurd hn (by simp [hbegun]), h.others, ?_, h.own⟩
  exact (KeyedTable.retain_upsert _ (by simp)).trans h.publication

theorem vaultAt_complete (h : VaultAt identity start result 28 output vault) {vault' : OperationStore}
    (hcomplete : vault.completeOperation identity.operationId output (resultReceipt
      { result with operationId := identity.operationId, outputFingerprint := some output }) = .ok vault') :
    VaultAt identity start result 29 output vault' := by
  have hown := h.own rfl
  rw [OperationStore.operationRecord] at hown
  unfold OperationStore.completeOperation at hcomplete
  rw [hown] at hcomplete
  dsimp only at hcomplete
  split_ifs at hcomplete
  cases hcomplete
  refine ⟨fun hn => absurd hn (by decide), (KeyedTable.erase_upsert _ _ _).trans h.others, h.publication, fun _ => ?_⟩
  exact (KeyedTable.lookup_upsert _ _ _ _).trans (if_pos rfl)

theorem vaultAt_next (h : VaultAt identity start result n output vault) {output' : Text} (hbegin : n ≠ 1)
    (hcomplete : n ≠ 28) (houtput : n < 28 ∨ output' = output) : VaultAt identity start result (n + 1) output' vault := by
  have hpassed : passed .beginOperation (n + 1) = passed .beginOperation n := passed_succ hbegin
  have hsame : passed (.completeOperation result) (n + 1) = passed (.completeOperation result) n :=
    passed_succ hcomplete
  have hrow : operationRowAt identity result (n + 1) output' = operationRowAt identity result n output := by
    rcases houtput with hlt | rfl
    · have hnot : passed (.completeOperation result) n = false := passed_eq_false.mpr hlt.le
      simp [operationRowAt, hsame, hnot]
    · simp [operationRowAt, hsame]
  exact ⟨fun hn => h.untouched (hpassed ▸ hn), h.others, h.publication, fun hn => hrow ▸ h.own (hpassed ▸ hn)⟩

/-- What an effect may change of the state. -/
inductive Changes (s : RunState) : StatePart → RunState → Prop
  | notes (operationStarted created renamed spoolOwned evidenceRoot : Bool) :
      Changes s .notes { s with operationStarted, created, renamed, spoolOwned, evidenceRoot }
  | files (writerLease spool evidence : Bool) : Changes s .files { s with disk := { s.disk with writerLease, spool, evidence } }
  | vault (vault : OperationStore) : Changes s .vault { s with disk := { s.disk with vault } }
  | trees (staging : Option StagingTree) (destination : Option PathNode) :
      Changes s .trees { s with disk := { s.disk with staging, destination } }
  | fingerprint (outputFingerprint : Text) : Changes s .fingerprint { s with outputFingerprint }

theorem changes_of_onStaging {detailCode : String} {f : StagingTree → Except Raised StagingTree}
    (h : s.onStaging detailCode f = .ok s') : Changes s .trees s' := by
  obtain ⟨_, _, -, -, rfl⟩ := onStaging_eq_ok.mp h
  exact .trees _ _

/-- An effect changes its own part of the state and no other. -/
theorem changes_of_perform {e : Effect} (hp : perform sha256 identity s e = .ok s') : Changes s e.part s' := by
  cases e with
  | noteStarted | noteCreated | noteSpool | noteEvidence | noteRenamed | openParent | syncParent | closeParent =>
    cases hp
    exact .notes _ _ _ _ _
  | cleanupEvidence | releaseLease | cleanupSpool =>
    cases hp
    exact .files _ _ _
  | acquireLease | createSpool | createEvidence =>
    obtain ⟨-, -, hp⟩ := bind_eq_ok.mp hp
    cases hp
    exact .files _ _ _
  | beginOperation | recordStaged =>
    obtain ⟨_, -, hp⟩ := bind_eq_ok.mp hp
    cases hp
    exact .vault _
  | completeOperation _ =>
    obtain ⟨_, -, hp⟩ := bind_eq_ok.mp hp
    obtain ⟨_, -, hp⟩ := bind_eq_ok.mp hp
    cases hp
    exact .vault _
  | makeRoot | checkTarget =>
    obtain ⟨-, -, hp⟩ := bind_eq_ok.mp hp
    cases hp
    exact .trees _ _
  | makeTables | makeDataset | writeTemporary _ | replaceRecord _ | stageTable _ | assembleTable _ _ | rebuildIndexes _
    | removeTables | removeRecord => exact changes_of_onStaging hp
  | rename =>
    simp only [perform] at hp
    split at hp
    · split at hp
      · cases hp
        exact .trees _ _
      · cases hp
    · cases hp
  | removeRoot =>
    simp only [perform] at hp
    split at hp
    · cases hp
    · obtain ⟨-, -, hp⟩ := bind_eq_ok.mp hp
      cases hp
      exact .trees _ _
  | fingerprintPayload =>
    obtain ⟨_, -, hp⟩ := bind_eq_ok.mp hp
    cases hp
    exact .fingerprint _

section Parts
variable {e : Effect}

theorem NotesAt.skip {started created renamed spoolOwned evidenceRoot : Bool}
    (h : NotesAt e.position started created renamed spoolOwned evidenceRoot) (hpart : e.part ≠ .notes) :
    NotesAt (e.position + 1) started created renamed spoolOwned evidenceRoot := by
  cases e with
  | writeTemporary phase | replaceRecord phase =>
    cases phase <;> exact ⟨h.started, h.created, h.renamed, h.spoolOwned, h.evidenceRoot⟩
  | _ => first | exact absurd rfl hpart | exact ⟨h.started, h.created, h.renamed, h.spoolOwned, h.evidenceRoot⟩

theorem NotesAt.next
    (h : NotesAt e.position s.operationStarted s.created s.renamed s.spoolOwned s.evidenceRoot)
    (hpart : e.part = .notes) (hp : perform sha256 identity s e = .ok s') :
    NotesAt (e.position + 1) s'.operationStarted s'.created s'.renamed s'.spoolOwned s'.evidenceRoot := by
  cases e with
  | noteStarted =>
    cases hp
    exact ⟨rfl, h.created, h.renamed, h.spoolOwned, h.evidenceRoot⟩
  | noteCreated =>
    cases hp
    exact ⟨h.started, rfl, h.renamed, h.spoolOwned, h.evidenceRoot⟩
  | noteSpool =>
    cases hp
    exact ⟨h.started, h.created, h.renamed, rfl, h.evidenceRoot⟩
  | noteEvidence =>
    cases hp
    exact ⟨h.started, h.created, h.renamed, h.spoolOwned, rfl⟩
  | noteRenamed =>
    cases hp
    exact ⟨h.started, h.created, rfl, h.spoolOwned, h.evidenceRoot⟩
  | openParent | syncParent | closeParent =>
    cases hp
    exact ⟨h.started, h.created, h.renamed, h.spoolOwned, h.evidenceRoot⟩
  | _ => cases hpart

theorem FilesAt.skip {writerLease spool evidence : Bool} (h : FilesAt e.position writerLease spool evidence)
    (hpart : e.part ≠ .files) : FilesAt (e.position + 1) writerLease spool evidence := by
  cases e with
  | writeTemporary phase | replaceRecord phase => cases phase <;> exact ⟨h.writerLease, h.spool, h.evidence⟩
  | _ => first | exact absurd rfl hpart | exact ⟨h.writerLease, h.spool, h.evidence⟩

theorem FilesAt.next (h : FilesAt e.position s.disk.writerLease s.disk.spool s.disk.evidence) (hpart : e.part = .files)
    (hp : perform sha256 identity s e = .ok s') :
    FilesAt (e.position + 1) s'.disk.writerLease s'.disk.spool s'.disk.evidence := by
  cases e with
  | acquireLease =>
    obtain ⟨-, -, hp⟩ := bind_eq_ok.mp hp
    cases hp
    exact ⟨rfl, h.spool, h.evidence⟩
  | createSpool =>
    obtain ⟨-, -, hp⟩ := bind_eq_ok.mp hp
    cases hp
    exact ⟨h.writerLease, rfl, h.evidence⟩
  | createEvidence =>
    obtain ⟨-, -, hp⟩ := bind_eq_ok.mp hp
    cases hp
    exact ⟨h.writerLease, h.spool, rfl⟩
  | cleanupEvidence =>
    cases hp
    exact ⟨h.writerLease, h.spool, rfl⟩
  | releaseLease =>
    cases hp
    exact ⟨rfl, h.spool, h.evidence⟩
  | cleanupSpool =>
    cases hp
    exact ⟨h.writerLease, rfl, h.evidence⟩
  | _ => cases hpart

theorem VaultAt.skip (h : VaultAt identity start result e.position output vault) (hpart : e.part ≠ .vault) {output' : Text}
    (houtput : e.position < 28 ∨ output' = output) : VaultAt identity start result (e.position + 1) output' vault := by
  apply vaultAt_next h _ _ houtput
  all_goals
    cases e with
    | writeTemporary phase | replaceRecord phase => cases phase <;> decide
    | _ => first | exact absurd rfl hpart | simp [Effect.position]

theorem VaultAt.next (h : VaultAt identity start result e.position s.outputFingerprint s.disk.vault) (hpart : e.part = .vault)
    (hresult : ∀ r, e = .completeOperation r → r = result) (hp : perform sha256 identity s e = .ok s') :
    VaultAt identity start result (e.position + 1) s'.outputFingerprint s'.disk.vault := by
  cases e with
  | beginOperation =>
    obtain ⟨vault, hbegin, hp⟩ := bind_eq_ok.mp hp
    cases hp
    exact vaultAt_begin h hbegin
  | recordStaged =>
    obtain ⟨vault, hrecord, hp⟩ := bind_eq_ok.mp hp
    cases hp
    exact vaultAt_next (vaultAt_record h rfl hrecord) (by decide) (by decide) (Or.inr rfl)
  | completeOperation r =>
    obtain rfl := hresult r rfl
    obtain ⟨recorded, hrecord, hp⟩ := bind_eq_ok.mp hp
    obtain ⟨vault, hcomplete, hp⟩ := bind_eq_ok.mp hp
    cases hp
    exact vaultAt_complete (vaultAt_record h rfl hrecord) hcomplete
  | _ => cases hpart

theorem TreesAt.skip {staging : Option StagingTree} {destination : Option PathNode}
    (h : TreesAt identity start e.position sha256 tables tree staging destination output) (hpart : e.part ≠ .trees)
    (hfingerprint : e.part ≠ .fingerprint) :
    TreesAt identity start (e.position + 1) sha256 tables tree staging destination output := by
  cases e with
  | _ =>
    first
      | exact absurd rfl hpart
      | exact absurd rfl hfingerprint
      | exact ⟨h.staging, h.destination, h.target_free, h.fingerprinted⟩

theorem TreesAt.fingerprintPayload
    (h : TreesAt identity start 16 sha256 tables tree s.disk.staging s.disk.destination s.outputFingerprint)
    (hp : perform sha256 identity s .fingerprintPayload = .ok s') :
    TreesAt identity start 17 sha256 tables tree s'.disk.staging s'.disk.destination s'.outputFingerprint := by
  obtain ⟨output, houtput, hp⟩ := bind_eq_ok.mp hp
  cases hp
  rw [h.staging] at houtput
  exact ⟨h.staging, h.destination, h.target_free, fun _ => houtput⟩

theorem TreesAt.next (h : TreesAt identity start e.position sha256 [] tree s.disk.staging s.disk.destination s.outputFingerprint)
    (hpart : e.part = .trees) (htable : e.isTable = false) (hp : perform sha256 identity s e = .ok s') :
    ∃ tree', TreesAt identity start (e.position + 1) sha256 [] tree' s'.disk.staging s'.disk.destination s'.outputFingerprint := by
  cases e with
  | makeRoot =>
    obtain ⟨-, -, hp⟩ := bind_eq_ok.mp hp
    cases hp
    exact ⟨tree, rfl, h.destination, h.target_free, h.fingerprinted⟩
  | makeTables =>
    obtain ⟨t, t', ht, hf, rfl⟩ := onStaging_eq_ok.mp hp
    cases hf
    obtain rfl := Option.some.inj (ht.symm.trans h.staging)
    exact ⟨tree, rfl, h.destination, h.target_free, h.fingerprinted⟩
  | makeDataset =>
    obtain ⟨t, t', ht, hf, rfl⟩ := onStaging_eq_ok.mp hp
    cases hf
    obtain rfl := Option.some.inj (ht.symm.trans h.staging)
    exact ⟨[], rfl, h.destination, h.target_free, fun hn => absurd hn (by decide)⟩
  | writeTemporary phase | replaceRecord phase =>
    -- a record is written three times, each time with the same two effects
    cases phase
    all_goals
      obtain ⟨t, t', ht, hf, rfl⟩ := onStaging_eq_ok.mp hp
      cases hf
      obtain rfl := Option.some.inj (ht.symm.trans h.staging)
      exact ⟨tree, rfl, h.destination, h.target_free, h.fingerprinted⟩
  | rebuildIndexes files =>
    obtain ⟨t, t', ht, hf, rfl⟩ := onStaging_eq_ok.mp hp
    cases hf
    obtain rfl := Option.some.inj (ht.symm.trans h.staging)
    exact ⟨tree ++ files, rfl, h.destination, h.target_free, fun hn => absurd hn (by simp [Effect.position])⟩
  | checkTarget =>
    obtain ⟨_, hfree, hp⟩ := bind_eq_ok.mp hp
    cases hp
    have hnone : s.disk.destination = none := by simpa using refuseIf_eq_ok.mp hfree
    exact ⟨tree, h.staging, h.destination, fun _ => h.destination.symm.trans hnone, h.fingerprinted⟩
  | rename =>
    simp only [perform, h.staging] at hp
    cases hp
    exact ⟨tree, rfl, rfl, h.target_free, h.fingerprinted⟩
  | removeTables | removeRecord =>
    obtain ⟨t, t', ht, hf, rfl⟩ := onStaging_eq_ok.mp hp
    obtain ⟨-, -, hf⟩ := bind_eq_ok.mp hf
    cases hf
    obtain rfl := Option.some.inj (ht.symm.trans h.staging)
    exact ⟨tree, rfl, h.destination, h.target_free, h.fingerprinted⟩
  | removeRoot =>
    simp only [perform, h.staging] at hp
    obtain ⟨-, -, hp⟩ := bind_eq_ok.mp hp
    cases hp
    exact ⟨tree, rfl, h.destination, h.target_free, h.fingerprinted⟩
  | stageTable _ | assembleTable _ _ => cases htable
  | _ => cases hpart

theorem At.next (h : At identity start result e.position sha256 [] tree s) (htable : e.isTable = false)
    (hresult : ∀ r, e = .completeOperation r → r = result) (hp : perform sha256 identity s e = .ok s') :
    ∃ tree', At identity start result (e.position + 1) sha256 [] tree' s' := by
  have hchanges := changes_of_perform hp
  generalize hpart : e.part = part at hchanges
  cases hchanges with
  | notes started created renamed spoolOwned evidenceRoot =>
    have hnotes := h.toNotesAt.next hpart hp
    exact ⟨tree, hnotes, h.toFilesAt.skip (by simp [hpart]), h.toTreesAt.skip (by simp [hpart]) (by simp [hpart]),
      h.vault.skip (by simp [hpart]) (Or.inr rfl)⟩
  | files writerLease spool evidence =>
    have hfiles := h.toFilesAt.next hpart hp
    exact ⟨tree, h.toNotesAt.skip (by simp [hpart]), hfiles, h.toTreesAt.skip (by simp [hpart]) (by simp [hpart]),
      h.vault.skip (by simp [hpart]) (Or.inr rfl)⟩
  | vault vault =>
    have hvault := h.vault.next hpart hresult hp
    exact ⟨tree, h.toNotesAt.skip (by simp [hpart]), h.toFilesAt.skip (by simp [hpart]),
      h.toTreesAt.skip (by simp [hpart]) (by simp [hpart]), hvault⟩
  | trees staging destination =>
    obtain ⟨tree', htrees⟩ := h.toTreesAt.next hpart htable hp
    exact ⟨tree', h.toNotesAt.skip (by simp [hpart]), h.toFilesAt.skip (by simp [hpart]), htrees,
      h.vault.skip (by simp [hpart]) (Or.inr rfl)⟩
  | fingerprint outputFingerprint =>
    have he : e = .fingerprintPayload := by
      cases e with
      | fingerprintPayload => rfl
      | _ => cases hpart
    obtain rfl := he
    exact ⟨tree, h.toNotesAt.skip (by decide), h.toFilesAt.skip (by decide), h.toTreesAt.fingerprintPayload hp,
      h.vault.skip (by decide) (Or.inl (by decide))⟩

end Parts

theorem At.stageTable {index : ℕ} (h : At identity start result 13 sha256 tables tree s)
    (hp : perform sha256 identity s (.stageTable index) = .ok s') :
    At identity start result 13 sha256 (tables ++ [index]) tree s' := by
  obtain ⟨t, t', ht, hf, rfl⟩ := onStaging_eq_ok.mp hp
  obtain rfl := Option.some.inj (ht.symm.trans h.staging)
  obtain ⟨-, -, hf⟩ := bind_eq_ok.mp hf
  cases hf
  exact ⟨h.toNotesAt, h.toFilesAt, ⟨rfl, h.destination, h.target_free, h.fingerprinted⟩, h.vault⟩

theorem At.assembleTable {index : ℕ} {files : List DatasetEntry} (h : At identity start result 13 sha256 tables tree s)
    (hp : perform sha256 identity s (.assembleTable index files) = .ok s') :
    At identity start result 13 sha256 (tables.erase index) (tree ++ files) s' := by
  obtain ⟨t, t', ht, hf, rfl⟩ := onStaging_eq_ok.mp hp
  obtain rfl := Option.some.inj (ht.symm.trans h.staging)
  obtain ⟨-, -, hf⟩ := bind_eq_ok.mp hf
  cases hf
  exact ⟨h.toNotesAt, h.toFilesAt, ⟨rfl, h.destination, h.target_free, fun hn => absurd hn (by decide)⟩, h.vault⟩

theorem At.assembled (h : At identity start result 13 sha256 [] tree s) :
    At identity start result 14 sha256 [] tree s :=
  ⟨⟨h.started, h.created, h.renamed, h.spoolOwned, h.evidenceRoot⟩, ⟨h.writerLease, h.spool, h.evidence⟩,
    ⟨h.staging, h.destination, h.target_free, h.fingerprinted⟩, vaultAt_next h.vault (by decide) (by decide) (Or.inr rfl)⟩

end Step

section Stops
variable {sha256 : List UInt8 → Text} {identity : PublicationIdentity} {start : Disk} {result : TwoPassResult}
  {n : ℕ} {tables : List ℕ} {tree : DatasetTree} {s s' : RunState} {effects effects' : List Effect}

/-- The end of a run is a position too. -/
def positionOf (next : Option Effect) : ℕ := (next.map Effect.position).getD 34

/-- A stopped run in front of the effect that does not happen; only among the tables is one of them staged. -/
def InFront (sha256 : List UInt8 → Text) (identity : PublicationIdentity) (start : Disk) (result : TwoPassResult)
    (stop : RunState × Option Effect) : Prop :=
  ∃ tables tree, At identity start result (positionOf stop.2) sha256 tables tree stop.1 ∧
    (positionOf stop.2 ≠ 13 → tables = [])

theorem stopAfter_append (count : ℕ) (effects effects' : List Effect) (s : RunState) :
    stopAfter sha256 identity count (effects ++ effects') s =
      match stopAfter sha256 identity count effects s with
      | (s', some next) => (s', some next)
      | (s', none) => stopAfter sha256 identity (count - effects.length) effects' s' := by
  induction effects generalizing count s with
  | nil =>
    cases count <;> simp [stopAfter]
  | cons e effects ih =>
    cases count with
    | zero => simp [stopAfter]
    | succ count =>
      simp only [List.cons_append, stopAfter, List.length_cons, Nat.succ_sub_succ]
      cases perform sha256 identity s e with
      | error _ => rfl
      | ok s' => exact ih count s'

theorem stopAfter_plain (effects : List Effect) (hpos : effects.map Effect.position = List.range' n effects.length)
    (hplain : ∀ e ∈ effects, e.isTable = false ∧ ∀ r, e = .completeOperation r → r = result)
    (h : At identity start result n sha256 [] tree s) (count : ℕ) :
    (∃ e ∈ effects, (stopAfter sha256 identity count effects s).2 = some e ∧ ∃ tree',
      At identity start result e.position sha256 [] tree' (stopAfter sha256 identity count effects s).1) ∨
    (stopAfter sha256 identity count effects s).2 = none ∧ ∃ tree',
      At identity start result (n + effects.length) sha256 [] tree' (stopAfter sha256 identity count effects s).1 := by
  induction effects generalizing n count s tree with
  | nil => cases count <;> exact Or.inr ⟨rfl, tree, h⟩
  | cons e effects ih =>
    rw [List.map_cons, List.length_cons, List.range'_succ, List.cons.injEq] at hpos
    obtain ⟨rfl, hpos⟩ := hpos
    obtain ⟨htable, hresult⟩ := hplain e (by simp)
    cases count with
    | zero => exact Or.inl ⟨e, by simp, rfl, tree, h⟩
    | succ count =>
      cases hp : perform sha256 identity s e with
      | error _ =>
        refine Or.inl ⟨e, by simp, ?_, tree, ?_⟩
        · simp [stopAfter, hp]
        · simpa [stopAfter, hp] using h
      | ok s' =>
        obtain ⟨tree', hnext⟩ := h.next htable hresult hp
        have hrest := ih hpos (fun e' he' => hplain e' (by simp [he'])) hnext count
        simp only [stopAfter, hp]
        rcases hrest with ⟨e', he', hstop⟩ | ⟨hnone, tree'', hend⟩
        · exact Or.inl ⟨e', by simp [he'], hstop⟩
        · refine Or.inr ⟨hnone, tree'', ?_⟩
          rwa [List.length_cons, ← Nat.add_assoc, Nat.add_right_comm]

/-- A stop at one of the table effects. -/
def StopsAtTable (sha256 : List UInt8 → Text) (identity : PublicationIdentity) (start : Disk) (result : TwoPassResult)
    (stop : RunState × Option Effect) : Prop :=
  ∃ e, stop.2 = some e ∧ e.isTable = true ∧ ∃ tables tree,
    At identity start result 13 sha256 tables tree stop.1

theorem stopAfter_stage (indices : List ℕ) (h : At identity start result 13 sha256 tables tree s) (count : ℕ) :
    StopsAtTable sha256 identity start result (stopAfter sha256 identity count (indices.map .stageTable) s) ∨
    (stopAfter sha256 identity count (indices.map .stageTable) s).2 = none ∧
      At identity start result 13 sha256 (tables ++ indices) tree
        (stopAfter sha256 identity count (indices.map .stageTable) s).1 := by
  induction indices generalizing count s tables with
  | nil => cases count <;> exact Or.inr ⟨rfl, by simpa [stopAfter] using h⟩
  | cons index indices ih =>
    cases count with
    | zero => exact Or.inl ⟨_, rfl, rfl, tables, tree, h⟩
    | succ count =>
      simp only [List.map_cons, stopAfter]
      cases hp : perform sha256 identity s (.stageTable index) with
      | error _ => exact Or.inl ⟨_, rfl, rfl, tables, tree, h⟩
      | ok s' =>
        have hrest := ih (h.stageTable hp) count
        rwa [List.append_assoc, List.singleton_append] at hrest

theorem stopAfter_assemble (batch : List (ℕ × List DatasetEntry))
    (h : At identity start result 13 sha256 (batch.map Prod.fst) tree s) (count : ℕ) :
    StopsAtTable sha256 identity start result
      (stopAfter sha256 identity count (batch.map fun table => .assembleTable table.1 table.2) s) ∨
    (stopAfter sha256 identity count (batch.map fun table => .assembleTable table.1 table.2) s).2 = none ∧
      ∃ tree', At identity start result 13 sha256 [] tree'
        (stopAfter sha256 identity count (batch.map fun table => .assembleTable table.1 table.2) s).1 := by
  induction batch generalizing count s tree with
  | nil => cases count <;> exact Or.inr ⟨rfl, tree, h⟩
  | cons table batch ih =>
    cases count with
    | zero => exact Or.inl ⟨_, rfl, rfl, _, tree, h⟩
    | succ count =>
      simp only [List.map_cons, stopAfter]
      cases hp : perform sha256 identity s (.assembleTable table.1 table.2) with
      | error _ => exact Or.inl ⟨_, rfl, rfl, _, tree, h⟩
      | ok s' =>
        have hnext := h.assembleTable hp
        rw [List.map_cons, List.erase_cons_head] at hnext
        exact ih hnext count

theorem stopAfter_batches (batches : List (List (ℕ × List DatasetEntry)))
    (h : At identity start result 13 sha256 [] tree s) (count : ℕ) :
    StopsAtTable sha256 identity start result (stopAfter sha256 identity count (batches.flatMap batchEffects) s) ∨
    (stopAfter sha256 identity count (batches.flatMap batchEffects) s).2 = none ∧
      ∃ tree', At identity start result 13 sha256 [] tree'
        (stopAfter sha256 identity count (batches.flatMap batchEffects) s).1 := by
  induction batches generalizing count s tree with
  | nil => cases count <;> exact Or.inr ⟨rfl, tree, h⟩
  | cons batch batches ih =>
    have hmap : (batch.map fun table => Effect.stageTable table.1) = (batch.map Prod.fst).map .stageTable := by
      rw [List.map_map]
      rfl
    rw [List.flatMap_cons, batchEffects, hmap, List.append_assoc, stopAfter_append]
    have hstage := stopAfter_stage (batch.map Prod.fst) h count
    generalize stopAfter sha256 identity count ((batch.map Prod.fst).map .stageTable) s = stop at hstage ⊢
    obtain ⟨s', next⟩ := stop
    rcases hstage with ⟨e, rfl, htable⟩ | ⟨rfl, hstaged⟩
    · exact Or.inl ⟨e, rfl, htable⟩
    · dsimp only
      rw [stopAfter_append]
      have hassemble := stopAfter_assemble batch (by simpa using hstaged)
        (count - ((batch.map Prod.fst).map Effect.stageTable).length)
      generalize stopAfter sha256 identity _ (batch.map fun table => Effect.assembleTable table.1 table.2) s' = stop
        at hassemble ⊢
      obtain ⟨s'', next⟩ := stop
      rcases hassemble with ⟨e, rfl, htable⟩ | ⟨rfl, tree', hnext⟩
      · exact Or.inl ⟨e, rfl, htable⟩
      · exact ih hnext _

theorem inFront_stopAfter (h : Ready identity start) (b : Build) (count : ℕ) :
    InFront sha256 identity start b.result (stopAfter sha256 identity count (runEffects b) (.start start)) := by
  have hplain : ∀ {effects : List Effect} {s : RunState} {next : Option Effect},
      (∃ e ∈ effects, next = some e ∧ ∃ tree', At identity start b.result e.position sha256 [] tree' s) →
        InFront sha256 identity start b.result (s, next) := by
    rintro effects s next ⟨e, -, rfl, tree', hat⟩
    exact ⟨[], tree', hat, fun _ => rfl⟩
  rw [runEffects, stopAfter_append]
  have hat : At identity start b.result 0 sha256 [] [] (.start start) := at_start h
  have hopening := stopAfter_plain openingEffects (by decide) (by simp [openingEffects, Effect.isTable]) hat count
  generalize stopAfter sha256 identity count openingEffects (.start start) = stop at hopening ⊢
  obtain ⟨s, next⟩ := stop
  rcases hopening with hstop | ⟨rfl, tree, hat⟩
  · obtain ⟨e, he, rfl, hat⟩ := hstop
    exact hplain ⟨e, he, rfl, hat⟩
  dsimp only
  rw [stopAfter_append]
  have htables := stopAfter_batches b.batches hat (count - openingEffects.length)
  rw [← tableEffects] at htables
  generalize stopAfter sha256 identity _ (tableEffects b) s = stop at htables ⊢
  obtain ⟨s', next⟩ := stop
  rcases htables with ⟨e, rfl, htable, tables, tree', hat'⟩ | ⟨rfl, tree', hat'⟩
  · have hpos : e.position = 13 := by cases e <;> first | rfl | cases htable
    exact ⟨tables, tree', by simpa [positionOf, hpos] using hat', fun hne => absurd hpos hne⟩
  dsimp only
  have hclosing := stopAfter_plain (closingEffects b ++ cleanupEffects) (by rfl)
    (by simp [closingEffects, cleanupEffects, Effect.isTable]) hat'.assembled
    (count - openingEffects.length - (tableEffects b).length)
  generalize stopAfter sha256 identity _ (closingEffects b ++ cleanupEffects) s' = stop at hclosing ⊢
  obtain ⟨s'', next⟩ := stop
  rcases hclosing with ⟨e, he, rfl, hat''⟩ | ⟨rfl, tree'', hat''⟩
  · exact hplain ⟨e, he, rfl, hat''⟩
  · exact ⟨[], tree'', hat'', fun _ => rfl⟩

end Stops
end DbfAnonymizer.Engine
