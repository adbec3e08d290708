import Mathlib.Logic.Function.Basic
import DbfAnonymizer.Vault.MemoAllocation

/-! Vault connections competing for the single writer authority, unit by unit. -/
namespace DbfAnonymizer.Vault

/-- The calls that write inside an authorized unit. -/
inductive StoreMethod
  | beginOperation (explicitId : Bool)
  | completeOperation | abandonOperation | recordPublication | registerTable | registerField
  | createDomain | addTextMapping | addNumericKeyMapping | addMemoRecovery | setTemporalParameter
  deriving DecidableEq, Repr

/-- Whether the call reaches the database through `_internal_connection`. -/
def StoreMethod.internal : StoreMethod → Bool
  | .beginOperation explicitId => explicitId
  | .completeOperation | .abandonOperation | .recordPublication | .registerTable | .registerField => false
  | .createDomain | .addTextMapping | .addNumericKeyMapping | .addMemoRecovery | .setTemporalParameter => true

/-- One `VaultDatabase` with its SQLite handle. -/
structure Connection where
  readOnly : Bool
  /-- The SQLite handle is open. -/
  connected : Bool
  closed : Bool
  poisoned : Bool
  writerToken : Option Text
  /-- `_active` of every unit that `transaction()` has handed out. -/
  units : List Bool
  /-- `_transaction` while `_transaction_authorized`. A system unit is over before anything else runs. -/
  current : Option ℕ
  deriving DecidableEq, Repr

namespace Connection

def fresh (readOnly : Bool) : Connection := ⟨readOnly, true, false, false, none, [], none⟩

def active (k : Connection) (unit : ℕ) : Bool := k.units[unit]? == some true

def currentActive (k : Connection) : Bool := k.current.any k.active

/-- `_require_trusted_connection`. -/
def trusted (k : Connection) : Bool := !k.closed && !k.poisoned

def setActive (k : Connection) (unit : ℕ) (value : Bool) : Connection :=
  { k with units := k.units.set unit value }

end Connection

/-- The singleton row of `writer_authority`. -/
structure WriterAuthority where
  ownerToken : Option Text
  acquireTick : ℕ
  deriving DecidableEq, Repr

/-- What is observed of a unit that became durable. -/
structure UnitCommit (ι μ : Type) where
  connection : ι
  token : Option Text
  poisoned : Bool
  /-- The durable owner after every step from BEGIN IMMEDIATE on. -/
  owners : List (Option Text)
  mutations : List μ
  deriving DecidableEq, Repr

/-- The COMMIT statement: it may fail, and even then the unit can have become durable. -/
inductive CommitEnd
  | done
  | failed (durable : Bool)
  deriving DecidableEq, Repr

/-- The ROLLBACK statement: after a failure SQLite may still hold the unit open. -/
inductive RollbackEnd
  | done
  | failed (stillOpen : Bool)
  deriving DecidableEq, Repr

/-- The outcome of the statements of one system unit. -/
structure UnitOutcome where
  begins : Bool
  executes : Bool
  commit : CommitEnd
  rollback : RollbackEnd
  deriving DecidableEq, Repr

def UnitOutcome.sound : UnitOutcome := ⟨true, true, .done, .done⟩

/-- What the callers of the connections do, with the outcomes of the statements it runs. -/
inductive WriterEvent (ι μ : Type)
  | transaction (c : ι)
  | enter (c : ι) (unit : ℕ) (outcome : UnitOutcome)
  | mutate (c : ι) (method : StoreMethod) (mutation : μ)
  | exit (c : ι) (unit : ℕ) (raised : Bool) (outcome : UnitOutcome)
  | acquire (c : ι) (ownerToken : Text) (outcome : UnitOutcome)
  | release (c : ι) (ownerToken : Text) (outcome : UnitOutcome)
  | close (c : ι) (released : Bool)

/-- The database file and the connections to it. -/
structure Writers (ι μ : Type) where
  authority : WriterAuthority
  /-- The connection inside BEGIN IMMEDIATE. -/
  lock : Option ι
  /-- What the open unit has written. -/
  pending : List μ
  connection : ι → Connection
  /-- The durable owner after every step since the open unit began. -/
  witnessed : List (Option Text)
  commits : List (UnitCommit ι μ)
  /-- What the successful acquisitions returned, in order. -/
  ticks : List ℕ

namespace Writers
variable {ι μ : Type} [DecidableEq ι]

def withConnection (s : Writers ι μ) (c : ι) (k : Connection) : Writers ι μ :=
  { s with connection := Function.update s.connection c k }

def poison (s : Writers ι μ) (c : ι) : Writers ι μ :=
  s.withConnection c { s.connection c with poisoned := true }

/-- ROLLBACK of the unit that `c` has open. -/
def rollback (s : Writers ι μ) (c : ι) : RollbackEnd → Writers ι μ
  | .done => { s with lock := none, pending := [] }
  | .failed true => { s with lock := some c }.poison c
  | .failed false => { s with lock := none, pending := [] }.poison c

/-- COMMIT that became durable. -/
def commitPending (s : Writers ι μ) (c : ι) : Writers ι μ :=
  { s with
    lock := none
    pending := []
    commits := s.commits ++
      [⟨c, (s.connection c).writerToken, (s.connection c).poisoned, s.witnessed, s.pending⟩] }

/-- BEGIN IMMEDIATE returns only to an open handle and while no unit is open. -/
def canBegin (s : Writers ι μ) (c : ι) (outcome : UnitOutcome) : Bool :=
  outcome.begins && (s.connection c).connected && s.lock.isNone

/-- `VaultDatabase.transaction()`. -/
def transaction (s : Writers ι μ) (c : ι) : Writers ι μ :=
  let k := s.connection c
  if k.trusted && !k.readOnly && !k.currentActive && k.writerToken.isSome then
    s.withConnection c { k with units := k.units ++ [false], current := some k.units.length }
  else s

/-- `_verify_writer_ownership`, inside the lock. -/
def verifyWriterOwnership (s : Writers ι μ) (c : ι) : Bool :=
  s.authority.ownerToken.isSome && s.authority.ownerToken == (s.connection c).writerToken

/-- `VaultTransaction.__enter__` of a unit made by `transaction()`. -/
def enter (s : Writers ι μ) (c : ι) (unit : ℕ) (outcome : UnitOutcome) : Writers ι μ :=
  let k := s.connection c
  if k.units[unit]? == some false && s.canBegin c outcome then
    if outcome.executes && s.verifyWriterOwnership c then
      { s.withConnection c (k.setActive unit true) with lock := some c, pending := [], witnessed := [] }
    else s.rollback c outcome.rollback
  else s

/-- A writing call: `_require_active_transaction`, then the connection it goes through. -/
def mutate (s : Writers ι μ) (c : ι) (method : StoreMethod) (mutation : μ) : Writers ι μ :=
  let k := s.connection c
  if k.currentActive && (k.trusted || !method.internal) && k.connected then
    { s with pending := s.pending ++ [mutation] }
  else s

/-- `VaultTransaction.__exit__`. -/
def exit (s : Writers ι μ) (c : ι) (unit : ℕ) (raised : Bool) (outcome : UnitOutcome) : Writers ι μ :=
  let k := s.connection c
  let s' := s.withConnection c (k.setActive unit false)
  if k.active unit then
    if k.connected then
      if raised then s'.rollback c outcome.rollback
      else match outcome.commit with
        | .done => s'.commitPending c
        | .failed true => (s'.commitPending c).poison c
        | .failed false => (s'.rollback c outcome.rollback).poison c
    else s'.poison c
  else s

/-- `_system_transaction` around one conditional update of the lease row. -/
def systemTransaction (s : Writers ι μ) (c : ι) (outcome : UnitOutcome) (updates : Bool)
    (authority : WriterAuthority) (bind : Writers ι μ → Writers ι μ) : Writers ι μ :=
  let s' := s.withConnection c { s.connection c with current := none }
  if s.canBegin c outcome then
    if outcome.executes && updates then
      match outcome.commit with
      | .done => bind { s' with authority := authority }
      | .failed true => { s' with authority := authority }.poison c
      | .failed false => (s'.rollback c outcome.rollback).poison c
    else s'.rollback c outcome.rollback
  else s'

/-- `acquire_writer_lease`. -/
def acquire (s : Writers ι μ) (c : ι) (ownerToken : Text) (outcome : UnitOutcome) : Writers ι μ :=
  let k := s.connection c
  if (validateToken ownerToken "owner_token").isOk && !k.readOnly && k.trusted && !k.currentActive then
    let tick := s.authority.acquireTick + 1
    s.systemTransaction c outcome s.authority.ownerToken.isNone ⟨some ownerToken, tick⟩ fun s' =>
      { s'.withConnection c { s'.connection c with writerToken := some ownerToken } with
        ticks := s'.ticks ++ [tick] }
  else s

/-- `release_writer_lease`. -/
def release (s : Writers ι μ) (c : ι) (ownerToken : Text) (outcome : UnitOutcome) : Writers ι μ :=
  let k := s.connection c
  if (validateToken ownerToken "owner_token").isOk && k.trusted && !k.currentActive then
    if k.readOnly then
      -- BEGIN IMMEDIATE takes no write lock on a read-only handle, and the update fails
      let s' := s.withConnection c { k with current := none }
      if outcome.begins && k.connected && s.lock != some c && outcome.rollback != .done then s'.poison c else s'
    else
      s.systemTransaction c outcome (s.authority.ownerToken == some ownerToken)
        { s.authority with ownerToken := none } fun s' =>
          let k' := s'.connection c
          s'.withConnection c
            { k' with writerToken := if k'.writerToken = some ownerToken then none else k'.writerToken }
  else s

/-- `close()`: SQLite drops the open unit with the handle. -/
def close (s : Writers ι μ) (c : ι) (released : Bool) : Writers ι μ :=
  let k := s.connection c
  if k.closed then s
  else if released then
    { s.withConnection c { k with closed := true, connected := false } with
      lock := if s.lock = some c then none else s.lock }
  else s.withConnection c { k with closed := true }

def step (s : Writers ι μ) : WriterEvent ι μ → Writers ι μ
  | .transaction c => s.transaction c
  | .enter c unit outcome => s.enter c unit outcome
  | .mutate c method mutation => s.mutate c method mutation
  | .exit c unit raised outcome => s.exit c unit raised outcome
  | .acquire c ownerToken outcome => s.acquire c ownerToken outcome
  | .release c ownerToken outcome => s.release c ownerToken outcome
  | .close c released => s.close c released

/-- A step, and the durable owner it leaves. -/
def advance (s : Writers ι μ) (e : WriterEvent ι μ) : Writers ι μ :=
  let s' := s.step e
  { s' with witnessed := s'.witnessed ++ [s'.authority.ownerToken] }

/-- Any interleaving of what the callers do. -/
def run (s : Writers ι μ) (events : List (WriterEvent ι μ)) : Writers ι μ := events.foldl advance s

/-- Connections just opened on a database that may keep the lease of an earlier process. -/
def opened (authority : WriterAuthority) (readOnly : ι → Bool) : Writers ι μ :=
  ⟨authority, none, [], fun c => .fresh (readOnly c), [], [], []⟩

def Holds (s : Writers ι μ) (c : ι) : Prop :=
  ∃ token, s.authority.ownerToken = some token ∧ (s.connection c).writerToken = some token

/-- The connection is between BEGIN IMMEDIATE and the end of an authorized unit. -/
def InUnit (s : Writers ι μ) (c : ι) : Prop := s.lock = some c ∧ ∃ unit, (s.connection c).active unit = true

/-- A call that writes on a poisoned connection: its unit was entered again, and the call skips `_internal_connection`. -/
def UncheckedWrite (s : Writers ι μ) : WriterEvent ι μ → Prop
  | .mutate c method _ => (s.connection c).poisoned = true ∧ (s.connection c).currentActive = true ∧
      (s.connection c).connected = true ∧ method.internal = false
  | _ => False

/-- No step of the run is such a call. -/
def GuardedRun (s : Writers ι μ) : List (WriterEvent ι μ) → Prop
  | [] => True
  | e :: events => ¬ s.UncheckedWrite e ∧ (s.advance e).GuardedRun events

end Writers
end DbfAnonymizer.Vault
