import DbfAnonymizer.Engine.TextMaterialize
import DbfAnonymizer.Vault.ResidualFlow

/-! The in-memory global text domain: collection, finalization, the planned residual and allocation on request. -/
namespace DbfAnonymizer.Vault
open Transforms Lib
open Engine (classSize probeFungible)

def globalTextProbeBudget : ℕ := 64

def textFailure (code : ErrorCode) (detailCode : String) : Raised := .typed code "mapping" detailCode

def noCompletion : Raised := textFailure .mappingCapacityExhausted "GLOBAL_TEXT_NO_COMPLETION"

def noSafeAlphabet : Raised := textFailure .mappingConstraintInfeasible "GLOBAL_TEXT_NO_SAFE_ALPHABET"

def unobserved : Raised :=
  .valueError "original was not observed in this dataset scan; every occurrence must be collected before finalize"

/-- The encoded length of a text, where the encoding can be proven. -/
def encodedByteLength (codecs : Codecs) (value encoding : Text) : Option ℕ := (codecs encoding value).map List.length

/-- The largest encoded length across the encodings; without an encoding there is none. -/
def maxEncodedByteLength (codecs : Codecs) (value : Text) (encodings : List Text) : Option ℕ := do
  let lengths ← encodings.mapM (encodedByteLength codecs value)
  lengths.max?

/-- A slot in the free pool of one length class, or one reserved token. -/
inductive PlanEntry
  | generic (length : ℕ)
  | named (token : Text)
  deriving DecidableEq, Repr

def PlanEntry.token? : PlanEntry → Option Text
  | .named token => some token
  | .generic _ => none

/-- The attributes of an instance. A used token is stored with its own length, a reserved one with itself. -/
structure GlobalTextDomainMapping where
  domainId : Text
  strictest : KeyedTable Text ℕ
  encodings : List Text
  finalized : Bool
  alphabet : Option Text
  used : List Text
  persistedOriginals : List Text
  plan : Option (List (Text × PlanEntry))
  planReserved : List Text
  planPromised : List Text
  planSignature : Option ℤ
  ownPersisted : List Text

/-- A mapping instance, the vault it is bound to and the random draws made so far. -/
structure TextSession where
  mapping : GlobalTextDomainMapping
  vault : VaultState
  draws : ℕ

/-- A method call; what it wrote before it raised stays written. -/
abbrev TextCall := EStateM Raised TextSession

def liftExcept {α : Type} : Except Raised α → TextCall α
  | .ok a => pure a
  | .error e => throw e

/-- One occurrence of an original, as a scan reports it. -/
structure OccurrenceConstraint where
  original : Text
  encoding : Text
  byteWidth : ℤ
  deriving DecidableEq, Repr

namespace GlobalTextDomainMapping

def new (domainId : Text) : GlobalTextDomainMapping :=
  ⟨domainId, .empty, [], false, none, [], [], none, [], [], none, []⟩

def observe (m : GlobalTextDomainMapping) (o : OccurrenceConstraint) : Except Raised GlobalTextDomainMapping := do
  refuseIf (m.finalized = true) (.valueError "constraint collection is closed after finalize")
  refuseIf (o.original = []) (.valueError "NULL and empty values stay preserved and are not mapped")
  refuseIf (o.encoding = []) (.valueError "encoding must be a non-empty encoding name")
  refuseIf (o.byteWidth < 0) (.valueError "byte_width must be non-negative")
  return { m with
    strictest := m.strictest.upsert o.original
      (reducedStrictest (m.strictest.lookup o.original) o.byteWidth.toNat)
    encodings := m.encodings.insert o.encoding }

def collect (m : GlobalTextDomainMapping) (occurrences : List OccurrenceConstraint) :
    Except Raised GlobalTextDomainMapping := occurrences.foldlM observe m

/-- The checks on a persisted or reused row; `family` selects the detail codes. -/
def validatePseudonym (m : GlobalTextDomainMapping) (codecs : Codecs) (original pseudonym : Text) (width : Option ℕ)
    (family : String) : Except Raised Unit :=
  match m.alphabet with
  | none => .error .assertionError
  | some alphabet => do
    refuseIf (isSafeToken pseudonym alphabet = false) (textFailure .mappingConflict (family ++ "_UNSAFE"))
    refuseIf (pseudonym = original) (textFailure .mappingConflict (family ++ "_SELF_MAPPING"))
    match maxEncodedByteLength codecs pseudonym m.encodings with
    | none => throw (textFailure .mappingConflict (family ++ "_UNSAFE"))
    | some length =>
      refuseIf (length ≠ pseudonym.length) (textFailure .mappingConflict (family ++ "_UNSAFE"))
      refuseIf (∃ w ∈ width, w < length) (textFailure .mappingConflict (family ++ "_INCOMPATIBLE"))

/-- The bookkeeping of one persisted row. -/
def recordRow (m : GlobalTextDomainMapping) (row : Text × Text) : GlobalTextDomainMapping :=
  { m with used := m.used.insert row.2, persistedOriginals := m.persistedOriginals.insert row.1 }

def ensureDomain (m : GlobalTextDomainMapping) (vault : VaultState) : VaultState :=
  if (vault.domainKind m.domainId).isSome then vault
  else { vault with mappingDomains := vault.mappingDomains ++ [(m.domainId, .text)] }

def widthOf (m : GlobalTextDomainMapping) (original : Text) : ℕ := (m.strictest.lookup original).getD 0

def unpersisted (m : GlobalTextDomainMapping) : List Text := m.strictest.keys.filter (· ∉ m.persistedOriginals)

/-- The free tokens of one length: `base ^ length` without the occupied ones. -/
def freeCountByLength (m : GlobalTextDomainMapping) (alphabet : Text) (length : ℕ) : ℤ :=
  classSize alphabet.length length - (m.used.filter (·.length = length)).length

/-- The unpersisted originals that are free safe tokens within their own widths. -/
def reservedTokens (m : GlobalTextDomainMapping) (alphabet : Text) (unpersisted : List Text) : List Text :=
  unpersisted.filter fun original => isSafeToken original alphabet ∧ 1 ≤ original.length ∧
    original.length ≤ m.widthOf original ∧ original ∉ m.used

end GlobalTextDomainMapping

/-- The assignment problem that the flow solves: the originals with their widths, the sorted reserved tokens
and the capacities of the length classes. -/
structure PlanProblem where
  originals : List (Text × ℕ)
  tokens : List Text
  capacity : ℕ → ℤ

namespace PlanProblem
variable (P : PlanProblem)

def maxWidth : ℕ := (P.originals.map Prod.snd).foldl max 0

/-- The node of the class of tokens with `below + 1` characters. -/
def classNode (below : ℕ) : ℕ := 2 + P.originals.length + below

def tokenNode (index : ℕ) : ℕ := 2 + P.originals.length + (P.maxWidth + index)

/-- The edges added for one original, with its position. -/
def originalEdges (row : (Text × ℕ) × ℕ) : List ((ℕ × ℕ) × ℤ) :=
  ((0, 2 + row.2), 1) :: (List.range row.1.2).map (fun below => ((2 + row.2, P.classNode below), 1)) ++
    (P.tokens.zipIdx.filter fun token => token.1.length ≤ row.1.2 ∧ token.1 ≠ row.1.1).map
      fun token => ((2 + row.2, P.tokenNode token.2), 1)

def classEdges : List ((ℕ × ℕ) × ℤ) :=
  ((List.range P.maxWidth).filter fun below => 0 < P.capacity (below + 1)).map
    fun below => ((P.classNode below, 1), P.capacity (below + 1))

def tokenEdges : List ((ℕ × ℕ) × ℤ) := (List.range P.tokens.length).map fun index => ((P.tokenNode index, 1), 1)

def edges : List ((ℕ × ℕ) × ℤ) := P.originals.zipIdx.flatMap P.originalEdges ++ P.classEdges ++ P.tokenEdges

def nodeCount : ℕ := 2 + P.originals.length + P.maxWidth + P.tokens.length

def entryOf (target : ℕ) : Option PlanEntry :=
  if target < P.classNode 0 then none
  else if target < P.tokenNode 0 then some (.generic (target - P.classNode 0 + 1))
  else (P.tokens[target - P.tokenNode 0]?).map .named

/-- The entry of one original in a network that carries the whole demand. -/
def routedEntry (net : ResidualFlow) (row : (Text × ℕ) × ℕ) : Except Raised (Text × PlanEntry) :=
  match net.routedTarget (2 + row.2) with
  | none => .error noCompletion
  | some target =>
    match P.entryOf target with
    | none => .error .keyError
    | some entry => .ok (row.1.1, entry)

/-- The entries of a full flow, or none of them when the demand stays out of reach. A flow that found no end,
or popped an empty path, would be the index error. -/
def solve : Except Raised (Option (List (Text × PlanEntry))) :=
  match (ResidualFlow.ofEdges P.nodeCount P.edges).maxFlow 0 1 P.originals.length with
  | none => .error .indexError
  | some (net, flow) =>
    if flow < P.originals.length then .ok none
    else do
      let plan ← P.originals.zipIdx.mapM (P.routedEntry net)
      return some plan

end PlanProblem

namespace GlobalTextDomainMapping

def planProblem (m : GlobalTextDomainMapping) (alphabet : Text) : PlanProblem where
  originals := m.unpersisted.map fun original => (original, m.widthOf original)
  tokens := (m.reservedTokens alphabet m.unpersisted).insertionSort (· ≤ ·)
  capacity length := m.freeCountByLength alphabet length -
    ((m.reservedTokens alphabet m.unpersisted).filter (·.length = length)).length

def planEntry (m : GlobalTextDomainMapping) (original : Text) : Option PlanEntry :=
  match m.plan with
  | none => none
  | some plan => plan.lookup original

/-- The tokens of one length that a generic entry may not take. -/
def blockedOfLength (m : GlobalTextDomainMapping) (length : ℕ) : List Text :=
  ((m.used ++ m.planReserved ++ m.planPromised).filter (·.length = length)).dedup

/-- The exact completion: the `j`-th free token of a class, for a random `j`. -/
def exactCompletion (rng : Csprng) (alphabet : Text) (blocked : List Text) (length draws : ℕ) :
    Except Raised (Text × ℕ) := do
  let indices ← blocked.mapM (tokenIndex · alphabet)
  let j ← rng.randbelow draws (classSize alphabet.length length - blocked.length)
  let chosen := gapWalk (tokenSpace (length - 1) alphabet.length - 1) j ((indices.insertionSort (· ≤ ·)).map Nat.cast)
  let token ← tokenAt chosen length alphabet
  return (token, draws + 1)

def selectCandidate (m : GlobalTextDomainMapping) (rng : Csprng) (draws : ℕ) (original : Text) :
    PlanEntry → Except Raised (Text × ℕ)
  | .named token => if token ∈ m.used then .error noCompletion else .ok (token, draws)
  | .generic length =>
    match m.alphabet with
    | none => .error .assertionError
    | some alphabet => do
      let blocked := m.blockedOfLength length
      refuseIf (classSize alphabet.length length - blocked.length ≤ 0) noCompletion
      match ← probeFungible rng alphabet length (fun candidate => candidate = original || candidate ∈ blocked)
        globalTextProbeBudget draws with
      | (some candidate, draws) => return (candidate, draws)
      | (none, draws) => exactCompletion rng alphabet blocked length draws

/-- The bookkeeping of one allocation. -/
def recordAllocation (m : GlobalTextDomainMapping) (original candidate : Text) (entry : PlanEntry) :
    GlobalTextDomainMapping :=
  let m := { m.recordRow (original, candidate) with ownPersisted := m.ownPersisted.insert original }
  match entry with
  | .named token => { m with planPromised := m.planPromised.filter (· ≠ token) }
  | .generic _ => { m with planReserved := m.planReserved.filter (· ≠ original) }

end GlobalTextDomainMapping

namespace TextSession

/-- `ORDER BY original_value`. -/
def rows (s : TextSession) : List (Text × Text) :=
  (s.vault.textMappings s.mapping.domainId).table.rows.insertionSort (·.1 ≤ ·.1)

/-- The number of persisted rows that this instance did not allocate. -/
def currentPlanSignature (s : TextSession) : ℤ := s.rows.length - s.mapping.ownPersisted.length

def withPlan (s : TextSession) (plan : List (Text × PlanEntry)) (reserved promised : List Text) : TextSession :=
  { s with mapping := { s.mapping with
      plan := some plan, planReserved := reserved, planPromised := promised
      planSignature := some s.currentPlanSignature } }

def loadRow (codecs : Codecs) (row : Text × Text) : TextCall Unit := do
  let s ← get
  liftExcept (s.mapping.validatePseudonym codecs row.1 row.2 (s.mapping.strictest.lookup row.1) "GLOBAL_TEXT_PERSISTED")
  set { s with mapping := s.mapping.recordRow row }

def loadAndValidatePersisted (codecs : Codecs) : TextCall Unit := do
  let s ← get
  s.rows.forM (loadRow codecs)

/-- The same pass over the rows, inside every allocation transaction. -/
def syncUsed (codecs : Codecs) : TextCall Unit := loadAndValidatePersisted codecs

def finalize (codecs : Codecs) : TextCall Unit := do
  let s ← get
  if s.mapping.finalized then throw (.valueError "constraint set is already finalized")
  let alphabet := candidateAlphabet codecs s.mapping.encodings
  if alphabet = [] then throw noSafeAlphabet
  set { s with mapping := { s.mapping with alphabet := some alphabet } }
  if ∃ row ∈ s.mapping.strictest.rows, row.2 ≤ 0 then
    throw (textFailure .mappingConstraintInfeasible "GLOBAL_TEXT_WIDTH_INFEASIBLE")
  modify fun s => { s with vault := s.mapping.ensureDomain s.vault }
  loadAndValidatePersisted codecs
  modify fun s => { s with mapping := { s.mapping with finalized := true } }

def buildPlan : TextCall Unit := do
  let s ← get
  match s.mapping.alphabet with
  | none => throw .assertionError
  | some alphabet =>
    if s.mapping.unpersisted = [] then set (s.withPlan [] [] s.mapping.planPromised)
    else match ← liftExcept (s.mapping.planProblem alphabet).solve with
      | none =>
        set (s.withPlan [] [] s.mapping.planPromised)
        throw noCompletion
      | some plan =>
        set (s.withPlan plan (s.mapping.reservedTokens alphabet s.mapping.unpersisted)
          (plan.filterMap (·.2.token?)))

/-- Keeps a plan of the current fixed rows, and plans when there is none. -/
def ensurePlan : TextCall Unit := do
  let s ← get
  if s.mapping.plan.isSome ∧ s.mapping.planSignature = some s.currentPlanSignature then pure () else buildPlan

/-- The planned entry, with one more plan when there is none. -/
def plannedEntry (original : Text) : TextCall PlanEntry := do
  match (← get).mapping.planEntry original with
  | some entry => return entry
  | none =>
    buildPlan
    match (← get).mapping.planEntry original with
    | some entry => return entry
    | none => throw noCompletion

def selectCandidate (rng : Csprng) (original : Text) (entry : PlanEntry) : TextCall Text := do
  let s ← get
  let (candidate, draws) ← liftExcept (s.mapping.selectCandidate rng s.draws original entry)
  set { s with draws }
  return candidate

def commit (s : TextSession) (original candidate : Text) (entry : PlanEntry) (mappings : TextMappings) :
    TextSession where
  mapping := s.mapping.recordAllocation original candidate entry
  vault := { s.vault with textMappings := Function.update s.vault.textMappings s.mapping.domainId mappings }
  draws := s.draws

/-- A row that is there already is returned unchanged, once it is known to fit. -/
def reuse (codecs : Codecs) (original existing : Text) (width : ℕ) : TextCall Text := do
  let s ← get
  liftExcept (s.mapping.validatePseudonym codecs original existing (some width) "GLOBAL_TEXT_REUSED")
  return existing

/-- One fresh mapping in one transaction. -/
def allocate (codecs : Codecs) (rng : Csprng) (original : Text) (width : ℕ) : TextCall Text := do
  syncUsed codecs
  ensurePlan
  let s ← get
  match s.vault.textPseudonym s.mapping.domainId original with
  | some fresh => reuse codecs original fresh width
  | none =>
    let entry ← plannedEntry original
    let candidate ← selectCandidate rng original entry
    let s ← get
    match maxEncodedByteLength codecs candidate s.mapping.encodings with
    | none => throw noSafeAlphabet
    | some length =>
      let mappings ← liftExcept (addTextMapping (s.vault.textMappings s.mapping.domainId) original candidate length)
      set (s.commit original candidate entry mappings)
      return candidate

def pseudonymFor (codecs : Codecs) (rng : Csprng) (original : Text) : TextCall Text := do
  let s ← get
  if s.mapping.finalized = false then
    throw (.valueError "pseudonym allocation requires the finalized constraint set")
  if original = [] then throw (.valueError "NULL and empty values stay preserved and are not mapped")
  match s.mapping.strictest.lookup original with
  | none => throw unobserved
  | some width =>
    match s.vault.textPseudonym s.mapping.domainId original with
    | some existing => reuse codecs original existing width
    | none => allocate codecs rng original width

/-- One request, with the session it leaves. -/
def serve (codecs : Codecs) (rng : Csprng) (s : TextSession) (original : Text) : Except Raised Text × TextSession :=
  match (pseudonymFor codecs rng original).run s with
  | .ok pseudonym s' => (.ok pseudonym, s')
  | .error e s' => (.error e, s')

/-- Requests in the order they come: each with its answer, and the session they leave. -/
def serveAll (codecs : Codecs) (rng : Csprng) :
    TextSession → List Text → List (Text × Except Raised Text) × TextSession
  | s, [] => ([], s)
  | s, original :: rest =>
    let (answer, s') := s.serve codecs rng original
    let (answers, s'') := serveAll codecs rng s' rest
    ((original, answer) :: answers, s'')

end TextSession
end DbfAnonymizer.Vault
