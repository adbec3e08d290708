import DbfAnonymizer.Engine.TextSpool
import DbfAnonymizer.Lib.Outcome

/-! The residual text assignment: its graph, the augmenting-path search and the final validation. -/
namespace DbfAnonymizer.Engine
open Transforms Lib Vault

/-- SQLite's `length()` counts the characters before the first NUL. -/
def sqliteLength (value : Text) : ℕ := (value.takeWhile (· ≠ '\x00')).length

def classSize (base length : ℕ) : ℤ := (base : ℤ) ^ length

def sqliteInt64Max : ℤ := 2 ^ 63 - 1

def storedCapacity (size : ℤ) : ℤ := min size sqliteInt64Max

/-- A row of `res_original`; its index is its position. -/
structure ResOriginal where
  width : ℕ
  canonical : Text
  ownToken : Option Text
  deriving DecidableEq, Repr

/-- A row of `res_token`; its `tid` is its position. -/
structure ResToken where
  value : Text
  length : ℕ
  ownerIdx : ℕ
  deriving DecidableEq, Repr

/-- What an original is assigned: a slot of a fungible length class, or one reserved token. -/
inductive Resource
  | classSlot (length : ℕ)
  | token (tid : ℕ)
  deriving DecidableEq, Repr

def Resource.isToken : Resource → Bool
  | .token _ => true
  | .classSlot _ => false

structure ResidualGraph where
  originals : List ResOriginal
  tokens : List ResToken
  maxWidth : ℕ

/-- The tables the search writes: the remaining class capacities and the assignment. -/
structure ResidualState where
  fungible : ℕ → ℤ
  assign : KeyedTable ℕ Resource

def tokenOccupied (mappings : TextMappings) (token : Text) : Bool := token ∈ mappings.table.values

def occupiedByLength (mappings : TextMappings) (length : ℕ) : ℕ :=
  (mappings.table.values.filter (mappings.logicalByteLength · = length)).length

/-- The original's own value, where that is a free safe token of its width. -/
def ownTokenOf (alphabet : Text) (mappings : TextMappings) (value : Text) (width : ℕ) : Option Text :=
  if isSafeToken value alphabet ∧ value.length ≤ width ∧ ¬ tokenOccupied mappings value then some value else none

def resToken (row : ResOriginal × ℕ) : Option ResToken :=
  row.1.ownToken.map fun value => ⟨value, sqliteLength value, row.2⟩

def reservedByLength (tokens : List ResToken) (length : ℕ) : ℕ := (tokens.filter (·.length = length)).length

/-- The stored capacity of a class: its tokens that are neither occupied nor reserved. -/
def initialFungible (mappings : TextMappings) (base : ℕ) (tokens : List ResToken) (length : ℕ) : ℤ :=
  storedCapacity (classSize base length - occupiedByLength mappings length - reservedByLength tokens length)

def residualGraph (alphabet : Text) (mappings : TextMappings) (spool : TextSpool) : ResidualGraph :=
  let originals := spool.textObservations.map fun row => ⟨row.2, row.1, ownTokenOf alphabet mappings row.1 row.2⟩
  ⟨originals, originals.zipIdx.filterMap resToken, (originals.map ResOriginal.width).foldl max 0⟩

def initialState (mappings : TextMappings) (base : ℕ) (graph : ResidualGraph) : ResidualState where
  fungible length :=
    if 1 ≤ length ∧ length ≤ graph.maxWidth then initialFungible mappings base graph.tokens length else 0
  assign := .empty

def buildResidualGraph (alphabet : Text) (mappings : TextMappings) (spool : TextSpool) :
    Except Raised ResidualGraph := do
  refuseIf (∃ row ∈ spool.textObservations, row.2 ≤ 0) (capacityFailure "ENGINE_TEXT_WIDTH_INFEASIBLE")
  return residualGraph alphabet mappings spool

/-- The next occupant of a class that was not yet visited. -/
def assignedToClass (st : ResidualState) (visited : List ℕ) (length : ℕ) (afterIdx : ℤ) : Option ℕ :=
  ((st.assign.rows.filter fun row => row.2 = .classSlot length ∧ afterIdx < row.1 ∧ row.1 ∉ visited).map
    Prod.fst).min?

def assignedToToken (st : ResidualState) (tid : ℕ) : Option ℕ :=
  (st.assign.rows.find? (·.2 = .token tid)).map Prod.fst

/-- The edge filter of both token probes. -/
def tokenEdge (origIdx width : ℕ) (ownToken : Option Text) (afterTid : ℤ) (row : ResToken × ℕ) : Bool :=
  row.1.length ≤ width ∧ afterTid < row.2 ∧ row.1.ownerIdx ≠ origIdx ∧ ownToken ≠ some row.1.value

def firstFreeTokenEdge (graph : ResidualGraph) (st : ResidualState) (origIdx width : ℕ) (ownToken : Option Text)
    (afterTid : ℤ) : Option ℕ :=
  (graph.tokens.zipIdx.find? fun row =>
    tokenEdge origIdx width ownToken afterTid row ∧ assignedToToken st row.2 = none).map Prod.snd

/-- The occupant of a token, where the search may still displace it. -/
def displaceable (st : ResidualState) (visited : List ℕ) (tid : ℕ) : Option (ℕ × ℕ) :=
  match assignedToToken st tid with
  | none => none
  | some occupant => if occupant ∈ visited then none else some (tid, occupant)

def nextDisplaceableTokenEdge (graph : ResidualGraph) (st : ResidualState) (visited : List ℕ) (origIdx width : ℕ)
    (ownToken : Option Text) (afterTid : ℤ) : Option (ℕ × ℕ) :=
  graph.tokens.zipIdx.findSome? fun row =>
    if tokenEdge origIdx width ownToken afterTid row then displaceable st visited row.2 else none

/-- A row of `res_dfs`; the depth is the position below the top of the stack. -/
structure Frame where
  origIdx : ℕ
  vacate : Option Resource
  classPos : ℕ
  tokenPos : ℤ
  displaceFrom : ℤ
  deriving DecidableEq, Repr

def Frame.start (origIdx : ℕ) (vacate : Option Resource) : Frame := ⟨origIdx, vacate, 1, -1, -1⟩

structure Search where
  stack : List Frame
  visited : List ℕ
  deriving DecidableEq, Repr

inductive Probe
  | found (resource : Resource)
  | searching (next : Search)
  | exhausted
  | corrupt
  deriving DecidableEq, Repr

/-- A child frame for a displaced occupant, which is visited from then on. -/
def Search.descend (s : Search) (head : Frame) (below : List Frame) (occupant : ℕ) (vacate : Resource) : Search :=
  ⟨.start occupant (some vacate) :: head :: below, occupant :: s.visited⟩

/-- One probe of the frame on top: its class edges first, then its token edges. -/
def augmentStep (graph : ResidualGraph) (st : ResidualState) (s : Search) : Probe :=
  match s.stack with
  | [] => .exhausted
  | head :: below =>
    match graph.originals[head.origIdx]? with
    | none => .corrupt
    | some original =>
      if head.classPos ≤ original.width then
        if 0 < st.fungible head.classPos then .found (.classSlot head.classPos)
        else match assignedToClass st s.visited head.classPos head.displaceFrom with
          | some displaced =>
            .searching (s.descend { head with displaceFrom := displaced } below displaced (.classSlot head.classPos))
          | none =>
            .searching { s with stack := { head with classPos := head.classPos + 1, displaceFrom := -1 } :: below }
      else match firstFreeTokenEdge graph st head.origIdx original.width original.ownToken head.tokenPos with
        | some tid => .found (.token tid)
        | none =>
          match nextDisplaceableTokenEdge graph st s.visited head.origIdx original.width original.ownToken
              head.tokenPos with
          | some (tid, occupant) =>
            .searching (s.descend { head with tokenPos := tid } below occupant (.token tid))
          | none => .searching { s with stack := below }

inductive SearchEnd
  | found (stack : List Frame) (resource : Resource)
  | exhausted
  | corrupt

/-- The probes until one ends the search; `none` when the fuel runs out first. -/
def augmentLoop (graph : ResidualGraph) (st : ResidualState) : ℕ → Search → Option SearchEnd
  | 0, _ => none
  | fuel + 1, s =>
    match augmentStep graph st s with
    | .found resource => some (.found s.stack resource)
    | .searching next => augmentLoop graph st fuel next
    | .exhausted => some .exhausted
    | .corrupt => some .corrupt

def residualCorrupt : Raised := capacityFailure "ENGINE_TEXT_RESIDUAL_CORRUPT"

/-- Writes one assignment; the kind check and the unique index of the reserved tokens can refuse it. -/
def assignRow (assign : KeyedTable ℕ Resource) (origIdx : ℕ) (resource : Option Resource) :
    Except Raised (KeyedTable ℕ Resource) :=
  match resource with
  | none => .error residualCorrupt
  | some resource =>
    if resource.isToken ∧ ∃ row ∈ assign.rows, row.1 ≠ origIdx ∧ row.2 = resource then .error residualCorrupt
    else .ok (assign.upsert origIdx resource)

/-- The found resource goes to the top frame, and every frame below takes what the one above vacates. -/
def unwindRows : List Frame → Option Resource → KeyedTable ℕ Resource → Except Raised (KeyedTable ℕ Resource)
  | [], _, assign => .ok assign
  | frame :: below, carrying, assign => do
    let assign ← assignRow assign frame.origIdx carrying
    unwindRows below frame.vacate assign

/-- The only capacity that changes is that of a found class. -/
def consume (fungible : ℕ → ℤ) : Resource → ℕ → ℤ
  | .classSlot length => Function.update fungible length (fungible length - 1)
  | .token _ => fungible

def unwind (st : ResidualState) (stack : List Frame) (found : Resource) : Except Raised ResidualState := do
  let assign ← unwindRows stack (some found) st.assign
  return ⟨consume st.fungible found, assign⟩

/-- A bound on the probes of one search: what every frame can still do, once for each original. -/
def searchFuel (graph : ResidualGraph) : ℕ := (graph.originals.map (·.width + 2)).sum + 1

/-- One augmenting path for an original; the inner `none` is the search that found no path. -/
def augment (graph : ResidualGraph) (st : ResidualState) (origIdx : ℕ) : Option (Except Raised (Option ResidualState)) :=
  match augmentLoop graph st (searchFuel graph) ⟨[.start origIdx none], [origIdx]⟩ with
  | none => none
  | some .corrupt => some (.error residualCorrupt)
  | some .exhausted => some (.ok none)
  | some (.found stack resource) => some ((unwind st stack resource).map some)

def augmentAll (graph : ResidualGraph) : List ℕ → ResidualState → Option (Except Raised ResidualState)
  | [], st => some (.ok st)
  | origIdx :: rest, st =>
    match augment graph st origIdx with
    | none => none
    | some (.error e) => some (.error e)
    | some (.ok none) => some (.error (capacityFailure "ENGINE_TEXT_RESIDUAL_INFEASIBLE"))
    | some (.ok (some st)) => augmentAll graph rest st

/-- A row that names no token, its own value, or a resource longer than its width. -/
def malformedRow (graph : ResidualGraph) (row : ℕ × Resource) : Bool :=
  match row.2, graph.originals[row.1]? with
  | .classSlot length, some original => original.width < length
  | .token tid, original? =>
    match graph.tokens[tid]?, original? with
    | none, _ => true
    | some token, some original =>
      token.ownerIdx = row.1 ∨ original.ownToken = some token.value ∨ original.width < token.length
    | some _, none => false
  | .classSlot _, none => false

def classTaken (assign : KeyedTable ℕ Resource) (length : ℕ) : ℕ :=
  (assign.rows.filter (·.2 = .classSlot length)).length

def tokenRows (assign : KeyedTable ℕ Resource) : List Resource :=
  (assign.rows.map Prod.snd).filter Resource.isToken

/-- The remaining capacity of a class that the stored rows account for. -/
def expectedRemaining (mappings : TextMappings) (base : ℕ) (graph : ResidualGraph) (st : ResidualState)
    (length : ℕ) : ℤ :=
  initialFungible mappings base graph.tokens length - classTaken st.assign length

def validateResidualAssignment (mappings : TextMappings) (base : ℕ) (graph : ResidualGraph) (st : ResidualState) :
    Except Raised Unit := do
  refuseIf (st.assign.rows.length ≠ graph.originals.length) residualCorrupt
  refuseIf ((st.assign.rows.map Prod.fst).dedup.length ≠ graph.originals.length) residualCorrupt
  refuseIf (∃ row ∈ st.assign.rows, graph.originals.length ≤ row.1) residualCorrupt
  refuseIf (¬ (tokenRows st.assign).Nodup) residualCorrupt
  refuseIf (∃ row ∈ st.assign.rows, malformedRow graph row = true) residualCorrupt
  refuseIf (∃ length ∈ List.range' 1 graph.maxWidth,
    st.fungible length ≠ expectedRemaining mappings base graph st length ∨
      expectedRemaining mappings base graph st length < 0) residualCorrupt

/-- The solved tables. -/
structure TextResidualPlan where
  graph : ResidualGraph
  state : ResidualState

/-- The whole solve; `none` would be a search that does not end. -/
def solveTextResidual (alphabet : Text) (mappings : TextMappings) (spool : TextSpool) :
    Option (Except Raised TextResidualPlan) :=
  match buildResidualGraph alphabet mappings spool with
  | .error e => some (.error e)
  | .ok graph =>
    match augmentAll graph (List.range graph.originals.length) (initialState mappings alphabet.length graph) with
    | none => none
    | some (.error e) => some (.error e)
    | some (.ok st) =>
      some ((validateResidualAssignment mappings alphabet.length graph st).map fun _ => ⟨graph, st⟩)

end DbfAnonymizer.Engine
