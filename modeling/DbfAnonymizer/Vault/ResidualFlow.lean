import Mathlib
import DbfAnonymizer.Errors

/-! The in-memory maximum flow of the text planner: layered search and blocking pushes. -/
namespace DbfAnonymizer.Vault

/-- One `add_edge` call is an arc; its two adjacency entries hold the residual capacities. -/
structure ResidualFlow where
  nodeCount : ℕ
  arcs : List (ℕ × ℕ)
  forward : ℕ → ℤ
  backward : ℕ → ℤ

/-- An adjacency entry: the forward or the backward side of an arc. -/
structure FlowEdge where
  arc : ℕ
  isForward : Bool
  origin : ℕ
  target : ℕ
  deriving DecidableEq, Repr

namespace ResidualFlow

def empty (nodeCount : ℕ) : ResidualFlow := ⟨nodeCount, [], fun _ => 0, fun _ => 0⟩

def addEdge (net : ResidualFlow) (edge : (ℕ × ℕ) × ℤ) : ResidualFlow where
  nodeCount := net.nodeCount
  arcs := net.arcs ++ [edge.1]
  forward := Function.update net.forward net.arcs.length edge.2
  backward := Function.update net.backward net.arcs.length 0

/-- A network of the given edges, added in order. -/
def ofEdges (nodeCount : ℕ) (edges : List ((ℕ × ℕ) × ℤ)) : ResidualFlow := edges.foldl addEdge (empty nodeCount)

def entriesOf (node : ℕ) (arc : (ℕ × ℕ) × ℕ) : List FlowEdge :=
  (if arc.1.1 = node then [⟨arc.2, true, arc.1.1, arc.1.2⟩] else []) ++
    if arc.1.2 = node then [⟨arc.2, false, arc.1.2, arc.1.1⟩] else []

/-- The adjacency list of a node, in the order its edges were added. -/
def entries (net : ResidualFlow) (node : ℕ) : List FlowEdge := net.arcs.zipIdx.flatMap (entriesOf node)

def residual (net : ResidualFlow) (edge : FlowEdge) : ℤ :=
  if edge.isForward then net.forward edge.arc else net.backward edge.arc

/-- Moves an amount of capacity from an entry to its twin. -/
def push (amount : ℤ) (net : ResidualFlow) (edge : FlowEdge) : ResidualFlow :=
  let sign : ℤ := if edge.isForward then amount else -amount
  { net with
    forward := Function.update net.forward edge.arc (net.forward edge.arc - sign)
    backward := Function.update net.backward edge.arc (net.backward edge.arc + sign) }

structure Layer where
  levels : ℕ → ℤ
  next : List ℕ

def bfsEdge (net : ResidualFlow) (node : ℕ) (layer : Layer) (edge : FlowEdge) : Layer :=
  if 0 < net.residual edge ∧ layer.levels edge.target = -1 then
    ⟨Function.update layer.levels edge.target (layer.levels node + 1), layer.next ++ [edge.target]⟩
  else layer

def bfsNode (net : ResidualFlow) (layer : Layer) (node : ℕ) : Layer :=
  (net.entries node).foldl (bfsEdge net node) layer

def bfsLoop (net : ResidualFlow) (sink : ℕ) : ℕ → (ℕ → ℤ) → List ℕ → Option (ℕ → ℤ)
  | 0, _, _ => none
  | fuel + 1, levels, queue =>
    if queue ≠ [] ∧ levels sink = -1 then
      let layer := queue.foldl (bfsNode net) ⟨levels, []⟩
      bfsLoop net sink fuel layer.levels layer.next
    else some levels

def bfs (net : ResidualFlow) (source sink : ℕ) : Option (ℕ → ℤ) :=
  bfsLoop net sink (net.nodeCount + 2) (Function.update (fun _ => -1) source 0) [source]

/-- The loop variables of the push; the path has its last edge first. -/
structure Push where
  net : ResidualFlow
  levels : ℕ → ℤ
  iterator : ℕ → ℕ
  path : List FlowEdge
  node : ℕ
  total : ℤ

inductive PushStep
  | continue (next : Push)
  | done (net : ResidualFlow) (total : ℤ)
  | emptyPath

def admissible (p : Push) (edge : FlowEdge) : Bool :=
  0 < p.net.residual edge ∧ p.levels edge.target = p.levels p.node + 1

/-- At the sink: the path carries as much as its edges and the limit allow. An empty path has no minimum. -/
def augmentPath (source : ℕ) (limit : ℤ) (p : Push) : PushStep :=
  if p.path = [] then .emptyPath else
  let bottleneck := (p.path.map p.net.residual).foldl min (limit - p.total)
  let net := p.path.reverse.foldl (push bottleneck) p.net
  let total := p.total + bottleneck
  if limit ≤ total then .done net total
  else .continue { p with net, total, node := source, path := [] }

/-- The first admissible edge from the node's iterator on. -/
def edgeIndex (p : Push) : ℕ :=
  p.iterator p.node + (((p.net.entries p.node).drop (p.iterator p.node)).findIdx (admissible p))

def pushStep (source sink : ℕ) (limit : ℤ) (p : Push) : PushStep :=
  if p.node = sink then augmentPath source limit p
  else
    let index := edgeIndex p
    let p := { p with iterator := Function.update p.iterator p.node index }
    match (p.net.entries p.node)[index]? with
    | some edge => .continue { p with path := edge :: p.path, node := edge.target }
    | none =>
      if p.node = source then .done p.net p.total
      else match p.path with
        | [] => .emptyPath
        | failed :: path =>
          .continue { p with levels := Function.update p.levels p.node (-1), path, node := failed.origin }

def pushLoop (source sink : ℕ) (limit : ℤ) : ℕ → Push → Option (ResidualFlow × ℤ)
  | 0, _ => none
  | fuel + 1, p =>
    match pushStep source sink limit p with
    | .continue next => pushLoop source sink limit fuel next
    | .done net total => some (net, total)
    | .emptyPath => none

def pushFuel (net : ResidualFlow) (limit : ℤ) : ℕ := (limit.toNat + net.nodeCount + 1) * (net.nodeCount + 2)

def blockingPush (net : ResidualFlow) (levels : ℕ → ℤ) (source sink : ℕ) (limit : ℤ) :
    Option (ResidualFlow × ℤ) :=
  pushLoop source sink limit (net.pushFuel limit) ⟨net, levels, fun _ => 0, [], source, 0⟩

def flowLoop (source sink : ℕ) (demand : ℤ) : ℕ → ResidualFlow → ℤ → Option (ResidualFlow × ℤ)
  | 0, _, _ => none
  | fuel + 1, net, flow =>
    if demand ≤ flow then some (net, flow)
    else match net.bfs source sink with
      | none => none
      | some levels =>
        if levels sink = -1 then some (net, flow)
        else match net.blockingPush levels source sink (demand - flow) with
          | none => none
          | some (net, pushed) => flowLoop source sink demand fuel net (flow + pushed)

/-- The flow value with the network it leaves, stopping early at the demand; `none` would be a loop that
does not end, or the minimum of an empty path or a pop from it. -/
def maxFlow (net : ResidualFlow) (source sink : ℕ) (demand : ℤ) : Option (ResidualFlow × ℤ) :=
  flowLoop source sink demand (demand.toNat + 1) net 0

/-- The downstream node of the first entry without capacity. -/
def routedTarget (net : ResidualFlow) (node : ℕ) : Option ℕ :=
  ((net.entries node).find? (net.residual · = 0)).map FlowEdge.target

end ResidualFlow
end DbfAnonymizer.Vault
