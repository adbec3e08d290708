import DbfAnonymizer.Engine.Evidence
import DbfAnonymizer.Lib.Histogram

/-! The evidence tables of the spool and of the worker shards, and the comparison read off them. -/
namespace DbfAnonymizer.Engine
open Relationships Lib

/-- One side of one relation in one pass. -/
abbrev SideKey := EvidenceSide × Text × SideRole

def RelationObservation.sideKey (o : RelationObservation) : SideKey := (o.side, o.relationId, o.role)

/-- Two evidence tables in front of which observations wait in bounded batches. -/
structure EvidenceStore where
  relationKeys : KeyedTable (SideKey × List UInt8) ℕ
  relationSideFacts : KeyedTable SideKey (ℕ × ℕ)
  pendingKeys : List ((SideKey × List UInt8) × ℕ)
  pendingFacts : List (SideKey × ℕ × ℕ)

/-- Who owns a store: the spool of the run, or a worker. -/
inductive EvidenceSink
  | passOneSpool | relationEvidenceShard
  deriving DecidableEq, Repr

/-- The spool adds one to a key it has, the shard the occurrences of the refused row. -/
def EvidenceSink.onConflict : EvidenceSink → ℕ → ℕ → ℕ
  | .passOneSpool, occurrences, _ => occurrences + 1
  | .relationEvidenceShard, occurrences, excluded => occurrences + excluded

namespace EvidenceStore

def empty : EvidenceStore := ⟨.empty, .empty, [], []⟩

def insertKey (sink : EvidenceSink) (t : KeyedTable (SideKey × List UInt8) ℕ)
    (row : (SideKey × List UInt8) × ℕ) : KeyedTable (SideKey × List UInt8) ℕ :=
  match t.lookup row.1 with
  | none => t.upsert row.1 row.2
  | some occurrences => t.upsert row.1 (sink.onConflict occurrences row.2)

def flushKeys (sink : EvidenceSink) (s : EvidenceStore) : EvidenceStore :=
  { s with relationKeys := s.pendingKeys.foldl (insertKey sink) s.relationKeys, pendingKeys := [] }

def flushFacts (s : EvidenceStore) : EvidenceStore :=
  { s with relationSideFacts := s.relationSideFacts.accumulateAll s.pendingFacts, pendingFacts := [] }

def flush (sink : EvidenceSink) (s : EvidenceStore) : EvidenceStore := (s.flushKeys sink).flushFacts

def observeRelationKey (sink : EvidenceSink) (batch : ℕ) (s : EvidenceStore) (key : SideKey)
    (canonical : List UInt8) : EvidenceStore :=
  let s := { s with pendingKeys := s.pendingKeys ++ [((key, canonical), 1)] }
  if batch ≤ s.pendingKeys.length then s.flushKeys sink else s

def observeRelationSide (batch : ℕ) (s : EvidenceStore) (key : SideKey) (rows nulls : ℕ) : EvidenceStore :=
  let s := { s with pendingFacts := s.pendingFacts ++ [(key, rows, nulls)] }
  if batch ≤ s.pendingFacts.length then s.flushFacts else s

/-- One record on one side: its row is counted, and its key too unless it holds a NULL. -/
def observe (sink : EvidenceSink) (batch : ℕ) (s : EvidenceStore) (o : RelationObservation) : EvidenceStore :=
  match o.key with
  | none => s.observeRelationSide batch o.sideKey 1 1
  | some canonical => (s.observeRelationSide batch o.sideKey 1 0).observeRelationKey sink batch o.sideKey canonical

/-- The spool's observations in their order, with a flush wherever one is asked for. -/
def passOneSpool (batch : ℕ) (events : List (Option RelationObservation)) : EvidenceStore :=
  events.foldl (fun s event => match event with
    | some o => s.observe .passOneSpool batch o
    | none => s.flush .passOneSpool) empty

/-- A worker's shard from its first observation to its close. -/
def closedShard (batch : ℕ) (observations : List RelationObservation) : EvidenceStore :=
  (observations.foldl (observe .relationEvidenceShard batch) empty).flush .relationEvidenceShard

def mergeRelationShard (s shard : EvidenceStore) : EvidenceStore :=
  { s with
    relationKeys := s.relationKeys.accumulateAll shard.relationKeys.rows
    relationSideFacts := s.relationSideFacts.accumulateAll shard.relationSideFacts.rows }

variable (s : EvidenceStore)

def sideFacts (key : SideKey) : ℕ × ℕ := (s.relationSideFacts.lookup key).getD (0, 0)

/-- `ORDER BY occurrences DESC, canonical ASC`. -/
def histogramLE (a b : List UInt8 × ℕ) : Prop := b.2 < a.2 ∨ a.2 = b.2 ∧ a.1 ≤ b.1

instance (a b : List UInt8 × ℕ) : Decidable (histogramLE a b) := by
  unfold histogramLE
  infer_instance

def relationHistogramStream (key : SideKey) : List (List UInt8 × ℕ) :=
  (s.relationKeys.slice key).rows.insertionSort histogramLE

def relationUniqueCount (key : SideKey) : ℕ := (s.relationKeys.slice key).rows.length

def relationMatchedCount (side : EvidenceSide) (relationId : Text) (parentRole foreignRole : SideRole) : ℕ :=
  ((s.relationKeys.slice (side, relationId, foreignRole)).rows.filter fun f =>
    f.1 ∈ (s.relationKeys.slice (side, relationId, parentRole)).keys).map Prod.snd |>.sum

/-- The two streams in step, by their occurrences alone. -/
def sameOccurrences : List (List UInt8 × ℕ) → List (List UInt8 × ℕ) → Bool
  | [], [] => true
  | left :: lefts, right :: rights => if left.2 ≠ right.2 then false else sameOccurrences lefts rights
  | _, _ => false

def relationProfileEqual (relationId : Text) (leftSide rightSide : EvidenceSide) (role : SideRole) : Bool :=
  sameOccurrences (s.relationHistogramStream (leftSide, relationId, role))
    (s.relationHistogramStream (rightSide, relationId, role))

end EvidenceStore

structure RelationPassSummary where
  relationId : Text
  verified : Bool
  beforeRows : ℕ
  afterRows : ℕ
  beforeNulls : ℕ
  afterNulls : ℕ
  beforeUnique : ℕ
  afterUnique : ℕ
  matchedRows : ℕ
  orphanCount : ℤ
  parentProfileEqual : Bool
  foreignProfileEqual : Bool
  deriving DecidableEq, Repr

structure StandaloneIdxEvidence where
  artifactId : Text
  artifactPath : Text
  status : Text
  sourceSha256 : Text
  backendId : Option Text
  tablePath : Option Text
  outputSha256 : Option Text
  deriving DecidableEq, Repr

/-- The counts, identities and digests of one run. -/
structure TwoPassResult where
  tablesWritten : List Text
  passOneRecordsScanned : ℕ
  passOneDeletedScanned : ℕ
  passTwoRecordsWritten : ℕ
  textAllocated : ℕ
  textReused : ℕ
  numericAllocated : List (Text × ℕ)
  temporalOffsetAllocated : Bool
  relations : List RelationPassSummary
  evidenceSpoolBytes : ℕ
  readStreams : List (Text × Text)
  operationId : Option Text
  outputFingerprint : Option Text
  reusedExisting : Bool
  protectedStateCreated : Bool
  indexArtifacts : List StandaloneIdxEvidence
  deriving DecidableEq, Repr

/-- The non-NULL foreign rows without a parent. -/
def EvidenceStore.orphans (s : EvidenceStore) (side : EvidenceSide) (relationId : Text) : ℤ :=
  let foreign := s.sideFacts (side, relationId, .foreign)
  (foreign.1 - foreign.2) - s.relationMatchedCount side relationId .parent .foreign

def relationPassSummary (s : EvidenceStore) (r : RelationDirective) : RelationPassSummary :=
  let beforeParent := s.sideFacts (.before, r.relationId, .parent)
  let afterParent := s.sideFacts (.after, r.relationId, .parent)
  let beforeForeign := s.sideFacts (.before, r.relationId, .foreign)
  let afterForeign := s.sideFacts (.after, r.relationId, .foreign)
  let beforeMatched := s.relationMatchedCount .before r.relationId .parent .foreign
  let afterMatched := s.relationMatchedCount .after r.relationId .parent .foreign
  let parentProfileEqual := s.relationProfileEqual r.relationId .before .after .parent
  let foreignProfileEqual := s.relationProfileEqual r.relationId .before .after .foreign
  { relationId := r.relationId
    verified := parentProfileEqual && foreignProfileEqual && beforeMatched == afterMatched &&
      s.orphans .before r.relationId == s.orphans .after r.relationId && beforeParent.2 == afterParent.2 &&
      beforeForeign.2 == afterForeign.2
    beforeRows := beforeParent.1 + beforeForeign.1
    afterRows := afterParent.1 + afterForeign.1
    beforeNulls := beforeForeign.2
    afterNulls := afterForeign.2
    beforeUnique := s.relationUniqueCount (.before, r.relationId, .parent)
    afterUnique := s.relationUniqueCount (.after, r.relationId, .parent)
    matchedRows := afterMatched
    orphanCount := s.orphans .after r.relationId
    parentProfileEqual
    foreignProfileEqual }

/-- One pass over a dataset's records, table by table: what every record adds to the relations. -/
def observeDataset (side : EvidenceSide) (relations : List RelationDirective)
    (tables : List (Text × List Values)) : Except Raised (List RelationObservation) := do
  let observed ← tables.mapM fun table => do
    let records ← table.2.mapM (observeRelations side relations table.1)
    return records.flatten
  return observed.flatten

/-- The spool in front of the comparison: the first pass, the merged shards, and the last flush. -/
def comparedSpool (batch : ℕ) (events : List (Option RelationObservation))
    (shards : List (List RelationObservation)) : EvidenceStore :=
  let merged := shards.foldl (fun s observations => s.mergeRelationShard (.closedShard batch observations))
    (EvidenceStore.passOneSpool batch events)
  merged.flush .passOneSpool

def compareRelations (relations : List RelationDirective) (s : EvidenceStore) : List RelationPassSummary :=
  relations.map (relationPassSummary s)

end DbfAnonymizer.Engine
