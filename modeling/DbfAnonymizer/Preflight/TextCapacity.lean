import DbfAnonymizer.Lib.KeyedTable
import DbfAnonymizer.Records
import DbfAnonymizer.Transforms.Tokens

/-! The preflight's capacity check of the global text domain. -/
namespace DbfAnonymizer.Preflight
open Transforms Lib

inductive Capacity
  | ok | insufficient | unproven
  deriving DecidableEq, Repr

def maxExactValues : ℕ := 65536

/-- A table that takes part in the text domain: its declared record count, its participating fields
with their lengths, and its records. -/
structure SensitiveTable where
  recordCount : ℕ
  encoding : Text
  fields : List (Text × ℕ)
  records : List DirectRecord

/-- The participating fields of a table under a policy. -/
def textFields (policy : ResolvedPolicy) (schema : TableSchema) : List (Text × ℕ) :=
  (schema.fields.filter fun f => classifyFieldCapability f policy = .transform .pseudonymizeReversible).map
    fun f => (f.name, f.length)

def sensitiveTables (policy : ResolvedPolicy) (tables : List StoredTable) : List SensitiveTable :=
  (tables.map fun t => ⟨t.schema.recordCount, t.schema.encoding, textFields policy t.schema, t.records⟩).filter
    (·.fields ≠ [])

/-- The exact originals tracked so far with their strictest widths, and the counts of tight widths. -/
structure CapacityState where
  tracker : KeyedTable Text ℕ
  counts : ℕ → ℕ

/-- Counts an original towards the tight widths it newly falls under; true when one overflows. -/
def noteStrictest (base : ℕ) (previous : Option ℕ) (strictest : ℕ) : List ℕ → (ℕ → ℕ) → (ℕ → ℕ) × Bool
  | [], counts => (counts, false)
  | width :: rest, counts =>
    if strictest ≤ width ∧ previous.all (width < ·) then
      let counts := Function.update counts width (counts width + 1)
      if tokenSpaceAtLeast width base (counts width) then noteStrictest base previous strictest rest counts
      else (counts, true)
    else noteStrictest base previous strictest rest counts

/-- One observed original under one field length; a refusal ends the scan with its verdict. -/
def observeOriginal (base : ℕ) (tight : List ℕ) (st : CapacityState) (observation : Text × ℕ) :
    Except Capacity CapacityState :=
  let (value, length) := observation
  let note (previous : Option ℕ) : Except Capacity CapacityState :=
    let (counts, violated) := noteStrictest base previous length tight st.counts
    if violated then .error .insufficient
    else .ok ⟨st.tracker.upsert value (reducedStrictest previous length), counts⟩
  match st.tracker.lookup value with
  | none => if maxExactValues ≤ st.tracker.rows.length then .error .unproven else note none
  | some strictest => if length < strictest then note (some strictest) else .ok st

/-- The texts a table shows under some of its fields: non-empty, one for each record and field. -/
def observationsOf (fields : List (Text × ℕ)) (records : List DirectRecord) : List (Text × ℕ) :=
  records.flatMap fun record => fields.filterMap fun field =>
    match record.values field.1 with
    | .text value => if value = [] then none else some (value, field.2)
    | _ => none

def observations (sensitive : List SensitiveTable) : List (Text × ℕ) :=
  sensitive.flatMap fun t => observationsOf t.fields t.records

def fieldWidths (sensitive : List SensitiveTable) : List ℕ :=
  (sensitive.flatMap fun t => t.fields.map Prod.snd).dedup.insertionSort (· ≤ ·)

/-- The most occurrences that fields of at most this width can hold. -/
def occurrenceUpperBound (sensitive : List SensitiveTable) (width : ℕ) : ℕ :=
  (sensitive.map fun t => t.recordCount * (t.fields.filter (·.2 ≤ width)).length).sum

/-- Phase A: the widths whose token space is not proven large enough. -/
def tightWidths (sensitive : List SensitiveTable) (base : ℕ) : List ℕ :=
  let widths := fieldWidths sensitive
  let tight := widths.filter fun w => !tokenSpaceAtLeast w base (occurrenceUpperBound sensitive w)
  if base = 1 ∧ widths ≠ [] ∧ 1 ∉ tight then 1 :: tight else tight

/-- Phase B: the scan of the fields that can touch a tight width. -/
def scanTight (sensitive : List SensitiveTable) (base : ℕ) (tight : List ℕ) : Except Capacity CapacityState :=
  let maxTight := tight.getLast?.getD 0
  let streamed := sensitive.flatMap fun t => observationsOf (t.fields.filter (·.2 ≤ maxTight)) t.records
  streamed.foldlM (observeOriginal base tight) ⟨.empty, fun _ => 0⟩

/-- With one token only, a single original of width 1 that is that token cannot be mapped. -/
def singleTokenInfeasible (alphabet : Text) (st : CapacityState) : Bool :=
  alphabet.length = 1 ∧ st.counts 1 = 1 ∧ (st.tracker.rows.find? (·.2 = 1)).map Prod.fst = some alphabet

def capacityOfTables (alphabet : Text) (sensitive : List SensitiveTable) : Capacity :=
  let base := alphabet.length
  let tight := tightWidths sensitive base
  if tight = [] then .ok
  else match scanTight sensitive base tight with
    | .error verdict => verdict
    | .ok st => if singleTokenInfeasible alphabet st then .insufficient else .ok

/-- What the check is given: whether the policy transforms text at all, the merged policy where there is
one, and the dataset's files with the tables behind them. -/
structure CapacityInput where
  codecs : Codecs
  transformsText : Bool
  resolvedPolicy : Option ResolvedPolicy
  sourceFiles : List (Text × StoredTable)

def isDbf (rel : Text) : Bool := ['.', 'd', 'b', 'f'].isSuffixOf (rel.map Char.toLower)

def CapacityInput.tables (input : CapacityInput) : List StoredTable :=
  ((input.sourceFiles.filter (isDbf ·.1)).insertionSort (·.1 ≤ ·.1)).map Prod.snd

/-- The encodings of the participating tables, where a table declares one. -/
def participatingEncodings (sensitive : List SensitiveTable) : List Text :=
  ((sensitive.map SensitiveTable.encoding).filter (· ≠ [])).dedup

def capacitySufficient (input : CapacityInput) : Capacity :=
  if input.transformsText = false then .ok
  else if input.tables = [] then .ok
  else match input.resolvedPolicy with
    | none => .unproven
    | some policy =>
      let sensitive := sensitiveTables policy input.tables
      if sensitive = [] then .ok
      else
        let alphabet := candidateAlphabet input.codecs (participatingEncodings sensitive)
        if alphabet = [] then .insufficient else capacityOfTables alphabet sensitive

end DbfAnonymizer.Preflight
