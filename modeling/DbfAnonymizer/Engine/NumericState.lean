import Mathlib
import DbfAnonymizer.Csprng
import DbfAnonymizer.Lib.BijectiveTable
import DbfAnonymizer.Lib.Outcome
import DbfAnonymizer.Transforms.NumericKeys

/-! Finalization of one numeric domain: the vault rows, the spool rows and the candidate search. -/
namespace DbfAnonymizer.Engine
open Transforms Lib

def numericKeyProbeBudget : ℕ := 64

def sqliteMinInteger : ℤ := -(2 ^ 63)
def sqliteMaxInteger : ℤ := 2 ^ 63 - 1

/-- `CAST(text AS INTEGER)` saturates at the signed 64-bit bounds. -/
def castInteger (value : ℤ) : ℤ := max sqliteMinInteger (min sqliteMaxInteger value)

/-- Binding a Python integer as an SQL parameter. -/
def bindInteger (value : ℤ) : Except Raised ℤ :=
  if sqliteMinInteger ≤ value ∧ value ≤ sqliteMaxInteger then .ok value
  else .error (.overflowError "Python int too large to convert to SQLite INTEGER")

/-- The spooled originals of one domain; the canonical text of each is its primary key. -/
structure NumericObservations where
  rows : List ℤ
  nodup : rows.Nodup

namespace NumericObservations

def empty : NumericObservations := ⟨[], List.nodup_nil⟩

/-- `INSERT OR IGNORE` of one observation. -/
def observe (s : NumericObservations) (value : ℤ) : NumericObservations where
  rows := if value ∈ s.rows then s.rows else s.rows ++ [value]
  nodup := by
    split_ifs with h
    · exact s.nodup
    · rw [List.nodup_append]
      refine ⟨s.nodup, List.nodup_singleton value, ?_⟩
      rintro a ha b hb rfl
      exact h (List.mem_singleton.mp hb ▸ ha)

def dropNumericObservation (s : NumericObservations) (value : ℤ) : NumericObservations where
  rows := s.rows.erase value
  nodup := s.nodup.erase value

def numericUnpersistedCount (s : NumericObservations) : ℕ := s.rows.length

/-- `ORDER BY canonical`: the order of the canonical texts, not of the integers. -/
def numericObservationStream (s : NumericObservations) : List ℤ :=
  s.rows.insertionSort fun a b => canonicalIntegerText a ≤ canonicalIntegerText b

end NumericObservations

/-- One domain's mapping rows, its spooled observations, and the random draws made so far. -/
structure NumericState where
  mappings : BijectiveTable ℤ ℤ
  observed : NumericObservations
  draws : ℕ

def addNumericKeyMapping (mappings : BijectiveTable ℤ ℤ) (original pseudonym : ℤ) :
    Except Raised (BijectiveTable ℤ ℤ) :=
  match mappings.insert? original pseudonym with
  | some mappings' => .ok mappings'
  | none => .error (.typed .mappingConflict "vault" "MAPPING_BIJECTION_REJECTED")

def numericTokenOccupied (mappings : BijectiveTable ℤ ℤ) (token : ℤ) : Bool :=
  token ∈ mappings.values

/-- Whether any observed original's own value is a free token of the domain. -/
def spoolValueFreeInDomain (domain : NumericKeyDomain) (st : NumericState) : Except Raised Bool := do
  let low ← bindInteger domain.pseudonymLow
  let high ← bindInteger domain.pseudonymHigh
  let candidates := (st.observed.rows.map castInteger).filter fun v => low ≤ v ∧ v ≤ high
  return candidates.any fun candidate => !numericTokenOccupied st.mappings candidate

def numericResidualFeasible (domain : NumericKeyDomain) (occupiedAfter remainingAfter : ℤ)
    (st : NumericState) : Except Raised Bool :=
  let freeAfter := domain.size - occupiedAfter
  if freeAfter < remainingAfter then .ok false
  else if freeAfter < 1 then .ok false
  else if 0 < remainingAfter then do
    let ownValueFree ← spoolValueFreeInDomain domain st
    return !(ownValueFree && freeAfter < 2)
  else .ok true

def numericCandidateBlocked (candidate : ℤ) (st : NumericState) : Bool :=
  candidate ∈ st.observed.rows

/-- The pseudonyms of the domain, `ORDER BY CAST(pseudonym_value AS INTEGER)`: the rows come from the unique index on
the pseudonym texts, and rows of one cast stay in its order. -/
def numericOccupiedStream (mappings : BijectiveTable ℤ ℤ) : List ℤ :=
  (mappings.values.insertionSort fun a b => canonicalIntegerText a ≤ canonicalIntegerText b).insertionSort
    fun a b => castInteger a ≤ castInteger b

theorem perm_numericOccupiedStream (mappings : BijectiveTable ℤ ℤ) :
    (numericOccupiedStream mappings).Perm mappings.values :=
  (List.perm_insertionSort _ _).trans (List.perm_insertionSort _ _)

def streamingJthFreeNumeric (domain : NumericKeyDomain) (occupiedStream : List ℤ) (j : ℤ) : ℤ :=
  go (domain.pseudonymLow - 1) j occupiedStream
where
  go (previous remaining : ℤ) : List ℤ → ℤ
    | [] => previous + 1 + remaining
    | value :: rest =>
      if value < domain.pseudonymLow ∨ domain.pseudonymHigh < value then go previous remaining rest
      else
        let gap := value - previous - 1
        if remaining < gap then previous + 1 + remaining else go value (remaining - gap) rest

/-- The acceptance test that probes and walk share. -/
def acceptNumericCandidate (domain : NumericKeyDomain) (st : NumericState) (original occupied remaining : ℤ)
    (candidate : ℤ) : Except Raised Bool :=
  if candidate = original then .ok false
  else if numericCandidateBlocked candidate st then .ok false
  else numericResidualFeasible domain (occupied + 1) (remaining - 1) st

/-- Random probes: the accepted candidate, if any, and the draw counter. -/
def probeNumeric (rng : Csprng) (accept : ℤ → Except Raised Bool) (candidateAt : ℤ → ℤ) (free : ℕ) :
    ℕ → ℕ → Except Raised (Option ℤ × ℕ)
  | 0, draws => .ok (none, draws)
  | budget + 1, draws => do
    let candidate := candidateAt (rng.next draws free)
    if ← accept candidate then return (some candidate, draws + 1)
    else probeNumeric rng accept candidateAt free budget (draws + 1)

/-- The bounded exact walk over the first free tokens. -/
def walkNumeric (accept : ℤ → Except Raised Bool) (candidateAt : ℤ → ℤ) :
    List ℕ → Except Raised (Option ℤ)
  | [] => .ok none
  | index :: rest => do
    let candidate := candidateAt index
    if ← accept candidate then return some candidate else walkNumeric accept candidateAt rest

def selectNumericCandidate (rng : Csprng) (domain : NumericKeyDomain) (st : NumericState)
    (original occupied remaining : ℤ) : Except Raised (ℤ × ℕ) := do
  let free := domain.size - occupied
  if free < 1 then throw (capacityFailure "ENGINE_NUMERIC_DOMAIN_EXHAUSTED")
  let accept := acceptNumericCandidate domain st original occupied remaining
  let candidateAt := streamingJthFreeNumeric domain (numericOccupiedStream st.mappings)
  match ← probeNumeric rng accept candidateAt free.toNat numericKeyProbeBudget st.draws with
  | (some candidate, draws) => return (candidate, draws)
  | (none, draws) =>
    let walkLimit := min free (remaining + 2)
    match ← walkNumeric accept candidateAt (List.range walkLimit.toNat) with
    | some candidate => return (candidate, draws)
    | none => throw (capacityFailure "ENGINE_NUMERIC_NO_COMPLETION")

/-- The allocation loop over the ordered observations; reused originals leave only the spool. -/
def allocateNumeric (rng : Csprng) (domain : NumericKeyDomain) :
    List ℤ → ℤ → ℤ → ℕ → NumericState → Except Raised (ℕ × NumericState)
  | [], _, _, allocated, st => .ok (allocated, st)
  | value :: rest, occupied, remaining, allocated, st =>
    let observed := st.observed.dropNumericObservation value
    match st.mappings.valueOf? value with
    | some _ => allocateNumeric rng domain rest occupied remaining allocated { st with observed }
    | none => do
      let (candidate, draws) ← selectNumericCandidate rng domain st value occupied remaining
      let mappings ← addNumericKeyMapping st.mappings value candidate
      allocateNumeric rng domain rest (occupied + 1) (remaining - 1) (allocated + 1)
        { mappings, observed, draws }

def finalizeNumeric (rng : Csprng) (domain : NumericKeyDomain) (st : NumericState) :
    Except Raised (ℕ × NumericState) := do
  let occupied : ℤ := st.mappings.rows.length
  let remaining : ℤ := st.observed.numericUnpersistedCount
  if ← numericResidualFeasible domain occupied remaining st then
    allocateNumeric rng domain st.observed.numericObservationStream occupied remaining 0 st
  else throw (capacityFailure "ENGINE_NUMERIC_DOMAIN_EXHAUSTED")

end DbfAnonymizer.Engine
