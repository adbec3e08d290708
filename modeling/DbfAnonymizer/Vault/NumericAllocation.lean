import DbfAnonymizer.Engine.NumericState
import DbfAnonymizer.Transforms.FreeTokens
import DbfAnonymizer.Vault.State

/-! The in-memory numeric key domain: collection, finalization and allocation on request. -/
namespace DbfAnonymizer.Vault
open Transforms Lib
open Engine (addNumericKeyMapping numericKeyProbeBudget)

def numericFailure (code : ErrorCode) (detailCode : String) : Raised := .typed code "mapping" detailCode

structure NumericKeyDomainMapping where
  domainId : Text
  domain : NumericKeyDomain
  originals : List ℤ
  finalized : Bool
  used : List ℤ
  persistedOriginals : List ℤ
  deriving DecidableEq, Repr

/-- A mapping instance, the vault it is bound to and the random draws made so far. -/
structure NumericSession where
  mapping : NumericKeyDomainMapping
  vault : VaultState
  draws : ℕ

namespace NumericKeyDomainMapping

def new (domainId : Text) (domain : NumericKeyDomain) : NumericKeyDomainMapping :=
  ⟨domainId, domain, [], false, [], []⟩

/-- Whether a value lies in the original range of one of the domain's members. -/
def fitsMember (m : NumericKeyDomainMapping) (value : ℤ) : Bool :=
  m.domain.members.any (·.containsOriginal value)

/-- The verdict depends on the occurrence's own member, which need not be one of the domain's. -/
def observeOriginal (m : NumericKeyDomainMapping) (original : ℤ) (member : NumericKeyMemberRange) :
    Except Raised NumericKeyDomainMapping := do
  refuseIf (m.finalized = true) (.valueError "original collection is closed after finalize")
  match classifyMemberOriginal member original with
  | .outOfMemberRange =>
    throw (.valueError "the original does not fit its originating member's representable range")
  | .recoveryUnwritable => throw (numericFailure .mappingConstraintInfeasible "NUMERIC_KEY_RECOVERY_UNWRITABLE")
  | .reversible => return { m with originals := m.originals.insert original }

def parseOriginal (m : NumericKeyDomainMapping) (value : ℤ) : Except Raised ℤ := do
  refuseIf (m.fitsMember value = false) (numericFailure .mappingConflict "NUMERIC_MAPPING_CORRUPT")
  return value

def parsePseudonym (m : NumericKeyDomainMapping) (value : ℤ) : Except Raised ℤ := do
  refuseIf (m.domain.containsPseudonym value = false) (numericFailure .mappingConflict "NUMERIC_MAPPING_CORRUPT")
  return value

/-- The bookkeeping of one row. -/
def recordRow (m : NumericKeyDomainMapping) (row : ℤ × ℤ) : NumericKeyDomainMapping :=
  { m with used := m.used.insert row.2, persistedOriginals := m.persistedOriginals.insert row.1 }

def loadRow (m : NumericKeyDomainMapping) (row : ℤ × ℤ) : Except Raised NumericKeyDomainMapping := do
  let original ← m.parseOriginal row.1
  let pseudonym ← m.parsePseudonym row.2
  refuseIf (pseudonym = original) (numericFailure .mappingConflict "NUMERIC_KEY_PERSISTED_SELF_MAPPING")
  return m.recordRow (original, pseudonym)

def loadAndValidatePersisted (m : NumericKeyDomainMapping) (vault : VaultState) :
    Except Raised NumericKeyDomainMapping :=
  (vault.numericKeyMappings m.domainId).rows.foldlM loadRow m

/-- The same pass over the rows, inside every allocation transaction. -/
def syncUsed (m : NumericKeyDomainMapping) (vault : VaultState) : Except Raised NumericKeyDomainMapping :=
  m.loadAndValidatePersisted vault

def ensureDomain (m : NumericKeyDomainMapping) (vault : VaultState) : VaultState :=
  if (vault.domainKind m.domainId).isSome then vault
  else { vault with mappingDomains := vault.mappingDomains ++ [(m.domainId, .numericKey)] }

def validateDomainKind (m : NumericKeyDomainMapping) (vault : VaultState) : Except Raised Unit :=
  refuseIf (vault.domainKind m.domainId ≠ some .numericKey)
    (numericFailure .mappingConflict "NUMERIC_KEY_DOMAIN_KIND_CONFLICT")

/-- The observed originals without a row, apart from the one whose turn it is. -/
def unallocatedOriginals (m : NumericKeyDomainMapping) (original : ℤ) : List ℤ :=
  (sortedSet m.originals).filter fun value => value ∉ m.persistedOriginals ∧ value ≠ original

def residualFeasible (m : NumericKeyDomainMapping) (occupied : List ℤ) (original candidate : ℤ) :
    Except Raised Bool :=
  planNumericBijection m.domain (m.unallocatedOriginals original) (occupied ++ [candidate])

/-- Random probes: the accepted candidate, if any, and the draw counter. -/
def probe (rng : Csprng) (candidateAt : ℤ → Except Raised ℤ) (accept : ℤ → Except Raised Bool) (free : ℤ) :
    ℕ → ℕ → Except Raised (Option ℤ × ℕ)
  | 0, draws => .ok (none, draws)
  | budget + 1, draws => do
    let draw ← rng.randbelow draws free
    let candidate ← candidateAt draw
    if ← accept candidate then return (some candidate, draws + 1)
    else probe rng candidateAt accept free budget (draws + 1)

/-- The ascending walk over the first free tokens. -/
def walk (candidateAt : ℤ → Except Raised ℤ) (accept : ℤ → Except Raised Bool) :
    List ℕ → Except Raised (Option ℤ)
  | [] => .ok none
  | index :: rest => do
    let candidate ← candidateAt index
    if ← accept candidate then return some candidate else walk candidateAt accept rest

def blockedSelection (m : NumericKeyDomainMapping) (original : ℤ) : List ℤ :=
  sortedSet (m.used ++ if m.domain.containsPseudonym original then [original] else [])

def selectCandidate (rng : Csprng) (m : NumericKeyDomainMapping) (draws : ℕ) (original : ℤ) :
    Except Raised (ℤ × ℕ) := do
  let occupied := sortedSet m.used
  let free := freeTokenCount m.domain (m.blockedSelection original)
  refuseIf (free < 1) (numericFailure .mappingCapacityExhausted "NUMERIC_KEY_DOMAIN_EXHAUSTED")
  let candidateAt := jthFreeToken m.domain (m.blockedSelection original)
  let accept := m.residualFeasible occupied original
  match ← probe rng candidateAt accept free numericKeyProbeBudget draws with
  | (some candidate, draws) => return (candidate, draws)
  | (none, draws) =>
    let walkLimit := min free (m.originals.length + 2)
    match ← walk candidateAt accept (List.range walkLimit.toNat) with
    | some candidate => return (candidate, draws)
    | none => throw (numericFailure .mappingCapacityExhausted "NUMERIC_KEY_NO_COMPLETION")

end NumericKeyDomainMapping

namespace NumericSession

def finalize (s : NumericSession) : Except Raised NumericSession := do
  refuseIf (s.mapping.finalized = true) (.valueError "the numeric domain is already finalized")
  let vault := s.mapping.ensureDomain s.vault
  s.mapping.validateDomainKind vault
  let mapping ← s.mapping.loadAndValidatePersisted vault
  let unpersisted := (sortedSet mapping.originals).filter (· ∉ mapping.persistedOriginals)
  if ← planNumericBijection mapping.domain unpersisted (sortedSet mapping.used) then
    return { s with mapping := { mapping with finalized := true }, vault }
  else throw (numericFailure .mappingCapacityExhausted "NUMERIC_KEY_NO_COMPLETION")

/-- A row that is there already is returned unchanged, once it is known to fit. -/
def reuse (s : NumericSession) (original existing : ℤ) : Except Raised (ℤ × NumericSession) := do
  let value ← s.mapping.parsePseudonym existing
  refuseIf (value = original) (numericFailure .mappingConflict "NUMERIC_KEY_REUSED_SELF_MAPPING")
  return (value, s)

/-- One fresh mapping in one transaction; the bookkeeping follows the commit. -/
def allocate (rng : Csprng) (s : NumericSession) (original : ℤ) : Except Raised (ℤ × NumericSession) := do
  let mapping ← s.mapping.syncUsed s.vault
  match s.vault.numericPseudonym mapping.domainId original with
  | some fresh => reuse { s with mapping } original fresh
  | none =>
    let (candidate, draws) ← mapping.selectCandidate rng s.draws original
    let rows ← addNumericKeyMapping (s.vault.numericKeyMappings mapping.domainId) original candidate
    return (candidate, {
      mapping := { mapping.recordRow (original, candidate) with
        originals := mapping.originals.insert original }
      vault := { s.vault with
        numericKeyMappings := Function.update s.vault.numericKeyMappings mapping.domainId rows }
      draws })

def pseudonymFor (rng : Csprng) (s : NumericSession) (original : ℤ) : Except Raised (ℤ × NumericSession) := do
  refuseIf (s.mapping.finalized = false) (numericFailure .mappingConflict "NUMERIC_KEY_NOT_FINALIZED")
  refuseIf (s.mapping.fitsMember original = false)
    (numericFailure .mappingConstraintInfeasible "NUMERIC_KEY_RANGE_INFEASIBLE")
  refuseIf (original ∉ s.mapping.originals)
    (numericFailure .mappingConstraintInfeasible "NUMERIC_KEY_ORIGINAL_UNOBSERVED")
  match s.vault.numericPseudonym s.mapping.domainId original with
  | some existing => s.reuse original existing
  | none => s.allocate rng original

def originalFor (s : NumericSession) (pseudonym : ℤ) : Except Raised (Option ℤ) :=
  match s.vault.numericOriginal s.mapping.domainId pseudonym with
  | none => .ok none
  | some original => (s.mapping.parseOriginal original).map some

/-- One request: a refused one leaves the session as it was. -/
def serve (rng : Csprng) (s : NumericSession) (original : ℤ) : Except Raised ℤ × NumericSession :=
  match s.pseudonymFor rng original with
  | .ok (pseudonym, s') => (.ok pseudonym, s')
  | .error e => (.error e, s)

/-- Requests in the order they come: each with its answer, and the session they leave. -/
def serveAll (rng : Csprng) : NumericSession → List ℤ → List (ℤ × Except Raised ℤ) × NumericSession
  | s, [] => ([], s)
  | s, original :: rest =>
    let (answer, s') := s.serve rng original
    let (answers, s'') := serveAll rng s' rest
    ((original, answer) :: answers, s'')

end NumericSession
end DbfAnonymizer.Vault
