import DbfAnonymizer.Lib.Outcome
import DbfAnonymizer.Transforms.Temporal
import DbfAnonymizer.Vault.Units

/-! The reversible Date/DateTime shift domain: collection, finalization, shifting and recovery. -/
namespace DbfAnonymizer.Vault
open Transforms Lib

def temporalFailure (detailCode : String) : Raised := .typed .mappingConstraintInfeasible "transform" detailCode

def temporalOffsetIncompatible : Raised := vaultStateFailure "TEMPORAL_OFFSET_INCOMPATIBLE"

/-- A named domain never shares the material of the default one. -/
def temporalIdentityMaterial (domainName : Option Text) : Text :=
  match domainName with
  | none => "TEMPORAL\x00DEFAULT\x00V1".toList
  | some name => "TEMPORAL\x00NAMED\x00".toList ++ name

def temporalDomainId (sha16 : Text → Text) (domainName : Option Text) : Text :=
  "dom-".toList ++ sha16 (temporalIdentityMaterial domainName)

/-- The domain id is the primary key of its table and refers to a domain row. -/
def setTemporalParameter (vault : VaultState) (domainId : Text) (offsetDays : ℤ) : Except Raised VaultState :=
  if offsetDays = 0 then .error (.valueError "offset_days must be a non-zero reversible shift")
  else if (vault.temporalParameter (some domainId)).isSome ∨ vault.domainKind domainId = none then
    .error (vaultStateFailure "TEMPORAL_REJECTED")
  else .ok { vault with temporalParameters := vault.temporalParameters ++ [(domainId, offsetDays)] }

/-- `none` for a fresh domain. A domain of another kind and a missing or zero offset are refused. -/
def persistedTemporalState (vault : VaultState) (domainId : Text) : Except Raised (Option ℤ) :=
  match vault.domainKind domainId with
  | none => .ok none
  | some .temporal =>
    match vault.temporalParameter (some domainId) with
    | some offset => if offset = 0 then .error (vaultStateFailure "TEMPORAL_STATE_INVALID") else .ok (some offset)
    | none => .error (vaultStateFailure "TEMPORAL_STATE_INVALID")
  | some _ => .error (vaultStateFailure "TEMPORAL_STATE_INVALID")

structure TemporalShiftDomain where
  domainId : Text
  minOrdinal : Option ℤ
  maxOrdinal : ℤ
  offset : Option ℤ
  finalized : Bool
  empty : Bool

namespace TemporalShiftDomain

def new (domainId : Text) : TemporalShiftDomain := ⟨domainId, none, 0, none, false, false⟩

/-- Only the extrema of the observed days are retained. -/
def observe (domain : TemporalShiftDomain) (value : Value) : Except Raised TemporalShiftDomain := do
  refuseIf (domain.finalized = true) (.valueError "observe() requires an unfinalized temporal domain")
  if value = .null then return domain
  let ordinal ← temporalOrdinal value
  match domain.minOrdinal with
  | none => return { domain with minOrdinal := some ordinal, maxOrdinal := ordinal }
  | some low => return { domain with
      minOrdinal := some (if ordinal < low then ordinal else low)
      maxOrdinal := if domain.maxOrdinal < ordinal then ordinal else domain.maxOrdinal }

/-- The body of the unit: a persisted offset is reused, a fresh one is drawn and stored. -/
def allocateOffset (domain : TemporalShiftDomain) (randomBelow : ℤ → ℤ) (lower upper : ℤ) (vault : VaultState) :
    Except Raised (ℤ × VaultState) := do
  match ← persistedTemporalState vault domain.domainId with
  | some offset => return (offset, vault)
  | none =>
    let freshOffset ← temporalOffsetAt lower upper (randomBelow (temporalNonzeroCount lower upper))
    let vault ← createDomain vault .temporal domain.domainId
    let vault ← setTemporalParameter vault domain.domainId freshOffset
    return (freshOffset, vault)

/-- The offset of the domain, or `none` when nothing was observed; with the vault it leaves behind. -/
def finalize (domain : TemporalShiftDomain) (randomBelow : ℤ → ℤ) (control : UnitControl) (vault : VaultState) :
    Except Raised (Option ℤ × TemporalShiftDomain) × VaultState :=
  match domain.minOrdinal with
  | none => (.ok (none, { domain with finalized := true, empty := true, offset := none }), vault)
  | some minOrdinal =>
    let (lower, upper) := temporalFeasibleInterval minOrdinal domain.maxOrdinal
    if temporalNonzeroCount lower upper ≤ 0 then (.error temporalOnlyZeroFeasible, vault)
    else
      match transaction control vault (domain.allocateOffset randomBelow lower upper) with
      | (.error e, vault) => (.error e, vault)
      | (.ok offset, vault) =>
        if lower ≤ offset ∧ offset ≤ upper then
          (.ok (some offset, { domain with offset := some offset, finalized := true }), vault)
        else (.error temporalOffsetIncompatible, vault)

def shifted (domain : TemporalShiftDomain) (value : Value) : Except Raised Value :=
  if domain.empty then
    if value = .null then .ok .null else .error (temporalFailure "TEMPORAL_EMPTY_DOMAIN")
  else
    match domain.finalized, domain.offset with
    | true, some offset => temporalShift value offset
    | _, _ => .error (temporalFailure "TEMPORAL_NOT_FINALIZED")

/-- The original of a shifted value; an offset read from the vault stays cached. -/
def recover (domain : TemporalShiftDomain) (vault : VaultState) (value : Value) :
    Except Raised Value × TemporalShiftDomain :=
  if value = .null then (.ok .null, domain)
  else
    match domain.offset with
    | some offset => (temporalRecover value offset, domain)
    | none =>
      match persistedTemporalState vault domain.domainId with
      | .error e => (.error e, domain)
      | .ok none => (.error (vaultStateFailure "TEMPORAL_RECOVERY_INVALID"), domain)
      | .ok (some offset) => (temporalRecover value offset, { domain with offset := some offset })

end TemporalShiftDomain

inductive TemporalCall
  | reopen
  | observe (value : Value)
  | finalize (randomBelow : ℤ → ℤ) (control : UnitControl)
  | recover (value : Value)

/-- The instance in use, the vault and the values that the instance observed. -/
structure TemporalSession where
  domain : TemporalShiftDomain
  vault : VaultState
  observed : List Value

namespace TemporalSession

def start (domainId : Text) (vault : VaultState) : TemporalSession := ⟨.new domainId, vault, []⟩

def call (s : TemporalSession) : TemporalCall → TemporalSession
  | .reopen => start s.domain.domainId s.vault
  | .observe value =>
    match s.domain.observe value with
    | .ok domain => { s with domain, observed := s.observed ++ [value] }
    | .error _ => s
  | .finalize randomBelow control =>
    match s.domain.finalize randomBelow control s.vault with
    | (.ok (_, domain), vault) => { s with domain, vault }
    | (.error _, vault) => { s with vault }
  | .recover value => { s with domain := (s.domain.recover s.vault value).2 }

def run (s : TemporalSession) (calls : List TemporalCall) : TemporalSession := calls.foldl call s

end TemporalSession
end DbfAnonymizer.Vault
