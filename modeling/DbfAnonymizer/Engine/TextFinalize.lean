import DbfAnonymizer.Engine.TextCommits

/-! Finalization of the global text domain, and runs that stop between two of its commits. -/
namespace DbfAnonymizer.Engine
open Transforms Lib Vault

def globalTextDomainId : Text := "dom-6eb26518e3520ed1".toList

/-- One observed occurrence of an original: the byte width of its field and the encoding of its table. -/
structure TextOccurrence where
  value : Text
  byteWidth : ℕ
  encoding : Text
  deriving DecidableEq, Repr

def spoolOf (occurrences : List TextOccurrence) : TextSpool :=
  occurrences.foldl (fun spool o => (spool.observeText o.value o.byteWidth).observeTextEncoding o.encoding) .empty

/-- Registers the domain, unless it is there already. -/
def ensureTextDomain (vault : VaultState) : VaultState :=
  if (vault.domainKind globalTextDomainId).isSome then vault
  else { vault with mappingDomains := vault.mappingDomains ++ [(globalTextDomainId, .text)] }

/-- Persisted originals leave the spool once their rows are known to fit. -/
def reusePersisted (mappings : TextMappings) :
    List (Text × ℕ) → TextSpool → ℕ → Except Raised (TextSpool × ℕ)
  | [], spool, reused => .ok (spool, reused)
  | (value, width) :: rest, spool, reused =>
    match mappings.table.valueOf? value with
    | none => reusePersisted mappings rest spool reused
    | some existing =>
      if width < existing.length then .error (mappingFailure "ENGINE_TEXT_PERSISTED_INCOMPATIBLE")
      else reusePersisted mappings rest (spool.dropTextObservation value) (reused + 1)

/-- Everything in front of the first commit: the domain, the reused rows and the solved residual. -/
structure TextPreparation where
  alphabet : Text
  vault : VaultState
  spool : TextSpool
  reused : ℕ
  plan : TextResidualPlan

/-- The checks and the reuse, up to the solver's input. -/
def reuseText (codecs : Codecs) (vault : VaultState) (spool : TextSpool) :
    Except Raised (Text × VaultState × TextSpool × ℕ) := do
  let alphabet := candidateAlphabet codecs spool.encodings
  refuseIf (alphabet = []) (mappingFailure "ENGINE_TEXT_NO_SAFE_ALPHABET")
  let vault := ensureTextDomain vault
  let (spool, reused) ← reusePersisted (vault.textMappings globalTextDomainId) spool.textObservations spool 0
  refuseIf (∃ row ∈ spool.observations.rows, row.2 < 1) (mappingFailure "ENGINE_TEXT_WIDTH_INFEASIBLE")
  return (alphabet, vault, spool, reused)

/-- The inner `none` is a scan without any text; the outer one would be a solve that does not end. -/
def prepareText (codecs : Codecs) (vault : VaultState) (spool : TextSpool) :
    Option (Except Raised (Option TextPreparation)) :=
  if spool.encodings = [] then some (.ok none)
  else match reuseText codecs vault spool with
    | .error e => some (.error e)
    | .ok (alphabet, vault, spool, reused) =>
      (solveTextResidual alphabet (vault.textMappings globalTextDomainId) spool).map
        fun solved => solved.map fun plan => some ⟨alphabet, vault, spool, reused, plan⟩

structure TextFinalized where
  vault : VaultState
  domainId : Option Text
  allocated : ℕ
  reused : ℕ

def TextPreparation.withMappings (prep : TextPreparation) (mappings : TextMappings) : VaultState :=
  { prep.vault with textMappings := Function.update prep.vault.textMappings globalTextDomainId mappings }

/-- The commits of a prepared finalization, for the assignments given. -/
def TextPreparation.commit (prep : TextPreparation) (rng : Csprng) (draws : ℕ)
    (rows : List (ResOriginal × Resource)) : Except Raised TextFinalized := do
  let st ← materializeTextAssignment rng prep.alphabet prep.plan.graph rows
    ⟨prep.vault.textMappings globalTextDomainId, prep.spool, draws⟩
  return ⟨prep.withMappings st.mappings, some globalTextDomainId, rows.length, prep.reused⟩

/-- A finalization that stops after a number of commits. -/
def finalizeTextUpTo (codecs : Codecs) (rng : Csprng) (draws commits : ℕ) (vault : VaultState) (spool : TextSpool) :
    Option (Except Raised TextFinalized) :=
  (prepareText codecs vault spool).map fun prepared => do
    match ← prepared with
    | none => return ⟨vault, none, 0, 0⟩
    | some prep => prep.commit rng draws (prep.plan.assignments.take commits)

def finalizeText (codecs : Codecs) (rng : Csprng) (draws : ℕ) (vault : VaultState) (spool : TextSpool) :
    Option (Except Raised TextFinalized) :=
  (prepareText codecs vault spool).map fun prepared => do
    match ← prepared with
    | none => return ⟨vault, none, 0, 0⟩
    | some prep => prep.commit rng draws prep.plan.assignments

end DbfAnonymizer.Engine
