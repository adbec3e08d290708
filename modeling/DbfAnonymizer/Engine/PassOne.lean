import DbfAnonymizer.Engine.EvidenceSpool
import DbfAnonymizer.Engine.NumericState
import DbfAnonymizer.Engine.PassTwo
import DbfAnonymizer.Engine.TextFinalize
import DbfAnonymizer.Vault.MemoAllocation
import DbfAnonymizer.Verification.Dataset

/-! Pass one: one scan of the dataset that spools what has to be mapped, and the finalization of its domains. -/
namespace DbfAnonymizer.Engine
open Transforms Vault Lib Verification

structure PassOneSpool where
  text : TextSpool
  numeric : Text → NumericObservations
  evidence : EvidenceStore

def PassOneSpool.empty : PassOneSpool := ⟨.empty, fun _ => .empty, .empty⟩

def PassOneSpool.flush (spool : PassOneSpool) : PassOneSpool :=
  { spool with evidence := spool.evidence.flush .passOneSpool }

structure PassOneOutcome where
  textDomainId : Option Text
  textAllocated : ℕ
  textReused : ℕ
  numericDomains : List Text
  numericAllocated : KeyedTable Text ℕ
  temporalOffset : Option ℤ
  temporalDomainId : Option Text
  tablesScanned : ℕ
  recordsScanned : ℕ
  deletedScanned : ℕ
  readStreams : List (Text × Text)

def PassOneOutcome.empty : PassOneOutcome := ⟨none, 0, 0, [], .empty, none, none, 0, 0, 0, []⟩

/-- What a run meets outside its plan and its source: the codecs, the random draws of each finalization, how
each vault unit ends, the registered memo cells and the spool's batch size. -/
structure PassOneEnvironment where
  codecs : Codecs
  textRng : Csprng
  numericRng : ℕ → Csprng
  temporalRandomBelow : ℤ → ℤ
  temporalDomainId : Text
  memoUnit : ℕ → UnitControl
  temporalUnit : UnitControl
  memoBindings : List ((Text × Text) × Text × Text)
  batch : ℕ

structure PassOneState where
  spool : PassOneSpool
  vault : VaultState
  temporalDomain : Option TemporalShiftDomain
  memoUnits : ℕ
  outcome : PassOneOutcome

/-- A temporal domain exists only where the plan shifts a field. -/
def PassOneState.start (env : PassOneEnvironment) (plan : EnginePlan) (vault : VaultState) : PassOneState where
  spool := .empty
  vault := vault
  temporalDomain := if plan.temporalPresent then some (.new env.temporalDomainId) else none
  memoUnits := 0
  outcome := .empty

/-- The transformed and the relation fields; `none` reads whole records. -/
def projectionFields (directive : TableDirective) : Option (List Text) :=
  let names := (directive.transformed.map FieldDirective.fieldName ++ directive.relationFields).dedup
  if names = [] then none else some (names.insertionSort (· ≤ ·))

/-- NULL and the empty text are never mapped. -/
def observeText (directive : FieldDirective) (value : Value) (spool : TextSpool) : Except Raised TextSpool :=
  if value.isNullOrEmpty then .ok spool
  else match value with
    | .text value => .ok ((spool.observeText value directive.byteWidth).observeTextEncoding directive.encoding)
    | _ => .error (mappingFailure "ENGINE_TEXT_VALUE_UNSUPPORTED")

def observeNumeric (directive : FieldDirective) (domainId : Text) (value : Value)
    (numeric : Text → NumericObservations) : Except Raised (Text → NumericObservations) :=
  match value with
  | .null => .ok numeric
  | .int value =>
    match directive.numericMemberRange with
    | none => .error .assertionError
    | some member =>
      match classifyMemberOriginal member value with
      | .outOfMemberRange => .error (mappingFailure "ENGINE_NUMERIC_OUT_OF_MEMBER_RANGE")
      | .recoveryUnwritable => .error (mappingFailure "NUMERIC_KEY_RECOVERY_UNWRITABLE")
      | .reversible => .ok (Function.update numeric domainId ((numeric domainId).observe value))
  | _ => .error (mappingFailure "ENGINE_NUMERIC_VALUE_UNSUPPORTED")

def memoBinding (env : PassOneEnvironment) (relativePath fieldName : Text) : Option (Text × Text) :=
  (env.memoBindings.find? (·.1 = (relativePath, fieldName))).map Prod.snd

def observeField (env : PassOneEnvironment) (relativePath : Text) (record : DirectRecord) (st : PassOneState)
    (directive : FieldDirective) : Except Raised PassOneState :=
  let value := record.values directive.fieldName
  match directive.numericDomainId with
  | some domainId => do
    let numeric ← observeNumeric directive domainId value st.spool.numeric
    return { st with spool := { st.spool with numeric } }
  | none =>
    match directive.action with
    | .pseudonymizeReversible => do
      let text ← observeText directive value st.spool.text
      return { st with spool := { st.spool with text } }
    | .shiftReversible =>
      match st.temporalDomain with
      | none => .ok st
      | some domain => do
        let domain ← domain.observe value
        return { st with temporalDomain := some domain }
    | .maskReversible =>
      match memoBinding env relativePath directive.fieldName with
      | none => .error (mappingFailure "ENGINE_MEMO_BINDING_MISSING")
      | some (tableId, fieldId) =>
        match persistMemoRecovery (env.memoUnit st.memoUnits) ⟨tableId, record.physicalIndex, fieldId⟩
            directive.dbfType value st.vault with
        | (.error e, _) => .error e
        | (.ok _, vault) => .ok { st with vault, memoUnits := st.memoUnits + 1 }
    | .keep => .ok st

/-- One record: its transformed fields in their order, then the relations that read its table. -/
def observeRecord (env : PassOneEnvironment) (relations : List RelationDirective) (directive : TableDirective)
    (st : PassOneState) (record : DirectRecord) : Except Raised PassOneState := do
  let st ← directive.transformed.foldlM (observeField env directive.relativePath record) st
  let observations ← observeRelations .before relations directive.relativePath record.values
  let evidence := observations.foldl (EvidenceStore.observe .passOneSpool env.batch) st.spool.evidence
  return { st with
    spool := { st.spool with evidence }
    outcome := { st.outcome with
      recordsScanned := st.outcome.recordsScanned + 1
      deletedScanned := st.outcome.deletedScanned + if record.deleted then 1 else 0 } }

/-- The records that the projected read of a table yields. -/
def projectedRecords (directive : TableDirective) (table : StoredTable) : List DirectRecord :=
  table.records.map fun record => { record with values := record.values.project (projectionFields directive) }

/-- A table's stream is noted on a flushed spool. -/
def PassOneState.openTable (st : PassOneState) (directive : TableDirective) : PassOneState := { st with
  spool := st.spool.flush
  outcome := { st.outcome with
    readStreams := st.outcome.readStreams ++ [("pass1".toList, directive.relativePath)] } }

def scanTable (env : PassOneEnvironment) (relations : List RelationDirective) (source : DatasetFiles)
    (st : PassOneState) (directive : TableDirective) : Except Raised PassOneState := do
  let table ← source.readTable directive.relativePath
  let st ← (projectedRecords directive table).foldlM (observeRecord env relations directive) (st.openTable directive)
  return { st with
    spool := st.spool.flush
    outcome := { st.outcome with tablesScanned := st.outcome.tablesScanned + 1 } }

def runPassOne (env : PassOneEnvironment) (plan : EnginePlan) (source : DatasetFiles) (vault : VaultState) :
    Except Raised PassOneState :=
  plan.tables.foldlM (scanTable env plan.relations source) (.start env plan vault)

/-- The text domain first; its commits have dropped every observation. -/
def finalizeTextDomain (env : PassOneEnvironment) (plan : EnginePlan) (st : PassOneState) :
    Option (Except Raised PassOneState) :=
  if plan.textPresent then
    (finalizeText env.codecs env.textRng 0 st.vault st.spool.text).map fun finalized => do
      let out ← finalized
      return { st with
        spool := { st.spool with text := { st.spool.text with observations := .empty } }
        vault := out.vault
        outcome := { st.outcome with
          textDomainId := out.domainId, textAllocated := out.allocated, textReused := out.reused } }
  else some (.ok st)

/-- Registers a numeric domain, unless it is there already. -/
def ensureNumericDomain (vault : VaultState) (domainId : Text) : VaultState :=
  if (vault.domainKind domainId).isSome then vault
  else { vault with mappingDomains := vault.mappingDomains ++ [(domainId, .numericKey)] }

def finalizeNumericDomain (env : PassOneEnvironment) (domainId : Text) (domain : NumericKeyDomain)
    (st : PassOneState) : Except Raised PassOneState := do
  let vault := ensureNumericDomain st.vault domainId
  let (allocated, final) ← finalizeNumeric (env.numericRng st.outcome.numericDomains.length) domain
    ⟨vault.numericKeyMappings domainId, st.spool.numeric domainId, 0⟩
  return { st with
    spool := { st.spool with numeric := Function.update st.spool.numeric domainId final.observed }
    vault := { vault with
      numericKeyMappings := Function.update vault.numericKeyMappings domainId final.mappings }
    outcome := { st.outcome with
      numericDomains := st.outcome.numericDomains ++ [domainId]
      numericAllocated := st.outcome.numericAllocated.upsert domainId allocated } }

/-- The domain of one relation, where it has one. -/
def finalizeRelation (env : PassOneEnvironment) (st : PassOneState) (relation : RelationDirective) :
    Except Raised PassOneState :=
  match relation.numericDomainId, relation.numericDomain with
  | some domainId, some domain => finalizeNumericDomain env domainId domain st
  | _, _ => .ok st

def finalizeTemporalDomain (env : PassOneEnvironment) (st : PassOneState) : Except Raised PassOneState :=
  match st.temporalDomain with
  | none => .ok st
  | some domain =>
    match domain.finalize env.temporalRandomBelow env.temporalUnit st.vault with
    | (.error e, _) => .error e
    | (.ok (offset, domain), vault) => .ok { st with
        vault
        temporalDomain := some domain
        outcome := { st.outcome with temporalOffset := offset, temporalDomainId := some domain.domainId } }

/-- Text, then one numeric domain for each relation that has one, then the temporal domain. -/
def runPassOneFinalize (env : PassOneEnvironment) (plan : EnginePlan) (st : PassOneState) :
    Option (Except Raised PassOneState) :=
  (finalizeTextDomain env plan st).map fun finalized => do
    let st ← finalized
    let st ← plan.relations.foldlM (finalizeRelation env) st
    finalizeTemporalDomain env st

/-- The scan with its finalization; `none` would be a text solve that does not end. -/
def passOne (env : PassOneEnvironment) (plan : EnginePlan) (source : DatasetFiles) (vault : VaultState) :
    Option (Except Raised PassOneState) :=
  match runPassOne env plan source vault with
  | .error e => some (.error e)
  | .ok st => runPassOneFinalize env plan st

end DbfAnonymizer.Engine
