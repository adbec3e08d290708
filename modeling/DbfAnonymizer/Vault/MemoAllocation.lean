import DbfAnonymizer.Engine.KeyIdentity
import DbfAnonymizer.Transforms.Memo
import DbfAnonymizer.Vault.Units

/-! Reversible memo masking: the recovery row first, the mask only after its unit has committed. -/
namespace DbfAnonymizer.Vault
open Transforms Lib
open Engine (utf8Bytes utf8Bytes_injective)
open Relationships (strip isWhitespace)

def maxTokenLength : ℕ := 128

def validateToken (value : Text) (fieldName : String) : Except Raised Unit := do
  refuseIf (value = [] ∨ maxTokenLength < value.length ∨ strip value ≠ value)
    (.valueError (fieldName ++ " must be a non-empty token of at most 128 characters"))
  refuseIf (value.any isWhitespace = true) (.valueError (fieldName ++ " must not contain whitespace"))

/-- The stable identity of a memo cell: its table, its physical record and its field. -/
structure MemoLocator where
  tableId : Text
  physicalRecordIndex : ℕ
  fieldId : Text
  deriving DecidableEq, Repr

def MemoLocator.key (locator : MemoLocator) : Text × ℕ × Text :=
  (locator.tableId, locator.physicalRecordIndex, locator.fieldId)

def MemoLocator.validate (locator : MemoLocator) : Except Raised Unit := do
  validateToken locator.tableId "table_id"
  validateToken locator.fieldId "field_id"

inductive MemoPayloadKind
  | text | binary
  deriving DecidableEq, Repr

def MemoPayload.kind : MemoPayload → MemoPayloadKind
  | .text _ => .text
  | .binary _ => .binary

/-- The stored bytes: the UTF-8 image of a text, and bytes as they are. -/
def MemoPayload.image : MemoPayload → List UInt8
  | .text value => utf8Bytes value
  | .binary value => value

def VaultState.memoRow (vault : VaultState) (locator : MemoLocator) : Option MemoPayload :=
  vault.memoRecoveryRow locator.tableId locator.physicalRecordIndex locator.fieldId

/-- The primary key refuses a second row, the foreign key a field that the table does not have. -/
def addMemoRecovery (vault : VaultState) (locator : MemoLocator) (payload : MemoPayload) :
    Except Raised VaultState := do
  locator.validate
  refuseIf ((vault.memoRow locator).isSome ∨ ¬ vault.fields.any fun field =>
      field.fieldId = locator.fieldId ∧ field.tableId = locator.tableId)
    (vaultStateFailure "MEMO_ROW_REJECTED")
  return { vault with memoRecovery := vault.memoRecovery ++ [(locator.key, payload)] }

def getMemoRecovery (vault : VaultState) (locator : MemoLocator) :
    Except Raised (Option (List UInt8 × MemoPayloadKind)) := do
  locator.validate
  return (vault.memoRow locator).map fun payload => (payload.image, payload.kind)

/-- The payload that a value stores. -/
def memoPayload? : Value → Option MemoPayload
  | .text value => some (.text value)
  | .binary value => some (.binary value)
  | _ => none

/-- The body of the unit: the same payload reuses its row, another one is refused. -/
def storeMemo (locator : MemoLocator) (payload : MemoPayload) (vault : VaultState) :
    Except Raised (Unit × VaultState) := do
  match ← getMemoRecovery vault locator with
  | some (storedPayload, storedKind) =>
    refuseIf (¬ (storedKind = payload.kind ∧ storedPayload = payload.image))
      (vaultStateFailure "MEMO_IDENTITY_CONFLICT")
    return ((), vault)
  | none => return ((), ← addMemoRecovery vault locator payload)

/-- What the call returns, and the vault it leaves behind. -/
def persistMemoRecovery (control : UnitControl) (locator : MemoLocator) (dbfType : Char) (value : Value)
    (vault : VaultState) : Except Raised Value × VaultState :=
  match maskMemoValue dbfType value with
  | .error e => (.error e, vault)
  | .ok mask =>
    if mask = .null then (.ok .null, vault)
    else
      match memoPayload? value with
      | none => (.error memoUnsupported, vault)
      | some payload =>
        match transaction control vault (storeMemo locator payload) with
        | (.error e, vault) => (.error e, vault)
        | (.ok (), vault) => (.ok mask, vault)

def utf8Decode? (bytes : List UInt8) : Option Text := bytes.toByteArray.utf8Decode?.map Array.toList

def recoverMemoValue (vault : VaultState) (locator : MemoLocator) : Except Raised Value := do
  match ← getMemoRecovery vault locator with
  | none => return .null
  | some (payload, .text) =>
    match utf8Decode? payload with
    | some value => return .text value
    | none => throw (vaultStateFailure "MEMO_RECOVERY_INVALID")
  | some (payload, .binary) => return .binary payload

/-- How a call ends: it returns or raises, or the process dies before or after the commit. -/
inductive CallEnd
  | completes (control : UnitControl)
  | crashesBeforeCommit
  | crashesAfterCommit

structure MemoCall where
  locator : MemoLocator
  dbfType : Char
  value : Value
  callEnd : CallEnd

/-- A call that came back with a value. -/
structure MemoReturn where
  locator : MemoLocator
  dbfType : Char
  value : Value
  output : Value

/-- The durable vault and the returns seen so far, over all processes of a run. -/
structure MemoRun where
  vault : VaultState
  returns : List MemoReturn

def MemoRun.call (run : MemoRun) (c : MemoCall) : MemoRun :=
  match c.callEnd with
  | .completes control =>
    match persistMemoRecovery control c.locator c.dbfType c.value run.vault with
    | (.ok output, vault) => ⟨vault, run.returns ++ [⟨c.locator, c.dbfType, c.value, output⟩]⟩
    | (.error _, vault) => { run with vault }
  | .crashesBeforeCommit => run
  | .crashesAfterCommit =>
    { run with vault := (persistMemoRecovery .sound c.locator c.dbfType c.value run.vault).2 }

def MemoRun.calls (run : MemoRun) (calls : List MemoCall) : MemoRun := calls.foldl MemoRun.call run

end DbfAnonymizer.Vault
