import DbfAnonymizer.Lib.BijectiveTable
import DbfAnonymizer.Policy
import DbfAnonymizer.Records

/-! The committed rows of the recovery vault, and the lookups its readers make. -/
namespace DbfAnonymizer.Vault
open Lib

inductive DomainKind
  | text | numericKey | temporal
  deriving DecidableEq, Repr

/-- A stored memo payload: a text by its UTF-8 image, or bytes as they are. -/
inductive MemoPayload
  | text (value : Text)
  | binary (value : List UInt8)
  deriving DecidableEq, Repr

def MemoPayload.logical : MemoPayload → Value
  | .text value => .text value
  | .binary value => .binary value

/-- One row of the field ledger; `transformAction` is `none` for NULL and for an unknown action. -/
structure FieldRow where
  fieldId : Text
  tableId : Text
  name : Text
  dbfType : Char
  width : ℕ
  encoding : Text
  transformAction : Option Action
  mappingDomainId : Option Text
  deriving DecidableEq, Repr

/-- The rows of one text domain, with the stored byte length of each pseudonym. -/
structure TextMappings where
  table : BijectiveTable Text Text
  logicalByteLength : Text → ℕ

def TextMappings.empty : TextMappings := ⟨.empty, fun _ => 0⟩

/-- Inserts one row; the two unique indexes refuse an original or a pseudonym that is there already. -/
def addTextMapping (mappings : TextMappings) (original pseudonym : Text) (logicalByteLength : ℕ) :
    Except Raised TextMappings :=
  match mappings.table.insert? original pseudonym with
  | some table => .ok ⟨table, Function.update mappings.logicalByteLength pseudonym logicalByteLength⟩
  | none => .error (.typed .mappingConflict "vault" "MAPPING_BIJECTION_REJECTED")

structure VaultState where
  tables : List (Text × Text)
  fields : List FieldRow
  mappingDomains : List (Text × DomainKind)
  textMappings : Text → TextMappings
  numericKeyMappings : Text → BijectiveTable ℤ ℤ
  temporalParameters : List (Text × ℤ)
  memoRecovery : List ((Text × ℕ × Text) × MemoPayload)

namespace VaultState

def empty : VaultState := ⟨[], [], [], fun _ => .empty, fun _ => .empty, [], []⟩

variable (vault : VaultState)

def tableId (relativePath : Text) : Option Text := (vault.tables.find? (·.1 = relativePath)).map Prod.snd

def fieldRows (tableId : Text) : List FieldRow := vault.fields.filter (·.tableId = tableId)

def domainKind (domainId : Text) : Option DomainKind :=
  (vault.mappingDomains.find? (·.1 = domainId)).map Prod.snd

def textPseudonym (domainId original : Text) : Option Text :=
  (vault.textMappings domainId).table.valueOf? original

def textOriginal (domainId pseudonym : Text) : Option Text :=
  (vault.textMappings domainId).table.keyOf? pseudonym

def numericPseudonym (domainId : Text) (original : ℤ) : Option ℤ :=
  (vault.numericKeyMappings domainId).valueOf? original

def numericOriginal (domainId : Text) (pseudonym : ℤ) : Option ℤ :=
  (vault.numericKeyMappings domainId).keyOf? pseudonym

def memoRecoveryRow (tableId : Text) (physicalIndex : ℕ) (fieldId : Text) : Option MemoPayload :=
  (vault.memoRecovery.find? (·.1 = (tableId, physicalIndex, fieldId))).map Prod.snd

/-- The persisted offset of a domain; without a domain, of the first row there is. -/
def temporalParameter (domainId : Option Text) : Option ℤ :=
  match domainId with
  | none => vault.temporalParameters.head?.map Prod.snd
  | some domainId => (vault.temporalParameters.find? (·.1 = domainId)).map Prod.snd

end VaultState
end DbfAnonymizer.Vault
