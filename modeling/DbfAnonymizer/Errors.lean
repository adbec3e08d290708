import Mathlib.Data.List.Basic
import Mathlib.Tactic.SplitIfs

/-! The typed failures of the package and the built-in exceptions its code can let through. -/
namespace DbfAnonymizer

/-- Decoded text is a sequence of code points. -/
abbrev Text := List Char

instance : LawfulBEq Text := List.instLawfulBEq

inductive ErrorCode
  | pathInvalid | pathNotFound | pathOverlap | destinationConflict
  | policyInvalid | policyUnsupported
  | dbfbridgeFailure
  | vaultUnavailable | vaultCorrupt | vaultAccessDenied | vaultSchemaUnsupported
  | vaultIdentityMismatch | vaultStateInvalid | vaultWriterConflict
  | mappingCapacityExhausted | mappingConstraintInfeasible | mappingConflict
  | relationshipInvalid | relationshipVerificationFailed
  | publicationFailed | publicationIncomplete
  | verificationFailed
  | recoveryFailed | recoveryNotPermitted
  | transferFailed
  | indexBackendFailed
  | operationCancelled
  | progressCallbackFailed | cancelCallbackFailed
  deriving DecidableEq, Repr

/-- What a modelled call raises: a registered failure with its context, or a built-in exception. -/
inductive Raised
  | typed (code : ErrorCode) (operation detailCode : String)
  | valueError (message : String)
  | typeError (message : String)
  | overflowError (message : String)
  | indexError
  | keyError
  | attributeError
  | assertionError
  deriving DecidableEq, Repr

def Raised.code? : Raised → Option ErrorCode
  | .typed code _ _ => some code
  | _ => none

namespace Engine

def mappingFailure (detailCode : String) : Raised :=
  .typed .mappingConstraintInfeasible "engine" detailCode

def capacityFailure (detailCode : String) : Raised :=
  .typed .mappingCapacityExhausted "engine" detailCode

end Engine

end DbfAnonymizer
