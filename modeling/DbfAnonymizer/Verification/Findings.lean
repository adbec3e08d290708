import Mathlib.Data.List.Basic
import DbfAnonymizer.Errors

/-! The finding codes of the dataset verification and their severities. -/
namespace DbfAnonymizer.Verification

inductive FindingCode
  | sourceFingerprintMismatch | sourceDbcInventoryMismatch | outputFingerprintMismatch
  | receiptFingerprintMismatch | receiptIdentityMismatch | vaultIdentityMismatch
  | vaultMappingInvalid | assuranceEvidenceMismatch | operationNotCompleted
  | tableMissing | unexpectedOutputArtifact | indexArtifactUnverified
  | standaloneIdxDefinitionUnavailable | standaloneIdxEvidenceMismatch | memoCompanionMissing
  | outputDbcCouplingPresent | schemaMismatch | recordCountMismatch | recordOrderMismatch
  | deletedMarkerMismatch | nullSemanticsMismatch | originalValueSurvived | textMappingMismatch
  | numericMappingMismatch | memoPayloadMismatch | memoRecoveryRowMissing | temporalValueMismatch
  | identityValueMismatch | policyBindingMissing | policyBindingMismatch
  deriving DecidableEq, Repr

/-- Failures and partial findings in the order they were made. -/
structure Findings where
  failures : List FindingCode
  partials : List FindingCode
  deriving DecidableEq, Repr

def Findings.append (a b : Findings) : Findings := ⟨a.failures ++ b.failures, a.partials ++ b.partials⟩

/-- The failure recorded when a comparison goes wrong. -/
def failWhen (c : Prop) [Decidable c] (code : FindingCode) : List FindingCode := if c then [code] else []

@[simp] theorem failWhen_eq_nil {c : Prop} [Decidable c] {code : FindingCode} :
    failWhen c code = [] ↔ ¬ c := by
  unfold failWhen
  split_ifs with h <;> simp [h]

/-- The typed inability to verify, on behalf of the operation that owns the verification. -/
def verificationFailure (detailCode : String) : Raised :=
  .typed .verificationFailed "verify_dataset" detailCode

end DbfAnonymizer.Verification
