import DbfAnonymizer.Vault.State

/-! Atomic units of the vault: what a body wrote is kept exactly when the unit commits. -/
namespace DbfAnonymizer.Vault

/-- How the control statements of one unit end. Entering it covers every refusal of the connection. -/
structure UnitControl where
  enter : Except Raised Unit
  commit : Except Raised Unit

def UnitControl.sound : UnitControl := ⟨.ok (), .ok ()⟩

/-- `with database.transaction():` around a body. -/
def transaction {α : Type} (control : UnitControl) (vault : VaultState)
    (body : VaultState → Except Raised (α × VaultState)) : Except Raised α × VaultState :=
  match control.enter, body vault, control.commit with
  | .ok (), .ok (result, vault'), .ok () => (.ok result, vault')
  | .ok (), .ok _, .error e => (.error e, vault)
  | .ok (), .error e, _ => (.error e, vault)
  | .error e, _, _ => (.error e, vault)

section Units
variable {α : Type} {control : UnitControl} {vault vault' : VaultState}
  {body : VaultState → Except Raised (α × VaultState)} {result : α} {e : Raised}

theorem transaction_eq_ok : transaction control vault body = (.ok result, vault') ↔
    control.enter = .ok () ∧ control.commit = .ok () ∧ body vault = .ok (result, vault') := by
  unfold transaction
  constructor
  · intro h
    split at h
    · next henter hbody hcommit =>
      rw [Prod.mk.injEq, Except.ok.injEq] at h
      exact ⟨henter, hcommit, by rw [hbody, h.1, h.2]⟩
    all_goals cases h
  · intro h
    rw [h.1, h.2.1, h.2.2]

theorem transaction_error (h : transaction control vault body = (.error e, vault')) : vault' = vault := by
  unfold transaction at h
  split at h
  · cases h
  all_goals
    rw [Prod.mk.injEq] at h
    exact h.2.symm

theorem transaction_sound_error (h : body vault = .error e) :
    transaction .sound vault body = (.error e, vault) := by
  simp [transaction, UnitControl.sound, h]

end Units

def vaultStateFailure (detailCode : String) : Raised := .typed .vaultStateInvalid "vault" detailCode

/-- The domain id is the primary key of its table. -/
def createDomain (vault : VaultState) (domainKind : DomainKind) (domainId : Text) : Except Raised VaultState :=
  if (vault.domainKind domainId).isSome then .error (vaultStateFailure "DOMAIN_REJECTED")
  else .ok { vault with mappingDomains := vault.mappingDomains ++ [(domainId, domainKind)] }

end DbfAnonymizer.Vault
