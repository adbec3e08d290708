import DbfAnonymizer.Vault.MemoAllocation

/-! Store-then-mask over every run of calls, with crashes and re-runs at any point. -/
namespace DbfAnonymizer.Vault
open Transforms Lib
open Engine (utf8Bytes utf8Bytes_injective)

section Rows
variable {vault vault' : VaultState} {locator other : MemoLocator} {payload stored : MemoPayload}
  {control : UnitControl} {dbfType : Char} {value output : Value}

@[simp] theorem utf8Decode?_utf8Bytes (text : Text) : utf8Decode? (utf8Bytes text) = some text := by
  have hencode : (utf8Bytes text).toByteArray = text.utf8Encode := rfl
  rw [utf8Decode?, hencode, List.utf8Decode?_utf8Encode]
  rfl

theorem image_kind_eq_iff : stored.kind = payload.kind ∧ stored.image = payload.image ↔ stored = payload := by
  constructor
  · intro h
    obtain ⟨hkind, himage⟩ := h
    cases stored with
    | text a =>
      cases payload with
      | text b => rw [utf8Bytes_injective himage]
      | binary b => cases hkind
    | binary a =>
      cases payload with
      | text b => cases hkind
      | binary b => exact congrArg MemoPayload.binary himage
  · intro h
    subst h
    exact ⟨rfl, rfl⟩

theorem memoPayload?_eq_some : memoPayload? value = some payload ↔ value = payload.logical := by
  cases payload with
  | text b => cases value <;> simp [memoPayload?, MemoPayload.logical]
  | binary b => cases value <;> simp [memoPayload?, MemoPayload.logical]

theorem key_injective (h : locator.key = other.key) : locator = other := by
  cases locator
  cases other
  simpa [MemoLocator.key] using h

theorem getMemoRecovery_eq_ok {row : Option (List UInt8 × MemoPayloadKind)} :
    getMemoRecovery vault locator = .ok row ↔
      locator.validate = .ok () ∧ row = (vault.memoRow locator).map fun payload => (payload.image, payload.kind) := by
  unfold getMemoRecovery
  cases hvalid : locator.validate with
  | error e => simp
  | ok u =>
    rw [ok_bind, pure_eq_ok, Except.ok.injEq]
    simp [eq_comm]

theorem addMemoRecovery_eq_ok (h : addMemoRecovery vault locator payload = .ok vault') :
    vault.memoRow locator = none ∧
      vault' = { vault with memoRecovery := vault.memoRecovery ++ [(locator.key, payload)] } := by
  unfold addMemoRecovery at h
  obtain ⟨_, _, h⟩ := bind_eq_ok.mp h
  obtain ⟨_, hrejected, h⟩ := bind_eq_ok.mp h
  rw [refuseIf_eq_ok, not_or, Bool.not_eq_true, Option.isSome_eq_false_iff, Option.isNone_iff_eq_none] at hrejected
  exact ⟨hrejected.1, (Except.ok.inj h).symm⟩

theorem memoRow_append (hnone : vault.memoRow locator = none) :
    VaultState.memoRow { vault with memoRecovery := vault.memoRecovery ++ [(locator.key, payload)] } other =
      if other = locator then some payload else vault.memoRow other := by
  by_cases heq : other = locator
  · subst heq
    have hfind : vault.memoRecovery.find? (·.1 = other.key) = none := by
      simpa [VaultState.memoRow, VaultState.memoRecoveryRow, MemoLocator.key] using hnone
    rw [if_pos rfl]
    change ((vault.memoRecovery ++ [(other.key, payload)]).find? (·.1 = other.key)).map Prod.snd = some payload
    rw [List.find?_append, hfind]
    simp
  · have hkey : locator.key ≠ other.key := fun h => heq (key_injective h).symm
    rw [if_neg heq]
    change ((vault.memoRecovery ++ [(locator.key, payload)]).find? (·.1 = other.key)).map Prod.snd =
      (vault.memoRecovery.find? (·.1 = other.key)).map Prod.snd
    rw [List.find?_append]
    simp [hkey]

theorem storeMemo_eq_ok {u : Unit} (h : storeMemo locator payload vault = .ok (u, vault')) :
    locator.validate = .ok () ∧ vault'.memoRow locator = some payload ∧
      ∀ other stored, vault.memoRow other = some stored → vault'.memoRow other = some stored := by
  unfold storeMemo at h
  obtain ⟨row, hrow, h⟩ := bind_eq_ok.mp h
  obtain ⟨hvalid, hrow⟩ := getMemoRecovery_eq_ok.mp hrow
  refine ⟨hvalid, ?_⟩
  cases hstored : vault.memoRow locator with
  | some stored =>
    rw [hstored] at hrow
    subst hrow
    obtain ⟨_, hsame, h⟩ := bind_eq_ok.mp h
    rw [refuseIf_eq_ok, not_not, image_kind_eq_iff] at hsame
    rw [pure_eq_ok, Except.ok.injEq, Prod.mk.injEq] at h
    rw [← h.2, hstored, hsame]
    exact ⟨rfl, fun _ _ h => h⟩
  | none =>
    rw [hstored] at hrow
    subst hrow
    obtain ⟨added, hadded, h⟩ := bind_eq_ok.mp h
    rw [pure_eq_ok, Except.ok.injEq, Prod.mk.injEq] at h
    obtain ⟨-, rfl⟩ := h
    obtain ⟨hnone, rfl⟩ := addMemoRecovery_eq_ok hadded
    constructor
    · rw [memoRow_append hnone, if_pos rfl]
    · intro other stored hother
      rw [memoRow_append hnone, if_neg, hother]
      intro heq
      rw [heq, hnone] at hother
      cases hother

theorem storeMemo_conflict (hstored : vault.memoRow locator = some stored) (hne : stored ≠ payload) :
    ∃ e, storeMemo locator payload vault = .error e := by
  cases hresult : storeMemo locator payload vault with
  | error e => exact ⟨e, rfl⟩
  | ok result =>
    have hpair : storeMemo locator payload vault = .ok (result.1, result.2) := hresult
    obtain ⟨_, hrow, hkept⟩ := storeMemo_eq_ok hpair
    have hsame := hkept locator stored hstored
    rw [hrow, Option.some.injEq] at hsame
    exact absurd hsame.symm hne

/-- A mask is no NULL and differs from the value it replaces, which is then a text or bytes. -/
theorem memoSafeMask_eq_ok (h : memoSafeMask value = .ok output) :
    (value = .null ∧ output = .null) ∨
      (output ≠ .null ∧ output ≠ value ∧ ∃ payload, memoPayload? value = some payload) := by
  cases value with
  | null => exact Or.inl ⟨rfl, (Except.ok.inj h).symm⟩
  | text text =>
    have hmask := Except.ok.inj h
    have hother : (if text = memoTextMask then memoTextMaskAlt else memoTextMask) ≠ text := by
      split_ifs with hprimary
      · rw [hprimary]
        decide
      · exact fun heq => hprimary heq.symm
    refine Or.inr ⟨?_, ?_, _, rfl⟩
    · rw [← hmask]
      exact Value.noConfusion
    · rw [← hmask]
      exact fun heq => hother (Value.text.inj heq)
  | binary bytes =>
    have hmask := Except.ok.inj h
    have hother : (if bytes = memoBinaryMask then memoBinaryMaskAlt else memoBinaryMask) ≠ bytes := by
      split_ifs with hprimary
      · rw [hprimary]
        decide
      · exact fun heq => hprimary heq.symm
    refine Or.inr ⟨?_, ?_, _, rfl⟩
    · rw [← hmask]
      exact Value.noConfusion
    · rw [← hmask]
      exact fun heq => hother (Value.binary.inj heq)
  | _ => cases h

/-- The field type only adds refusals to the mask selection. -/
theorem memoSafeMask_of_maskMemoValue (h : maskMemoValue dbfType value = .ok output) :
    memoSafeMask value = .ok output := by
  unfold maskMemoValue at h
  split at h
  · cases h
  · cases value with
    | text text =>
      dsimp only at h
      split at h
      · cases h
      · exact h
    | _ => exact h

/-- Whatever a call returns, the mask it returns is the one of the kernel over a row that is stored. -/
theorem persistMemoRecovery_eq_ok (h : persistMemoRecovery control locator dbfType value vault = (.ok output, vault')) :
    maskMemoValue dbfType value = .ok output ∧
      ((value = .null ∧ output = .null ∧ vault' = vault) ∨
        ∃ payload, memoPayload? value = some payload ∧ output ≠ value ∧
          storeMemo locator payload vault = .ok ((), vault')) := by
  unfold persistMemoRecovery at h
  split at h
  · cases h
  · next mask hmask =>
    split_ifs at h with hnull
    · rw [Prod.mk.injEq, Except.ok.injEq] at h
      obtain ⟨rfl, rfl⟩ := h
      subst hnull
      refine ⟨hmask, Or.inl ⟨?_, rfl, rfl⟩⟩
      rcases memoSafeMask_eq_ok (memoSafeMask_of_maskMemoValue hmask) with hcase | hcase
      · exact hcase.1
      · exact absurd rfl hcase.1
    · split at h
      · cases h
      · next payload hpayload =>
        split at h
        · cases h
        · next stored hunit =>
          rw [Prod.mk.injEq, Except.ok.injEq] at h
          obtain ⟨rfl, rfl⟩ := h
          refine ⟨hmask, Or.inr ⟨payload, hpayload, ?_, (transaction_eq_ok.mp hunit).2.2⟩⟩
          rcases memoSafeMask_eq_ok (memoSafeMask_of_maskMemoValue hmask) with hcase | hcase
          · exact absurd hcase.2 hnull
          · exact hcase.2.1

theorem persistMemoRecovery_null (hmemo : dbfType ∈ ['M', 'G', 'P']) :
    persistMemoRecovery control locator dbfType .null vault = (.ok .null, vault) := by
  have hmask : maskMemoValue dbfType .null = .ok .null := if_neg (not_not.mpr hmemo)
  rw [persistMemoRecovery, hmask]
  rfl

theorem persistMemoRecovery_error {e : Raised}
    (h : persistMemoRecovery control locator dbfType value vault = (.error e, vault')) : vault' = vault := by
  unfold persistMemoRecovery at h
  split at h
  · exact (Prod.mk.inj h).2.symm
  · split_ifs at h
    · cases h
    · split at h
      · exact (Prod.mk.inj h).2.symm
      · split at h
        · next stored hunit =>
          rw [← (Prod.mk.inj h).2]
          exact transaction_error hunit
        · cases h

theorem persistMemoRecovery_keeps (hstored : vault.memoRow other = some stored) :
    (persistMemoRecovery control locator dbfType value vault).2.memoRow other = some stored := by
  cases hresult : persistMemoRecovery control locator dbfType value vault with
  | mk result vault' =>
    cases result with
    | error e =>
      rw [persistMemoRecovery_error hresult]
      exact hstored
    | ok output =>
      obtain ⟨-, hcases⟩ := persistMemoRecovery_eq_ok hresult
      rcases hcases with ⟨-, -, rfl⟩ | ⟨payload, -, -, hunit⟩
      · exact hstored
      · exact (storeMemo_eq_ok hunit).2.2 other stored hstored

theorem persistMemoRecovery_conflict (hstored : vault.memoRow locator = some stored) (hnull : value ≠ .null)
    (hne : stored.logical ≠ value) :
    ∃ e, persistMemoRecovery control locator dbfType value vault = (.error e, vault) := by
  cases hresult : persistMemoRecovery control locator dbfType value vault with
  | mk result vault' =>
    cases result with
    | error e => exact ⟨e, by rw [persistMemoRecovery_error hresult]⟩
    | ok output =>
      obtain ⟨-, hcases⟩ := persistMemoRecovery_eq_ok hresult
      rcases hcases with ⟨heq, -, -⟩ | ⟨payload, hpayload, -, hunit⟩
      · exact absurd heq hnull
      · have hother : stored ≠ payload := by
          intro heq
          subst heq
          exact hne (memoPayload?_eq_some.mp hpayload).symm
        obtain ⟨e, herror⟩ := storeMemo_conflict hstored hother
        rw [herror] at hunit
        cases hunit

theorem recoverMemoValue_eq (hvalid : locator.validate = .ok ()) :
    recoverMemoValue vault locator = .ok ((vault.memoRow locator).elim .null MemoPayload.logical) := by
  have hrow := (@getMemoRecovery_eq_ok vault locator _).mpr ⟨hvalid, rfl⟩
  rw [recoverMemoValue, hrow, ok_bind]
  cases vault.memoRow locator with
  | none => rfl
  | some payload =>
    cases payload with
    | text text =>
      dsimp only [Option.map, MemoPayload.image, MemoPayload.kind]
      rw [utf8Decode?_utf8Bytes]
      rfl
    | binary bytes => rfl

end Rows

namespace MemoRun
variable {run : MemoRun}

/-- What a return has established, in the vault of now. -/
structure Honoured (vault : VaultState) (r : MemoReturn) : Prop where
  masked : maskMemoValue r.dbfType r.value = .ok r.output
  null_kept : r.value = .null → r.output = .null
  stored : r.value ≠ .null → r.output ≠ r.value ∧ r.locator.validate = .ok () ∧
    ∃ payload, r.value = payload.logical ∧ vault.memoRow r.locator = some payload

theorem Honoured.mono {vault vault' : VaultState} {r : MemoReturn} (h : Honoured vault r)
    (hkept : ∀ locator payload, vault.memoRow locator = some payload → vault'.memoRow locator = some payload) :
    Honoured vault' r := by
  refine ⟨h.masked, h.null_kept, ?_⟩
  intro hnull
  obtain ⟨hne, hvalid, payload, hvalue, hrow⟩ := h.stored hnull
  exact ⟨hne, hvalid, payload, hvalue, hkept _ _ hrow⟩

theorem honoured_of_returned {control : UnitControl} {r : MemoReturn} {vault vault' : VaultState}
    (h : persistMemoRecovery control r.locator r.dbfType r.value vault = (.ok r.output, vault')) :
    Honoured vault' r := by
  obtain ⟨hmask, hcases⟩ := persistMemoRecovery_eq_ok h
  rcases hcases with ⟨hvalue, houtput, -⟩ | ⟨payload, hpayload, hne, hunit⟩
  · refine ⟨hmask, fun _ => houtput, ?_⟩
    intro hnull
    exact absurd hvalue hnull
  · have hvalue := memoPayload?_eq_some.mp hpayload
    obtain ⟨hvalid, hrow, -⟩ := storeMemo_eq_ok hunit
    refine ⟨hmask, ?_, fun _ => ⟨hne, hvalid, payload, hvalue, hrow⟩⟩
    intro hnull
    rw [hnull] at hvalue
    cases payload with
    | text _ => cases hvalue
    | binary _ => cases hvalue

/-- No call, and no crash of one, removes or changes a row. -/
theorem call_keeps (c : MemoCall) {locator : MemoLocator} {payload : MemoPayload}
    (h : run.vault.memoRow locator = some payload) : (run.call c).vault.memoRow locator = some payload := by
  unfold call
  split
  · next control hend =>
    have hkept : (persistMemoRecovery control c.locator c.dbfType c.value run.vault).2.memoRow locator =
        some payload := persistMemoRecovery_keeps h
    split
    · next hresult =>
      rw [hresult] at hkept
      exact hkept
    · next hresult =>
      rw [hresult] at hkept
      exact hkept
  · exact h
  · exact persistMemoRecovery_keeps h

theorem calls_keeps (calls : List MemoCall) {locator : MemoLocator} {payload : MemoPayload}
    (h : run.vault.memoRow locator = some payload) : (run.calls calls).vault.memoRow locator = some payload := by
  induction calls generalizing run with
  | nil => exact h
  | cons c calls ih => exact ih (call_keeps c h)

theorem mem_returns_call {c : MemoCall} {r : MemoReturn} (h : r ∈ (run.call c).returns) :
    r ∈ run.returns ∨ Honoured (run.call c).vault r := by
  unfold call at h ⊢
  split at h
  · split at h
    · next output vault hresult =>
      rcases List.mem_append.mp h with h | h
      · exact Or.inl h
      · right
        rw [List.mem_singleton.mp h]
        exact honoured_of_returned hresult
    · exact Or.inl h
  · exact Or.inl h
  · exact Or.inl h

theorem call_honoured (c : MemoCall) (h : ∀ r ∈ run.returns, Honoured run.vault r) :
    ∀ r ∈ (run.call c).returns, Honoured (run.call c).vault r := by
  intro r hr
  rcases mem_returns_call hr with hold | hnew
  · exact (h r hold).mono fun _ _ hrow => call_keeps c hrow
  · exact hnew

theorem calls_honoured (calls : List MemoCall) (h : ∀ r ∈ run.returns, Honoured run.vault r) :
    ∀ r ∈ (run.calls calls).returns, Honoured (run.calls calls).vault r := by
  induction calls generalizing run with
  | nil => exact h
  | cons c calls ih => exact ih (call_honoured c h)

/-- What holds of the vault and of the returns in one state of a run. -/
structure Contract (run : MemoRun) : Prop where
  /-- A return for a payload finds exactly that payload committed, and only then hands out the mask. -/
  stored : ∀ r ∈ run.returns, r.value ≠ .null →
    (∃ payload, r.value = payload.logical ∧ run.vault.memoRow r.locator = some payload) ∧
      maskMemoValue r.dbfType r.value = .ok r.output ∧ r.output ≠ r.value ∧
        recoverMemoValue run.vault r.locator = .ok r.value
  /-- Recovery reads the payload and the kind of every row exactly. -/
  recovers : ∀ locator, locator.validate = .ok () →
    recoverMemoValue run.vault locator = .ok ((run.vault.memoRow locator).elim .null MemoPayload.logical)
  /-- NULL stores nothing and stays NULL, whatever is stored under the locator. -/
  null_kept : (∀ r ∈ run.returns, r.value = .null → r.output = .null) ∧
    ∀ control locator dbfType, (persistMemoRecovery control locator dbfType .null run.vault).2 = run.vault ∧
      (dbfType ∈ ['M', 'G', 'P'] →
        persistMemoRecovery control locator dbfType .null run.vault = (.ok .null, run.vault))
  /-- Another payload under a stored locator is refused, and no later call touches the row. -/
  conflict : ∀ locator payload, run.vault.memoRow locator = some payload →
    (∀ control dbfType value, value ≠ .null → payload.logical ≠ value →
      ∃ e, persistMemoRecovery control locator dbfType value run.vault = (.error e, run.vault)) ∧
    ∀ later, (run.calls later).vault.memoRow locator = some payload

end MemoRun

/-- Store-then-mask in every state of every run, from any vault. -/
theorem storeThenMask (vault : VaultState) (calls : List MemoCall) :
    (MemoRun.calls ⟨vault, []⟩ calls).Contract := by
  have hstart : ∀ r ∈ (MemoRun.mk vault []).returns, MemoRun.Honoured vault r := by
    intro r hr
    cases hr
  have hhonoured := MemoRun.calls_honoured calls hstart
  generalize MemoRun.calls ⟨vault, []⟩ calls = run at hhonoured
  refine ⟨?_, fun _ hvalid => recoverMemoValue_eq hvalid, ⟨?_, ?_⟩, ?_⟩
  · intro r hr hnull
    have h := hhonoured r hr
    obtain ⟨hne, hvalid, payload, hvalue, hrow⟩ := h.stored hnull
    refine ⟨⟨payload, hvalue, hrow⟩, h.masked, hne, ?_⟩
    rw [recoverMemoValue_eq hvalid, hrow, hvalue]
    rfl
  · intro r hr
    exact (hhonoured r hr).null_kept
  · intro control locator dbfType
    refine ⟨?_, persistMemoRecovery_null⟩
    cases hresult : persistMemoRecovery control locator dbfType .null run.vault with
    | mk result vault' =>
      cases result with
      | error e => exact persistMemoRecovery_error hresult
      | ok output =>
        obtain ⟨-, ⟨-, -, hvault⟩ | ⟨payload, hpayload, -⟩⟩ := persistMemoRecovery_eq_ok hresult
        · exact hvault
        · cases hpayload
  · intro locator payload hrow
    constructor
    · intro control dbfType value hnull hne
      exact persistMemoRecovery_conflict hrow hnull hne
    · intro later
      exact MemoRun.calls_keeps later hrow

/-- A vault whose ledger has one memo field. -/
def memoFieldVault : VaultState :=
  { VaultState.empty with fields := [⟨['f'], ['t'], ['N'], 'M', 10, [], some .maskReversible, none⟩] }

/-- A text under the memo cell, and then NULL under the same cell: the re-run returns. -/
theorem null_rerun_returns :
    ¬ ∀ (vault : VaultState) (calls : List MemoCall) (locator : MemoLocator) (payload : MemoPayload),
      (MemoRun.calls ⟨vault, []⟩ calls).vault.memoRow locator = some payload →
        ∀ (dbfType : Char) (value : Value), payload.logical ≠ value →
          ∃ e, (persistMemoRecovery .sound locator dbfType value (MemoRun.calls ⟨vault, []⟩ calls).vault).1 =
            .error e := by
  intro h
  obtain ⟨e, he⟩ := h memoFieldVault [⟨⟨['t'], 0, ['f']⟩, 'M', .text ['A'], .completes .sound⟩] ⟨['t'], 0, ['f']⟩
    (.text ['A']) (by decide) 'M' .null (by decide)
  cases he

end DbfAnonymizer.Vault
