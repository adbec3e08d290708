import DbfAnonymizer.Engine.PassTwoComplete
import DbfAnonymizer.Engine.PublicationState
import DbfAnonymizer.Vault.FieldLedger

/-! The field ledger of a run: memo identities before pass one, every field's decision behind it. -/
namespace DbfAnonymizer.Engine
open Transforms Vault Lib Verification

/-- A vault during a registration, and the table identities that are known by path. -/
structure TableRegistration where
  vault : VaultState
  existingTables : List (Text × Text)

/-- The identity of a table, which is registered unless it is known. -/
def tableIdentity (sha16 : Text → Text) (relativePath : Text) (st : TableRegistration) :
    Except Raised (Text × TableRegistration) :=
  match (st.existingTables.find? (·.1 = relativePath)).map Prod.snd with
  | some tableId => .ok (tableId, st)
  | none => do
    let (tableId, vault) ← registerTable sha16 relativePath st.vault
    return (tableId, ⟨vault, st.existingTables ++ [(relativePath, tableId)]⟩)

/-- The newest binding of a key comes first. -/
structure MemoStructure where
  tables : TableRegistration
  bindings : List ((Text × Text) × Text × Text)

/-- The facts of a memo field, which no domain maps. -/
def memoFacts (field : FieldDirective) : FieldFacts :=
  ⟨field.dbfType, field.byteWidth, field.encoding, field.action, none⟩

def registerMemoField (sha16 : Text → Text) (relativePath tableId : Text) (st : MemoStructure) (field : FieldDirective) :
    Except Raised MemoStructure :=
  if field.action ≠ .maskReversible then .ok st
  else match st.tables.vault.fieldRow tableId field.fieldName with
    | none => do
      let (fieldId, vault) ← registerField sha16 tableId field.fieldName (memoFacts field) st.tables.vault
      return ⟨{ st.tables with vault }, ((relativePath, field.fieldName), tableId, fieldId) :: st.bindings⟩
    | some row => do
      refuseIf (¬ (row.dbfType = field.dbfType ∧ row.width = field.byteWidth ∧ row.encoding = field.encoding ∧
        row.transformAction = some field.action)) (identityFailure "ENGINE_MEMO_STRUCTURE_MISMATCH")
      return { st with bindings := ((relativePath, field.fieldName), tableId, row.fieldId) :: st.bindings }

def registerMemoTable (sha16 : Text → Text) (st : MemoStructure) (table : TableDirective) : Except Raised MemoStructure :=
  if table.memoFields = [] then .ok st
  else do
    let (tableId, tables) ← tableIdentity sha16 table.relativePath st.tables
    table.transformed.foldlM (registerMemoField sha16 table.relativePath tableId) { st with tables }

/-- The memo bindings of a plan; a plan without memo fields opens no unit. -/
def registerMemoStructure (sha16 : Text → Text) (control : UnitControl) (plan : EnginePlan) (vault : VaultState) :
    Except Raised (List ((Text × Text) × Text × Text)) × VaultState :=
  if plan.tables.all (·.memoFields = []) then (.ok [], vault)
  else transaction control vault fun vault => do
    let st ← plan.tables.foldlM (registerMemoTable sha16) ⟨⟨vault, vault.tables⟩, []⟩
    return (st.bindings, st.tables.vault)

/-- The domain that a transformed field is mapped by; the temporal domain only where it has been registered. -/
def mappingDomainOf (vault : VaultState) (textDomainId temporalDomainId : Option Text) (directive : FieldDirective) :
    Option Text :=
  match directive.numericDomainId, directive.action with
  | some domainId, _ => some domainId
  | none, .pseudonymizeReversible => textDomainId
  | none, .shiftReversible => temporalDomainId.filter fun domainId => (vault.domainKind domainId).isSome
  | none, _ => none

/-- What the ledger says of a field: its directive's decision, and otherwise that it is kept. -/
def expectedFacts (vault : VaultState) (textDomainId temporalDomainId : Option Text) (table : TableDirective)
    (schema : TableSchema) (field : FieldInfo) : FieldFacts :=
  match table.transformed.reverse.find? (·.fieldName = field.name) with
  | some directive => ⟨directive.dbfType, directive.byteWidth, directive.encoding, directive.action,
      mappingDomainOf vault textDomainId temporalDomainId directive⟩
  | none => ⟨field.dbfType.toUpper, field.length, schema.encoding, .keep, none⟩

def registerTransformField (sha16 : Text → Text) (textDomainId temporalDomainId : Option Text) (table : TableDirective)
    (schema : TableSchema) (tableId : Text) (vault : VaultState) (field : FieldInfo) : Except Raised VaultState :=
  if field.isSystemType then .ok vault
  else
    let expected := expectedFacts vault textDomainId temporalDomainId table schema field
    match vault.fieldRow tableId field.name with
    | none => do
      let (_, vault) ← registerField sha16 tableId field.name expected vault
      return vault
    | some row => do
      refuseIf (¬ row.carries expected) (identityFailure "ENGINE_FIELD_STRUCTURE_MISMATCH")
      return vault

def registerTransformTable (sha16 : Text → Text) (textDomainId temporalDomainId : Option Text) (source : DatasetFiles)
    (st : TableRegistration) (table : TableDirective) : Except Raised TableRegistration := do
  let stored ← source.readTable table.relativePath
  let (tableId, st) ← tableIdentity sha16 table.relativePath st
  let vault ← stored.schema.fields.foldlM
    (registerTransformField sha16 textDomainId temporalDomainId table stored.schema tableId) st.vault
  return { st with vault }

/-- The complete ledger of a plan, in one unit. -/
def registerTransformFields (sha16 : Text → Text) (control : UnitControl) (plan : EnginePlan) (source : DatasetFiles)
    (textDomainId temporalDomainId : Option Text) (vault : VaultState) : Except Raised Unit × VaultState :=
  if plan.tables = [] then (.ok (), vault)
  else transaction control vault fun vault => do
    let st ← plan.tables.foldlM (registerTransformTable sha16 textDomainId temporalDomainId source) ⟨vault, vault.tables⟩
    return ((), st.vault)

/-- A registration adds tables and fields, and touches nothing else. -/
def LedgerGrows (a b : VaultState) : Prop :=
  ∃ tables fields, b = { a with tables := a.tables ++ tables, fields := a.fields ++ fields }

namespace LedgerGrows
variable {a b c : VaultState}

theorem refl (a : VaultState) : LedgerGrows a a := ⟨[], [], by simp⟩

theorem trans (h : LedgerGrows a b) (h' : LedgerGrows b c) : LedgerGrows a c := by
  obtain ⟨tables, fields, rfl⟩ := h
  obtain ⟨tables', fields', rfl⟩ := h'
  exact ⟨tables ++ tables', fields ++ fields', by simp⟩

theorem le (h : LedgerGrows a b) : a ≤ b := by
  obtain ⟨tables, fields, rfl⟩ := h
  exact { le_refl a with tables := List.prefix_append _ _, fields := List.prefix_append _ _ }

theorem domainKind_eq (h : LedgerGrows a b) (domainId : Text) : b.domainKind domainId = a.domainKind domainId := by
  obtain ⟨_, _, rfl⟩ := h
  rfl

theorem expectedFacts_eq (h : LedgerGrows a b) (textDomainId temporalDomainId : Option Text) (t : TableDirective)
    (schema : TableSchema) (field : FieldInfo) : expectedFacts b textDomainId temporalDomainId t schema field =
      expectedFacts a textDomainId temporalDomainId t schema field := by
  unfold expectedFacts mappingDomainOf
  simp only [h.domainKind_eq]

end LedgerGrows

/-- A ledger that speaks of planned tables alone, and of each by its application fields. -/
structure LedgerVault (P : PlannedDataset) (vault : VaultState) : Prop where
  unique : LedgerUnique vault
  planned : ∀ entry ∈ vault.tables, ∃ t ∈ P.plan.tables, t.relativePath = entry.1
  owned : ∀ row ∈ vault.fields, row.tableId ∈ vault.tables.map Prod.snd
  names : ∀ t ∈ P.plan.tables, ∀ stored, P.source.table t.relativePath = some stored → ∀ tableId,
    vault.tableId t.relativePath = some tableId → ∀ row ∈ vault.fieldRows tableId,
      row.name ∈ stored.schema.applicationFields.map FieldInfo.name

theorem ledgerVault_empty (P : PlannedDataset) : LedgerVault P .empty where
  unique := by constructor <;> simp [VaultState.empty]
  planned := by simp [VaultState.empty]
  owned := by simp [VaultState.empty]
  names := by simp [VaultState.tableId, VaultState.empty]

section Steps
variable {sha16 : Text → Text} {P : PlannedDataset} {t : TableDirective} {stored : StoredTable} {tableId fieldId name : Text}
  {facts : FieldFacts} {vault vault' : VaultState}

theorem LedgerVault.registerTable (ht : t ∈ P.plan.tables) (hinv : LedgerVault P vault)
    (hnormal : normalizeRelativePath t.relativePath = .ok t.relativePath)
    (h : registerTable sha16 t.relativePath vault = .ok (tableId, vault')) :
    LedgerVault P vault' ∧ vault' = { vault with tables := vault.tables ++ [(t.relativePath, tableId)] } ∧
      vault'.tableId t.relativePath = some tableId := by
  have hunique := hinv.unique.registerTable h
  obtain ⟨normalized, hpath, hid, hfresh, rfl⟩ := registerTable_eq_ok h
  obtain rfl := Except.ok.inj (hnormal.symm.trans hpath)
  refine ⟨⟨hunique, ?_, ?_, ?_⟩, rfl, tableId_append hfresh⟩
  · intro entry hentry
    rcases List.mem_append.mp hentry with hentry | hentry
    · exact hinv.planned entry hentry
    · exact ⟨t, ht, by rw [List.mem_singleton.mp hentry]⟩
  · intro row hrow
    rw [List.map_append, List.mem_append]
    exact Or.inl (hinv.owned row hrow)
  · intro t' ht' stored hstored other hother row hrow
    obtain ⟨hmem, hrowId⟩ := List.mem_filter.mp hrow
    rw [decide_eq_true_eq] at hrowId
    cases hbefore : vault.tableId t'.relativePath with
    | some before =>
      have hgrows : vault ≤ { vault with tables := vault.tables ++ [(t.relativePath, tableId)] } := le_withTables _
      have hsame := VaultState.tableId_mono hgrows hbefore
      obtain rfl := Option.some.inj (hsame.symm.trans hother)
      exact hinv.names t' ht' stored hstored before hbefore row hrow
    | none =>
      have hlast : other = tableId := by
        unfold VaultState.tableId at hbefore hother
        rw [Option.map_eq_none_iff] at hbefore
        rw [List.find?_append, hbefore, Option.none_or, List.find?_singleton] at hother
        split_ifs at hother
        · exact (Option.some.inj hother).symm
        · cases hother
      rw [hlast] at hrowId
      exact absurd (hrowId ▸ hinv.owned row hmem) hid

theorem tableIdentity_spec {st st' : TableRegistration} (ht : t ∈ P.plan.tables)
    (hknown : st.existingTables = st.vault.tables) (hinv : LedgerVault P st.vault)
    (hnormal : normalizeRelativePath t.relativePath = .ok t.relativePath)
    (h : tableIdentity sha16 t.relativePath st = .ok (tableId, st')) :
    st'.existingTables = st'.vault.tables ∧ LedgerGrows st.vault st'.vault ∧ LedgerVault P st'.vault ∧
      st'.vault.tableId t.relativePath = some tableId := by
  unfold tableIdentity at h
  rw [hknown] at h
  cases hlookup : st.vault.tableId t.relativePath with
  | some known =>
    rw [VaultState.tableId] at hlookup
    simp only [hlookup, Except.ok.injEq, Prod.mk.injEq] at h
    obtain ⟨rfl, rfl⟩ := h
    exact ⟨hknown, .refl _, hinv, hlookup⟩
  | none =>
    rw [VaultState.tableId] at hlookup
    simp only [hlookup] at h
    obtain ⟨⟨newId, vault'⟩, hregister, h⟩ := bind_eq_ok.mp h
    cases h
    obtain ⟨hledger, hvault, hfound⟩ := hinv.registerTable ht hnormal hregister
    refine ⟨?_, ⟨[(t.relativePath, newId)], [], ?_⟩, hledger, hfound⟩
    · rw [hvault]
    · dsimp only
      rw [hvault, List.append_nil]

theorem LedgerVault.registerField (hinv : LedgerVault P vault)
    (hstored : P.source.table t.relativePath = some stored) (htable : vault.tableId t.relativePath = some tableId)
    (hname : name ∈ stored.schema.applicationFields.map FieldInfo.name)
    (h : registerField sha16 tableId name facts vault = .ok (fieldId, vault')) :
    LedgerVault P vault' ∧ LedgerGrows vault vault' ∧
      ∃ row, vault'.fieldRow tableId name = some row ∧ row.fieldId = fieldId ∧ row.carries facts := by
  have hunique := hinv.unique.registerField h
  obtain ⟨hnone, row, rfl, rfl, hid, hcarries, rfl⟩ := registerField_eq_ok h
  refine ⟨⟨hunique, hinv.planned, ?_, ?_⟩, ⟨[], [row], by simp⟩, row, fieldRow_append hnone, hid, hcarries⟩
  · intro other hother
    rcases List.mem_append.mp hother with hother | hother
    · exact hinv.owned other hother
    · rw [List.mem_singleton.mp hother]
      obtain ⟨entry, hentry, hentryId⟩ := Option.map_eq_some_iff.mp htable
      exact hentryId ▸ List.mem_map_of_mem (List.mem_of_find?_eq_some hentry)
  · intro t' ht' stored' hstored' other hother added hadded
    obtain ⟨hmem, haddedId⟩ := List.mem_filter.mp hadded
    rw [decide_eq_true_eq] at haddedId
    rcases List.mem_append.mp hmem with hmem | hmem
    · exact hinv.names t' ht' stored' hstored' other hother added (List.mem_filter.mpr ⟨hmem, by simpa using haddedId⟩)
    · rw [List.mem_singleton.mp hmem] at haddedId ⊢
      have hpath := hinv.unique.path_eq hother (haddedId ▸ htable)
      rw [hpath, hstored] at hstored'
      rw [← Option.some.inj hstored']
      exact hname

end Steps

/-- Every binding is the identity of a field in the ledger. -/
def BindingsSound (bindings : List ((Text × Text) × Text × Text)) (vault : VaultState) : Prop :=
  ∀ entry ∈ bindings, vault.tableId entry.1.1 = some entry.2.1 ∧
    ∃ row, vault.fieldRow entry.2.1 entry.1.2 = some row ∧ row.fieldId = entry.2.2

theorem BindingsSound.mono {bindings : List ((Text × Text) × Text × Text)} {vault vault' : VaultState}
    (h : BindingsSound bindings vault) (hle : vault ≤ vault') : BindingsSound bindings vault' := by
  intro entry hentry
  obtain ⟨htable, row, hrow, hid⟩ := h entry hentry
  exact ⟨VaultState.tableId_mono hle htable, row, fieldRow_mono hle hrow, hid⟩

section Memo
variable {sha16 : Text → Text} {P : PlannedDataset} {t : TableDirective} {tableId : Text} {start : VaultState}
  {st st' : MemoStructure}

/-- What the memo registration keeps while it goes on from a vault. -/
structure MemoReady (P : PlannedDataset) (start : VaultState) (st : MemoStructure) : Prop where
  known : st.tables.existingTables = st.tables.vault.tables
  grows : LedgerGrows start st.tables.vault
  ledger : LedgerVault P st.tables.vault
  bindings : BindingsSound st.bindings st.tables.vault

theorem registerMemoField_ready {d : FieldDirective} (ht : t ∈ P.plan.tables) (hd : d ∈ t.transformed)
    (hready : MemoReady P start st) (htable : st.tables.vault.tableId t.relativePath = some tableId)
    (h : registerMemoField sha16 t.relativePath tableId st d = .ok st') :
    MemoReady P start st' ∧ st'.tables.vault.tableId t.relativePath = some tableId := by
  unfold registerMemoField at h
  split_ifs at h with haction
  · cases h
    exact ⟨hready, htable⟩
  · cases hrow : st.tables.vault.fieldRow tableId d.fieldName with
    | none =>
      simp only [hrow] at h
      obtain ⟨⟨fieldId, vault⟩, hregister, h⟩ := bind_eq_ok.mp h
      cases h
      obtain ⟨stored, hbehind⟩ := PlannedDataset.exists_behind ht
      obtain ⟨field, hfield, -, hname⟩ := hbehind.exists_field hd
      obtain ⟨hledger, hgrows, row, hfound, hid, -⟩ := hready.ledger.registerField hbehind.stored_eq htable
        (hname ▸ List.mem_map_of_mem hfield) hregister
      have hlater := VaultState.tableId_mono hgrows.le htable
      have htables : vault.tables = st.tables.vault.tables := by
        obtain ⟨-, _, -, -, -, -, hvault⟩ := registerField_eq_ok hregister
        rw [hvault]
      refine ⟨⟨hready.known.trans htables.symm, hready.grows.trans hgrows, hledger, ?_⟩, hlater⟩
      intro entry hentry
      rcases List.mem_cons.mp hentry with rfl | hentry
      · exact ⟨hlater, row, hfound, hid⟩
      · exact hready.bindings.mono hgrows.le entry hentry
    | some row =>
      simp only [hrow] at h
      obtain ⟨_, -, h⟩ := bind_eq_ok.mp h
      cases h
      refine ⟨⟨hready.known, hready.grows, hready.ledger, ?_⟩, htable⟩
      intro entry hentry
      rcases List.mem_cons.mp hentry with rfl | hentry
      · exact ⟨htable, row, hrow, rfl⟩
      · exact hready.bindings entry hentry

theorem registerMemoTable_ready (ht : t ∈ P.plan.tables) (hnormal : normalizeRelativePath t.relativePath = .ok t.relativePath)
    (hready : MemoReady P start st) (h : registerMemoTable sha16 st t = .ok st') : MemoReady P start st' := by
  unfold registerMemoTable at h
  split_ifs at h with hnone
  · cases h
    exact hready
  · obtain ⟨⟨tableId, tables⟩, hidentity, h⟩ := bind_eq_ok.mp h
    obtain ⟨hknown, hgrows, hledger, htable⟩ := tableIdentity_spec ht hready.known hready.ledger hnormal hidentity
    have hfields := invariant_of_foldlM (fun st : MemoStructure => MemoReady P start st ∧
      st.tables.vault.tableId t.relativePath = some tableId)
      (fun d hd a b hb ha => registerMemoField_ready ht hd ha.1 ha.2 hb) h
      ⟨⟨hknown, hready.grows.trans hgrows, hledger, hready.bindings.mono hgrows.le⟩, htable⟩
    exact hfields.1

/-- Before pass one the ledger has a field row behind every memo binding. -/
theorem registerMemoStructure_spec {control : UnitControl} {vault vault' : VaultState}
    {bindings : List ((Text × Text) × Text × Text)}
    (hnormal : ∀ t ∈ P.plan.tables, normalizeRelativePath t.relativePath = .ok t.relativePath)
    (hinv : LedgerVault P vault) (h : registerMemoStructure sha16 control P.plan vault = (.ok bindings, vault')) :
    LedgerGrows vault vault' ∧ LedgerVault P vault' ∧ BindingsSound bindings vault' := by
  unfold registerMemoStructure at h
  split_ifs at h with hnone
  · cases h
    exact ⟨.refl _, hinv, by simp [BindingsSound]⟩
  · obtain ⟨-, -, hbody⟩ := transaction_eq_ok.mp h
    obtain ⟨st, hfold, hbody⟩ := bind_eq_ok.mp hbody
    cases hbody
    have hready : MemoReady P vault st := invariant_of_foldlM (MemoReady P vault)
      (fun t ht a b hb ha => registerMemoTable_ready ht (hnormal t ht) ha hb) hfold
      ⟨rfl, .refl _, hinv, by simp [BindingsSound]⟩
    exact ⟨hready.grows, hready.ledger, hready.bindings⟩

end Memo

instance : Preorder TableRegistration := Preorder.lift TableRegistration.vault

/-- Every application field of a planned table has its row. -/
def TableRegistered (source : DatasetFiles) (textDomainId temporalDomainId : Option Text) (start vault : VaultState)
    (t : TableDirective) : Prop :=
  ∀ stored, source.table t.relativePath = some stored → ∃ tableId, vault.tableId t.relativePath = some tableId ∧
    ∀ field ∈ stored.schema.applicationFields, ∃ row, vault.fieldRow tableId field.name = some row ∧
      row.carries (expectedFacts start textDomainId temporalDomainId t stored.schema field)

section Complete
variable {sha16 : Text → Text} {P : PlannedDataset} {t : TableDirective} {stored : StoredTable} {tableId : Text}
  {textDomainId temporalDomainId : Option Text} {start vault vault' : VaultState}

/-- What the registration of one table's fields keeps while it goes on from a vault. -/
structure FieldsReady (P : PlannedDataset) (start : VaultState) (tables : List (Text × Text)) (vault : VaultState) :
    Prop where
  known : vault.tables = tables
  grows : LedgerGrows start vault
  ledger : LedgerVault P vault

theorem registerTransformField_spec {tables : List (Text × Text)} {field : FieldInfo}
    (hstored : P.source.table t.relativePath = some stored) (htable : vault.tableId t.relativePath = some tableId)
    (hfield : field ∈ stored.schema.fields) (hready : FieldsReady P start tables vault)
    (h : registerTransformField sha16 textDomainId temporalDomainId t stored.schema tableId vault field = .ok vault') :
    vault ≤ vault' ∧ FieldsReady P start tables vault' ∧
      (field.isSystemType = false → ∃ row, vault'.fieldRow tableId field.name = some row ∧
        row.carries (expectedFacts start textDomainId temporalDomainId t stored.schema field)) := by
  unfold registerTransformField at h
  split_ifs at h with hsystem
  · cases h
    exact ⟨le_refl _, hready, fun hfalse => absurd hsystem (by simp [hfalse])⟩
  · have hname : field.name ∈ stored.schema.applicationFields.map FieldInfo.name :=
      List.mem_map_of_mem (List.mem_filter.mpr ⟨hfield, by simpa using hsystem⟩)
    rw [hready.grows.expectedFacts_eq] at h
    cases hrow : vault.fieldRow tableId field.name with
    | none =>
      simp only [hrow] at h
      obtain ⟨⟨fieldId, added⟩, hregister, h⟩ := bind_eq_ok.mp h
      cases h
      obtain ⟨hledger, hgrows, row, hfound, -, hcarries⟩ := hready.ledger.registerField hstored htable hname hregister
      have htables : added.tables = vault.tables := by
        obtain ⟨-, _, -, -, -, -, hvault⟩ := registerField_eq_ok hregister
        rw [hvault]
      exact ⟨hgrows.le, ⟨htables.trans hready.known, hready.grows.trans hgrows, hledger⟩, fun _ => ⟨row, hfound, hcarries⟩⟩
    | some row =>
      simp only [hrow] at h
      obtain ⟨_, hcarries, h⟩ := bind_eq_ok.mp h
      cases h
      exact ⟨le_refl _, hready, fun _ => ⟨row, hrow, not_not.mp (refuseIf_eq_ok.mp hcarries)⟩⟩

/-- What the registration of all tables keeps while it goes on from a vault. -/
structure TablesReady (P : PlannedDataset) (start : VaultState) (st : TableRegistration) : Prop where
  known : st.existingTables = st.vault.tables
  grows : LedgerGrows start st.vault
  ledger : LedgerVault P st.vault

theorem registerTransformTable_spec {st st' : TableRegistration} (ht : t ∈ P.plan.tables)
    (hnormal : normalizeRelativePath t.relativePath = .ok t.relativePath) (hready : TablesReady P start st)
    (h : registerTransformTable sha16 textDomainId temporalDomainId P.source st t = .ok st') :
    st ≤ st' ∧ TablesReady P start st' ∧ TableRegistered P.source textDomainId temporalDomainId start st'.vault t := by
  unfold registerTransformTable at h
  obtain ⟨stored, hread, h⟩ := bind_eq_ok.mp h
  have hstored := DatasetFiles.readTable_eq_ok.mp hread
  obtain ⟨⟨tableId, next⟩, hidentity, h⟩ := bind_eq_ok.mp h
  obtain ⟨vault, hfields, h⟩ := bind_eq_ok.mp h
  cases h
  obtain ⟨hknown, hgrows, hledger, htable⟩ := tableIdentity_spec ht hready.known hready.ledger hnormal hidentity
  let registered (field : FieldInfo) (vault : VaultState) : Prop := field.isSystemType = false →
    ∃ row, vault.fieldRow tableId field.name = some row ∧
      row.carries (expectedFacts start textDomainId temporalDomainId t stored.schema field)
  have hfold := forall_of_foldlM_of_invariant
    (fun vault => FieldsReady P start next.vault.tables vault ∧ vault.tableId t.relativePath = some tableId) registered
    (fun field a b hle hrow hsystem => by
      obtain ⟨row, hfound, hcarries⟩ := hrow hsystem
      exact ⟨row, fieldRow_mono hle hfound, hcarries⟩)
    (fun field hfield a b hb ha => by
      obtain ⟨hle, hready', hrow⟩ := registerTransformField_spec hstored ha.2 hfield ha.1 hb
      exact ⟨hle, ⟨hready', VaultState.tableId_mono hle ha.2⟩, hrow⟩)
    hfields ⟨⟨rfl, hready.grows.trans hgrows, hledger⟩, htable⟩
  obtain ⟨hle, ⟨hdone, hlater⟩, hall⟩ := hfold
  refine ⟨hgrows.le.trans hle, ⟨hknown.trans hdone.known.symm, hdone.grows, hdone.ledger⟩, ?_⟩
  intro other hother
  obtain rfl := Option.some.inj (hstored.symm.trans hother)
  refine ⟨tableId, hlater, ?_⟩
  intro field hfield
  obtain ⟨hmem, hsystem⟩ := List.mem_filter.mp hfield
  exact hall field hmem (by simpa using hsystem)

/-- What a complete registration leaves of a vault. -/
structure LedgerRegistered (P : PlannedDataset) (textDomainId temporalDomainId : Option Text)
    (before after : VaultState) : Prop where
  grows : LedgerGrows before after
  ledger : LedgerVault P after
  registered : ∀ t ∈ P.plan.tables, TableRegistered P.source textDomainId temporalDomainId before after t

theorem registerTransformFields_spec {control : UnitControl} {u : Unit}
    (hnormal : ∀ t ∈ P.plan.tables, normalizeRelativePath t.relativePath = .ok t.relativePath)
    (hinv : LedgerVault P vault)
    (h : registerTransformFields sha16 control P.plan P.source textDomainId temporalDomainId vault = (.ok u, vault')) :
    LedgerRegistered P textDomainId temporalDomainId vault vault' := by
  unfold registerTransformFields at h
  split_ifs at h with hnone
  · cases h
    exact ⟨.refl _, hinv, by simp [hnone]⟩
  · obtain ⟨-, -, hbody⟩ := transaction_eq_ok.mp h
    obtain ⟨st, hfold, hbody⟩ := bind_eq_ok.mp hbody
    cases hbody
    have htables := forall_of_foldlM_of_invariant (TablesReady P vault)
      (fun t st => TableRegistered P.source textDomainId temporalDomainId vault st.vault t)
      (fun t a b hle hrows stored hstored => by
        obtain ⟨tableId, htable, hall⟩ := hrows stored hstored
        refine ⟨tableId, VaultState.tableId_mono hle htable, ?_⟩
        intro field hfield
        obtain ⟨row, hrow, hcarries⟩ := hall field hfield
        exact ⟨row, fieldRow_mono hle hrow, hcarries⟩)
      (fun t ht a b hb ha => registerTransformTable_spec ht (hnormal t ht) ha hb) hfold ⟨rfl, .refl _, hinv⟩
    exact ⟨htables.2.1.grows, htables.2.1.ledger, htables.2.2⟩

end Complete
end DbfAnonymizer.Engine
