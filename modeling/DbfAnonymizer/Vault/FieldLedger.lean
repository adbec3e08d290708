import DbfAnonymizer.Lib.Outcome
import DbfAnonymizer.Relationships.Models
import DbfAnonymizer.Vault.Growth

/-! The rows of the field ledger: stable identities of tables and fields, and what their tables refuse. -/
namespace DbfAnonymizer.Vault
open Lib Relationships

def normalizeRelativePath (value : Text) : Except Raised Text :=
  if value = [] ∨ Char.ofNat 0 ∈ value then .error (.valueError "relative path must be a non-empty text path")
  else
    let parts := (value.splitOnP isPathSeparator).filter fun part => part ≠ [] ∧ part ≠ ['.']
    if parts = [] ∨ ['.', '.'] ∈ parts then .error (.valueError "relative path must be traversal-free")
    else if ∃ part ∈ parts, ':' ∈ part then .error (.valueError "relative path must not contain drive separators")
    else .ok (List.intercalate ['/'] parts)

/-- A new table row; `sha16` is the bounded digest. The identity and the path are both unique. -/
def registerTable (sha16 : Text → Text) (relativePath : Text) (vault : VaultState) :
    Except Raised (Text × VaultState) := do
  let normalized ← normalizeRelativePath relativePath
  let tableId := ['t', 'b', 'l', '-'] ++ sha16 normalized
  refuseIf (tableId ∈ vault.tables.map Prod.snd ∨ normalized ∈ vault.tables.map Prod.fst)
    (vaultStateFailure "TABLE_REJECTED")
  return (tableId, { vault with tables := vault.tables ++ [(normalized, tableId)] })

/-- The facts of a field that its row keeps beside its identity. -/
structure FieldFacts where
  dbfType : Char
  width : ℕ
  encoding : Text
  transformAction : Action
  mappingDomainId : Option Text
  deriving DecidableEq, Repr

def FieldRow.carries (row : FieldRow) (facts : FieldFacts) : Prop :=
  row.dbfType = facts.dbfType ∧ row.width = facts.width ∧ row.encoding = facts.encoding ∧
    row.transformAction = some facts.transformAction ∧ row.mappingDomainId = facts.mappingDomainId

instance (row : FieldRow) (facts : FieldFacts) : Decidable (row.carries facts) := by
  unfold FieldRow.carries
  infer_instance

def VaultState.fieldRow (vault : VaultState) (tableId name : Text) : Option FieldRow :=
  vault.fields.find? fun row => row.tableId = tableId ∧ row.name = name

/-- A new field row: its identity and its name within the table are unique, its table and its domain exist. -/
def registerField (sha16 : Text → Text) (tableId name : Text) (facts : FieldFacts) (vault : VaultState) :
    Except Raised (Text × VaultState) := do
  validateToken tableId "table_id"
  validateToken name "field name"
  validateToken [facts.dbfType] "dbf_type"
  let fieldId := ['f', 'l', 'd', '-'] ++ sha16 (tableId ++ [Char.ofNat 0] ++ name)
  refuseIf (fieldId ∈ vault.fields.map FieldRow.fieldId ∨ tableId ∉ vault.tables.map Prod.snd ∨
      (vault.fieldRow tableId name).isSome = true ∨ ∃ domainId ∈ facts.mappingDomainId, vault.domainKind domainId = none)
    (vaultStateFailure "FIELD_REJECTED")
  return (fieldId, { vault with fields := vault.fields ++ [⟨fieldId, tableId, name, facts.dbfType, facts.width,
    facts.encoding, some facts.transformAction, facts.mappingDomainId⟩] })

section Rows
variable {sha16 : Text → Text} {vault vault' : VaultState} {path tableId fieldId name : Text} {facts : FieldFacts}

theorem registerTable_eq_ok (h : registerTable sha16 path vault = .ok (tableId, vault')) :
    ∃ normalized, normalizeRelativePath path = .ok normalized ∧ tableId ∉ vault.tables.map Prod.snd ∧
      normalized ∉ vault.tables.map Prod.fst ∧
        vault' = { vault with tables := vault.tables ++ [(normalized, tableId)] } := by
  unfold registerTable at h
  obtain ⟨normalized, hnormalized, h⟩ := bind_eq_ok.mp h
  obtain ⟨_, hnew, h⟩ := bind_eq_ok.mp h
  have hnew := refuseIf_eq_ok.mp hnew
  rw [not_or] at hnew
  rw [pure_eq_ok, Except.ok.injEq, Prod.mk.injEq] at h
  obtain ⟨rfl, rfl⟩ := h
  exact ⟨normalized, hnormalized, hnew.1, hnew.2, rfl⟩

theorem registerField_eq_ok (h : registerField sha16 tableId name facts vault = .ok (fieldId, vault')) :
    vault.fieldRow tableId name = none ∧ ∃ row : FieldRow, row.tableId = tableId ∧ row.name = name ∧
      row.fieldId = fieldId ∧ row.carries facts ∧ vault' = { vault with fields := vault.fields ++ [row] } := by
  unfold registerField at h
  obtain ⟨_, -, h⟩ := bind_eq_ok.mp h
  obtain ⟨_, -, h⟩ := bind_eq_ok.mp h
  obtain ⟨_, -, h⟩ := bind_eq_ok.mp h
  obtain ⟨_, hnew, h⟩ := bind_eq_ok.mp h
  have hnew := refuseIf_eq_ok.mp hnew
  rw [not_or, not_or, not_or] at hnew
  rw [pure_eq_ok, Except.ok.injEq, Prod.mk.injEq] at h
  obtain ⟨rfl, rfl⟩ := h
  exact ⟨by simpa using hnew.2.2.1, _, rfl, rfl, rfl, ⟨rfl, rfl, rfl, rfl, rfl⟩, rfl⟩

theorem le_withTables (added : List (Text × Text)) : vault ≤ { vault with tables := vault.tables ++ added } :=
  { le_refl vault with tables := List.prefix_append _ _ }

theorem fieldRow_mono (h : vault ≤ vault') {row : FieldRow} (hrow : vault.fieldRow tableId name = some row) :
    vault'.fieldRow tableId name = some row := h.fields.find?_eq_some hrow

theorem fieldRow_append {row : FieldRow} (h : vault.fieldRow row.tableId row.name = none) :
    VaultState.fieldRow { vault with fields := vault.fields ++ [row] } row.tableId row.name = some row := by
  unfold VaultState.fieldRow at h ⊢
  rw [List.find?_append, h]
  simp

theorem tableId_append (h : path ∉ vault.tables.map Prod.fst) :
    VaultState.tableId { vault with tables := vault.tables ++ [(path, tableId)] } path = some tableId := by
  unfold VaultState.tableId
  have hnone : vault.tables.find? (·.1 = path) = none := by
    rw [List.find?_eq_none]
    intro row hrow hpath
    rw [decide_eq_true_eq] at hpath
    exact h (hpath ▸ List.mem_map_of_mem hrow)
  rw [List.find?_append, hnone]
  simp

end Rows

/-- The unique constraints of the ledger's tables. -/
structure LedgerUnique (vault : VaultState) : Prop where
  paths_nodup : (vault.tables.map Prod.fst).Nodup
  tableIds_nodup : (vault.tables.map Prod.snd).Nodup
  names_nodup : (vault.fields.map fun row => (row.tableId, row.name)).Nodup

section Unique
variable {sha16 : Text → Text} {vault vault' : VaultState} {path tableId fieldId name : Text} {facts : FieldFacts}

theorem LedgerUnique.registerTable (h : LedgerUnique vault) (hstep : registerTable sha16 path vault = .ok (tableId, vault')) :
    LedgerUnique vault' := by
  obtain ⟨normalized, -, hid, hpath, rfl⟩ := registerTable_eq_ok hstep
  constructor
  · rw [List.map_append, List.nodup_append_comm]
    exact List.nodup_cons.mpr ⟨hpath, h.paths_nodup⟩
  · rw [List.map_append, List.nodup_append_comm]
    exact List.nodup_cons.mpr ⟨hid, h.tableIds_nodup⟩
  · exact h.names_nodup

theorem LedgerUnique.registerField (h : LedgerUnique vault)
    (hstep : registerField sha16 tableId name facts vault = .ok (fieldId, vault')) : LedgerUnique vault' := by
  obtain ⟨hnone, row, htable, hname, -, -, rfl⟩ := registerField_eq_ok hstep
  refine ⟨h.paths_nodup, h.tableIds_nodup, ?_⟩
  rw [List.map_append, List.nodup_append_comm]
  refine List.nodup_cons.mpr ⟨?_, h.names_nodup⟩
  intro hmem
  obtain ⟨other, hother, hsame⟩ := List.mem_map.mp hmem
  rw [Prod.mk.injEq, htable, hname] at hsame
  have hfound := List.find?_eq_none.mp hnone other hother
  simp [hsame] at hfound

theorem LedgerUnique.path_eq (h : LedgerUnique vault) {path path' : Text} (hpath : vault.tableId path = some tableId)
    (hpath' : vault.tableId path' = some tableId) : path = path' := by
  obtain ⟨row, hrow, rfl⟩ := Option.map_eq_some_iff.mp hpath
  obtain ⟨row', hrow', hid⟩ := Option.map_eq_some_iff.mp hpath'
  have hsame := List.inj_on_of_nodup_map h.tableIds_nodup (List.mem_of_find?_eq_some hrow)
    (List.mem_of_find?_eq_some hrow') hid.symm
  have hown : row.1 = path := by simpa using List.find?_some hrow
  have hown' : row'.1 = path' := by simpa using List.find?_some hrow'
  rw [← hown, ← hown', hsame]

theorem LedgerUnique.fieldRow_eq (h : LedgerUnique vault) {row : FieldRow} (hrow : row ∈ vault.fields) :
    vault.fieldRow row.tableId row.name = some row := by
  cases hfind : vault.fieldRow row.tableId row.name with
  | none =>
    have hnone := List.find?_eq_none.mp hfind row hrow
    simp at hnone
  | some other =>
    have hfacts := List.find?_some hfind
    rw [decide_eq_true_eq] at hfacts
    rw [List.inj_on_of_nodup_map h.names_nodup (List.mem_of_find?_eq_some hfind) hrow (Prod.ext hfacts.1 hfacts.2)]

theorem LedgerUnique.fieldRows_nodup (h : LedgerUnique vault) (tableId : Text) :
    ((vault.fieldRows tableId).map FieldRow.name).Nodup := by
  have hsublist : ((vault.fieldRows tableId).map fun row => (row.tableId, row.name)).Sublist
      (vault.fields.map fun row => (row.tableId, row.name)) := List.filter_sublist.map _
  have hpairs : ((vault.fieldRows tableId).map fun row => (row.tableId, row.name)) =
      ((vault.fieldRows tableId).map FieldRow.name).map fun name => (tableId, name) := by
    rw [List.map_map]
    apply List.map_congr_left
    intro row hrow
    have hid := (List.mem_filter.mp hrow).2
    rw [decide_eq_true_eq] at hid
    simp [hid]
  have hnodup := hsublist.nodup h.names_nodup
  rw [hpairs] at hnodup
  exact hnodup.of_map

end Unique

theorem find?_fieldRows (vault : VaultState) (tableId name : Text) :
    (vault.fieldRows tableId).find? (·.name = name) = vault.fieldRow tableId name := by
  unfold VaultState.fieldRows VaultState.fieldRow
  rw [List.find?_filter]
  simp

end DbfAnonymizer.Vault
