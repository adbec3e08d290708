import Mathlib.Data.List.Nodup
import Mathlib.Data.List.Perm.Subperm
import Mathlib.Data.Finset.Card

/-! Finite tables whose keys and whose values are both unique, as two unique indexes keep them. -/
namespace DbfAnonymizer.Lib

/-- A finite partial bijection, stored as its rows in insertion order. -/
structure BijectiveTable (α β : Type*) where
  rows : List (α × β)
  keys_nodup : (rows.map Prod.fst).Nodup
  values_nodup : (rows.map Prod.snd).Nodup

namespace BijectiveTable
variable {α β : Type*}

def empty : BijectiveTable α β := ⟨[], List.nodup_nil, List.nodup_nil⟩

def keys (t : BijectiveTable α β) : List α := t.rows.map Prod.fst
def values (t : BijectiveTable α β) : List β := t.rows.map Prod.snd

@[simp] theorem keys_empty : (empty : BijectiveTable α β).keys = [] := rfl
@[simp] theorem values_empty : (empty : BijectiveTable α β).values = [] := rfl
@[simp] theorem rows_empty : (empty : BijectiveTable α β).rows = [] := rfl

theorem length_keys (t : BijectiveTable α β) : t.keys.length = t.rows.length := by simp [keys]
theorem length_values (t : BijectiveTable α β) : t.values.length = t.rows.length := by
  simp [values]

theorem mem_keys {t : BijectiveTable α β} {a : α} : a ∈ t.keys ↔ ∃ b, (a, b) ∈ t.rows := by
  simp [keys]

theorem mem_values {t : BijectiveTable α β} {b : β} : b ∈ t.values ↔ ∃ a, (a, b) ∈ t.rows := by
  simp [values]

theorem snd_eq_of_mem (t : BijectiveTable α β) {a : α} {b b' : β}
    (h : (a, b) ∈ t.rows) (h' : (a, b') ∈ t.rows) : b = b' := by
  have hp := List.inj_on_of_nodup_map t.keys_nodup h h' rfl
  exact (Prod.mk.inj hp).2

theorem fst_eq_of_mem (t : BijectiveTable α β) {a a' : α} {b : β}
    (h : (a, b) ∈ t.rows) (h' : (a', b) ∈ t.rows) : a = a' := by
  have hp := List.inj_on_of_nodup_map t.values_nodup h h' rfl
  exact (Prod.mk.inj hp).1

def valueOf? [DecidableEq α] (t : BijectiveTable α β) (a : α) : Option β :=
  (t.rows.find? (fun row => row.1 = a)).map Prod.snd

def keyOf? [DecidableEq β] (t : BijectiveTable α β) (b : β) : Option α :=
  (t.rows.find? (fun row => row.2 = b)).map Prod.fst

theorem valueOf?_eq_some_iff [DecidableEq α] {t : BijectiveTable α β} {a : α} {b : β} :
    t.valueOf? a = some b ↔ (a, b) ∈ t.rows := by
  constructor
  · intro h
    obtain ⟨row, hrow, rfl⟩ := Option.map_eq_some_iff.mp h
    have hkey : row.1 = a := by simpa using List.find?_some hrow
    exact hkey ▸ List.mem_of_find?_eq_some hrow
  · intro h
    cases hf : t.rows.find? (fun row => row.1 = a) with
    | none => simpa using List.find?_eq_none.mp hf (a, b) h
    | some row =>
      have hkey : row.1 = a := by simpa using List.find?_some hf
      have hmem : (a, row.2) ∈ t.rows := hkey ▸ List.mem_of_find?_eq_some hf
      simp [valueOf?, hf, t.snd_eq_of_mem hmem h]

theorem keyOf?_eq_some_iff [DecidableEq β] {t : BijectiveTable α β} {a : α} {b : β} :
    t.keyOf? b = some a ↔ (a, b) ∈ t.rows := by
  constructor
  · intro h
    obtain ⟨row, hrow, rfl⟩ := Option.map_eq_some_iff.mp h
    have hvalue : row.2 = b := by simpa using List.find?_some hrow
    exact hvalue ▸ List.mem_of_find?_eq_some hrow
  · intro h
    cases hf : t.rows.find? (fun row => row.2 = b) with
    | none => simpa using List.find?_eq_none.mp hf (a, b) h
    | some row =>
      have hvalue : row.2 = b := by simpa using List.find?_some hf
      have hmem : (row.1, b) ∈ t.rows := hvalue ▸ List.mem_of_find?_eq_some hf
      simp [keyOf?, hf, t.fst_eq_of_mem hmem h]

theorem valueOf?_eq_none_iff [DecidableEq α] {t : BijectiveTable α β} {a : α} :
    t.valueOf? a = none ↔ a ∉ t.keys := by
  rw [Option.eq_none_iff_forall_not_mem, mem_keys, not_exists]
  exact forall_congr' fun b => not_congr valueOf?_eq_some_iff

theorem keyOf?_of_valueOf? [DecidableEq α] [DecidableEq β] {t : BijectiveTable α β} {a : α} {b : β}
    (h : t.valueOf? a = some b) :
    t.keyOf? b = some a :=
  keyOf?_eq_some_iff.mpr (valueOf?_eq_some_iff.mp h)

section Insert
variable [DecidableEq α] [DecidableEq β]

/-- Insertion refuses a row that repeats a key or a value. -/
def insert? (t : BijectiveTable α β) (a : α) (b : β) : Option (BijectiveTable α β) :=
  if h : a ∉ t.keys ∧ b ∉ t.values then
    some {
      rows := t.rows ++ [(a, b)]
      keys_nodup := by
        simpa [List.nodup_append, keys] using
          ⟨t.keys_nodup, fun c d hcd hc => h.1 (mem_keys.mpr ⟨d, hc ▸ hcd⟩)⟩
      values_nodup := by
        simpa [List.nodup_append, values] using
          ⟨t.values_nodup, fun d c hcd hd => h.2 (mem_values.mpr ⟨c, hd ▸ hcd⟩)⟩ }
  else none

theorem insert?_eq_some_iff {t t' : BijectiveTable α β} {a : α} {b : β} :
    t.insert? a b = some t' ↔ a ∉ t.keys ∧ b ∉ t.values ∧ t'.rows = t.rows ++ [(a, b)] := by
  unfold insert?
  split_ifs with h
  · refine ⟨fun he => ⟨h.1, h.2, ?_⟩, fun he => ?_⟩
    · cases he; rfl
    · cases t'
      simp only [Option.some.injEq, mk.injEq]
      exact he.2.2.symm
  · exact ⟨nofun, fun he => absurd ⟨he.1, he.2.1⟩ h⟩

theorem exists_insert? {t : BijectiveTable α β} {a : α} {b : β} (ha : a ∉ t.keys)
    (hb : b ∉ t.values) : ∃ t', t.insert? a b = some t' := by
  simp [insert?, ha, hb]

theorem keys_of_insert? {t t' : BijectiveTable α β} {a : α} {b : β}
    (h : t.insert? a b = some t') : t'.keys = t.keys ++ [a] := by
  simp [keys, (insert?_eq_some_iff.mp h).2.2]

theorem values_of_insert? {t t' : BijectiveTable α β} {a : α} {b : β}
    (h : t.insert? a b = some t') : t'.values = t.values ++ [b] := by
  simp [values, (insert?_eq_some_iff.mp h).2.2]

end Insert
end BijectiveTable
end DbfAnonymizer.Lib
