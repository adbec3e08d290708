import Mathlib.Data.List.Nodup
import Mathlib.Data.List.Dedup
import Mathlib.Data.Finset.Card
import Mathlib.Tactic.SplitIfs

/-! Finite tables with unique keys, as a primary key with upserts keeps them. -/
namespace DbfAnonymizer.Lib

/-- Rows in insertion order, one for each key. -/
structure KeyedTable (α β : Type*) where
  rows : List (α × β)
  keys_nodup : (rows.map Prod.fst).Nodup

namespace KeyedTable
variable {α β : Type*}

def empty : KeyedTable α β := ⟨[], List.nodup_nil⟩

def keys (t : KeyedTable α β) : List α := t.rows.map Prod.fst

@[simp] theorem rows_empty : (empty : KeyedTable α β).rows = [] := rfl
@[simp] theorem keys_empty : (empty : KeyedTable α β).keys = [] := rfl

theorem mem_keys {t : KeyedTable α β} {a : α} : a ∈ t.keys ↔ ∃ b, (a, b) ∈ t.rows := by
  simp [keys]

theorem ext_rows {t t' : KeyedTable α β} (h : t.rows = t'.rows) : t = t' := by
  cases t
  cases t'
  congr

/-- Keeps the rows whose key satisfies a condition. -/
def retain (t : KeyedTable α β) (p : α → Bool) : KeyedTable α β where
  rows := t.rows.filter fun row => p row.1
  keys_nodup := (List.filter_sublist.map Prod.fst).nodup t.keys_nodup

theorem mem_keys_retain {t : KeyedTable α β} {p : α → Bool} {a : α} :
    a ∈ (t.retain p).keys ↔ p a = true ∧ a ∈ t.keys := by
  simp only [mem_keys, retain, List.mem_filter]
  exact ⟨fun ⟨b, hmem, hp⟩ => ⟨hp, b, hmem⟩, fun ⟨hp, b, hmem⟩ => ⟨b, hmem, hp⟩⟩

theorem retain_eq_self {t : KeyedTable α β} {p : α → Bool} (h : ∀ a ∈ t.keys, p a = true) : t.retain p = t := by
  refine ext_rows (List.filter_eq_self.mpr fun row hrow => ?_)
  exact h _ (mem_keys.mpr ⟨row.2, hrow⟩)

variable [DecidableEq α]

def lookup (t : KeyedTable α β) (a : α) : Option β := (t.rows.find? (·.1 = a)).map Prod.snd

@[simp] theorem lookup_empty (a : α) : (empty : KeyedTable α β).lookup a = none := rfl

theorem lookup_eq_some_iff {t : KeyedTable α β} {a : α} {b : β} :
    t.lookup a = some b ↔ (a, b) ∈ t.rows := by
  constructor
  · intro h
    obtain ⟨row, hrow, rfl⟩ := Option.map_eq_some_iff.mp h
    have hkey : row.1 = a := by simpa using List.find?_some hrow
    exact hkey ▸ List.mem_of_find?_eq_some hrow
  · intro h
    cases hf : t.rows.find? (·.1 = a) with
    | none => exact absurd (List.find?_eq_none.mp hf (a, b) h) (by simp)
    | some row =>
      have hkey : row.1 = a := by simpa using List.find?_some hf
      have heq := List.inj_on_of_nodup_map t.keys_nodup (List.mem_of_find?_eq_some hf) h hkey
      rw [lookup, hf, heq]
      rfl

theorem lookup_eq_none_iff {t : KeyedTable α β} {a : α} : t.lookup a = none ↔ a ∉ t.keys := by
  rw [mem_keys, ← not_iff_not, not_not, ← Ne.eq_def, Option.ne_none_iff_exists']
  simp only [lookup_eq_some_iff]

theorem map_replace_keys (t : KeyedTable α β) (a : α) (b : β) :
    (t.rows.map fun row => if row.1 = a then (a, b) else row).map Prod.fst = t.keys := by
  rw [List.map_map]
  apply List.map_congr_left
  intro row _
  simp only [Function.comp_apply]
  split_ifs with h
  · exact h.symm
  · rfl

/-- Replaces the row of a key, or appends one. -/
def upsert (t : KeyedTable α β) (a : α) (b : β) : KeyedTable α β where
  rows := if a ∈ t.keys then t.rows.map fun row => if row.1 = a then (a, b) else row else t.rows ++ [(a, b)]
  keys_nodup := by
    split_ifs with h
    · rw [map_replace_keys]
      exact t.keys_nodup
    · rw [List.map_append, List.nodup_append]
      refine ⟨t.keys_nodup, List.nodup_singleton _, ?_⟩
      intro x hx y hy hxy
      have hxa : x = a := hxy.trans (List.mem_singleton.mp hy)
      exact h (hxa ▸ hx)

theorem mem_upsert {t : KeyedTable α β} {a x : α} {b y : β} :
    (x, y) ∈ (t.upsert a b).rows ↔ (x = a ∧ y = b) ∨ (x ≠ a ∧ (x, y) ∈ t.rows) := by
  unfold upsert
  dsimp only
  split_ifs with h
  · rw [List.mem_map]
    constructor
    · rintro ⟨row, hrow, heq⟩
      split_ifs at heq with hk
      · exact Or.inl ⟨(Prod.mk.inj heq).1.symm, (Prod.mk.inj heq).2.symm⟩
      · exact Or.inr ⟨by rw [heq] at hk; exact hk, heq ▸ hrow⟩
    · rintro (⟨rfl, rfl⟩ | ⟨hne, hmem⟩)
      · obtain ⟨b', hb'⟩ := mem_keys.mp h
        exact ⟨_, hb', if_pos rfl⟩
      · exact ⟨_, hmem, if_neg hne⟩
  · rw [List.mem_append, List.mem_singleton, Prod.mk.injEq]
    constructor
    · rintro (hmem | heq)
      · refine Or.inr ⟨?_, hmem⟩
        rintro rfl
        exact h (mem_keys.mpr ⟨y, hmem⟩)
      · exact Or.inl heq
    · rintro (heq | ⟨-, hmem⟩)
      · exact Or.inr heq
      · exact Or.inl hmem

theorem lookup_upsert (t : KeyedTable α β) (a x : α) (b : β) :
    (t.upsert a b).lookup x = if x = a then some b else t.lookup x := by
  split_ifs with h
  · exact lookup_eq_some_iff.mpr (mem_upsert.mpr (Or.inl ⟨h, rfl⟩))
  · cases hl : t.lookup x with
    | some y => exact lookup_eq_some_iff.mpr (mem_upsert.mpr (Or.inr ⟨h, lookup_eq_some_iff.mp hl⟩))
    | none =>
      rw [lookup_eq_none_iff, mem_keys] at hl ⊢
      rintro ⟨y, hy⟩
      rcases mem_upsert.mp hy with ⟨heq, -⟩ | ⟨-, hmem⟩
      · exact h heq
      · exact hl ⟨y, hmem⟩

theorem mem_keys_upsert {t : KeyedTable α β} {a x : α} {b : β} :
    x ∈ (t.upsert a b).keys ↔ x = a ∨ x ∈ t.keys := by
  rw [← not_iff_not, ← lookup_eq_none_iff, lookup_upsert]
  split_ifs with h
  · simp [h]
  · simp [h, lookup_eq_none_iff]

/-- The same keys with other values. -/
def mapValues {γ : Type*} (f : β → γ) (t : KeyedTable α β) : KeyedTable α γ where
  rows := t.rows.map fun row => (row.1, f row.2)
  keys_nodup := by
    rw [List.map_map]
    exact t.keys_nodup

omit [DecidableEq α] in
@[simp] theorem keys_mapValues {γ : Type*} (f : β → γ) (t : KeyedTable α β) : (t.mapValues f).keys = t.keys := by
  rw [keys, mapValues, List.map_map]
  rfl

theorem mapValues_upsert {γ : Type*} (f : β → γ) (t : KeyedTable α β) (a : α) (b : β) :
    (t.upsert a b).mapValues f = (t.mapValues f).upsert a (f b) := by
  apply ext_rows
  simp only [upsert, keys_mapValues]
  simp only [mapValues]
  split_ifs with h
  · rw [List.map_map, List.map_map]
    apply List.map_congr_left
    intro row _
    simp only [Function.comp_apply]
    split_ifs <;> rfl
  · rw [List.map_append, List.map_singleton]

/-- Removes the row of a key. -/
def erase (t : KeyedTable α β) (a : α) : KeyedTable α β where
  rows := t.rows.filter (·.1 ≠ a)
  keys_nodup := (List.filter_sublist.map Prod.fst).nodup t.keys_nodup

theorem mem_erase {t : KeyedTable α β} {a x : α} {y : β} :
    (x, y) ∈ (t.erase a).rows ↔ x ≠ a ∧ (x, y) ∈ t.rows := by
  simp [erase, and_comm]

theorem retain_upsert {t : KeyedTable α β} {p : α → Bool} {a : α} (b : β) (ha : p a = false) :
    (t.upsert a b).retain p = t.retain p := by
  refine ext_rows ?_
  unfold retain upsert
  dsimp only
  split_ifs with h
  · rw [List.filter_map]
    have hrow : ∀ row ∈ t.rows.filter ((fun row => p row.1) ∘ fun row => if row.1 = a then (a, b) else row),
        (if row.1 = a then (a, b) else row) = row := by
      intro row hrow
      have hp := (List.mem_filter.mp hrow).2
      simp only [Function.comp_apply] at hp
      split_ifs at hp ⊢ with heq
      · simp [ha] at hp
      · rfl
    rw [List.map_congr_left hrow, List.map_id']
    refine List.filter_congr fun row _ => ?_
    simp only [Function.comp_apply]
    split_ifs with heq
    · rw [ha, heq, ha]
    · rfl
  · simp [ha]

theorem erase_upsert (t : KeyedTable α β) (a : α) (b : β) : (t.upsert a b).erase a = t.erase a :=
  retain_upsert b (p := (· ≠ a)) (by simp)

theorem erase_eq_self {t : KeyedTable α β} {a : α} (h : a ∉ t.keys) : t.erase a = t :=
  retain_eq_self (p := (· ≠ a)) fun x hx => by simpa using fun heq : x = a => h (heq ▸ hx)

end KeyedTable
end DbfAnonymizer.Lib
