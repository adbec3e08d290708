import DbfAnonymizer.Lib.BijectiveTable
import Mathlib.SetTheory.Cardinal.Arithmetic

/-! A finite partial bijection of an infinite type is part of a permutation. -/
namespace DbfAnonymizer.Lib.BijectiveTable
variable {α : Type*} [Infinite α]

theorem exists_perm (t : BijectiveTable α α) : ∃ σ : Equiv.Perm α, ∀ row ∈ t.rows, σ row.1 = row.2 := by
  have hvalue : ∀ x : {x // x ∈ t.keys}, ∃ b, (x.1, b) ∈ t.rows := fun x => mem_keys.mp x.2
  choose value hrows using hvalue
  have hinjective : Function.Injective value := by
    intro x y hxy
    exact Subtype.ext (t.fst_eq_of_mem (hrows x) (hxy ▸ hrows y))
  have hfinite : Set.Finite {x | x ∈ t.keys} := List.finite_toSet t.keys
  have hsmall : Cardinal.mk {x // x ∈ t.keys} < Cardinal.mk α :=
    (Cardinal.lt_aleph0_iff_set_finite.mpr hfinite).trans_le (Cardinal.aleph0_le_mk α)
  obtain ⟨σ, hσ⟩ := Cardinal.extend_function_of_lt (s := {x | x ∈ t.keys}) ⟨value, hinjective⟩ hsmall ⟨Equiv.refl α⟩
  refine ⟨σ, ?_⟩
  intro row hrow
  have hkey : row.1 ∈ t.keys := List.mem_map_of_mem hrow
  exact (hσ ⟨row.1, hkey⟩).trans (t.snd_eq_of_mem (hrows ⟨row.1, hkey⟩) hrow)

/-- A point that is no value can be kept fixed, at the price of its own row. -/
theorem exists_perm_fixing [DecidableEq α] (t : BijectiveTable α α) {a : α} (ha : a ∉ t.values) :
    ∃ σ : Equiv.Perm α, σ a = a ∧ ∀ row ∈ t.rows, row.1 ≠ a → σ row.1 = row.2 := by
  let fixed : BijectiveTable α α :=
    { rows := (a, a) :: t.rows.filter (·.1 ≠ a)
      keys_nodup := by
        rw [List.map_cons, List.nodup_cons]
        constructor
        · intro hmem
          obtain ⟨row, hrow, hkey⟩ := List.mem_map.mp hmem
          exact of_decide_eq_true (List.mem_filter.mp hrow).2 hkey
        · exact t.keys_nodup.sublist (List.filter_sublist.map Prod.fst)
      values_nodup := by
        rw [List.map_cons, List.nodup_cons]
        constructor
        · intro hmem
          obtain ⟨row, hrow, hvalue⟩ := List.mem_map.mp hmem
          have hsame : row.2 = a := hvalue
          exact ha (hsame ▸ List.mem_map_of_mem (List.mem_filter.mp hrow).1)
        · exact t.values_nodup.sublist (List.filter_sublist.map Prod.snd) }
  obtain ⟨σ, hσ⟩ := fixed.exists_perm
  refine ⟨σ, hσ (a, a) List.mem_cons_self, ?_⟩
  intro row hrow hne
  exact hσ row (List.mem_cons_of_mem _ (List.mem_filter.mpr ⟨hrow, decide_eq_true hne⟩))

end DbfAnonymizer.Lib.BijectiveTable
