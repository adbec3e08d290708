import Mathlib.Algebra.BigOperators.Group.List.Lemmas
import Mathlib.Algebra.Group.Prod
import Mathlib.Algebra.Ring.Nat
import Mathlib.Data.List.Dedup
import Mathlib.Data.List.Perm.Basic
import DbfAnonymizer.Lib.KeyedTable

/-! Tables that add up what is recorded under a key, and tables that count the entries of a list. -/
namespace DbfAnonymizer.Lib
namespace KeyedTable

section Totals
variable {α β : Type*} [DecidableEq α] [AddCommMonoid β] {t : KeyedTable α β} {rows rows' : List (α × β)} {a : α}

/-- What a table holds for a key; a key without a row holds nothing. -/
def total (t : KeyedTable α β) (a : α) : β := (t.lookup a).getD 0

/-- Adds to the row of a key, or inserts one. -/
def accumulate (t : KeyedTable α β) (row : α × β) : KeyedTable α β := t.upsert row.1 (t.total row.1 + row.2)

def accumulateAll (t : KeyedTable α β) (rows : List (α × β)) : KeyedTable α β := rows.foldl accumulate t

/-- What a list of rows adds up to at one key. -/
def totalAt (rows : List (α × β)) (a : α) : β := ((rows.filter (·.1 = a)).map Prod.snd).sum

@[simp] theorem total_empty : (empty : KeyedTable α β).total a = 0 := rfl

@[simp] theorem totalAt_nil : totalAt ([] : List (α × β)) a = 0 := rfl

theorem totalAt_cons (row : α × β) (rows : List (α × β)) (a : α) :
    totalAt (row :: rows) a = (if row.1 = a then row.2 else 0) + totalAt rows a := by
  unfold totalAt
  rw [List.filter_cons]
  split_ifs with h h' h'
  · rw [List.map_cons, List.sum_cons]
  · exact absurd (by simpa using h) h'
  · exact absurd (by simpa using h') h
  · rw [zero_add]

theorem totalAt_append (rows rows' : List (α × β)) (a : α) :
    totalAt (rows ++ rows') a = totalAt rows a + totalAt rows' a := by
  unfold totalAt
  rw [List.filter_append, List.map_append, List.sum_append]

theorem total_accumulate (t : KeyedTable α β) (row : α × β) (a : α) :
    (t.accumulate row).total a = t.total a + if row.1 = a then row.2 else 0 := by
  unfold accumulate total
  rw [lookup_upsert]
  split_ifs with h h' h'
  · rw [h]; rfl
  · exact absurd h.symm h'
  · exact absurd h'.symm h
  · rw [add_zero]

theorem total_accumulateAll (t : KeyedTable α β) (rows : List (α × β)) (a : α) :
    (t.accumulateAll rows).total a = t.total a + totalAt rows a := by
  induction rows generalizing t with
  | nil => rw [totalAt_nil, add_zero]; rfl
  | cons row rows ih =>
    have hstep : t.accumulateAll (row :: rows) = (t.accumulate row).accumulateAll rows := rfl
    rw [hstep, ih, total_accumulate, totalAt_cons, add_assoc]

theorem totalAt_rows (t : KeyedTable α β) (a : α) : totalAt t.rows a = t.total a := by
  cases hl : t.lookup a with
  | none =>
    have hnone : t.rows.filter (·.1 = a) = [] := by
      rw [List.filter_eq_nil_iff]
      rintro ⟨x, b⟩ hrow hx
      obtain rfl : x = a := by simpa using hx
      exact lookup_eq_none_iff.mp hl (mem_keys.mpr ⟨b, hrow⟩)
    rw [totalAt, hnone, total, hl]
    rfl
  | some b =>
    have hone : t.rows.filter (·.1 = a) = [(a, b)] := by
      have hnodup : (t.rows.filter (·.1 = a)).Nodup := (List.Nodup.of_map _ t.keys_nodup).filter _
      refine List.perm_singleton.mp ((List.perm_ext_iff_of_nodup hnodup (List.nodup_singleton _)).mpr ?_)
      rintro ⟨x, c⟩
      rw [List.mem_filter, List.mem_singleton, Prod.mk.injEq]
      constructor
      · rintro ⟨hrow, hx⟩
        obtain rfl : x = a := by simpa using hx
        have hc := lookup_eq_some_iff.mpr hrow
        rw [hl] at hc
        exact ⟨rfl, (Option.some.inj hc).symm⟩
      · rintro ⟨rfl, rfl⟩
        exact ⟨lookup_eq_some_iff.mp hl, by simp⟩
    rw [totalAt, hone, total, hl]
    simp

end Totals

section Slices
variable {α γ β : Type*} [DecidableEq α] {t : KeyedTable (α × γ) β} {a : α} {c : γ} {b : β}

/-- The rows whose key starts with a given part, under the other part. -/
def slice (t : KeyedTable (α × γ) β) (a : α) : KeyedTable γ β where
  rows := (t.rows.filter (·.1.1 = a)).map fun row => (row.1.2, row.2)
  keys_nodup := by
    rw [List.map_map]
    refine List.Nodup.map_on ?_ ((List.Nodup.of_map _ t.keys_nodup).filter _)
    intro row hrow row' hrow' h
    obtain ⟨hmem, ha⟩ := List.mem_filter.mp hrow
    obtain ⟨hmem', ha'⟩ := List.mem_filter.mp hrow'
    have hkey : row.1 = row'.1 := Prod.ext (by simp_all) h
    exact List.inj_on_of_nodup_map t.keys_nodup hmem hmem' hkey

theorem mem_slice : (c, b) ∈ (t.slice a).rows ↔ ((a, c), b) ∈ t.rows := by
  unfold slice
  simp only [List.mem_map, List.mem_filter, decide_eq_true_eq, Prod.mk.injEq]
  constructor
  · rintro ⟨⟨⟨x, y⟩, z⟩, ⟨hmem, rfl⟩, rfl, rfl⟩
    exact hmem
  · intro h
    exact ⟨((a, c), b), ⟨h, rfl⟩, rfl, rfl⟩

theorem lookup_slice [DecidableEq γ] (t : KeyedTable (α × γ) β) (a : α) (c : γ) : (t.slice a).lookup c = t.lookup (a, c) := by
  cases h : t.lookup (a, c) with
  | some b => exact lookup_eq_some_iff.mpr (mem_slice.mpr (lookup_eq_some_iff.mp h))
  | none =>
    rw [lookup_eq_none_iff, mem_keys] at h ⊢
    rintro ⟨b, hb⟩
    exact h ⟨b, mem_slice.mp hb⟩

end Slices
end KeyedTable

/-- The multiplicities of the distinct entries of a list. -/
def profile {α : Type*} [DecidableEq α] (l : List α) : List ℕ := l.dedup.map fun a => l.count a

/-- A table that counts the entries of a list: a row for each of them, and no other row. -/
structure Counts {α : Type*} [DecidableEq α] (t : KeyedTable α ℕ) (l : List α) : Prop where
  total_eq : ∀ a, t.total a = l.count a
  rows_pos : ∀ row ∈ t.rows, 0 < row.2

section Counting
variable {α β : Type*} [DecidableEq α] [DecidableEq β] {t : KeyedTable α ℕ} {l : List α} {a : α} {n : ℕ}

theorem counts_empty : Counts (KeyedTable.empty : KeyedTable α ℕ) [] := ⟨fun _ => rfl, by simp⟩

theorem Counts.mem_rows_iff (h : Counts t l) : (a, n) ∈ t.rows ↔ a ∈ l ∧ n = l.count a := by
  constructor
  · intro hrow
    have hn : n = l.count a := by
      rw [← h.total_eq a, KeyedTable.total, KeyedTable.lookup_eq_some_iff.mpr hrow]
      rfl
    have hpos : 0 < n := h.rows_pos _ hrow
    exact ⟨List.count_pos_iff.mp (hn ▸ hpos), hn⟩
  · rintro ⟨ha, rfl⟩
    have htotal := h.total_eq a
    have hpos := List.count_pos_iff.mpr ha
    cases hl : t.lookup a with
    | none =>
      rw [KeyedTable.total, hl] at htotal
      simp only [Option.getD_none] at htotal
      omega
    | some m =>
      rw [KeyedTable.total, hl] at htotal
      exact KeyedTable.lookup_eq_some_iff.mp (hl.trans (congrArg some htotal))

theorem Counts.mem_keys_iff (h : Counts t l) : a ∈ t.keys ↔ a ∈ l := by
  rw [KeyedTable.mem_keys]
  exact ⟨fun ⟨n, hn⟩ => (h.mem_rows_iff.mp hn).1, fun ha => ⟨_, h.mem_rows_iff.mpr ⟨ha, rfl⟩⟩⟩

theorem Counts.rows_perm (h : Counts t l) : t.rows.Perm (l.dedup.map fun a => (a, l.count a)) := by
  have hn : (l.dedup.map fun a => (a, l.count a)).Nodup := by
    refine (List.nodup_dedup l).map ?_
    intro x y hxy
    exact (Prod.mk.inj hxy).1
  refine (List.perm_ext_iff_of_nodup (List.Nodup.of_map _ t.keys_nodup) hn).mpr ?_
  rintro ⟨a, n⟩
  rw [h.mem_rows_iff, List.mem_map]
  constructor
  · rintro ⟨ha, rfl⟩
    exact ⟨a, List.mem_dedup.mpr ha, rfl⟩
  · rintro ⟨x, hx, heq⟩
    obtain ⟨rfl, rfl⟩ := Prod.mk.inj heq
    exact ⟨List.mem_dedup.mp hx, rfl⟩

theorem Counts.profile_perm (h : Counts t l) : (t.rows.map Prod.snd).Perm (profile l) := by
  have hmap := h.rows_perm.map Prod.snd
  rwa [List.map_map] at hmap

theorem Counts.accumulate (h : Counts t l) {a : α} {n : ℕ} (hn : 0 < n) :
    Counts (t.accumulate (a, n)) (l ++ List.replicate n a) where
  total_eq x := by
    rw [KeyedTable.total_accumulate, h.total_eq, List.count_append, List.count_replicate]
    simp only [beq_iff_eq]
  rows_pos := by
    rintro ⟨x, m⟩ hrow
    rcases KeyedTable.mem_upsert.mp hrow with ⟨-, rfl⟩ | ⟨-, hmem⟩
    · simp only
      omega
    · exact h.rows_pos _ hmem

theorem sum_profile (l : List α) : (profile l).sum = l.length := by
  unfold profile
  simpa using List.sum_map_count_dedup_eq_length l

/-- Counting after a map that tells the entries apart gives the same multiplicities. -/
theorem profile_map {f : α → β} (hf : ∀ x ∈ l, ∀ y ∈ l, f x = f y → x = y) :
    (profile (l.map f)).Perm (profile l) := by
  have hcount : ∀ x ∈ l, (l.map f).count (f x) = l.count x := by
    intro x hx
    rw [List.count, List.countP_map, List.count]
    refine List.countP_congr fun y hy => ?_
    simp only [Function.comp_apply, beq_iff_eq]
    exact ⟨fun h => hf y hy x hx h, fun h => h ▸ rfl⟩
  have hdedup : (l.map f).dedup.Perm (l.dedup.map f) := by
    have hn : (l.dedup.map f).Nodup := by
      refine List.Nodup.map_on ?_ (List.nodup_dedup l)
      intro x hx y hy h
      exact hf x (List.mem_dedup.mp hx) y (List.mem_dedup.mp hy) h
    refine (List.perm_ext_iff_of_nodup (List.nodup_dedup _) hn).mpr fun b => ?_
    simp only [List.mem_dedup, List.mem_map]
  unfold profile
  refine (hdedup.map _).trans ?_
  rw [List.map_map]
  refine List.Perm.of_eq (List.map_congr_left fun x hx => ?_)
  exact hcount x (List.mem_dedup.mp hx)

theorem Counts.sum_filter (h : Counts t l) (p : α → Bool) :
    ((t.rows.filter fun row => p row.1).map Prod.snd).sum = (l.filter p).length := by
  have hperm := ((h.rows_perm.filter fun row => p row.1).map Prod.snd).sum_eq
  have hdedup : (l.dedup.filter p).Perm (l.filter p).dedup := by
    refine (List.perm_ext_iff_of_nodup ((List.nodup_dedup l).filter p) (List.nodup_dedup _)).mpr fun x => ?_
    simp only [List.mem_filter, List.mem_dedup]
  rw [hperm, List.filter_map, List.map_map, ← sum_profile (l.filter p), profile, ← (hdedup.map _).sum_eq]
  refine congrArg List.sum (List.map_congr_left fun x hx => ?_)
  exact (List.count_filter (List.mem_filter.mp hx).2).symm

end Counting
end DbfAnonymizer.Lib
