import Mathlib.Algebra.Order.BigOperators.Group.List
import Mathlib.Algebra.Order.Ring.Nat

/-! Lists split into the segments between separators, and segments joined again. -/
namespace DbfAnonymizer.Lib

section Segments
variable {α : Type*} {p : α → Bool} {s : α} {l : List α} {names : List (List α)}

theorem forall_of_mem_splitOnP {part : List α} (h : part ∈ l.splitOnP p) : ∀ a ∈ part, a ∈ l ∧ p a = false := by
  induction l generalizing part with
  | nil =>
    rw [List.splitOnP_nil, List.mem_singleton] at h
    simp [h]
  | cons d l ih =>
    have ih : ∀ part ∈ l.splitOnP p, ∀ a ∈ part, a ∈ d :: l ∧ p a = false := by
      intro part hpart a ha
      have hold := ih hpart a ha
      exact ⟨List.mem_cons_of_mem d hold.1, hold.2⟩
    rw [List.splitOnP_cons_eq_if_modifyHead] at h
    obtain ⟨head, rest, hsplit⟩ := List.exists_cons_of_ne_nil (List.splitOnP_ne_nil p l)
    rw [hsplit] at h ih
    by_cases hd : p d = true
    · rw [if_pos hd] at h
      rcases List.mem_cons.mp h with heq | hmem
      · simp [heq]
      · exact ih part hmem
    · rw [if_neg hd] at h
      rcases List.mem_cons.mp h with heq | hmem
      · intro a ha
        rw [heq] at ha
        rcases List.mem_cons.mp ha with had | ha
        · simpa [had] using hd
        · exact ih head List.mem_cons_self a ha
      · exact ih part (List.mem_cons_of_mem _ hmem)

theorem exists_mem_splitOnP {a : α} (h : a ∈ l) (ha : p a = false) : ∃ part ∈ l.splitOnP p, a ∈ part := by
  induction l with
  | nil => cases h
  | cons d l ih =>
    rw [List.splitOnP_cons_eq_if_modifyHead]
    obtain ⟨head, rest, hsplit⟩ := List.exists_cons_of_ne_nil (List.splitOnP_ne_nil p l)
    rw [hsplit] at ih ⊢
    rcases List.mem_cons.mp h with rfl | hmem
    · rw [if_neg (by simp [ha])]
      exact ⟨a :: head, List.mem_cons_self, List.mem_cons_self⟩
    · obtain ⟨part, hpart, hin⟩ := ih hmem
      by_cases hd : p d = true
      · rw [if_pos hd]
        exact ⟨part, List.mem_cons_of_mem _ hpart, hin⟩
      · rw [if_neg hd]
        rcases List.mem_cons.mp hpart with rfl | hpart
        · exact ⟨d :: part, List.mem_cons_self, List.mem_cons_of_mem _ hin⟩
        · exact ⟨part, List.mem_cons_of_mem _ hpart, hin⟩

theorem splitOnP_congr {q : α → Bool} (h : ∀ a ∈ l, p a = q a) : l.splitOnP p = l.splitOnP q := by
  induction l with
  | nil => rfl
  | cons d l ih =>
    have hrest := ih fun a ha => h a (List.mem_cons_of_mem _ ha)
    rw [List.splitOnP_cons_eq_if_modifyHead, List.splitOnP_cons_eq_if_modifyHead, h d List.mem_cons_self, hrest]

theorem splitOnP_append_of_clean {pre : List α} (h : ∀ a ∈ pre, p a = false) :
    (pre ++ l).splitOnP p = (l.splitOnP p).modifyHead (pre ++ ·) := by
  induction pre with
  | nil =>
    obtain ⟨head, rest, hsplit⟩ := List.exists_cons_of_ne_nil (List.splitOnP_ne_nil p l)
    rw [List.nil_append, hsplit]
    rfl
  | cons d pre ih =>
    obtain ⟨head, rest, hsplit⟩ := List.exists_cons_of_ne_nil (List.splitOnP_ne_nil p l)
    have hd : p d = false := h d List.mem_cons_self
    have hrest := ih fun a ha => h a (List.mem_cons_of_mem _ ha)
    rw [List.cons_append, List.splitOnP_cons_eq_if_modifyHead, if_neg (by simp [hd]), hrest, hsplit]
    rfl

theorem splitOnP_append_of_clean_suffix {tail : List α} (h : ∀ a ∈ tail, p a = false) :
    ∃ front last, l.splitOnP p = front ++ [last] ∧ (l ++ tail).splitOnP p = front ++ [last ++ tail] := by
  induction l with
  | nil => exact ⟨[], [], rfl, by simpa using List.splitOnP_eq_singleton h⟩
  | cons d l ih =>
    obtain ⟨front, last, hsplit, happend⟩ := ih
    rw [List.cons_append, List.splitOnP_cons_eq_if_modifyHead, List.splitOnP_cons_eq_if_modifyHead, hsplit, happend]
    by_cases hd : p d = true
    · rw [if_pos hd, if_pos hd]
      exact ⟨[] :: front, last, rfl, rfl⟩
    · rw [if_neg hd, if_neg hd]
      cases front with
      | nil => exact ⟨[], d :: last, rfl, rfl⟩
      | cons head front => exact ⟨(d :: head) :: front, last, rfl, rfl⟩

/-- Where a clean part of a list is replaced by another, a segment changes in the same way, and no other does. -/
theorem forall₂_splitOnP_replaced {part part' : List α} (h : ∀ a ∈ part, p a = false) (h' : ∀ a ∈ part', p a = false)
    (front back : List α) : List.Forall₂ (fun segment segment' => segment = segment' ∨
      ∃ before after, segment = before ++ part ++ after ∧ segment' = before ++ part' ++ after)
        ((front ++ part ++ back).splitOnP p) ((front ++ part' ++ back).splitOnP p) := by
  induction front with
  | nil =>
    obtain ⟨head, rest, hsplit⟩ := List.exists_cons_of_ne_nil (List.splitOnP_ne_nil p back)
    rw [List.nil_append, List.nil_append, splitOnP_append_of_clean h, splitOnP_append_of_clean h', hsplit]
    exact .cons (Or.inr ⟨[], head, rfl, rfl⟩) (List.forall₂_same.mpr fun _ _ => Or.inl rfl)
  | cons d front ih =>
    rw [List.cons_append, List.cons_append, List.cons_append, List.cons_append, List.splitOnP_cons_eq_if_modifyHead,
      List.splitOnP_cons_eq_if_modifyHead]
    by_cases hd : p d = true
    · rw [if_pos hd, if_pos hd]
      exact .cons (Or.inl rfl) ih
    · rw [if_neg hd, if_neg hd]
      generalize (front ++ part ++ back).splitOnP p = segments at ih ⊢
      generalize (front ++ part' ++ back).splitOnP p = segments' at ih ⊢
      cases ih with
      | nil => exact .nil
      | cons hhead hrest =>
        refine .cons ?_ hrest
        rcases hhead with hsame | ⟨before, after, hsegment, hsegment'⟩
        · exact Or.inl (by rw [hsame])
        · exact Or.inr ⟨d :: before, after, by rw [hsegment]; rfl, by rw [hsegment']; rfl⟩

theorem splitOnP_intercalate (hs : p s = true) (hclean : ∀ name ∈ names, ∀ a ∈ name, p a = false) (hne : names ≠ []) :
    (List.intercalate [s] names).splitOnP p = names := by
  induction names with
  | nil => exact absurd rfl hne
  | cons name names ih =>
    have hname := hclean name List.mem_cons_self
    cases names with
    | nil => simpa using List.splitOnP_eq_singleton hname
    | cons other names =>
      have hrest := ih (fun name hname => hclean name (List.mem_cons_of_mem _ hname)) (List.cons_ne_nil _ _)
      rw [List.intercalate_cons_cons, List.append_assoc, List.singleton_append,
        List.splitOnP_append_cons_of_forall_mem hname s hs, hrest]

theorem eq_of_mem_intercalate (hclean : ∀ name ∈ names, ∀ a ∈ name, p a = false) {a : α} (h : a ∈ List.intercalate [s] names)
    (ha : p a = true) : a = s := by
  induction names with
  | nil => cases h
  | cons name names ih =>
    have hname : a ∉ name := by
      intro hmem
      rw [hclean name List.mem_cons_self a hmem] at ha
      cases ha
    cases names with
    | nil =>
      rw [List.intercalate_singleton] at h
      exact absurd h hname
    | cons other names =>
      rw [List.intercalate_cons_cons, List.append_assoc, List.mem_append, List.mem_append, List.mem_singleton] at h
      rcases h with h | h | h
      · exact absurd h hname
      · exact h
      · exact ih (fun name hname => hclean name (List.mem_cons_of_mem _ hname)) h

theorem head?_intercalate {name : List α} (h : name ≠ []) : (List.intercalate [s] (name :: names)).head? = name.head? := by
  obtain ⟨a, name, rfl⟩ := List.exists_cons_of_ne_nil h
  cases names <;> simp [List.intercalate_cons_cons]

theorem head?_splitOnP {first : List α} {rest : List (List α)} (h : l.splitOnP p = first :: rest) (hne : first ≠ []) :
    first.head? = l.head? := by
  cases l with
  | nil =>
    rw [List.splitOnP_nil, List.cons.injEq] at h
    exact absurd h.1.symm hne
  | cons d l =>
    rw [List.splitOnP_cons_eq_if_modifyHead] at h
    by_cases hd : p d = true
    · rw [if_pos hd, List.cons.injEq] at h
      exact absurd h.1.symm hne
    · obtain ⟨head, tail, hsplit⟩ := List.exists_cons_of_ne_nil (List.splitOnP_ne_nil p l)
      rw [if_neg hd, hsplit, List.modifyHead_cons, List.cons.injEq] at h
      rw [← h.1, List.head?_cons, List.head?_cons]

theorem getLast?_intercalate_cons {name : List α} (hne : names ≠ []) (hlast : List.intercalate [s] names ≠ []) :
    (List.intercalate [s] (name :: names)).getLast? = (List.intercalate [s] names).getLast? := by
  obtain ⟨other, names, rfl⟩ := List.exists_cons_of_ne_nil hne
  rw [List.intercalate_cons_cons, List.getLast?_append_of_ne_nil _ hlast]

theorem sum_length_splitOnP (p : α → Bool) (l : List α) : ((l.splitOnP p).map (·.length + 1)).sum = l.length + 1 := by
  induction l with
  | nil => simp
  | cons c l ih =>
    obtain ⟨head, rest, hsplit⟩ := List.exists_cons_of_ne_nil (List.splitOnP_ne_nil p l)
    rw [List.splitOnP_cons_eq_if_modifyHead, List.length_cons]
    rw [hsplit] at ih ⊢
    split_ifs
    · rw [List.map_cons, List.sum_cons, ih, List.length_nil]
      omega
    · simp only [List.modifyHead_cons, List.map_cons, List.sum_cons, List.length_cons] at ih ⊢
      omega

theorem length_intercalate (h : names ≠ []) : (List.intercalate [s] names).length + 1 = (names.map (·.length + 1)).sum := by
  induction names with
  | nil => exact absurd rfl h
  | cons name names ih =>
    cases names with
    | nil => simp
    | cons other names =>
      have hrest := ih (List.cons_ne_nil _ _)
      rw [List.intercalate_cons_cons, List.map_cons, List.sum_cons, ← hrest]
      simp only [List.length_append, List.length_singleton]
      omega

theorem length_intercalate_filter_le (keep : List α → Bool) (h : (l.splitOnP p).filter keep ≠ []) :
    (List.intercalate [s] ((l.splitOnP p).filter keep)).length ≤ l.length := by
  have hsub : (((l.splitOnP p).filter keep).map (·.length + 1)).Sublist ((l.splitOnP p).map (·.length + 1)) :=
    List.filter_sublist.map _
  have hle := hsub.sum_le_sum fun _ _ => Nat.zero_le _
  have hlength : (List.intercalate [s] ((l.splitOnP p).filter keep)).length + 1 = _ := length_intercalate h
  rw [← hlength, sum_length_splitOnP] at hle
  omega

/-- The segments that are not empty: splitting at runs of separators. -/
def segmentsOf (p : α → Bool) (l : List α) : List (List α) := (l.splitOnP p).filter (· ≠ [])

theorem segmentsOf_nil_of_separators (h : ∀ a ∈ l, p a = true) : segmentsOf p l = [] := by
  induction l with
  | nil => simp [segmentsOf]
  | cons d l ih =>
    have hrest := ih fun a ha => h a (List.mem_cons_of_mem _ ha)
    unfold segmentsOf at *
    rw [List.splitOnP_cons_eq_if_modifyHead, if_pos (h d List.mem_cons_self), List.filter_cons_of_neg (by simp), hrest]

theorem segmentsOf_append_separators {seps : List α} (h : ∀ a ∈ seps, p a = true) :
    segmentsOf p (l ++ seps) = segmentsOf p l := by
  cases seps with
  | nil => rw [List.append_nil]
  | cons d seps =>
    have hseps := segmentsOf_nil_of_separators fun a ha => h a (List.mem_cons_of_mem _ ha)
    unfold segmentsOf at *
    rw [List.splitOnP_append_cons _ _ (h d List.mem_cons_self), List.filter_append, hseps, List.append_nil]

/-- The last entry of a list stays the last one when its segments are joined, unless it is a separator. -/
theorem getLast?_intercalate_segmentsOf {c : α} (h : l.getLast? = some c) (hc : p c = false) :
    (List.intercalate [s] (segmentsOf p l)).getLast? = some c := by
  induction l with
  | nil => cases h
  | cons d l ih =>
    obtain ⟨head, rest, hsplit⟩ := List.exists_cons_of_ne_nil (List.splitOnP_ne_nil p l)
    unfold segmentsOf at *
    rw [List.splitOnP_cons_eq_if_modifyHead]
    cases l with
    | nil =>
      obtain rfl : d = c := by simpa using h
      simp [hc]
    | cons e l =>
      have hrest := ih (by rwa [List.getLast?_cons_cons] at h)
      by_cases hd : p d = true
      · rw [if_pos hd, List.filter_cons_of_neg (by simp)]
        exact hrest
      · rw [if_neg hd]
        rw [hsplit] at hrest ⊢
        rw [List.modifyHead_cons, List.filter_cons_of_pos (by simp)]
        by_cases hhead : head = []
        · rw [List.filter_cons_of_neg (by simp [hhead])] at hrest
          have hlast : List.intercalate [s] (rest.filter (· ≠ [])) ≠ [] := by
            intro hnil
            rw [hnil] at hrest
            cases hrest
          have hne : rest.filter (· ≠ []) ≠ [] := by
            intro hnil
            rw [hnil] at hlast
            exact hlast rfl
          rw [getLast?_intercalate_cons hne hlast, hrest]
        · rw [List.filter_cons_of_pos (by simpa using hhead)] at hrest
          have hcons : List.intercalate [s] ((d :: head) :: rest.filter (· ≠ [])) =
              d :: List.intercalate [s] (head :: rest.filter (· ≠ [])) := by
            cases rest.filter (· ≠ []) <;> simp [List.intercalate_cons_cons]
          have hne : List.intercalate [s] (head :: rest.filter (· ≠ [])) ≠ [] := by
            intro hnil
            rw [hnil] at hrest
            cases hrest
          rw [hcons, ← List.singleton_append, List.getLast?_append_of_ne_nil _ hne, hrest]

end Segments
end DbfAnonymizer.Lib
