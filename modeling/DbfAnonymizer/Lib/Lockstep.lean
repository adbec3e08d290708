import Mathlib.Tactic.SplitIfs
import DbfAnonymizer.Lib.Outcome

/-! Two streams consumed in lock step, where the first is advanced before the second is asked. -/
namespace DbfAnonymizer.Lib
variable {ε φ α β : Type}

/-- The findings of the compared pairs, their number, and what is left unread of each stream. -/
structure Lockstep (φ α β : Type) where
  findings : List φ
  scanned : ℕ
  left : List α
  right : List β

/-- Compares pair by pair; a comparison may end the run. An item of the first stream that has no
partner is consumed all the same. -/
def lockstep (compare : α → β → Except ε (List φ × Bool)) : List α → List β → Except ε (Lockstep φ α β)
  | [], bs => .ok ⟨[], 0, [], bs⟩
  | _ :: as, [] => .ok ⟨[], 0, as, []⟩
  | a :: as, b :: bs => do
    let verdict ← compare a b
    if verdict.2 then return ⟨verdict.1, 1, as, bs⟩
    else do
      let rest ← lockstep compare as bs
      return ⟨verdict.1 ++ rest.findings, rest.scanned + 1, rest.left, rest.right⟩

/-- The run in which no pair has a finding. -/
def Lockstep.clean (as : List α) (bs : List β) : Lockstep φ α β :=
  ⟨[], min as.length bs.length, as.drop (bs.length + 1), bs.drop as.length⟩

/-- A run is without findings exactly when every pair is; it then loses one unpartnered item of the
first stream. -/
theorem lockstep_eq_clean_iff {compare : α → β → Except ε (List φ × Bool)}
    (hstop : ∀ a b findings, compare a b = .ok (findings, true) → findings ≠ []) {as : List α} {bs : List β}
    {r : Lockstep φ α β} :
    (lockstep compare as bs = .ok r ∧ r.findings = []) ↔
      (∀ p ∈ as.zip bs, compare p.1 p.2 = .ok ([], false)) ∧ r = .clean as bs := by
  induction as generalizing bs r with
  | nil =>
    simp only [lockstep, Except.ok.injEq, List.zip_nil_left, List.not_mem_nil, false_implies, implies_true,
      true_and, Lockstep.clean, List.length_nil, Nat.zero_min, List.drop_nil, List.drop_zero]
    constructor
    · rintro ⟨rfl, -⟩
      rfl
    · rintro rfl
      exact ⟨rfl, rfl⟩
  | cons a as ih =>
    cases bs with
    | nil =>
      simp only [lockstep, Except.ok.injEq, List.zip_nil_right, List.not_mem_nil, false_implies, implies_true,
        true_and, Lockstep.clean, List.length_nil, Nat.min_zero, List.drop_nil, List.drop_succ_cons, List.drop_zero]
      constructor
      · rintro ⟨rfl, -⟩
        rfl
      · rintro rfl
        exact ⟨rfl, rfl⟩
    | cons b bs =>
      rw [lockstep, List.zip_cons_cons, List.forall_mem_cons]
      constructor
      · rintro ⟨h, hnil⟩
        obtain ⟨verdict, hverdict, h⟩ := bind_eq_ok.mp h
        split_ifs at h with hs
        · obtain rfl := Except.ok.inj h
          exact absurd hnil (hstop a b _ (by rw [hverdict, ← hs]))
        · obtain ⟨rest, hrest, h⟩ := bind_eq_ok.mp h
          obtain rfl := Except.ok.inj h
          obtain ⟨hfirst, hlater⟩ := List.append_eq_nil_iff.mp hnil
          obtain ⟨hall, rfl⟩ := ih.mp ⟨hrest, hlater⟩
          refine ⟨⟨?_, hall⟩, ?_⟩
          · rw [hverdict, ← hfirst, ← (Bool.not_eq_true _).mp hs]
          · simp [Lockstep.clean, hfirst]
      · rintro ⟨⟨hfirst, hall⟩, rfl⟩
        obtain ⟨hrest, -⟩ := ih.mpr ⟨hall, rfl⟩
        rw [hfirst]
        simp [hrest, Lockstep.clean]

theorem lockstep_eq_error {compare : α → β → Except ε (List φ × Bool)} {e : ε} {as : List α} {bs : List β}
    (hpairs : ∀ p ∈ as.zip bs, compare p.1 p.2 = .ok ([], false) ∨ compare p.1 p.2 = .error e)
    (hrefused : ∃ p ∈ as.zip bs, compare p.1 p.2 = .error e) : lockstep compare as bs = .error e := by
  induction as generalizing bs with
  | nil =>
    obtain ⟨p, hp, -⟩ := hrefused
    cases hp
  | cons a as ih =>
    cases bs with
    | nil =>
      obtain ⟨p, hp, -⟩ := hrefused
      cases hp
    | cons b bs =>
      rw [List.zip_cons_cons, List.forall_mem_cons] at hpairs
      rw [List.zip_cons_cons, List.exists_mem_cons_iff] at hrefused
      rw [lockstep]
      rcases hpairs.1 with hfirst | hfirst
      · have hrest : ∃ p ∈ as.zip bs, compare p.1 p.2 = .error e := by
          rcases hrefused with hlast | hrest
          · rw [hfirst] at hlast
            cases hlast
          · exact hrest
        simp [hfirst, ih hpairs.2 hrest]
      · rw [hfirst]
        rfl

end DbfAnonymizer.Lib
