import Mathlib.Data.Int.Interval
import DbfAnonymizer.Lib.Outcome
import DbfAnonymizer.Transforms.NumericKeys

/-! The domains that Integer and integral Numeric members can build, and how large they are. -/
namespace DbfAnonymizer.Transforms
open Lib

/-- A member of a declared numeric key: an Integer field or an `N(w, 0)` field. -/
inductive SupportedMember : NumericKeyMemberRange → Prop
  | integer : SupportedMember integerMember
  | integral {width : ℤ} {m : NumericKeyMemberRange} (h : integralNumericMember width = .ok m) :
      SupportedMember m

/-- A domain together with the supported members it was built from. -/
structure BuiltNumericDomain where
  domain : NumericKeyDomain
  members : List NumericKeyMemberRange
  members_supported : ∀ m ∈ members, SupportedMember m
  built : numericKeyDomainFor members = .ok domain

theorem integralNumericMember_eq_ok {width : ℤ} {m : NumericKeyMemberRange}
    (h : integralNumericMember width = .ok m) :
    (1 ≤ width ∧ width ≤ 20) ∧ m.pseudonymLow = -(10 ^ (width - 1).toNat - 1) ∧
      m.pseudonymHigh = 10 ^ width.toNat - 1 := by
  unfold integralNumericMember integralNumericRange at h
  split_ifs at h with hw
  · cases h
    exact ⟨hw, rfl, rfl⟩
  · cases h

theorem exists_integralNumericMember {w : ℤ} (h : 1 ≤ w ∧ w ≤ 20) :
    ∃ m, integralNumericMember w = .ok m := by
  have hw : 1 ≤ w ∧ w ≤ (numericKeyMaxWidth : ℤ) := h
  simp [integralNumericMember, integralNumericRange, hw]

theorem SupportedMember.digits {m : NumericKeyMemberRange} (h : SupportedMember m) :
    m.pseudonymLow ≤ 0 ∧ 9 ≤ m.pseudonymHigh := by
  cases h with
  | integer => decide
  | integral h =>
    obtain ⟨hw, hlow, hhigh⟩ := integralNumericMember_eq_ok h
    rw [hlow, hhigh]
    have h1 : (1 : ℤ) ≤ 10 ^ (‹ℤ› - 1).toNat := one_le_pow₀ (by norm_num)
    have h2 : (10 : ℤ) ^ 1 ≤ 10 ^ (‹ℤ›).toNat := pow_le_pow_right₀ (by norm_num) (by omega)
    exact ⟨by omega, by omega⟩

/-- No member range ends exactly on a bound of the signed 64-bit integers. -/
theorem SupportedMember.bounds_ne {m : NumericKeyMemberRange} (h : SupportedMember m) :
    m.pseudonymLow ≠ -(2 ^ 63) ∧ m.pseudonymHigh ≠ 2 ^ 63 - 1 := by
  cases h with
  | integer => decide
  | @integral width _ h =>
    obtain ⟨⟨hw1, hw2⟩, hlow, hhigh⟩ := integralNumericMember_eq_ok h
    rw [hlow, hhigh]
    interval_cases width <;> decide

theorem intersectRanges_eq_some {ranges : List (ℤ × ℤ)} {low high : ℤ}
    (h : intersectRanges ranges = some (low, high)) :
    (∃ r ∈ ranges, r.1 = low) ∧ (∃ r ∈ ranges, r.2 = high) ∧ low ≤ high ∧
      ∀ r ∈ ranges, r.1 ≤ low ∧ high ≤ r.2 := by
  unfold intersectRanges at h
  split at h
  · next l u hl hu =>
    split_ifs at h with hlu
    obtain ⟨hlmem, hlmax⟩ := List.max?_eq_some_iff.mp hl
    obtain ⟨humem, humin⟩ := List.min?_eq_some_iff.mp hu
    cases h
    obtain ⟨r1, hr1, he1⟩ := List.mem_map.mp hlmem
    obtain ⟨r2, hr2, he2⟩ := List.mem_map.mp humem
    refine ⟨⟨r1, hr1, he1⟩, ⟨r2, hr2, he2⟩, by omega, fun r hr => ⟨?_, ?_⟩⟩
    · exact hlmax _ (List.mem_map_of_mem hr)
    · exact humin _ (List.mem_map_of_mem hr)
  · cases h

theorem numericKeyDomainFor_eq_ok {members : List NumericKeyMemberRange} {d : NumericKeyDomain}
    (h : numericKeyDomainFor members = .ok d) :
    (∃ m ∈ members, m.pseudonymLow = d.pseudonymLow) ∧
      (∃ m ∈ members, m.pseudonymHigh = d.pseudonymHigh) ∧ d.pseudonymLow ≤ d.pseudonymHigh ∧
      (∀ m ∈ members, m.pseudonymLow ≤ d.pseudonymLow ∧ d.pseudonymHigh ≤ m.pseudonymHigh) ∧
      d.members = members := by
  unfold numericKeyDomainFor at h
  split_ifs at h
  split at h
  · cases h
  · next low high hr =>
    cases h
    simpa [NumericKeyMemberRange.pseudonymRange] using intersectRanges_eq_some hr

namespace BuiltNumericDomain
variable (D : BuiltNumericDomain)

theorem low_nonpos : D.domain.pseudonymLow ≤ 0 := by
  obtain ⟨⟨m, hm, hlow⟩, -⟩ := numericKeyDomainFor_eq_ok D.built
  have := (D.members_supported m hm).digits
  omega

theorem nine_le_high : 9 ≤ D.domain.pseudonymHigh := by
  obtain ⟨-, ⟨m, hm, hhigh⟩, -⟩ := numericKeyDomainFor_eq_ok D.built
  have := (D.members_supported m hm).digits
  omega

theorem ten_le_size : 10 ≤ D.domain.size := by
  have h1 := D.low_nonpos
  have h2 := D.nine_le_high
  unfold NumericKeyDomain.size
  omega

theorem bounds_ne : D.domain.pseudonymLow ≠ -(2 ^ 63) ∧ D.domain.pseudonymHigh ≠ 2 ^ 63 - 1 := by
  obtain ⟨⟨m, hm, hlow⟩, ⟨m', hm', hhigh⟩, -⟩ := numericKeyDomainFor_eq_ok D.built
  rw [← hlow, ← hhigh]
  exact ⟨(D.members_supported m hm).bounds_ne.1, (D.members_supported m' hm').bounds_ne.2⟩

/-- On a fresh domain the kernel only has to count: ten tokens always leave a second choice. -/
theorem planNumericBijection_fresh {originals : List ℤ} (h : originals.Nodup) :
    planNumericBijection D.domain originals [] = .ok (decide ((originals.length : ℤ) ≤ D.domain.size)) := by
  have hsize := D.ten_le_size
  simp only [planNumericBijection, h.dedup, ne_eq, not_true_eq_false, if_false, List.filter_nil,
    List.dedup_nil, List.length_nil, Nat.cast_zero, sub_zero]
  split_ifs with hlt
  · simp [hlt]
  · simp only [Except.ok.injEq]
    rw [decide_eq_true (by omega), List.all_eq_true]
    intro v _
    simp only [decide_eq_true_eq]
    split_ifs <;> omega

end BuiltNumericDomain
end DbfAnonymizer.Transforms
