import DbfAnonymizer.Relationships.Binding
import DbfAnonymizer.Engine.Directives
import DbfAnonymizer.Transforms.NumericDomain

/-! The member range of a numeric column, as the engine and as the preflight look it up. -/
namespace DbfAnonymizer.Engine
open Transforms Relationships Lib

/-- The preflight's range of a member: from the bound type of its own column and its own width. -/
def preflightMemberRange (bindings : List ((Text × Text) × FieldFact)) (member : RelationMember) :
    Except Raised (Option NumericKeyMemberRange) :=
  match bindings.find? (·.1 = member.column) with
  | none => .ok none
  | some fact =>
    if fact.2.dbfType = 'I' then .ok (some integerMember)
    else (integralNumericMember member.byteWidth).map some

section Accepted
variable (A : AcceptedDocument) {g : RelationGroup} {m : RelationMember}

theorem postInit_width {raw m : RelationMember} (h : raw.postInit = .ok m) :
    (m.dbfType = .i → m.byteWidth = 4) ∧ (m.dbfType = .n → 1 ≤ m.byteWidth ∧ m.byteWidth ≤ 20) := by
  unfold RelationMember.postInit at h
  obtain ⟨path, -, h⟩ := bind_eq_ok.mp h
  obtain ⟨-, -, h⟩ := bind_eq_ok.mp h
  obtain ⟨-, -, h⟩ := bind_eq_ok.mp h
  obtain ⟨-, -, h⟩ := bind_eq_ok.mp h
  split_ifs at h with hnum
  · obtain ⟨-, -, h⟩ := bind_eq_ok.mp h
    obtain ⟨_, hshape, h⟩ := bind_eq_ok.mp h
    unfold RelationMember.validateNumericMemberShape integerMemberByteWidth numericMemberWidthMin
      numericMemberWidthMax at hshape
    split_ifs at hshape with h1 h2
    cases h
    exact ⟨fun hi => not_not.mp fun hne => h1 ⟨hi, hne⟩, fun hn => not_not.mp fun hne => h2 ⟨hn, hne⟩⟩
  · obtain ⟨-, -, h⟩ := bind_eq_ok.mp h
    cases h
    constructor
    · rintro htype
      simp only at htype
      simp [RelationMember.isNumericMember, htype] at hnum
    · rintro htype
      simp only at htype
      simp [RelationMember.isNumericMember, htype] at hnum

def sameShape (a b : RelationMember) : Prop := a.dbfType = b.dbfType ∧ a.byteWidth = b.byteWidth

theorem numericMemberRange_eq_of_sameShape {a b : RelationMember} (h : sameShape a b) :
    numericMemberRange a = numericMemberRange b := by
  unfold numericMemberRange
  rw [h.1, h.2]

theorem exists_numericMemberRange (hg : g ∈ A.document.groups) (hm : m ∈ g.members)
    (hn : m.isNumericMember = true) : ∃ r, numericMemberRange m = .ok r := by
  obtain ⟨raw, hraw⟩ := A.members_accepted g hg m hm
  obtain ⟨-, hwidth⟩ := postInit_width hraw
  cases ht : m.dbfType with
  | c => simp [RelationMember.isNumericMember, ht] at hn
  | v => simp [RelationMember.isNumericMember, ht] at hn
  | i => exact ⟨integerMember, by simp [numericMemberRange, ht]⟩
  | n =>
    obtain ⟨h1, h20⟩ := hwidth ht
    simpa [numericMemberRange, ht] using
      exists_integralNumericMember (w := (m.byteWidth : ℤ)) ⟨by omega, by omega⟩

theorem numericMemberRange_eq_ok {r : NumericKeyMemberRange} (h : numericMemberRange m = .ok r) :
    (m.dbfType = .i ∧ r = integerMember) ∨
      (m.dbfType = .n ∧ integralNumericMember m.byteWidth = .ok r) := by
  unfold numericMemberRange at h
  split at h
  · next ht => exact Or.inl ⟨ht, (Except.ok.inj h).symm⟩
  · next ht => exact Or.inr ⟨ht, h⟩
  · cases h

theorem integerMember_ne_integral {w : ℤ} {r : NumericKeyMemberRange}
    (h : integralNumericMember w = .ok r) : r ≠ integerMember := by
  obtain ⟨⟨h1, h20⟩, -, hhigh⟩ := integralNumericMember_eq_ok h
  rintro rfl
  revert hhigh
  interval_cases w <;> decide

theorem integral_width_injective {v w : ℤ} {r : NumericKeyMemberRange}
    (hv : integralNumericMember v = .ok r) (hw : integralNumericMember w = .ok r) : v = w := by
  obtain ⟨⟨hv1, -⟩, -, hv⟩ := integralNumericMember_eq_ok hv
  obtain ⟨⟨hw1, -⟩, -, hw⟩ := integralNumericMember_eq_ok hw
  have hpow : (10 : ℤ) ^ v.toNat = 10 ^ w.toNat := by omega
  have := Int.pow_right_injective (by norm_num : 1 < (10 : ℤ).natAbs) hpow
  omega

theorem sameShape_of_numericMemberRange_eq {g' : RelationGroup} {m' : RelationMember}
    (hg : g ∈ A.document.groups) (hm : m ∈ g.members) (hg' : g' ∈ A.document.groups)
    (hm' : m' ∈ g'.members) {r : NumericKeyMemberRange} (hr : numericMemberRange m = .ok r)
    (hr' : numericMemberRange m' = .ok r) : sameShape m m' := by
  obtain ⟨raw, hraw⟩ := A.members_accepted g hg m hm
  obtain ⟨raw', hraw'⟩ := A.members_accepted g' hg' m' hm'
  have hi := (postInit_width hraw).1
  have hi' := (postInit_width hraw').1
  rcases numericMemberRange_eq_ok hr with ⟨ht, rfl⟩ | ⟨ht, hr⟩
  · rcases numericMemberRange_eq_ok hr' with ⟨ht', -⟩ | ⟨-, hr'⟩
    · exact ⟨ht.trans ht'.symm, (hi ht).trans (hi' ht').symm⟩
    · exact absurd rfl (integerMember_ne_integral hr')
  · rcases numericMemberRange_eq_ok hr' with ⟨-, rfl⟩ | ⟨ht', hr'⟩
    · exact absurd rfl (integerMember_ne_integral hr)
    · refine ⟨ht.trans ht'.symm, ?_⟩
      exact_mod_cast integral_width_injective hr hr'

end Accepted

section Lookup
variable {g : RelationGroup} {fieldName : Text}

theorem memberRangeOf_go {members : List RelationMember} {m : RelationMember} (hm : m ∈ members)
    (hn : m.isNumericMember = true) (hname : m.fieldName = fieldName) :
    ∃ first ∈ members, first.isNumericMember = true ∧ first.fieldName = fieldName ∧
      memberRangeOf.go fieldName members = numericMemberRange first := by
  induction members with
  | nil => cases hm
  | cons a rest ih =>
    by_cases ha : a.fieldName = fieldName ∧ a.isNumericMember = true
    · refine ⟨a, by simp, ha.2, ha.1, ?_⟩
      cases ht : a.dbfType <;> simp_all [memberRangeOf.go, numericMemberRange, RelationMember.isNumericMember]
    · have hrest : m ∈ rest := by
        rcases List.mem_cons.mp hm with rfl | h
        · exact absurd ⟨hname, hn⟩ ha
        · exact h
      obtain ⟨first, hf, hnum, hfirst, hrange⟩ := ih hrest
      refine ⟨first, by simp [hf], hnum, hfirst, ?_⟩
      rw [← hrange]
      by_cases hname' : a.fieldName = fieldName
      · cases ht : a.dbfType <;> simp_all [memberRangeOf.go, RelationMember.isNumericMember]
      · simp [memberRangeOf.go, hname']

theorem memberRangeOf_eq {m : RelationMember} (hm : m ∈ g.members) (hn : m.isNumericMember = true)
    (hname : m.fieldName = fieldName) :
    ∃ first ∈ g.members, first.isNumericMember = true ∧ first.fieldName = fieldName ∧
      memberRangeOf g fieldName = numericMemberRange first := memberRangeOf_go hm hn hname

theorem mem_numericGroups {hashing : Hashing} {d : RelationshipDocument} {entry : RelationGroup × Text} :
    entry ∈ numericGroups hashing d ↔ entry.1 ∈ d.effectiveGroups ∧
      entry.1.numericStrategy = .reversibleBijective ∧
      entry.2 = hashing.numericKeyDomainId (hashing.relationshipFingerprint d) entry.1.relationId := by
  unfold numericGroups
  simp only [List.mem_map, List.mem_filter, decide_eq_true_eq]
  constructor
  · rintro ⟨g, ⟨hg, hr⟩, rfl⟩
    exact ⟨hg, hr, rfl⟩
  · rintro ⟨hg, hr, hid⟩
    exact ⟨entry.1, ⟨hg, hr⟩, Prod.ext rfl hid.symm⟩

theorem numericMemberOf_eq_some {groups : List (RelationGroup × Text)} {tablePath : Text}
    {entry : RelationGroup × Text} (h : numericMemberOf groups tablePath fieldName = some entry) :
    entry ∈ groups ∧ ∃ m ∈ entry.1.members, m.isNumericMember = true ∧ m.column = (tablePath, fieldName) := by
  refine ⟨List.mem_of_find?_eq_some h, ?_⟩
  have := List.find?_some h
  simp only [List.any_eq_true, Bool.and_eq_true, beq_iff_eq] at this
  obtain ⟨m, hm, ⟨hn, htable⟩, hfield⟩ := this
  exact ⟨m, hm, hn, Prod.ext htable hfield⟩

theorem exists_numericMemberOf {groups : List (RelationGroup × Text)} {entry : RelationGroup × Text}
    (he : entry ∈ groups) {m : RelationMember} (hm : m ∈ entry.1.members) (hn : m.isNumericMember = true) :
    ∃ found, numericMemberOf groups m.tablePath m.fieldName = some found := by
  rw [← Option.isSome_iff_exists, numericMemberOf, List.find?_isSome]
  exact ⟨entry, he, List.any_eq_true.mpr ⟨m, hm, by simp [hn]⟩⟩

end Lookup
end DbfAnonymizer.Engine
