import DbfAnonymizer.Records

/-! The shared Date/DateTime shift: calendar ordinals, the feasible offsets and their indexing. -/
namespace DbfAnonymizer.Transforms

def temporalUnsupported : Raised :=
  .typed .mappingConstraintInfeasible "transform" "TEMPORAL_UNSUPPORTED_REPRESENTATION"

def temporalOutOfRange : Raised :=
  .typed .mappingConstraintInfeasible "transform" "TEMPORAL_SHIFT_OUT_OF_RANGE"

def temporalOnlyZeroFeasible : Raised :=
  .typed .mappingConstraintInfeasible "transform" "TEMPORAL_ONLY_ZERO_FEASIBLE"

/-- The calendar ordinal of a non-NULL temporal value. -/
def temporalOrdinal : Value → Except Raised ℤ
  | .datetime day _ => .ok day.ordinal
  | .date day => .ok day.ordinal
  | _ => .error temporalUnsupported

def CalendarDay.shift (day : CalendarDay) (offsetDays : ℤ) : Except Raised CalendarDay :=
  if h : logicalMinOrdinal ≤ day.ordinal + offsetDays ∧ day.ordinal + offsetDays ≤ logicalMaxOrdinal then
    .ok ⟨day.ordinal + offsetDays, h.1, h.2⟩
  else .error temporalOutOfRange

/-- NULL stays NULL, and a date time keeps its time of day. -/
def temporalShift (value : Value) (offsetDays : ℤ) : Except Raised Value :=
  match value with
  | .null => .ok .null
  | .datetime day timeOfDay => (CalendarDay.shift day offsetDays).map (.datetime · timeOfDay)
  | .date day => (CalendarDay.shift day offsetDays).map .date
  | _ => .error temporalUnsupported

def temporalRecover (value : Value) (offsetDays : ℤ) : Except Raised Value := temporalShift value (-offsetDays)

def temporalFeasibleInterval (minObserved maxObserved : ℤ) : ℤ × ℤ :=
  (logicalMinOrdinal - minObserved, logicalMaxOrdinal - maxObserved)

def temporalNonzeroCount (lower upper : ℤ) : ℤ :=
  let total := upper - lower + 1
  if total ≤ 0 then 0 else if lower ≤ 0 ∧ 0 ≤ upper then total - 1 else total

def temporalOffsetAt (lower upper index : ℤ) : Except Raised ℤ :=
  if ¬ (0 ≤ index ∧ index < temporalNonzeroCount lower upper) then .error temporalOnlyZeroFeasible
  else if lower ≤ 0 ∧ 0 ≤ upper then .ok (if index < -lower then lower + index else lower + index + 1)
  else .ok (lower + index)

theorem shift_eq_ok {day day' : CalendarDay} {offset : ℤ} :
    CalendarDay.shift day offset = .ok day' ↔ day'.ordinal = day.ordinal + offset := by
  unfold CalendarDay.shift
  split_ifs with h
  · rw [Except.ok.injEq]
    constructor
    · rintro rfl
      rfl
    · intro heq
      cases day'
      simp_all
  · constructor
    · intro heq
      cases heq
    · intro heq
      exact absurd ⟨heq ▸ day'.low, heq ▸ day'.high⟩ h

theorem temporalRecover_of_shift {value value' : Value} {offset : ℤ}
    (h : temporalShift value offset = .ok value') : temporalRecover value' offset = .ok value := by
  have hday : ∀ {day day' : CalendarDay}, CalendarDay.shift day offset = .ok day' →
      CalendarDay.shift day' (-offset) = .ok day := by
    intro day day' hshift
    rw [shift_eq_ok] at hshift ⊢
    omega
  cases value with
  | null =>
    cases h
    rfl
  | datetime day time =>
    obtain ⟨day', hshift, rfl⟩ : ∃ day', CalendarDay.shift day offset = .ok day' ∧ value' = .datetime day' time := by
      cases hs : CalendarDay.shift day offset with
      | error e => simp [temporalShift, hs, Except.map] at h
      | ok day' =>
        simp only [temporalShift, hs, Except.map, Except.ok.injEq] at h
        exact ⟨day', rfl, h.symm⟩
    simp [temporalRecover, temporalShift, hday hshift, Except.map]
  | date day =>
    obtain ⟨day', hshift, rfl⟩ : ∃ day', CalendarDay.shift day offset = .ok day' ∧ value' = .date day' := by
      cases hs : CalendarDay.shift day offset with
      | error e => simp [temporalShift, hs, Except.map] at h
      | ok day' =>
        simp only [temporalShift, hs, Except.map, Except.ok.injEq] at h
        exact ⟨day', rfl, h.symm⟩
    simp [temporalRecover, temporalShift, hday hshift, Except.map]
  | _ => cases h

theorem ne_nan_of_temporalShift {value value' : Value} {offset : ℤ} (h : temporalShift value offset = .ok value') :
    value' ≠ .nan := by
  intro hnan
  have hback := temporalRecover_of_shift h
  rw [hnan] at hback
  cases hback

theorem offset_of_temporalOffsetAt {lower upper index offset : ℤ}
    (h : temporalOffsetAt lower upper index = .ok offset) : offset ≠ 0 ∧ lower ≤ offset ∧ offset ≤ upper := by
  unfold temporalOffsetAt temporalNonzeroCount at h
  dsimp only at h
  split_ifs at h with h1 h2 h3
  all_goals simp only [Except.ok.injEq] at h
  all_goals omega

theorem exists_temporalOffsetAt {lower upper index : ℤ} (h0 : 0 ≤ index)
    (h : index < temporalNonzeroCount lower upper) : ∃ offset, temporalOffsetAt lower upper index = .ok offset := by
  unfold temporalOffsetAt
  rw [if_neg (not_not.mpr ⟨h0, h⟩)]
  by_cases hzero : lower ≤ 0 ∧ 0 ≤ upper
  · rw [if_pos hzero]
    exact ⟨_, rfl⟩
  · rw [if_neg hzero]
    exact ⟨_, rfl⟩

/-- Each nonzero offset of the interval is selected by exactly one index. -/
theorem existsUnique_temporalOffsetAt {lower upper offset : ℤ} (hne : offset ≠ 0) (hlow : lower ≤ offset)
    (hhigh : offset ≤ upper) :
    ∃! index, (0 ≤ index ∧ index < temporalNonzeroCount lower upper) ∧
      temporalOffsetAt lower upper index = .ok offset := by
  unfold temporalOffsetAt temporalNonzeroCount
  dsimp only
  have htotal : ¬ upper - lower + 1 ≤ 0 := by omega
  rw [if_neg htotal]
  by_cases hzero : lower ≤ 0 ∧ 0 ≤ upper
  · rw [if_pos hzero]
    refine ⟨if offset < 0 then offset - lower else offset - lower - 1, ?_, ?_⟩
    · dsimp only
      split_ifs
      all_goals first | omega | (rw [Except.ok.injEq]; omega)
    · intro index hindex
      rw [if_neg (not_not.mpr hindex.1), if_pos hzero, Except.ok.injEq] at hindex
      split_ifs at hindex ⊢
      all_goals omega
  · rw [if_neg hzero]
    refine ⟨offset - lower, ?_, ?_⟩
    · dsimp only
      rw [if_neg (by omega), if_neg hzero, Except.ok.injEq]
      omega
    · intro index hindex
      rw [if_neg (not_not.mpr hindex.1), if_neg hzero, Except.ok.injEq] at hindex
      omega

theorem temporalNonzeroCount_pos_iff {lower upper : ℤ} :
    0 < temporalNonzeroCount lower upper ↔ ∃ offset, offset ≠ 0 ∧ lower ≤ offset ∧ offset ≤ upper := by
  constructor
  · intro hpos
    obtain ⟨offset, hoffset⟩ := exists_temporalOffsetAt le_rfl hpos
    exact ⟨offset, offset_of_temporalOffsetAt hoffset⟩
  · intro h
    obtain ⟨offset, hne, hlow, hhigh⟩ := h
    obtain ⟨index, hindex, -⟩ := existsUnique_temporalOffsetAt hne hlow hhigh
    exact lt_of_le_of_lt hindex.1.1 hindex.1.2

def timeOfDay? : Value → Option ℕ
  | .datetime _ timeOfDay => some timeOfDay
  | _ => none

def microsecondsPerDay : ℤ := 24 * 60 * 60 * 1000000

/-- The instant of a temporal value: its midnight and, for a date time, the time since. -/
def moment : Value → ℤ
  | .date day => day.ordinal * microsecondsPerDay
  | .datetime day timeOfDay => day.ordinal * microsecondsPerDay + timeOfDay
  | _ => 0

theorem shift_of_temporalShift {value value' : Value} {offset : ℤ} (hnull : value ≠ .null)
    (h : temporalShift value offset = .ok value') :
    ∃ day, temporalOrdinal value = .ok day ∧ temporalOrdinal value' = .ok (day + offset) ∧
      timeOfDay? value' = timeOfDay? value ∧ moment value' = moment value + offset * microsecondsPerDay := by
  cases value with
  | null => exact absurd rfl hnull
  | datetime day time =>
    cases hs : CalendarDay.shift day offset with
    | error e => simp [temporalShift, hs, Except.map] at h
    | ok day' =>
      have hday := shift_eq_ok.mp hs
      simp only [temporalShift, hs, Except.map, Except.ok.injEq] at h
      subst h
      refine ⟨day.ordinal, rfl, congrArg Except.ok hday, rfl, ?_⟩
      rw [moment, moment, hday]
      ring
  | date day =>
    cases hs : CalendarDay.shift day offset with
    | error e => simp [temporalShift, hs, Except.map] at h
    | ok day' =>
      have hday := shift_eq_ok.mp hs
      simp only [temporalShift, hs, Except.map, Except.ok.injEq] at h
      subst h
      refine ⟨day.ordinal, rfl, congrArg Except.ok hday, rfl, ?_⟩
      rw [moment, moment, hday]
      ring
  | _ => cases h

theorem exists_temporalShift {value : Value} {day offset : ℤ} (h : temporalOrdinal value = .ok day)
    (hrange : logicalMinOrdinal ≤ day + offset ∧ day + offset ≤ logicalMaxOrdinal) :
    ∃ value', temporalShift value offset = .ok value' := by
  cases value with
  | datetime d time =>
    cases h
    exact ⟨_, by rw [temporalShift, CalendarDay.shift, dif_pos hrange]; rfl⟩
  | date d =>
    cases h
    exact ⟨_, by rw [temporalShift, CalendarDay.shift, dif_pos hrange]; rfl⟩
  | _ => cases h

end DbfAnonymizer.Transforms
