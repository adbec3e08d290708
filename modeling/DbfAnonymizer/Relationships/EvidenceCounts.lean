import Mathlib.Algebra.Order.BigOperators.Group.List
import Mathlib.Algebra.Order.Ring.Nat
import Mathlib.Data.List.ReduceOption
import Mathlib.Data.List.Sort
import DbfAnonymizer.Errors
import DbfAnonymizer.Lib.Histogram
import DbfAnonymizer.Lib.Outcome

/-! The in-memory evidence kernel: one accumulator for each relation, and the comparison of two of them. -/
namespace DbfAnonymizer.Relationships
open Lib

inductive RelationshipInvariant
  | parentUniqueness | orphanCount | matchedRows | nullCounts | foreignMultiplicity
  deriving DecidableEq, Repr

structure RelationInvariantResult where
  invariant : RelationshipInvariant
  preserved : Bool
  deriving DecidableEq, Repr

/-- The counts of one side, with the consistency its constructor checks. -/
structure RelationSideMetrics where
  rowsConsidered : ℕ
  nullTupleCount : ℕ
  uniqueTupleCount : ℕ
  duplicateRowCount : ℕ
  multiplicityProfile : List ℕ
  profile_pos : ∀ n ∈ multiplicityProfile, 0 < n
  profile_sorted : multiplicityProfile.Pairwise (· ≥ ·)
  unique_eq : uniqueTupleCount = multiplicityProfile.length
  duplicate_eq : duplicateRowCount = multiplicityProfile.sum - multiplicityProfile.length
  rows_eq : rowsConsidered = nullTupleCount + multiplicityProfile.sum

/-- The evidence of one side pair, with the consistency its constructor checks. -/
structure RelationEvidenceCounts where
  compositeArity : ℕ
  parent : RelationSideMetrics
  foreign : RelationSideMetrics
  matchedRowCount : ℕ
  orphanCount : ℕ
  arity_pos : 0 < compositeArity
  covers : matchedRowCount + orphanCount = foreign.rowsConsidered - foreign.nullTupleCount

/-- What one side of an accumulator has observed; a key it holds was observed. -/
structure SideCounts (κ : Type) [DecidableEq κ] where
  counts : KeyedTable (List κ) ℕ
  nulls : ℕ
  counts_pos : ∀ row ∈ counts.rows, 0 < row.2

structure RelationshipEvidenceAccumulator (κ : Type) [DecidableEq κ] where
  compositeArity : ℕ
  parent : SideCounts κ
  foreign : SideCounts κ
  arity_pos : 0 < compositeArity

variable {κ : Type} [DecidableEq κ]

namespace SideCounts

def empty : SideCounts κ := ⟨.empty, 0, by simp⟩

def bumpNull (s : SideCounts κ) : SideCounts κ := { s with nulls := s.nulls + 1 }

def bump (s : SideCounts κ) (key : List κ) : SideCounts κ where
  counts := s.counts.accumulate (key, 1)
  nulls := s.nulls
  counts_pos := by
    rintro ⟨x, n⟩ hrow
    rcases KeyedTable.mem_upsert.mp hrow with ⟨-, rfl⟩ | ⟨-, hmem⟩
    · simp
    · exact s.counts_pos _ hmem

def observe (arity : ℕ) (s : SideCounts κ) (key : List κ) (null : Bool) : Except Raised (SideCounts κ) :=
  if null then do
    refuseIf (key ≠ []) (.valueError "a NULL evidence key must be the empty tuple")
    return s.bumpNull
  else do
    refuseIf (key.length ≠ arity) (.valueError "the evidence key arity must match the relation arity")
    return s.bump key

/-- The frozen metrics of one histogram: the profile is sorted, and the keys are gone. -/
def metrics (s : SideCounts κ) : RelationSideMetrics where
  rowsConsidered := s.nulls + ((s.counts.rows.map Prod.snd).insertionSort (· ≥ ·)).sum
  nullTupleCount := s.nulls
  uniqueTupleCount := ((s.counts.rows.map Prod.snd).insertionSort (· ≥ ·)).length
  duplicateRowCount := ((s.counts.rows.map Prod.snd).insertionSort (· ≥ ·)).sum -
    ((s.counts.rows.map Prod.snd).insertionSort (· ≥ ·)).length
  multiplicityProfile := (s.counts.rows.map Prod.snd).insertionSort (· ≥ ·)
  profile_pos := by
    intro n hn
    obtain ⟨row, hrow, rfl⟩ := List.mem_map.mp ((List.perm_insertionSort _ _).mem_iff.mp hn)
    exact s.counts_pos row hrow
  profile_sorted := List.pairwise_insertionSort _ _
  unique_eq := rfl
  duplicate_eq := rfl
  rows_eq := rfl

end SideCounts

namespace RelationshipEvidenceAccumulator

def new (compositeArity : ℕ) : Except Raised (RelationshipEvidenceAccumulator κ) :=
  if h : 0 < compositeArity then .ok ⟨compositeArity, .empty, .empty, h⟩
  else .error (.valueError "composite_arity must be a positive integer")

def observeParent (acc : RelationshipEvidenceAccumulator κ) (key : List κ) (null : Bool) :
    Except Raised (RelationshipEvidenceAccumulator κ) := do
  let parent ← acc.parent.observe acc.compositeArity key null
  return { acc with parent }

def observeForeign (acc : RelationshipEvidenceAccumulator κ) (key : List κ) (null : Bool) :
    Except Raised (RelationshipEvidenceAccumulator κ) := do
  let foreign ← acc.foreign.observe acc.compositeArity key null
  return { acc with foreign }

/-- The foreign rows whose key is a parent key. -/
def matched (acc : RelationshipEvidenceAccumulator κ) : ℕ :=
  ((acc.foreign.counts.rows.filter fun row => row.1 ∈ acc.parent.counts.keys).map Prod.snd).sum

theorem matched_le (acc : RelationshipEvidenceAccumulator κ) :
    acc.matched ≤ (acc.foreign.counts.rows.map Prod.snd).sum :=
  (List.filter_sublist.map Prod.snd).sum_le_sum fun _ _ => Nat.zero_le _

def build (acc : RelationshipEvidenceAccumulator κ) : RelationEvidenceCounts where
  compositeArity := acc.compositeArity
  parent := acc.parent.metrics
  foreign := acc.foreign.metrics
  matchedRowCount := acc.matched
  orphanCount := (acc.foreign.counts.rows.map Prod.snd).sum - acc.matched
  arity_pos := acc.arity_pos
  covers := by
    have hle := acc.matched_le
    have hsum := (List.perm_insertionSort (· ≥ ·) (acc.foreign.counts.rows.map Prod.snd)).sum_eq
    simp only [SideCounts.metrics, hsum]
    omega

/-- A whole side pair: one tuple for each row, and no tuple for a row with a NULL. -/
def ofRows (compositeArity : ℕ) (parents foreigns : List (Option (List κ))) :
    Except Raised RelationEvidenceCounts := do
  let acc ← new compositeArity
  let acc ← parents.foldlM (fun acc row => acc.observeParent (row.getD []) row.isNone) acc
  let acc ← foreigns.foldlM (fun acc row => acc.observeForeign (row.getD []) row.isNone) acc
  return acc.build

end RelationshipEvidenceAccumulator

/-- The one before/after rule; evidence of two arities is never compared. -/
def compareRelationMetrics (before after : RelationEvidenceCounts) :
    Except Raised (List RelationInvariantResult) := do
  refuseIf (before.compositeArity ≠ after.compositeArity)
    (.typed .verificationFailed "verify_relationships" "RELATIONSHIP_VERIFICATION_ARITY_MISMATCH")
  return [
    ⟨.parentUniqueness, before.parent.multiplicityProfile = after.parent.multiplicityProfile⟩,
    ⟨.orphanCount, before.orphanCount = after.orphanCount⟩,
    ⟨.matchedRows, before.matchedRowCount = after.matchedRowCount⟩,
    ⟨.nullCounts, (before.parent.nullTupleCount, before.foreign.nullTupleCount) =
      (after.parent.nullTupleCount, after.foreign.nullTupleCount)⟩,
    ⟨.foreignMultiplicity, before.foreign.multiplicityProfile = after.foreign.multiplicityProfile⟩]

/-- What counts say about the rows they were built from. -/
structure CountsRows (c : RelationEvidenceCounts) (parents foreigns : List (Option (List κ))) : Prop where
  parent_profile : c.parent.multiplicityProfile.Perm (profile parents.reduceOption)
  foreign_profile : c.foreign.multiplicityProfile.Perm (profile foreigns.reduceOption)
  parent_nulls : c.parent.nullTupleCount = parents.count none
  foreign_nulls : c.foreign.nullTupleCount = foreigns.count none
  matched_eq : c.matchedRowCount = (foreigns.reduceOption.filter (· ∈ parents.reduceOption)).length

section Rows
variable {arity : ℕ} {rows parents foreigns : List (Option (List κ))} {s : SideCounts κ}

structure SideRows (s : SideCounts κ) (rows : List (Option (List κ))) : Prop where
  counts : Counts s.counts rows.reduceOption
  nulls_eq : s.nulls = rows.count none

theorem SideRows.observe (h : SideRows s rows) (arity : ℕ) (row : Option (List κ)) (hrow : ∀ key ∈ row, key.length = arity) :
    ∃ s', s.observe arity (row.getD []) row.isNone = .ok s' ∧ SideRows s' (rows ++ [row]) := by
  cases row with
  | none =>
    refine ⟨s.bumpNull, by simp [SideCounts.observe, refuseIf], ⟨?_, ?_⟩⟩
    · simpa [List.reduceOption_append, SideCounts.bumpNull, List.reduceOption] using h.counts
    · simp [SideCounts.bumpNull, h.nulls_eq]
  | some key =>
    have hlen : key.length = arity := hrow key rfl
    refine ⟨s.bump key, by simp [SideCounts.observe, refuseIf, hlen], ⟨?_, ?_⟩⟩
    · have := h.counts.accumulate (a := key) (n := 1) (by omega)
      simpa [List.reduceOption_append, SideCounts.bump, List.reduceOption] using this
    · simp [SideCounts.bump, h.nulls_eq]

theorem sideRows_metrics (h : SideRows s rows) :
    s.metrics.multiplicityProfile.Perm (profile rows.reduceOption) ∧ s.metrics.nullTupleCount = rows.count none :=
  ⟨(List.perm_insertionSort _ _).trans h.counts.profile_perm, h.nulls_eq⟩

theorem exists_ofRows (harity : 0 < arity) (hparents : ∀ key, some key ∈ parents → key.length = arity)
    (hforeigns : ∀ key, some key ∈ foreigns → key.length = arity) :
    ∃ c, RelationshipEvidenceAccumulator.ofRows arity parents foreigns = .ok c ∧ c.compositeArity = arity ∧
      CountsRows c parents foreigns := by
  have hempty : SideRows (SideCounts.empty : SideCounts κ) [] := ⟨counts_empty, rfl⟩
  obtain ⟨acc, hacc, ha, hp, hf⟩ := exists_foldlM_ok parents
    (f := fun (acc : RelationshipEvidenceAccumulator κ) row => acc.observeParent (row.getD []) row.isNone)
    (fun done (acc : RelationshipEvidenceAccumulator κ) => acc.compositeArity = arity ∧ SideRows acc.parent done ∧
      acc.foreign = .empty)
    (by
      rintro done row rest acc hsplit ⟨ha, hp, hf⟩
      obtain ⟨s, hs, hrows⟩ := hp.observe acc.compositeArity row fun key hkey => by
        rw [ha]
        refine hparents key ?_
        rw [hsplit, ← Option.mem_def.mp hkey]
        simp
      exact ⟨{ acc with parent := s }, by simp [RelationshipEvidenceAccumulator.observeParent, hs], ha, hrows, hf⟩)
    (a := ⟨arity, .empty, .empty, harity⟩) ⟨rfl, hempty, rfl⟩
  obtain ⟨acc', hacc', ha', hp', hf'⟩ := exists_foldlM_ok foreigns
    (f := fun (acc : RelationshipEvidenceAccumulator κ) row => acc.observeForeign (row.getD []) row.isNone)
    (fun done (acc : RelationshipEvidenceAccumulator κ) => acc.compositeArity = arity ∧
      SideRows acc.parent parents ∧ SideRows acc.foreign done)
    (by
      rintro done row rest acc hsplit ⟨ha, hp, hf⟩
      obtain ⟨s, hs, hrows⟩ := hf.observe acc.compositeArity row fun key hkey => by
        rw [ha]
        refine hforeigns key ?_
        rw [hsplit, ← Option.mem_def.mp hkey]
        simp
      exact ⟨{ acc with foreign := s }, by simp [RelationshipEvidenceAccumulator.observeForeign, hs], ha, hp, hrows⟩)
    (a := acc) ⟨ha, hp, hf ▸ hempty⟩
  refine ⟨acc'.build, ?_, ha', ?_⟩
  · simp only [RelationshipEvidenceAccumulator.ofRows, RelationshipEvidenceAccumulator.new, dif_pos harity, ok_bind,
      hacc, hacc', pure_eq_ok]
  · obtain ⟨hparent, hpn⟩ := sideRows_metrics hp'
    obtain ⟨hforeign, hfn⟩ := sideRows_metrics hf'
    refine ⟨hparent, hforeign, hpn, hfn, ?_⟩
    have hsum := hf'.counts.sum_filter fun key => decide (key ∈ parents.reduceOption)
    rw [← hsum]
    simp only [RelationshipEvidenceAccumulator.build, RelationshipEvidenceAccumulator.matched,
      hp'.counts.mem_keys_iff]

end Rows

section Derived
variable {c : RelationEvidenceCounts} {parents foreigns : List (Option (List κ))}

theorem length_reduceOption_add_count (rows : List (Option (List κ))) :
    rows.reduceOption.length + rows.count none = rows.length := by
  rw [List.length_eq_reduceOption_length_add_filter_none, List.count_eq_length_filter]
  congr 2
  refine List.filter_congr fun row _ => ?_
  cases row <;> rfl

theorem CountsRows.derived (h : CountsRows c parents foreigns) :
    c.parent.rowsConsidered = parents.length ∧ c.foreign.rowsConsidered = foreigns.length ∧
      c.parent.uniqueTupleCount = (profile parents.reduceOption).length ∧
      c.matchedRowCount + c.orphanCount = foreigns.reduceOption.length := by
  have hp := length_reduceOption_add_count parents
  have hf := length_reduceOption_add_count foreigns
  have hps : c.parent.multiplicityProfile.sum = parents.reduceOption.length := by
    rw [h.parent_profile.sum_eq, sum_profile]
  have hfs : c.foreign.multiplicityProfile.sum = foreigns.reduceOption.length := by
    rw [h.foreign_profile.sum_eq, sum_profile]
  refine ⟨?_, ?_, ?_, ?_⟩
  · rw [c.parent.rows_eq, h.parent_nulls, hps, Nat.add_comm, hp]
  · rw [c.foreign.rows_eq, h.foreign_nulls, hfs, Nat.add_comm, hf]
  · rw [c.parent.unique_eq, h.parent_profile.length_eq]
  · rw [c.covers, c.foreign.rows_eq, hfs]
    omega

/-- Sorted profiles are equal exactly when they are permutations of each other. -/
theorem profile_eq_iff (a b : RelationSideMetrics) :
    a.multiplicityProfile = b.multiplicityProfile ↔ a.multiplicityProfile.Perm b.multiplicityProfile :=
  ⟨fun h => h ▸ List.Perm.refl _, fun h => h.eq_of_pairwise' a.profile_sorted b.profile_sorted⟩

end Derived
end DbfAnonymizer.Relationships
