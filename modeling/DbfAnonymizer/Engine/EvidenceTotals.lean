import Mathlib.Data.List.ReduceOption
import DbfAnonymizer.Engine.EvidenceSpool

/-! What the evidence tables hold after any batching, any sharding and any order of merges. -/
namespace DbfAnonymizer.Engine
open Relationships Lib

def keysOf (observations : List RelationObservation) : List (SideKey × List UInt8) :=
  observations.filterMap fun o => o.key.map fun canonical => (o.sideKey, canonical)

/-- The rows and the NULL rows that observations add to one side. -/
def factsOf (observations : List RelationObservation) (key : SideKey) : ℕ × ℕ :=
  (observations.countP (·.sideKey = key), observations.countP fun o => o.sideKey = key ∧ o.key = none)

theorem keysOf_append (a b : List RelationObservation) : keysOf (a ++ b) = keysOf a ++ keysOf b :=
  List.filterMap_append

theorem factsOf_append (a b : List RelationObservation) (key : SideKey) :
    factsOf (a ++ b) key = factsOf a key + factsOf b key := by
  simp [factsOf, List.countP_append]

namespace EvidenceStore
variable {s shard : EvidenceStore} {sink : EvidenceSink} {observations observations' : List RelationObservation}

/-- For a single occurrence both conflict rules are plain addition. -/
theorem insertKey_eq_accumulate (sink : EvidenceSink) (t : KeyedTable (SideKey × List UInt8) ℕ)
    {row : (SideKey × List UInt8) × ℕ} (h : row.2 = 1) : insertKey sink t row = t.accumulate row := by
  unfold insertKey KeyedTable.accumulate KeyedTable.total
  cases t.lookup row.1 with
  | none => simp
  | some occurrences => cases sink <;> simp [EvidenceSink.onConflict, h]

theorem foldl_insertKey (sink : EvidenceSink) (t : KeyedTable (SideKey × List UInt8) ℕ)
    {rows : List ((SideKey × List UInt8) × ℕ)} (h : ∀ row ∈ rows, row.2 = 1) :
    rows.foldl (insertKey sink) t = t.accumulateAll rows := by
  induction rows generalizing t with
  | nil => rfl
  | cons row rows ih =>
    rw [List.foldl_cons, insertKey_eq_accumulate sink t (h row (by simp)), ih _ fun r hr => h r (by simp [hr])]
    rfl

theorem accumulateAll_pos {t : KeyedTable (SideKey × List UInt8) ℕ} {rows : List ((SideKey × List UInt8) × ℕ)}
    (ht : ∀ row ∈ t.rows, 0 < row.2) (h : ∀ row ∈ rows, 0 < row.2) : ∀ row ∈ (t.accumulateAll rows).rows, 0 < row.2 := by
  induction rows generalizing t with
  | nil => exact ht
  | cons row rows ih =>
    refine ih (t := t.accumulate row) ?_ fun r hr => h r (by simp [hr])
    rintro ⟨x, n⟩ hrow
    rcases KeyedTable.mem_upsert.mp hrow with ⟨-, rfl⟩ | ⟨-, hmem⟩
    · have := h row (by simp)
      simp only
      omega
    · exact ht _ hmem

/-- Rows and pending batches together hold exactly the given observations. -/
structure Represents (s : EvidenceStore) (observations : List RelationObservation) : Prop where
  keys_eq : ∀ k, s.relationKeys.total k + KeyedTable.totalAt s.pendingKeys k = (keysOf observations).count k
  facts_eq : ∀ key, s.relationSideFacts.total key + KeyedTable.totalAt s.pendingFacts key = factsOf observations key
  rows_pos : ∀ row ∈ s.relationKeys.rows, 0 < row.2
  pending_one : ∀ row ∈ s.pendingKeys, row.2 = 1

theorem represents_empty : Represents empty [] := ⟨fun _ => rfl, fun _ => rfl, by simp [empty], by simp [empty]⟩

theorem Represents.congr (h : Represents s observations) (hperm : observations.Perm observations') :
    Represents s observations' where
  keys_eq k := (h.keys_eq k).trans ((hperm.filterMap _).count_eq k)
  facts_eq key := by
    rw [h.facts_eq key, factsOf, factsOf, hperm.countP_eq, hperm.countP_eq]
  rows_pos := h.rows_pos
  pending_one := h.pending_one

theorem Represents.flushKeys (h : Represents s observations) (sink : EvidenceSink) :
    Represents (s.flushKeys sink) observations ∧ (s.flushKeys sink).pendingKeys = [] := by
  have hfold := foldl_insertKey sink s.relationKeys h.pending_one
  refine ⟨⟨?_, h.facts_eq, ?_, by simp [EvidenceStore.flushKeys]⟩, rfl⟩
  · intro k
    rw [← h.keys_eq k]
    simp [EvidenceStore.flushKeys, hfold, KeyedTable.total_accumulateAll]
  · have hone : ∀ row ∈ s.pendingKeys, 0 < row.2 := fun row hrow => by
      rw [h.pending_one row hrow]
      omega
    have hpos := accumulateAll_pos h.rows_pos hone
    simpa [EvidenceStore.flushKeys, hfold] using hpos

theorem Represents.flushFacts (h : Represents s observations) :
    Represents s.flushFacts observations ∧ s.flushFacts.pendingFacts = [] := by
  refine ⟨⟨h.keys_eq, ?_, h.rows_pos, h.pending_one⟩, rfl⟩
  intro key
  rw [← h.facts_eq key]
  simp [EvidenceStore.flushFacts, KeyedTable.total_accumulateAll]

theorem Represents.flush (h : Represents s observations) (sink : EvidenceSink) :
    Represents (s.flush sink) observations ∧ (s.flush sink).pendingKeys = [] ∧ (s.flush sink).pendingFacts = [] := by
  obtain ⟨hkeys, hnone⟩ := h.flushKeys sink
  obtain ⟨hfacts, hnone'⟩ := hkeys.flushFacts
  exact ⟨hfacts, hnone, hnone'⟩

/-- The pending rows that one observation adds. -/
def pendingKeysOf (o : RelationObservation) : List ((SideKey × List UInt8) × ℕ) :=
  (keysOf [o]).map (·, 1)

theorem totalAt_pendingKeysOf (o : RelationObservation) (k : SideKey × List UInt8) :
    KeyedTable.totalAt (pendingKeysOf o) k = (keysOf [o]).count k := by
  cases h : o.key with
  | none => simp [pendingKeysOf, keysOf, h]
  | some canonical => simp [pendingKeysOf, keysOf, h, KeyedTable.totalAt_cons, List.count_singleton]

theorem Represents.observe (h : Represents s observations) (sink : EvidenceSink) (batch : ℕ)
    (o : RelationObservation) : Represents (s.observe sink batch o) (observations ++ [o]) := by
  have hside : ∀ nulls, (if o.key = none then 1 else 0) = nulls → ∀ s' : EvidenceStore,
      s'.relationKeys = s.relationKeys → s'.pendingKeys = s.pendingKeys ++ pendingKeysOf o →
      s'.relationSideFacts = s.relationSideFacts → s'.pendingFacts = s.pendingFacts ++ [(o.sideKey, 1, nulls)] →
      Represents s' (observations ++ [o]) := by
    intro nulls hnulls s' hrows hpending hfactRows hfacts
    refine ⟨fun k => ?_, fun key => ?_, hrows ▸ h.rows_pos, ?_⟩
    · rw [hrows, hpending, KeyedTable.totalAt_append, ← add_assoc, h.keys_eq, totalAt_pendingKeysOf, keysOf_append,
        List.count_append]
    · rw [hfactRows, hfacts, KeyedTable.totalAt_append, ← add_assoc, h.facts_eq, factsOf_append]
      congr 1
      rw [KeyedTable.totalAt_cons, KeyedTable.totalAt_nil, add_zero, ← hnulls]
      by_cases hkey : o.sideKey = key <;> by_cases hnone : o.key = none <;> simp [factsOf, hkey, hnone] <;> rfl
    · intro row hrow
      rw [hpending, List.mem_append] at hrow
      rcases hrow with hrow | hrow
      · exact h.pending_one row hrow
      · obtain ⟨k, -, rfl⟩ := List.mem_map.mp hrow
        rfl
  unfold EvidenceStore.observe
  cases hkey : o.key with
  | none =>
    have hpending := hside 1 (by simp [hkey])
      { s with pendingFacts := s.pendingFacts ++ [(o.sideKey, 1, 1)] } rfl
      (by simp [pendingKeysOf, keysOf, hkey]) rfl rfl
    simp only [observeRelationSide]
    split_ifs
    · exact hpending.flushFacts.1
    · exact hpending
  | some canonical =>
    -- the two tables are flushed independently: first the facts, then the keys
    have hpending := hside 0 (by simp [hkey])
      { s with
        pendingFacts := s.pendingFacts ++ [(o.sideKey, 1, 0)]
        pendingKeys := s.pendingKeys ++ [((o.sideKey, canonical), 1)] } rfl
      (by simp [pendingKeysOf, keysOf, hkey]) rfl rfl
    simp only [observeRelationSide, observeRelationKey]
    split_ifs
    · exact (hpending.flushFacts.1.flushKeys sink).1
    · exact hpending.flushFacts.1
    · exact (hpending.flushKeys sink).1
    · exact hpending

theorem represents_passOneSpool (batch : ℕ) (events : List (Option RelationObservation)) :
    Represents (passOneSpool batch events) events.reduceOption := by
  induction events using List.reverseRecOn with
  | nil => exact represents_empty
  | append_singleton events event ih =>
    unfold passOneSpool
    rw [List.foldl_append, List.reduceOption_append]
    cases event with
    | none =>
      rw [List.reduceOption_cons_of_none, List.reduceOption_nil, List.append_nil]
      exact (Represents.flush ih .passOneSpool).1
    | some o => exact Represents.observe ih .passOneSpool batch o

theorem represents_closedShard (batch : ℕ) (observations : List RelationObservation) :
    Represents (closedShard batch observations) observations ∧ (closedShard batch observations).pendingKeys = [] ∧
      (closedShard batch observations).pendingFacts = [] := by
  have hrun : ∀ rest done s, Represents s done →
      Represents (rest.foldl (EvidenceStore.observe .relationEvidenceShard batch) s) (done ++ rest) := by
    intro rest
    induction rest with
    | nil => intro done s h; simpa using h
    | cons o rest ih =>
      intro done s h
      simpa using ih _ _ (h.observe .relationEvidenceShard batch o)
  exact (hrun observations [] _ represents_empty).flush .relationEvidenceShard

theorem Represents.mergeRelationShard (h : Represents s observations) (h' : Represents shard observations')
    (hkeys : shard.pendingKeys = []) (hfacts : shard.pendingFacts = []) :
    Represents (s.mergeRelationShard shard) (observations ++ observations') where
  keys_eq k := by
    have hown := h'.keys_eq k
    rw [hkeys, KeyedTable.totalAt_nil, add_zero] at hown
    simp only [EvidenceStore.mergeRelationShard]
    rw [KeyedTable.total_accumulateAll, KeyedTable.totalAt_rows, hown, keysOf_append, List.count_append, ← h.keys_eq k]
    omega
  facts_eq key := by
    have hown := h'.facts_eq key
    rw [hfacts, KeyedTable.totalAt_nil, add_zero] at hown
    simp only [EvidenceStore.mergeRelationShard]
    rw [KeyedTable.total_accumulateAll, KeyedTable.totalAt_rows, hown, factsOf_append, ← h.facts_eq key]
    exact add_right_comm _ _ _
  rows_pos := accumulateAll_pos h.rows_pos h'.rows_pos
  pending_one := h.pending_one

/-- In front of the comparison the tables hold both passes, however the shards were cut and merged. -/
theorem represents_comparedSpool (batch : ℕ) (events : List (Option RelationObservation))
    (shards : List (List RelationObservation)) :
    Represents (comparedSpool batch events shards) (events.reduceOption ++ shards.flatten) ∧
      (comparedSpool batch events shards).pendingKeys = [] ∧
      (comparedSpool batch events shards).pendingFacts = [] := by
  have hrun : ∀ rest : List (List RelationObservation), ∀ s observations, Represents s observations →
      Represents (rest.foldl (fun s o => s.mergeRelationShard (.closedShard batch o)) s)
        (observations ++ rest.flatten) := by
    intro rest
    induction rest with
    | nil => intro s observations h; simpa using h
    | cons o rest ih =>
      intro s observations h
      obtain ⟨hshard, hkeys, hfacts⟩ := represents_closedShard batch o
      simpa using ih _ _ (h.mergeRelationShard hshard hkeys hfacts)
  exact (hrun shards _ _ (represents_passOneSpool batch events)).flush .passOneSpool

def sideKeys (observations : List RelationObservation) (key : SideKey) : List (List UInt8) :=
  (observations.filter (·.sideKey = key)).filterMap (·.key)

theorem count_keysOf (observations : List RelationObservation) (key : SideKey) (canonical : List UInt8) :
    (keysOf observations).count (key, canonical) = (sideKeys observations key).count canonical := by
  induction observations with
  | nil => rfl
  | cons o rest ih =>
    have hhead : (keysOf [o]).count (key, canonical) = (sideKeys [o] key).count canonical := by
      by_cases hk : o.sideKey = key
      · cases hkey : o.key <;> simp [keysOf, sideKeys, hk, hkey, List.count_singleton]
      · cases hkey : o.key <;> simp [keysOf, sideKeys, hk, hkey]
    have hsplit : sideKeys (o :: rest) key = sideKeys [o] key ++ sideKeys rest key := by
      by_cases hk : o.sideKey = key
      · cases hkey : o.key <;> simp [sideKeys, hk, hkey]
      · simp [sideKeys, hk]
    rw [← List.singleton_append, keysOf_append, List.count_append, hhead, ih, List.singleton_append, hsplit,
      List.count_append]

theorem Represents.counts_slice (h : Represents s observations) (hnone : s.pendingKeys = []) (key : SideKey) :
    Counts (s.relationKeys.slice key) (sideKeys observations key) where
  total_eq canonical := by
    have hkeys := h.keys_eq (key, canonical)
    rw [hnone, KeyedTable.totalAt_nil, add_zero] at hkeys
    rw [KeyedTable.total, KeyedTable.lookup_slice]
    have hside := hkeys.trans (count_keysOf observations key canonical)
    rwa [lawful_beq_subsingleton (List.instBEq : BEq (List UInt8)) instBEqOfDecidableEq] at hside
  rows_pos := by
    rintro ⟨canonical, n⟩ hrow
    exact h.rows_pos _ (KeyedTable.mem_slice.mp hrow)

theorem Represents.sideFacts_eq (h : Represents s observations) (hnone : s.pendingFacts = []) (key : SideKey) :
    s.sideFacts key = factsOf observations key := by
  have hfacts := h.facts_eq key
  rw [hnone, KeyedTable.totalAt_nil, add_zero] at hfacts
  exact hfacts

end EvidenceStore
end DbfAnonymizer.Engine
