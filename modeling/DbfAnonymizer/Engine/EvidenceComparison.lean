import DbfAnonymizer.Engine.EvidenceRows
import DbfAnonymizer.Engine.KeyIdentity

/-! The comparison read off the evidence tables is the comparison of the in-memory accumulators. -/
namespace DbfAnonymizer.Engine
open Relationships Lib

/-- What a store holds of one side of one relation, in terms of that side's rows. -/
structure SideAgrees (s : EvidenceStore) (key : SideKey) (rows : List (Option (List KeyComponent))) : Prop where
  facts_eq : s.sideFacts key = (rows.length, rows.count none)
  counts : Counts (s.relationKeys.slice key) (rows.reduceOption.map canonicalCompositeIdentity)

section Sides
variable {s : EvidenceStore} {observations : List RelationObservation} {key leftKey rightKey : SideKey}
  {rows leftRows rightRows parents foreigns : List (Option (List KeyComponent))}

theorem sideKeys_eq (h : observations.filter (·.sideKey = key) = rows.map (observationOf key)) :
    EvidenceStore.sideKeys observations key = rows.reduceOption.map canonicalCompositeIdentity := by
  rw [EvidenceStore.sideKeys, h]
  clear h
  induction rows with
  | nil => rfl
  | cons row rows ih =>
    cases row with
    | none => simpa [observationOf] using ih
    | some tuple => simpa [observationOf] using ih

theorem factsOf_eq (h : observations.filter (·.sideKey = key) = rows.map (observationOf key)) :
    factsOf observations key = (rows.length, rows.count none) := by
  have hlength : observations.countP (·.sideKey = key) = rows.length := by
    rw [List.countP_eq_length_filter, h, List.length_map]
  have hnulls : (observations.countP fun o => o.sideKey = key ∧ o.key = none) = rows.count none := by
    have hsplit : (observations.countP fun o => o.sideKey = key ∧ o.key = none) =
        (observations.filter (·.sideKey = key)).countP (fun o => o.key = none) := by
      rw [List.countP_filter]
      refine List.countP_congr fun o _ => ?_
      simp [and_comm]
    rw [hsplit, h, List.countP_map, List.count]
    refine List.countP_congr fun row _ => ?_
    cases row <;> simp [observationOf]
  rw [factsOf, hlength, hnulls]

theorem sideAgrees_of_represents (h : s.Represents observations) (hkeys : s.pendingKeys = [])
    (hfacts : s.pendingFacts = [])
    (hrows : observations.filter (·.sideKey = key) = rows.map (observationOf key)) : SideAgrees s key rows where
  facts_eq := (h.sideFacts_eq hfacts key).trans (factsOf_eq hrows)
  counts := sideKeys_eq hrows ▸ h.counts_slice hkeys key

theorem SideAgrees.profile_perm (h : SideAgrees s key rows) :
    ((s.relationKeys.slice key).rows.map Prod.snd).Perm (profile rows.reduceOption) :=
  h.counts.profile_perm.trans (profile_map fun _ _ _ _ heq => canonicalCompositeIdentity_injective heq)

theorem SideAgrees.uniqueCount (h : SideAgrees s key rows) :
    s.relationUniqueCount key = (profile rows.reduceOption).length := by
  rw [EvidenceStore.relationUniqueCount, ← h.profile_perm.length_eq, List.length_map]

/-- The join over canonical identities counts the foreign rows whose tuple is a parent tuple. -/
theorem matchedCount_eq {side : EvidenceSide} {relationId : Text}
    (hparent : SideAgrees s (side, relationId, .parent) parents)
    (hforeign : SideAgrees s (side, relationId, .foreign) foreigns) :
    s.relationMatchedCount side relationId .parent .foreign =
      (foreigns.reduceOption.filter (· ∈ parents.reduceOption)).length := by
  have hkeys : ∀ canonical, canonical ∈ (s.relationKeys.slice (side, relationId, SideRole.parent)).keys ↔
      canonical ∈ parents.reduceOption.map canonicalCompositeIdentity := fun _ => hparent.counts.mem_keys_iff
  unfold EvidenceStore.relationMatchedCount
  simp only [hkeys]
  rw [hforeign.counts.sum_filter fun canonical =>
    decide (canonical ∈ parents.reduceOption.map canonicalCompositeIdentity), List.filter_map, List.length_map]
  congr 1
  refine List.filter_congr fun tuple _ => ?_
  simp only [Function.comp_apply, List.mem_map, canonicalCompositeIdentity_injective.eq_iff, exists_eq_right]

theorem sameOccurrences_iff (lefts rights : List (List UInt8 × ℕ)) :
    EvidenceStore.sameOccurrences lefts rights = true ↔ lefts.map Prod.snd = rights.map Prod.snd := by
  induction lefts generalizing rights with
  | nil => cases rights <;> simp [EvidenceStore.sameOccurrences]
  | cons left lefts ih =>
    cases rights with
    | nil => simp [EvidenceStore.sameOccurrences]
    | cons right rights =>
      rw [EvidenceStore.sameOccurrences, List.map_cons, List.map_cons, List.cons.injEq]
      split_ifs with hne
      · simp [hne]
      · rw [ih]
        exact ⟨fun h => ⟨not_not.mp hne, h⟩, fun h => h.2⟩

theorem pairwise_histogramStream (s : EvidenceStore) (key : SideKey) :
    ((s.relationHistogramStream key).map Prod.snd).Pairwise (· ≥ ·) := by
  have htotal : Std.Total EvidenceStore.histogramLE := by
    refine ⟨fun a b => ?_⟩
    unfold EvidenceStore.histogramLE
    rcases lt_trichotomy a.2 b.2 with h | h | h
    · exact Or.inr (Or.inl h)
    · rcases List.le_total a.1 b.1 with hle | hle
      · exact Or.inl (Or.inr ⟨h, hle⟩)
      · exact Or.inr (Or.inr ⟨h.symm, hle⟩)
    · exact Or.inl (Or.inl h)
  have htrans : IsTrans (List UInt8 × ℕ) EvidenceStore.histogramLE := by
    refine ⟨fun a b c hab hbc => ?_⟩
    unfold EvidenceStore.histogramLE at hab hbc ⊢
    rcases hab with hab | ⟨hab, hab'⟩
    · rcases hbc with hbc | ⟨hbc, -⟩ <;> exact Or.inl (by omega)
    · rcases hbc with hbc | ⟨hbc, hbc'⟩
      · exact Or.inl (by omega)
      · exact Or.inr ⟨hab.trans hbc, List.le_trans hab' hbc'⟩
  rw [List.pairwise_map]
  refine (List.pairwise_insertionSort EvidenceStore.histogramLE _).imp ?_
  intro a b hab
  rcases hab with h | ⟨h, -⟩
  · exact h.le
  · exact h.ge

theorem profileEqual_iff {relationId : Text} {leftSide rightSide : EvidenceSide} {role : SideRole}
    (hleft : SideAgrees s (leftSide, relationId, role) leftRows)
    (hright : SideAgrees s (rightSide, relationId, role) rightRows) :
    s.relationProfileEqual relationId leftSide rightSide role = true ↔
      (profile leftRows.reduceOption).Perm (profile rightRows.reduceOption) := by
  have hstream : ∀ {key : SideKey} {rows : List (Option (List KeyComponent))}, SideAgrees s key rows →
      ((s.relationHistogramStream key).map Prod.snd).Perm (profile rows.reduceOption) := by
    intro key rows h
    exact ((List.perm_insertionSort _ _).map Prod.snd).trans h.profile_perm
  rw [EvidenceStore.relationProfileEqual, sameOccurrences_iff]
  constructor
  · intro h
    exact (hstream hleft).symm.trans (h ▸ hstream hright)
  · intro h
    have hperm := (hstream hleft).trans (h.trans (hstream hright).symm)
    exact hperm.eq_of_pairwise' (pairwise_histogramStream s _) (pairwise_histogramStream s _)

end Sides

/-- What a store's aggregates say of one pass is what the reference accumulator counts. -/
structure CountsAgree (s : EvidenceStore) (side : EvidenceSide) (relationId : Text) (c : RelationEvidenceCounts) :
    Prop where
  parent_eq : s.sideFacts (side, relationId, .parent) = (c.parent.rowsConsidered, c.parent.nullTupleCount)
  foreign_eq : s.sideFacts (side, relationId, .foreign) = (c.foreign.rowsConsidered, c.foreign.nullTupleCount)
  parentUnique_eq : s.relationUniqueCount (side, relationId, .parent) = c.parent.uniqueTupleCount
  foreignUnique_eq : s.relationUniqueCount (side, relationId, .foreign) = c.foreign.uniqueTupleCount
  matched_eq : s.relationMatchedCount side relationId .parent .foreign = c.matchedRowCount
  orphans_eq : s.orphans side relationId = c.orphanCount

/-- What a summary reports is what the reference comparison of two accumulators finds. -/
structure SummaryAgrees (before after : RelationEvidenceCounts) (results : List RelationInvariantResult)
    (summary : RelationPassSummary) : Prop where
  verified_iff : summary.verified = true ↔ ∀ result ∈ results, result.preserved = true
  beforeRows_eq : summary.beforeRows = before.parent.rowsConsidered + before.foreign.rowsConsidered
  afterRows_eq : summary.afterRows = after.parent.rowsConsidered + after.foreign.rowsConsidered
  beforeNulls_eq : summary.beforeNulls = before.foreign.nullTupleCount
  afterNulls_eq : summary.afterNulls = after.foreign.nullTupleCount
  beforeUnique_eq : summary.beforeUnique = before.parent.uniqueTupleCount
  afterUnique_eq : summary.afterUnique = after.parent.uniqueTupleCount
  matchedRows_eq : summary.matchedRows = after.matchedRowCount
  orphanCount_eq : summary.orphanCount = after.orphanCount
  parentProfile_iff : summary.parentProfileEqual = true ↔
    before.parent.multiplicityProfile = after.parent.multiplicityProfile
  foreignProfile_iff : summary.foreignProfileEqual = true ↔
    before.foreign.multiplicityProfile = after.foreign.multiplicityProfile

section Comparison
variable {s : EvidenceStore} {side : EvidenceSide} {relationId : Text} {r : RelationDirective}
  {relations : List RelationDirective} {c b a : RelationEvidenceCounts} {results : List RelationInvariantResult}
  {parents foreigns : List (Option (List KeyComponent))} {tables before after : List (Text × List Values)}
  {first second : List RelationObservation}

theorem countsAgree (hparent : SideAgrees s (side, relationId, .parent) parents)
    (hforeign : SideAgrees s (side, relationId, .foreign) foreigns) (hc : CountsRows c parents foreigns) :
    CountsAgree s side relationId c := by
  obtain ⟨hprows, hfrows, hpunique, hcovers⟩ := hc.derived
  have hmatched := (matchedCount_eq hparent hforeign).trans hc.matched_eq.symm
  have hlength := length_reduceOption_add_count foreigns
  refine ⟨?_, ?_, ?_, ?_, hmatched, ?_⟩
  · rw [hparent.facts_eq, hprows, hc.parent_nulls]
  · rw [hforeign.facts_eq, hfrows, hc.foreign_nulls]
  · rw [hparent.uniqueCount, hpunique]
  · rw [hforeign.uniqueCount, c.foreign.unique_eq, hc.foreign_profile.length_eq]
  · simp only [EvidenceStore.orphans, hforeign.facts_eq, hmatched]
    omega

theorem exists_referenceEvidence (hrel : ComparableRelations relations) (hr : r ∈ relations)
    (hparents : relationRows r .parent tables = .ok parents)
    (hforeigns : relationRows r .foreign tables = .ok foreigns) :
    ∃ c, referenceEvidence r tables = .ok c ∧ c.compositeArity = r.compositeArity ∧ CountsRows c parents foreigns := by
  obtain ⟨c, hc, harity, hrows⟩ := exists_ofRows (hrel.arity_pos r hr)
    (fun key hkey => (length_of_mem_relationRows hparents hkey).trans (hrel.arity_eq r hr .parent))
    (fun key hkey => (length_of_mem_relationRows hforeigns hkey).trans (hrel.arity_eq r hr .foreign))
  exact ⟨c, by rw [referenceEvidence, hparents, ok_bind, hforeigns, ok_bind, hc], harity, hrows⟩

theorem sideAgrees_comparedSpool (hrel : ComparableRelations relations) (hr : r ∈ relations)
    (hbefore : observeDataset .before relations before = .ok first)
    (hafter : observeDataset .after relations after = .ok second) (batch : ℕ)
    {events : List (Option RelationObservation)} (hevents : events.reduceOption.Perm first)
    {shards : List (List RelationObservation)} (hshards : shards.flatten.Perm second) (role : SideRole) :
    (∃ rows, relationRows r role before = .ok rows ∧
      SideAgrees (comparedSpool batch events shards) (.before, r.relationId, role) rows) ∧
    ∃ rows, relationRows r role after = .ok rows ∧
      SideAgrees (comparedSpool batch events shards) (.after, r.relationId, role) rows := by
  obtain ⟨hrep, hkeys, hfacts⟩ := EvidenceStore.represents_comparedSpool batch events shards
  have hboth := hrep.congr (hevents.append hshards)
  have hother : ∀ {side side' : EvidenceSide} {observations : List RelationObservation}
      {tables : List (Text × List Values)}, observeDataset side relations tables = .ok observations →
      side ≠ side' → observations.filter (·.sideKey = (side', r.relationId, role)) = [] := by
    intro side side' observations tables hpass hne
    rw [List.filter_eq_nil_iff]
    intro o ho hkey
    have hside := side_eq_of_mem_observeDataset hpass o ho
    exact hne (hside.symm.trans (congrArg Prod.fst (of_decide_eq_true hkey)))
  obtain ⟨rows, hrows, hfirst⟩ := filter_observeDataset hrel.ids_nodup hr role hbefore
  obtain ⟨rows', hrows', hsecond⟩ := filter_observeDataset hrel.ids_nodup hr role hafter
  refine ⟨⟨rows, hrows, ?_⟩, ⟨rows', hrows', ?_⟩⟩
  · refine sideAgrees_of_represents hboth hkeys hfacts ?_
    rw [List.filter_append, hfirst, hother hafter (by decide), List.append_nil]
  · refine sideAgrees_of_represents hboth hkeys hfacts ?_
    rw [List.filter_append, hsecond, hother hbefore (by decide), List.nil_append]

theorem summaryAgrees (hb : CountsAgree s .before r.relationId b) (ha : CountsAgree s .after r.relationId a)
    (hparent : s.relationProfileEqual r.relationId .before .after .parent = true ↔
      b.parent.multiplicityProfile = a.parent.multiplicityProfile)
    (hforeign : s.relationProfileEqual r.relationId .before .after .foreign = true ↔
      b.foreign.multiplicityProfile = a.foreign.multiplicityProfile)
    (hresults : compareRelationMetrics b a = .ok results) : SummaryAgrees b a results (relationPassSummary s r) := by
  obtain ⟨-, -, hresults⟩ := bind_eq_ok.mp hresults
  cases hresults
  refine ⟨?_, ?_, ?_, ?_, ?_, ?_, ?_, ?_, ?_, hparent, hforeign⟩
  · simp only [relationPassSummary, hb.parent_eq, hb.foreign_eq, hb.matched_eq, hb.orphans_eq, ha.parent_eq,
      ha.foreign_eq, ha.matched_eq, ha.orphans_eq, Bool.and_eq_true, hparent, hforeign, beq_iff_eq, Nat.cast_inj,
      List.forall_mem_cons, decide_eq_true_eq, Prod.mk.injEq]
    tauto
  · simp only [relationPassSummary, hb.parent_eq, hb.foreign_eq]
  · simp only [relationPassSummary, ha.parent_eq, ha.foreign_eq]
  · simp only [relationPassSummary, hb.foreign_eq]
  · simp only [relationPassSummary, ha.foreign_eq]
  · simp only [relationPassSummary, hb.parentUnique_eq]
  · simp only [relationPassSummary, ha.parentUnique_eq]
  · simp only [relationPassSummary, ha.matched_eq]
  · simp only [relationPassSummary, ha.orphans_eq]

/-- What the comparison of a relation reports, next to its reference over the same two datasets. -/
def ComparedExactly (s : EvidenceStore) (before after : List (Text × List Values)) (r : RelationDirective)
    (summary : RelationPassSummary) : Prop :=
  ∃ b a results, referenceEvidence r before = .ok b ∧ referenceEvidence r after = .ok a ∧
    compareRelationMetrics b a = .ok results ∧ CountsAgree s .before r.relationId b ∧
      CountsAgree s .after r.relationId a ∧ SummaryAgrees b a results summary

theorem comparedExactly (hrel : ComparableRelations relations) (hr : r ∈ relations)
    (hbefore : observeDataset .before relations before = .ok first)
    (hafter : observeDataset .after relations after = .ok second) (batch : ℕ)
    {events : List (Option RelationObservation)} (hevents : events.reduceOption.Perm first)
    {shards : List (List RelationObservation)} (hshards : shards.flatten.Perm second) :
    ComparedExactly (comparedSpool batch events shards) before after r
      (relationPassSummary (comparedSpool batch events shards) r) := by
  have hside := sideAgrees_comparedSpool hrel hr hbefore hafter batch hevents hshards
  obtain ⟨⟨parents, hparents, hps⟩, ⟨parents', hparents', hps'⟩⟩ := hside .parent
  obtain ⟨⟨foreigns, hforeigns, hfs⟩, ⟨foreigns', hforeigns', hfs'⟩⟩ := hside .foreign
  obtain ⟨b, hb, hbarity, hbrows⟩ := exists_referenceEvidence hrel hr hparents hforeigns
  obtain ⟨a, ha, haarity, harows⟩ := exists_referenceEvidence hrel hr hparents' hforeigns'
  have hresults : ∃ results, compareRelationMetrics b a = .ok results := by
    rw [compareRelationMetrics, refuseIf, if_neg (by rw [hbarity, haarity]; exact not_not.mpr rfl)]
    exact ⟨_, rfl⟩
  obtain ⟨results, hresults⟩ := hresults
  have hparent : (comparedSpool batch events shards).relationProfileEqual r.relationId .before .after .parent = true ↔
      b.parent.multiplicityProfile = a.parent.multiplicityProfile := by
    rw [profileEqual_iff hps hps', profile_eq_iff, hbrows.parent_profile.congr_left, harows.parent_profile.congr_right]
  have hforeign : (comparedSpool batch events shards).relationProfileEqual r.relationId .before .after .foreign = true ↔
      b.foreign.multiplicityProfile = a.foreign.multiplicityProfile := by
    rw [profileEqual_iff hfs hfs', profile_eq_iff, hbrows.foreign_profile.congr_left,
      harows.foreign_profile.congr_right]
  have hbagree := countsAgree hps hfs hbrows
  have haagree := countsAgree hps' hfs' harows
  exact ⟨b, a, results, hb, ha, hresults, hbagree, haagree, summaryAgrees hbagree haagree hparent hforeign hresults⟩

end Comparison

section Runs
variable {policy : ResolvedPolicy} {hashing : Hashing} {schemas : List (Text × TableSchema)} {plan : EnginePlan}
  {before after : List (Text × List Values)} {first second : List RelationObservation}

/-- However the passes are batched, sharded and merged, every relation is compared as its reference is. -/
theorem compareRelations_exact (A : AcceptedDocument)
    (hplan : buildEnginePlan policy hashing (some A.document) schemas = .ok plan)
    (hbefore : observeDataset .before plan.relations before = .ok first)
    (hafter : observeDataset .after plan.relations after = .ok second) (batch : ℕ)
    {events : List (Option RelationObservation)} (hevents : events.reduceOption.Perm first)
    {shards : List (List RelationObservation)} (hshards : shards.flatten.Perm second) :
    List.Forall₂ (ComparedExactly (comparedSpool batch events shards) before after) plan.relations
      (compareRelations plan.relations (comparedSpool batch events shards)) := by
  have hrel := comparableRelations_of_plan A hplan
  rw [compareRelations, List.forall₂_map_right_iff, List.forall₂_same]
  intro r hr
  exact comparedExactly hrel hr hbefore hafter batch hevents hshards

def orderRow (key : Value) : Values := fun field => if field = ['I', 'D'] then key else .null

/-- Two parents and three children, of which one has no key and one no parent. -/
def orderRows (shift : ℤ) : List (Text × List Values) :=
  [(parentPath, [orderRow (.int (1 + shift)), orderRow (.int (2 + shift))]),
    (childPath, [orderRow (.int (1 + shift)), orderRow .null, orderRow (.int (7 + shift))])]

theorem orderRows_compared :
    ∃ plan first second, buildEnginePlan defaultPolicy plainHashing (some sameTypeOrders.document) (orderTables 'I' 4) =
      .ok plan ∧ observeDataset .before plan.relations (orderRows 0) = .ok first ∧
        observeDataset .after plan.relations (orderRows 3) = .ok second ∧
          List.Forall₂ (ComparedExactly (comparedSpool 2 (none :: first.map some) [second.drop 2, second.take 2])
            (orderRows 0) (orderRows 3)) plan.relations
              (compareRelations plan.relations
                (comparedSpool 2 (none :: first.map some) [second.drop 2, second.take 2])) := by
  refine ⟨_, _, _, rfl, rfl, rfl, ?_⟩
  have hplan : buildEnginePlan defaultPolicy plainHashing (some sameTypeOrders.document) (orderTables 'I' 4) =
    .ok _ := rfl
  exact compareRelations_exact sameTypeOrders.toAcceptedDocument hplan rfl rfl 2 (List.Perm.refl _) (by decide)

end Runs
end DbfAnonymizer.Engine
