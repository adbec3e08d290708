import DbfAnonymizer.Engine.EvidenceComparison

/-! Relation evidence survives any transform that maps both sides by the same injective functions. -/
namespace DbfAnonymizer.Engine
open Relationships Lib

/-- A function on key values: injective, text to text, integers to integers, and NULL alone to NULL. -/
structure KeyPreserving (f : Value → Value) : Prop where
  injective : Function.Injective f
  text_to_text : ∀ t, ∃ t', f (.text t) = .text t'
  int_to_int : ∀ n, ∃ m, f (.int n) = .int m
  null_iff : ∀ v, f v = .null ↔ v = .null

/-- After a transform each column of either side holds the image of what it held, by its position's function. -/
def TransformedRecord (r : RelationDirective) (f : ℕ → Value → Value) (path : Text) (before after : Values) : Prop :=
  ∀ role, r.sideTable role = path → ∀ (i : ℕ) (h : i < (r.sideFields role).length),
    after (r.sideFields role)[i] = f i (before (r.sideFields role)[i])

/-- Two datasets table by table and record by record. -/
def TransformedDataset (r : RelationDirective) (f : ℕ → Value → Value) (before after : List (Text × List Values)) :
    Prop :=
  List.Forall₂ (fun b a => b.1 = a.1 ∧ List.Forall₂ (TransformedRecord r f b.1) b.2 a.2) before after

/-- The function on components behind a function on values. -/
def componentMap (f : Value → Value) : KeyComponent → KeyComponent
  | .text t => match f (.text t) with
    | .text t' => .text t'
    | _ => .text t
  | .int n => match f (.int n) with
    | .int m => .int m
    | _ => .int n

section Components
variable {f : Value → Value} {v : Value} {c : Option KeyComponent} {components : List (Option KeyComponent)}

theorem componentMap_injective (hf : KeyPreserving f) : Function.Injective (componentMap f) := by
  intro a b h
  cases a with
  | text t =>
    obtain ⟨t', ht⟩ := hf.text_to_text t
    cases b with
    | text u =>
      obtain ⟨u', hu⟩ := hf.text_to_text u
      have heq : t' = u' := by simpa [componentMap, ht, hu] using h
      have hvalue := hf.injective (ht.trans (heq ▸ hu.symm))
      rw [Value.text.inj hvalue]
    | int n =>
      obtain ⟨m, hn⟩ := hf.int_to_int n
      simp [componentMap, ht, hn] at h
  | int n =>
    obtain ⟨m, hn⟩ := hf.int_to_int n
    cases b with
    | text u =>
      obtain ⟨u', hu⟩ := hf.text_to_text u
      simp [componentMap, hn, hu] at h
    | int k =>
      obtain ⟨l, hk⟩ := hf.int_to_int k
      have heq : m = l := by simpa [componentMap, hn, hk] using h
      have hvalue := hf.injective (hn.trans (heq ▸ hk.symm))
      rw [Value.int.inj hvalue]

theorem keyComponent_map (hf : KeyPreserving f) (h : keyComponent v = .ok c) :
    keyComponent (f v) = .ok (c.map (componentMap f)) := by
  cases v with
  | null =>
    cases h
    rw [(hf.null_iff .null).mpr rfl]
    rfl
  | text t =>
    cases h
    obtain ⟨t', ht⟩ := hf.text_to_text t
    simp [componentMap, ht, keyComponent]
  | int n =>
    cases h
    obtain ⟨m, hn⟩ := hf.int_to_int n
    simp [componentMap, hn, keyComponent]
  | _ => simp [keyComponent] at h

def tupleMap (f : ℕ → Value → Value) (key : List KeyComponent) : List KeyComponent :=
  key.mapIdx fun i c => componentMap (f i) c

theorem tupleMap_injective {f : ℕ → Value → Value} (hf : ∀ i, KeyPreserving (f i)) :
    Function.Injective (tupleMap f) := by
  intro a b h
  have hlength : a.length = b.length := by simpa [tupleMap] using congrArg List.length h
  refine List.ext_getElem hlength fun i ha hb => ?_
  have hi := congrArg (fun key => key[i]?) h
  simp only [tupleMap, List.getElem?_mapIdx, List.getElem?_eq_getElem ha, List.getElem?_eq_getElem hb,
    Option.map_some, Option.some.injEq] at hi
  exact componentMap_injective (hf i) hi

end Components

theorem reduceOption_mapIdx {α β : Type*} {l : List (Option α)} (h : none ∉ l) (g : ℕ → α → β) :
    (l.mapIdx fun i c => c.map (g i)).reduceOption = l.reduceOption.mapIdx g := by
  have hsome : l = l.reduceOption.map some := by
    induction l with
    | nil => rfl
    | cons c l ih =>
      cases c with
      | none => exact absurd (List.mem_cons_self ..) h
      | some x =>
        rw [List.reduceOption_cons_of_some, List.map_cons, ← ih fun hl => h (List.mem_cons_of_mem _ hl)]
  generalize l.reduceOption = key at hsome
  rw [hsome]
  have hmap : (key.map some).mapIdx (fun i c => c.map (g i)) = (key.mapIdx g).map some := by
    refine List.ext_getElem? fun i => ?_
    simp [List.getElem?_mapIdx]
  have hkeep : ∀ {γ : Type _} (xs : List γ), (xs.map some).reduceOption = xs := by
    intro γ xs
    simp [List.reduceOption]
  rw [hmap, hkeep]

section Rows
variable {f : ℕ → Value → Value} {r : RelationDirective} {role : SideRole} {before after : List (Text × List Values)}
  {values values' : Values} {fields : List Text}

theorem sideTuple_map (hf : ∀ i, KeyPreserving (f i))
    (hvalues : ∀ (i : ℕ) (h : i < fields.length), values' fields[i] = f i (values fields[i]))
    {row : Option (List KeyComponent)} (h : sideTuple fields values = .ok row) :
    sideTuple fields values' = .ok (row.map (tupleMap f)) := by
  obtain ⟨components, hcomponents, h⟩ := bind_eq_ok.mp h
  have hall := List.forall₂_iff_get.mp (mapM_eq_ok_iff.mp hcomponents)
  obtain ⟨hlength, hget⟩ := hall
  have hmapped : fields.mapM (fun field => keyComponent (values' field)) =
      .ok (components.mapIdx fun i c => c.map (componentMap (f i))) := by
    rw [mapM_eq_ok_iff, List.forall₂_iff_get]
    refine ⟨by simpa using hlength, fun i hi hi' => ?_⟩
    have hone := keyComponent_map (hf i) (hget i hi (hlength ▸ hi))
    simpa [hvalues i hi] using hone
  have hnone : (components.mapIdx fun i c => c.map (componentMap (f i))).contains none = components.contains none := by
    rw [Bool.eq_iff_iff, List.contains_iff_mem, List.contains_iff_mem, List.mem_mapIdx, List.mem_iff_getElem]
    simp only [Option.map_eq_none_iff]
  rw [pure_eq_ok, Except.ok.injEq] at h
  rw [sideTuple, hmapped, ok_bind, pure_eq_ok, hnone, ← h]
  split_ifs with hnull
  · rfl
  · have hmem : none ∉ components := fun hmem => hnull (List.contains_iff_mem.mpr hmem)
    rw [reduceOption_mapIdx hmem]
    rfl

theorem mapM_sideTuple_map (hf : ∀ i, KeyPreserving (f i)) {R : Values → Values → Prop}
    (hR : ∀ values values', R values values' →
      ∀ (i : ℕ) (h : i < fields.length), values' fields[i] = f i (values fields[i]))
    {records records' : List Values} (h : List.Forall₂ R records records')
    {rows : List (Option (List KeyComponent))} (hrows : records.mapM (sideTuple fields) = .ok rows) :
    records'.mapM (sideTuple fields) = .ok (rows.map (Option.map (tupleMap f))) := by
  induction h generalizing rows with
  | nil =>
    cases hrows
    rfl
  | cons hrecord _ ih =>
    rw [List.mapM_cons] at hrows ⊢
    obtain ⟨row, hrow, hrows⟩ := bind_eq_ok.mp hrows
    obtain ⟨others, hothers, hrows⟩ := bind_eq_ok.mp hrows
    cases hrows
    rw [sideTuple_map hf (hR _ _ hrecord) hrow, ok_bind, ih hothers]
    rfl

theorem relationRows_map (hf : ∀ i, KeyPreserving (f i)) (h : TransformedDataset r f before after)
    {rows : List (Option (List KeyComponent))} (hrows : relationRows r role before = .ok rows) :
    relationRows r role after = .ok (rows.map (Option.map (tupleMap f))) := by
  induction h generalizing rows with
  | nil =>
    cases hrows
    rfl
  | @cons b a before after hhead _ ih =>
    obtain ⟨hpath, hrecords⟩ := hhead
    rw [relationRows_cons] at hrows ⊢
    rw [← hpath]
    split_ifs at hrows ⊢ with htable
    · obtain ⟨first, hfirst, hrows⟩ := bind_eq_ok.mp hrows
      obtain ⟨rest, hrest, hrows⟩ := bind_eq_ok.mp hrows
      cases hrows
      rw [mapM_sideTuple_map hf (fun _ _ hrecord => hrecord role htable) hrecords hfirst, ok_bind, ih hrest, ok_bind,
        pure_eq_ok, List.map_append]
    · exact ih hrows

end Rows

/-- The evidence that both passes leave of one relation is the same, and it is reported as verified. -/
structure EvidencePreserved (s : EvidenceStore) (r : RelationDirective) (summary : RelationPassSummary) : Prop where
  verified : summary.verified = true
  parentProfileEqual : summary.parentProfileEqual = true
  foreignProfileEqual : summary.foreignProfileEqual = true
  facts_eq : ∀ role, s.sideFacts (.before, r.relationId, role) = s.sideFacts (.after, r.relationId, role)
  unique_eq : ∀ role,
    s.relationUniqueCount (.before, r.relationId, role) = s.relationUniqueCount (.after, r.relationId, role)
  matched_eq : s.relationMatchedCount .before r.relationId .parent .foreign =
    s.relationMatchedCount .after r.relationId .parent .foreign
  orphans_eq : s.orphans .before r.relationId = s.orphans .after r.relationId

section Preserved
variable {s : EvidenceStore} {f : ℕ → Value → Value} {r : RelationDirective}
  {parents foreigns : List (Option (List KeyComponent))}

theorem evidencePreserved (hf : ∀ i, KeyPreserving (f i)) {rows : SideRole → List (Option (List KeyComponent))}
    (hbefore : ∀ role, SideAgrees s (.before, r.relationId, role) (rows role))
    (hafter : ∀ role, SideAgrees s (.after, r.relationId, role) ((rows role).map (Option.map (tupleMap f)))) :
    EvidencePreserved s r (relationPassSummary s r) := by
  have hinj := tupleMap_injective hf
  have hreduce : ∀ role, ((rows role).map (Option.map (tupleMap f))).reduceOption =
      (rows role).reduceOption.map (tupleMap f) := fun role => List.reduceOption_map
  have hprofile : ∀ role, (profile ((rows role).map (Option.map (tupleMap f))).reduceOption).Perm
      (profile (rows role).reduceOption) := by
    intro role
    rw [hreduce]
    exact profile_map fun _ _ _ _ heq => hinj heq
  have hfacts : ∀ role, s.sideFacts (.before, r.relationId, role) = s.sideFacts (.after, r.relationId, role) := by
    intro role
    have hnulls : ((rows role).map (Option.map (tupleMap f))).count none = (rows role).count none := by
      rw [List.count, List.countP_map]
      refine List.countP_congr fun row _ => ?_
      cases row <;> simp
    rw [(hbefore role).facts_eq, (hafter role).facts_eq, List.length_map, hnulls]
  have hmatched : s.relationMatchedCount .before r.relationId .parent .foreign =
      s.relationMatchedCount .after r.relationId .parent .foreign := by
    rw [matchedCount_eq (hbefore .parent) (hbefore .foreign), matchedCount_eq (hafter .parent) (hafter .foreign),
      hreduce, hreduce, List.filter_map, List.length_map]
    congr 1
    refine List.filter_congr fun key _ => ?_
    simp only [Function.comp_apply, List.mem_map, hinj.eq_iff, exists_eq_right]
  have horphans : s.orphans .before r.relationId = s.orphans .after r.relationId := by
    simp only [EvidenceStore.orphans, hfacts, hmatched]
  have hequal : ∀ role, s.relationProfileEqual r.relationId .before .after role = true :=
    fun role => (profileEqual_iff (hbefore role) (hafter role)).mpr (hprofile role).symm
  refine ⟨?_, hequal .parent, hequal .foreign, hfacts, fun role => ?_, hmatched, horphans⟩
  · simp [relationPassSummary, hequal, hmatched, horphans, hfacts]
  · rw [(hbefore role).uniqueCount, (hafter role).uniqueCount, (hprofile role).length_eq]

variable {policy : ResolvedPolicy} {hashing : Hashing} {schemas : List (Text × TableSchema)} {plan : EnginePlan}
  {before after : List (Text × List Values)} {first second : List RelationObservation}

/-- Whoever maps both sides of a relation by one injective function for each position passes its verification. -/
theorem compareRelations_preserved (A : AcceptedDocument)
    (hplan : buildEnginePlan policy hashing (some A.document) schemas = .ok plan)
    (hbefore : observeDataset .before plan.relations before = .ok first)
    (hafter : observeDataset .after plan.relations after = .ok second) (batch : ℕ)
    {events : List (Option RelationObservation)} (hevents : events.reduceOption.Perm first)
    {shards : List (List RelationObservation)} (hshards : shards.flatten.Perm second) :
    List.Forall₂ (fun r summary => ∀ f, (∀ i, KeyPreserving (f i)) → TransformedDataset r f before after →
        EvidencePreserved (comparedSpool batch events shards) r summary)
      plan.relations (compareRelations plan.relations (comparedSpool batch events shards)) := by
  have hrel := comparableRelations_of_plan A hplan
  rw [compareRelations, List.forall₂_map_right_iff, List.forall₂_same]
  intro r hr f hf htransform
  have hside := sideAgrees_comparedSpool hrel hr hbefore hafter batch hevents hshards
  choose hrows hmapped using hside
  choose rows hrows hagree using hrows
  refine evidencePreserved hf hagree fun role => ?_
  obtain ⟨rows', hrows', hagree'⟩ := hmapped role
  rw [relationRows_map hf htransform (hrows role), Except.ok.injEq] at hrows'
  exact hrows' ▸ hagree'

/-- Integers are shifted, and everything else is kept. -/
def shiftKey (shift : ℤ) : Value → Value
  | .int n => .int (n + shift)
  | value => value

theorem shiftKey_keyPreserving (shift : ℤ) : KeyPreserving (shiftKey shift) where
  injective := by
    intro a b h
    cases a <;> cases b <;> simp [shiftKey] at h ⊢ <;> exact h
  text_to_text t := ⟨t, rfl⟩
  int_to_int n := ⟨n + shift, rfl⟩
  null_iff v := by cases v <;> simp [shiftKey]

theorem orderRow_transformed (hfields : ∀ role, r.sideFields role = [['I', 'D']]) {shift : ℤ} {path : Text}
    {key key' : Value} (h : shiftKey shift key = key') :
    TransformedRecord r (fun _ => shiftKey shift) path (orderRow key) (orderRow key') := by
  intro role _ i hi
  have hfield : (r.sideFields role)[i] = ['I', 'D'] := by
    have hall : ∀ field ∈ r.sideFields role, field = ['I', 'D'] := by simp [hfields role]
    exact hall _ (List.getElem_mem hi)
  rw [hfield]
  exact h.symm

theorem orderRows_preserved :
    ∃ plan r first second,
      buildEnginePlan defaultPolicy plainHashing (some sameTypeOrders.document) (orderTables 'I' 4) = .ok plan ∧
        plan.relations = [r] ∧ observeDataset .before plan.relations (orderRows 0) = .ok first ∧
          observeDataset .after plan.relations (orderRows 3) = .ok second ∧
            EvidencePreserved (comparedSpool 2 (first.map some) [second]) r
              (relationPassSummary (comparedSpool 2 (first.map some) [second]) r) := by
  obtain ⟨plan, r, first, second, hplan, hone, hbefore, hafter, hfields⟩ : ∃ plan r first second,
      buildEnginePlan defaultPolicy plainHashing (some sameTypeOrders.document) (orderTables 'I' 4) = .ok plan ∧
        plan.relations = [r] ∧ observeDataset .before plan.relations (orderRows 0) = .ok first ∧
          observeDataset .after plan.relations (orderRows 3) = .ok second ∧
            ∀ role, r.sideFields role = [['I', 'D']] :=
    ⟨_, _, _, _, rfl, rfl, rfl, rfl, fun role => by cases role <;> rfl⟩
  refine ⟨plan, r, first, second, hplan, hone, hbefore, hafter, ?_⟩
  have hevents : (first.map some).reduceOption.Perm first := by simp [List.reduceOption]
  have hshards : [second].flatten.Perm second := by simp
  have h := compareRelations_preserved sameTypeOrders.toAcceptedDocument hplan hbefore hafter 2 hevents hshards
  rw [hone] at h
  have htransform : TransformedDataset r (fun _ => shiftKey 3) (orderRows 0) (orderRows 3) := by
    refine .cons ⟨rfl, .cons ?_ (.cons ?_ .nil)⟩ (.cons ⟨rfl, .cons ?_ (.cons ?_ (.cons ?_ .nil))⟩ .nil)
    all_goals exact orderRow_transformed hfields rfl
  exact (List.forall₂_cons.mp h).1 _ (fun _ => shiftKey_keyPreserving 3) htransform

end Preserved
end DbfAnonymizer.Engine
