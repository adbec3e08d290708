import DbfAnonymizer.Lib.SurrogatePairs
import DbfAnonymizer.Relationships.DocumentIdentity
import DbfAnonymizer.Relationships.TablePaths

/-! Documents with their table paths spelled otherwise: which documents their canonical bytes tell apart. -/
namespace DbfAnonymizer.Relationships
open Lib

variable {χ : Type} {f : List χ → List χ}

/-- Where a member stands in its group. -/
def RelationMember.place (m : RelationMember χ) : KeyRole × ℕ := (m.keyRole, m.compositeOrdinal)

def RelationMember.respelled (f : List χ → List χ) (m : RelationMember χ) : RelationMember χ :=
  { m with tablePath := f m.tablePath }

def RelationGroup.respelled (f : List χ → List χ) (g : RelationGroup χ) : RelationGroup χ :=
  { g with members := g.members.map (RelationMember.respelled f) }

/-- The document with every member's table path spelled as `f` spells it. -/
def RelationshipDocument.respelled (f : List χ → List χ) (d : RelationshipDocument χ) : RelationshipDocument χ :=
  { d with groups := d.groups.map (RelationGroup.respelled f) }

theorem RelationshipDocument.tablePaths_respelled (f : List χ → List χ) (d : RelationshipDocument χ) :
    (d.respelled f).tablePaths = d.tablePaths.map f := by
  simp [tablePaths, respelled, RelationGroup.respelled, RelationMember.respelled, List.flatMap_map, List.map_flatMap,
    Function.comp_def]

theorem RelationshipDocument.respelled_eq_self {d : RelationshipDocument χ} (h : ∀ path ∈ d.tablePaths, f path = path) :
    d.respelled f = d := by
  have hmembers : ∀ g ∈ d.groups, g.respelled f = g := by
    intro g hg
    have hsame : g.members.map (RelationMember.respelled f) = g.members.map id := by
      apply List.map_congr_left
      intro m hm
      rw [RelationMember.respelled, h m.tablePath (List.mem_flatMap.mpr ⟨g, hg, List.mem_map_of_mem hm⟩)]
      rfl
    rw [RelationGroup.respelled, hsame, List.map_id]
  have hgroups : d.groups.map (RelationGroup.respelled f) = d.groups.map id := List.map_congr_left hmembers
  rw [respelled, hgroups, List.map_id]

theorem GroupBuilt.nodup_places {g : RelationGroup χ} (h : GroupBuilt g) : (g.members.map RelationMember.place).Nodup := by
  have hmembers : g.members.Nodup := List.Nodup.of_map _ h.distinct
  apply List.Nodup.map_on _ hmembers
  intro m hm m' hm' heq
  obtain ⟨hrole, hordinal⟩ := Prod.mk.inj heq
  have hcontiguous : g.ordinalsContiguous m.keyRole = true :=
    List.all_eq_true.mp h.ordinals m.keyRole (by cases m.keyRole <;> simp)
  have hordinals : ((g.membersOf m.keyRole).map RelationMember.compositeOrdinal).Nodup := by
    have hsorted := of_decide_eq_true hcontiguous
    rw [← (List.perm_insertionSort (· ≤ ·) _).nodup_iff, hsorted]
    exact List.nodup_range.map fun _ _ => Nat.succ.inj
  have hmem : m ∈ g.membersOf m.keyRole := List.mem_filter.mpr ⟨hm, by simp⟩
  have hmem' : m' ∈ g.membersOf m.keyRole := List.mem_filter.mpr ⟨hm', by simp [hrole]⟩
  exact List.inj_on_of_nodup_map hordinals hmem hmem' hordinal

/-- A group's constructor looks at its table paths only to tell the members apart. -/
theorem GroupBuilt.respelled {g : RelationGroup χ} (h : GroupBuilt g) (hf : Function.Injective f) :
    GroupBuilt (g.respelled f) := by
  have hof : ∀ role, (g.respelled f).membersOf role = (g.membersOf role).map (RelationMember.respelled f) := by
    intro role
    exact List.filter_map ..
  have hroles : (g.respelled f).roles = g.roles := List.map_map ..
  refine ⟨h.relationId, ?_, h.sourceDigest, ?_, ?_, ?_, ?_, ?_, ?_, ?_⟩
  · exact fun hnil => h.nonempty (List.map_eq_nil_iff.mp hnil)
  · have hidentities : (g.members.map (RelationMember.respelled f)).map RelationMember.identity =
        (g.members.map RelationMember.identity).map (Prod.map f id) := by
      rw [List.map_map, List.map_map]
      rfl
    show ((g.members.map (RelationMember.respelled f)).map RelationMember.identity).Nodup
    rw [hidentities]
    exact h.distinct.map (hf.prodMap Function.injective_id)
  · have hany : (g.members.map (RelationMember.respelled f)).any RelationMember.isNumericMember =
        g.members.any RelationMember.isNumericMember := List.any_map ..
    show ¬ (g.numericStrategy = .reversibleBijective ∧
      ¬ (g.members.map (RelationMember.respelled f)).any RelationMember.isNumericMember)
    rw [hany]
    exact h.strategy
  · rw [hroles]
    exact h.unambiguous
  · rw [hroles]
    exact h.parent
  · rw [hroles]
    exact h.foreign
  · have hcontiguous : ∀ role, (g.respelled f).ordinalsContiguous role = g.ordinalsContiguous role := by
      intro role
      rw [RelationGroup.ordinalsContiguous, RelationGroup.ordinalsContiguous, hof, List.map_map]
      rfl
    rw [funext hcontiguous]
    exact h.ordinals
  · have hcount : (g.respelled f).parentCount = g.parentCount := by
      show ((g.members.map (RelationMember.respelled f)).filter _).length = _
      rw [List.filter_map, List.length_map]
      rfl
    rw [hcount, hof, List.length_map]
    exact h.arity

section Bytes
variable [TextChar χ]

theorem rel_dumps_refl (v : Option (Json χ)) : Option.Rel (fun v w => v.dumps = w.dumps) v v := by
  cases v with
  | none => exact .none
  | some v => exact .some rfl

variable [LinearOrder χ] (hf : ∀ path, Json.quote (f path) = Json.quote path)
include hf

omit [LinearOrder χ] in
theorem dumps_member_respelled (m : RelationMember χ) :
    (entriesJson (m.respelled f).toDict).dumps = (entriesJson m.toDict).dumps := by
  apply dumps_entriesJson_congr
  have htable : Option.Rel (fun v w : Json χ => v.dumps = w.dumps) (some (.str (f m.tablePath))) (some (.str m.tablePath)) :=
    .some (hf m.tablePath)
  exact .cons ⟨rfl, htable⟩ (List.forall₂_same.mpr fun e _ => ⟨rfl, rel_dumps_refl e.2⟩)

theorem dumps_group_respelled {g : RelationGroup χ} (h : (g.members.map RelationMember.place).Nodup) :
    (entriesJson (g.respelled f).toDict).dumps = (entriesJson g.toDict).dumps := by
  let coarse : RelationMember χ → Text ×ₗ ℕ := fun m => toLex (Vocabulary.value m.keyRole, m.compositeOrdinal)
  have hcoarse : ∀ m m' : RelationMember χ, m.sortKey ≤ m'.sortKey → coarse m ≤ coarse m' := by
    intro m m' hle
    have hle' := Prod.Lex.toLex_le_toLex.mp hle
    apply Prod.Lex.toLex_le_toLex.mpr
    rcases hle' with hlt | ⟨heq, hrest⟩
    · exact Or.inl hlt
    · rcases Prod.Lex.toLex_le_toLex.mp hrest with hlt | ⟨heq', -⟩
      · exact Or.inr ⟨heq, hlt.le⟩
      · exact Or.inr ⟨heq, heq'.le⟩
  have hnodup : (g.members.map coarse).Nodup := by
    apply nodup_map_of_determines h
    intro m m' heq
    obtain ⟨hrole, hordinal⟩ := Prod.mk.inj (toLex.injective heq)
    exact Prod.ext (Vocabulary.injective hrole) hordinal
  have hnodup' : ((g.members.map (RelationMember.respelled f)).map coarse).Nodup := by
    rw [List.map_map]
    exact hnodup
  have hsorted : List.Forall₂ (fun m' m => m' = m.respelled f)
      (sortedBy RelationMember.sortKey (g.members.map (RelationMember.respelled f)))
      (sortedBy RelationMember.sortKey g.members) := by
    rw [sortedBy_eq_of_coarser _ hcoarse hnodup, sortedBy_eq_of_coarser _ hcoarse hnodup']
    apply forall₂_sortedBy coarse
    · intro m' m heq
      rw [heq]
      rfl
    · rw [List.forall₂_map_left_iff, List.forall₂_same]
      exact fun _ _ => rfl
  have hmembers : (Json.arr ((sortedBy RelationMember.sortKey (g.members.map (RelationMember.respelled f))).map
      fun m => entriesJson m.toDict)).dumps =
        (Json.arr ((sortedBy RelationMember.sortKey g.members).map fun m => entriesJson m.toDict)).dumps := by
    apply Json.dumps_arr_congr
    rw [List.forall₂_map_left_iff, List.forall₂_map_right_iff]
    apply hsorted.imp
    intro m' m heq
    rw [heq]
    exact dumps_member_respelled hf m
  apply dumps_entriesJson_congr
  have hrefl : ∀ v : Option (Json χ), Option.Rel (fun v w => v.dumps = w.dumps) v v := rel_dumps_refl
  exact .cons ⟨rfl, hrefl _⟩ (.cons ⟨rfl, hrefl _⟩ (.cons ⟨rfl, hrefl _⟩ (.cons ⟨rfl, hrefl _⟩ (.cons ⟨rfl, hrefl _⟩
    (.cons ⟨rfl, .some hmembers⟩ (.cons ⟨rfl, hrefl _⟩ (.cons ⟨rfl, hrefl _⟩ .nil)))))))

/-- A spelling that is quoted alike leaves the canonical bytes as they are. -/
theorem canonicalRelationshipBytes_respelled {d : RelationshipDocument χ}
    (h : ∀ g ∈ d.groups, (g.members.map RelationMember.place).Nodup) :
    canonicalRelationshipBytes (d.respelled f) = canonicalRelationshipBytes d := by
  have hsorted : List.Forall₂ (fun g' g => g' = g.respelled f ∧ g ∈ d.groups)
      (sortedBy RelationGroup.relationId (d.groups.map (RelationGroup.respelled f)))
      (sortedBy RelationGroup.relationId d.groups) := by
    apply forall₂_sortedBy RelationGroup.relationId
    · intro g' g hsame
      rw [hsame.1]
      rfl
    · rw [List.forall₂_map_left_iff, List.forall₂_same]
      exact fun g hg => ⟨rfl, hg⟩
  have hgroups : (Json.arr ((sortedBy RelationGroup.relationId (d.groups.map (RelationGroup.respelled f))).map
      fun g => entriesJson g.toDict)).dumps =
        (Json.arr ((sortedBy RelationGroup.relationId d.groups).map fun g => entriesJson g.toDict)).dumps := by
    apply Json.dumps_arr_congr
    rw [List.forall₂_map_left_iff, List.forall₂_map_right_iff]
    apply hsorted.imp
    intro g' g hsame
    rw [hsame.1]
    exact dumps_group_respelled hf (h g hsame.2)
  have hrefl : ∀ v : Option (Json χ), Option.Rel (fun v w => v.dumps = w.dumps) v v := rel_dumps_refl
  have hdocument : (entriesJson (d.respelled f).toDict).dumps = (entriesJson d.toDict).dumps := by
    apply dumps_entriesJson_congr
    exact .cons ⟨rfl, hrefl _⟩ (.cons ⟨rfl, .some hgroups⟩ (.cons ⟨rfl, hrefl _⟩ (.cons ⟨rfl, hrefl _⟩ (.cons ⟨rfl, hrefl _⟩
      (.cons ⟨rfl, hrefl _⟩ .nil)))))
  rw [canonicalRelationshipBytes, canonicalRelationshipBytes, hdocument]

end Bytes

theorem SameDocument.mem_tablePaths {d d' : RelationshipDocument χ} (h : SameDocument d d') {path : List χ}
    (hpath : path ∈ d'.tablePaths) : path ∈ d.tablePaths := by
  obtain ⟨g', hg', hmem⟩ := List.mem_flatMap.mp hpath
  obtain ⟨m, hm, rfl⟩ := List.mem_map.mp hmem
  obtain ⟨listed, hperm, hlisted⟩ := h.groups
  obtain ⟨g, hg, hgroup⟩ := exists_of_forall₂_right hlisted hg'
  exact List.mem_flatMap.mpr ⟨g, hperm.mem_iff.mpr hg, List.mem_map_of_mem (hgroup.members.mem_iff.mpr hm)⟩

theorem distinctDocument_respelled [TextChar χ] [DecidableEq χ] {payload : Json χ} {d : RelationshipDocument χ}
    (h : parseRelationshipDocument payload = .ok d) (f : List χ → List χ) : DistinctDocument (d.respelled f) := by
  have hdistinct := distinctDocument_of_parsed h
  obtain ⟨envelope, groups, rfl⟩ := hdistinct.envelope
  refine ⟨?_, ?_, hdistinct.claimIds, hdistinct.tagNames, envelope, groups.map (RelationGroup.respelled f), rfl⟩
  · show ((groups.map (RelationGroup.respelled f)).map RelationGroup.relationId).Nodup
    rw [List.map_map]
    exact hdistinct.relationIds
  · intro g' hg'
    obtain ⟨g, hg, rfl⟩ := List.mem_map.mp hg'
    have hplaces : (g.members.map (RelationMember.place ∘ RelationMember.respelled f)).Nodup :=
      (groupBuilt_of_parsed h hg).nodup_places
    rw [← List.map_map] at hplaces
    apply nodup_map_of_determines hplaces
    intro m m' heq
    have hkey : (Vocabulary.value m.keyRole, m.compositeOrdinal, m.tablePath, m.fieldName) =
        (Vocabulary.value m'.keyRole, m'.compositeOrdinal, m'.tablePath, m'.fieldName) := heq
    simp only [Prod.mk.injEq] at hkey
    exact Prod.ext (Vocabulary.injective hkey.1) hkey.2.1

theorem not_sameDocument_respelled {d : RelationshipDocument χ} (h : (d.groups.map RelationGroup.relationId).Nodup)
    (hplaces : ∀ g ∈ d.groups, (g.members.map RelationMember.place).Nodup) {path : List χ} (hpath : path ∈ d.tablePaths)
    (hne : f path ≠ path) : ¬ SameDocument d (d.respelled f) := by
  intro hsame
  obtain ⟨g, hg, hmem⟩ := List.mem_flatMap.mp hpath
  obtain ⟨m, hm, rfl⟩ := List.mem_map.mp hmem
  obtain ⟨listed, hperm, hlisted⟩ := hsame.groups
  have hrespelled : g.respelled f ∈ (d.respelled f).groups := List.mem_map_of_mem hg
  obtain ⟨g', hg', hgroup⟩ := exists_of_forall₂_right hlisted hrespelled
  have hid : g'.relationId = g.relationId := hgroup.relationId
  obtain rfl : g' = g := List.inj_on_of_nodup_map h (hperm.mem_iff.mpr hg') hg hid
  have hmember : m ∈ g'.members.map (RelationMember.respelled f) := hgroup.members.mem_iff.mp hm
  obtain ⟨m', hm', heq⟩ := List.mem_map.mp hmember
  have hplace : m'.place = m.place := by
    rw [← heq]
    rfl
  obtain rfl : m' = m := List.inj_on_of_nodup_map (hplaces g' hg) hm' hm hplace
  exact hne (congrArg RelationMember.tablePath heq)

section Parser
variable [TextChar χ] [DecidableEq χ]

theorem parseMember_respelled {item : Json χ} {m : RelationMember χ} (h : parseMember false item = .ok m)
    (hpath : TablePath (f m.tablePath)) : ∃ item', parseMember false item' = .ok (m.respelled f) := by
  obtain ⟨pairs, rfl, haccepted⟩ := parseMember_eq_ok.mp h
  obtain ⟨path, -, hbuilt⟩ := haccepted.built
  let raw : List χ := f m.tablePath ++ [(TextChar.ofChar '/' : χ)]
  let table : Json χ := .str raw
  have hread : ∀ other : String, other ≠ "table" → valueOrNull (replaceAt pairs "table" table) other = valueOrNull pairs other :=
    fun other hne => valueOrNull_replaceAt_ne pairs "table" table hne
  have htable : memberTable false (valueOrNull (replaceAt pairs "table" table) "table") = .ok raw := by
    rw [valueOrNull_replaceAt_self _ haccepted.allKeys (by simp [memberKeys])]
    rfl
  have hraw : rawMember (replaceAt pairs "table" table) raw m.keyRole m.dbfType m.nullable =
      { rawMember pairs path m.keyRole m.dbfType m.nullable with tablePath := raw } := by
    simp only [rawMember, hread "field" (by decide), hread "ordinal" (by decide), hread "byte_width" (by decide),
      hread "encoding" (by decide)]
  refine ⟨.obj (replaceAt pairs "table" table), parseMember_eq_ok.mpr ⟨_, rfl, ?_⟩⟩
  refine ⟨by rw [hasOnlyKeys_replaceAt, haccepted.onlyKeys], by rw [hasAllKeys_replaceAt, haccepted.allKeys],
    ?_, ?_, ?_, _, htable, ?_⟩
  · rw [hread "role" (by decide)]
    exact haccepted.keyRole
  · rw [hread "dbf_type" (by decide)]
    exact haccepted.dbfType
  · rw [hread "nullable" (by decide)]
    exact haccepted.nullable
  · have hkept := hbuilt.kept
    show MemberBuilt (rawMember (replaceAt pairs "table" table) _ m.keyRole m.dbfType m.nullable) (m.respelled f)
    rw [hraw]
    refine ⟨normalizeRelativeTablePath_eq_ok.mpr hpath.accepted, hbuilt.fieldName, hbuilt.ordinal, hbuilt.byteWidth,
      hbuilt.encoding, hbuilt.shape, ?_⟩
    exact congrArg (RelationMember.respelled f) hkept

theorem parseGroup_respelled {item : Json χ} {g : RelationGroup χ} (h : parseGroup false item = .ok g)
    (hf : Function.Injective f) (hpaths : ∀ m ∈ g.members, TablePath (f m.tablePath)) :
    ∃ item', parseGroup false item' = .ok (g.respelled f) := by
  obtain ⟨pairs, rfl, haccepted⟩ := parseGroup_eq_ok.mp h
  obtain ⟨items, -, hne, hlen, hitems⟩ := parseMembers_eq_ok.mp haccepted.members
  have hmembers : ∀ m' ∈ g.members.map (RelationMember.respelled f), ∃ item', parseMember false item' = .ok m' := by
    intro m' hm'
    obtain ⟨m, hm, rfl⟩ := List.mem_map.mp hm'
    obtain ⟨item, -, hitem⟩ := exists_of_forall₂_right hitems hm
    exact parseMember_respelled hitem (hpaths m hm)
  obtain ⟨items', hitems'⟩ := exists_forall₂ hmembers
  have hlength : items'.length = items.length := by
    rw [hitems'.length_eq, List.length_map, hitems.length_eq]
  have hread : ∀ other : String, other ≠ "members" →
      valueOrNull (replaceAt pairs "members" (.arr items')) other = valueOrNull pairs other :=
    fun other hne => valueOrNull_replaceAt_ne pairs "members" _ hne
  refine ⟨.obj (replaceAt pairs "members" (.arr items')), parseGroup_eq_ok.mpr ⟨_, rfl, ?_⟩⟩
  refine ⟨by rw [hasOnlyKeys_replaceAt, haccepted.onlyKeys], by rw [hasAllKeys_replaceAt, haccepted.allKeys],
    ?_, ?_, ?_, ?_, ?_, ?_, ?_, ?_⟩
  · rw [hread "relation_id" (by decide)]
    exact haccepted.relationId
  · rw [hread "comparison" (by decide)]
    exact haccepted.comparison
  · rw [hread "provenance" (by decide)]
    exact haccepted.provenance
  · rw [hread "numeric_strategy" (by decide)]
    exact haccepted.numericStrategy
  · rw [valueOrNull_replaceAt_self _ haccepted.allKeys (by simp [requiredGroupKeys])]
    have hnonempty : items'.isEmpty = false := by
      rw [List.isEmpty_eq_false_iff, ← List.length_pos_iff, hlength, List.length_pos_iff, ← List.isEmpty_eq_false_iff]
      exact hne
    exact parseMembers_eq_ok.mpr ⟨items', rfl, hnonempty, hlength ▸ hlen, hitems'⟩
  · rw [hread "source_digest" (by decide)]
    exact haccepted.sourceDigest
  · obtain ⟨claim, hclaim, hassurance, hauthority⟩ := haccepted.claim
    obtain ⟨habsent, hnone⟩ := parseClaimFacts_plain.mp hclaim
    refine ⟨claim, parseClaimFacts_plain.mpr ⟨?_, hnone⟩, hassurance, hauthority⟩
    rw [valueAt_replaceAt_ne pairs "members" _ (by decide)]
    exact habsent
  · exact groupBuilt_iff.mpr ((groupBuilt_iff.mp haccepted.built).respelled hf)

/-- A document without an envelope is parsed with other table paths too, as long as they are told apart. -/
theorem exists_payload_respelled {pairs : List (Text × Json χ)} {groups : List (RelationGroup χ)}
    (h : DocumentAccepted pairs none groups) (hf : Function.Injective f)
    (hpaths : ∀ g ∈ groups, ∀ m ∈ g.members, TablePath (f m.tablePath)) : ∃ payload : Json χ,
      parseRelationshipDocument payload = .ok ((ExternalEnvelope.document none groups).respelled f) := by
  obtain ⟨items, -, hlen, hitems⟩ := parseRelations_eq_ok.mp h.groups_read
  have hgroups : ∀ g' ∈ groups.map (RelationGroup.respelled f), ∃ item', parseGroup false item' = .ok g' := by
    intro g' hg'
    obtain ⟨g, hg, rfl⟩ := List.mem_map.mp hg'
    obtain ⟨item, -, hitem⟩ := exists_of_forall₂_right hitems hg
    exact parseGroup_respelled hitem hf (hpaths g hg)
  obtain ⟨items', hitems'⟩ := exists_forall₂ hgroups
  have hlength : items'.length = items.length := by
    rw [hitems'.length_eq, List.length_map, hitems.length_eq]
  refine ⟨.obj (replaceAt pairs "relations" (.arr items')), parseRelationshipDocument_eq_ok.mpr
    ⟨_, none, groups.map (RelationGroup.respelled f), rfl, ?_, rfl⟩⟩
  refine ⟨by rw [hasOnlyKeys_replaceAt, h.onlyKeys], by rw [hasAllKeys_replaceAt, h.allKeys], ?_, ?_, ?_, ?_⟩
  · rw [valueOrNull_replaceAt_ne pairs "relations" _ (by decide)]
    exact h.version
  · have habsent := parseEnvelope_eq_none.mp h.envelope_read
    apply parseEnvelope_eq_none.mpr
    rw [List.all_eq_true] at habsent ⊢
    intro key hkey
    have hother : key ≠ "relations" := by
      rintro rfl
      exact absurd hkey (by decide)
    rw [valueAt_replaceAt_ne pairs "relations" _ hother]
    exact habsent key hkey
  · rw [valueOrNull_replaceAt_self _ h.allKeys (by simp [documentKeys])]
    exact parseRelations_eq_ok.mpr ⟨items', rfl, hlength ▸ hlen, hitems'⟩
  · rw [List.map_map]
    exact h.relationIds

end Parser

end DbfAnonymizer.Relationships
