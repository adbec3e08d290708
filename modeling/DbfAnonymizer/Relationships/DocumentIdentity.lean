import DbfAnonymizer.Engine.KeyIdentity
import DbfAnonymizer.Relationships.DocumentParsing

/-! The canonical bytes of parsed documents agree exactly when the documents do, up to the order of their lists. -/
namespace DbfAnonymizer.Relationships
open Lib
open Engine (asciiBytes asciiBytes_inj)

variable {χ : Type} [TextChar χ]

/-- The distinct keys of the lists of a parsed document, and its envelope: whole or absent. -/
structure DistinctDocument (d : RelationshipDocument χ) : Prop where
  relationIds : (d.groups.map RelationGroup.relationId).Nodup
  members : ∀ g ∈ d.groups, (g.members.map RelationMember.sortKey).Nodup
  claimIds : (d.indexClaims.map ExternalIndexClaim.claimId).Nodup
  tagNames : ∀ c ∈ d.indexClaims, (c.tags.map ExternalIndexTag.upperName).Nodup
  envelope : ∃ envelope groups, d = ExternalEnvelope.document envelope groups

theorem postInit_of_parsed [DecidableEq χ] {pairs : List (Text × Json χ)} {envelope : Option ExternalEnvelope}
    {groups : List (RelationGroup χ)}
    (h : DocumentAccepted pairs envelope groups) {g : RelationGroup χ} (hg : g ∈ groups) : g.postInit = .ok () := by
  obtain ⟨items, -, -, hitems⟩ := parseRelations_eq_ok.mp h.groups_read
  obtain ⟨item, -, hitem⟩ := exists_of_forall₂_right hitems hg
  obtain ⟨_, -, haccepted⟩ := parseGroup_eq_ok.mp hitem
  exact haccepted.built

theorem distinct_indexClaims {v : Option (Json χ)} {claims : List ExternalIndexClaim} (h : envelopeClaims v = .ok claims) :
    (claims.map ExternalIndexClaim.claimId).Nodup ∧ ∀ c ∈ claims, (c.tags.map ExternalIndexTag.upperName).Nodup := by
  rcases (envelopeClaims_eq_ok.mp h).1 with ⟨-, rfl⟩ | ⟨w, -, hparsed⟩
  · exact ⟨List.nodup_nil, by simp⟩
  · obtain ⟨items, -, -, hitems, hids⟩ := parseIndexClaims_eq_ok.mp hparsed
    refine ⟨hids, fun c hc => ?_⟩
    obtain ⟨item, -, hitem⟩ := exists_of_forall₂_right hitems hc
    obtain ⟨-, _, -, haccepted⟩ := parseIndexClaim_eq_ok.mp hitem
    obtain ⟨_, -, -, -, -, hnames⟩ := parseIndexTags_eq_ok.mp haccepted.tags
    exact hnames

omit [TextChar χ] in
theorem nodup_memberKeys {members : List (RelationMember χ)} (h : (members.map RelationMember.identity).Nodup) :
    (members.map RelationMember.sortKey).Nodup := by
  apply nodup_map_of_determines h
  intro m m' heq
  have hkey : (Vocabulary.value m.keyRole, m.compositeOrdinal, m.tablePath, m.fieldName) =
      (Vocabulary.value m'.keyRole, m'.compositeOrdinal, m'.tablePath, m'.fieldName) := heq
  simp only [Prod.mk.injEq] at hkey
  obtain ⟨hrole, -, htable, hfield⟩ := hkey
  rw [RelationMember.identity, RelationMember.identity, htable, hfield, Vocabulary.injective hrole]

theorem groupBuilt_of_parsed [DecidableEq χ] {v : Json χ} {d : RelationshipDocument χ} (h : parseRelationshipDocument v = .ok d)
    {g : RelationGroup χ} (hg : g ∈ d.groups) : GroupBuilt g := by
  obtain ⟨pairs, envelope, groups, -, haccepted, rfl⟩ := parseRelationshipDocument_eq_ok.mp h
  exact groupBuilt_iff.mp (postInit_of_parsed haccepted hg)

theorem distinctDocument_of_parsed [DecidableEq χ] {v : Json χ} {d : RelationshipDocument χ}
    (h : parseRelationshipDocument v = .ok d) :
    DistinctDocument d := by
  obtain ⟨pairs, envelope, groups, -, haccepted, rfl⟩ := parseRelationshipDocument_eq_ok.mp h
  have hclaims : ((ExternalEnvelope.document envelope groups).indexClaims.map ExternalIndexClaim.claimId).Nodup ∧
      ∀ c ∈ (ExternalEnvelope.document envelope groups).indexClaims, (c.tags.map ExternalIndexTag.upperName).Nodup := by
    cases envelope with
    | none => exact ⟨List.nodup_nil, fun c hc => absurd hc List.not_mem_nil⟩
    | some envelope => exact distinct_indexClaims (parseEnvelope_eq_some.mp haccepted.envelope_read).indexClaims
  exact ⟨haccepted.relationIds, fun g hg => nodup_memberKeys (groupBuilt_of_parsed h hg).distinct, hclaims.1, hclaims.2,
    envelope, groups, rfl⟩

structure SameGroup (g g' : RelationGroup χ) : Prop where
  relationId : g.relationId = g'.relationId
  comparison : g.comparison = g'.comparison
  provenance : g.provenance = g'.provenance
  sourceDigest : g.sourceDigest = g'.sourceDigest
  numericStrategy : g.numericStrategy = g'.numericStrategy
  claimAssurance : g.claimAssurance = g'.claimAssurance
  claimAuthority : g.claimAuthority = g'.claimAuthority
  members : g.members.Perm g'.members

structure SameIndexClaim (c c' : ExternalIndexClaim) : Prop where
  claimId : c.claimId = c'.claimId
  tablePath : c.tablePath = c'.tablePath
  indexFilePath : c.indexFilePath = c'.indexFilePath
  indexKind : c.indexKind = c'.indexKind
  verificationState : c.verificationState = c'.verificationState
  assurance : c.assurance = c'.assurance
  provenance : c.provenance = c'.provenance
  authority : c.authority = c'.authority
  tags : c.tags.Perm c'.tags

/-- The same items in some order, where items may list their own parts in some order. -/
def SameUpToOrder {α : Type} (R : α → α → Prop) (items items' : List α) : Prop :=
  ∃ listed, items.Perm listed ∧ List.Forall₂ R listed items'

structure SameDocument (d d' : RelationshipDocument χ) : Prop where
  externalMetadataSchemaVersion : d.externalMetadataSchemaVersion = d'.externalMetadataSchemaVersion
  producerId : d.producerId = d'.producerId
  producerVersion : d.producerVersion = d'.producerVersion
  externalAuthority : d.externalAuthority = d'.externalAuthority
  groups : SameUpToOrder SameGroup d.groups d'.groups
  indexClaims : SameUpToOrder SameIndexClaim d.indexClaims d'.indexClaims

theorem sameUpToOrder_eq {α : Type} {items items' : List α} : SameUpToOrder Eq items items' ↔ items.Perm items' := by
  constructor
  · intro h
    obtain ⟨listed, hperm, hlisted⟩ := h
    rw [List.forall₂_eq_eq_eq] at hlisted
    exact hlisted ▸ hperm
  · intro h
    exact ⟨items', h, List.forall₂_same.mpr fun _ _ => rfl⟩

theorem memberJson_inj {m m' : RelationMember χ} : entriesJson m.toDict = entriesJson m'.toDict ↔ m = m' := by
  constructor
  · intro h
    have hentries := entriesJson_inj (show m.toDict.map (·.1) = m'.toDict.map (·.1) from rfl) (by simp [RelationMember.toDict]) h
    cases m
    cases m'
    simpa [RelationMember.toDict] using hentries
  · intro h
    rw [h]

theorem membersJson_eq_iff [LinearOrder χ] {members members' : List (RelationMember χ)}
    (h : (members.map RelationMember.sortKey).Nodup) :
    (sortedBy RelationMember.sortKey members).map (fun m => entriesJson m.toDict) =
      (sortedBy RelationMember.sortKey members').map (fun m => entriesJson m.toDict) ↔ members.Perm members' := by
  rw [map_sortedBy_eq_iff RelationMember.sortKey h (fun m _ m' _ => memberJson_inj)
    (fun m m' heq => congrArg RelationMember.sortKey heq)]
  exact sameUpToOrder_eq

theorem optionalTextJson_inj {s s' : Option Text} :
    ((s.map Json.plain).getD .null : Json χ) = (s'.map Json.plain).getD .null ↔ s = s' := by
  cases s <;> cases s' <;> simp [Json.plain]

theorem groupJson_eq_iff [LinearOrder χ] {g g' : RelationGroup χ} (h : (g.members.map RelationMember.sortKey).Nodup) :
    entriesJson g.toDict = entriesJson g'.toDict ↔ SameGroup g g' := by
  constructor
  · intro heq
    have hentries := entriesJson_inj (show g.toDict.map (·.1) = g'.toDict.map (·.1) from rfl) (by simp [RelationGroup.toDict]) heq
    simp only [RelationGroup.toDict, List.cons.injEq, Prod.mk.injEq, true_and, and_true, Option.some.injEq,
      Json.arr.injEq, Json.plain_inj, Vocabulary.toJson_inj, Vocabulary.map_toJson_inj, optionalTextJson_inj,
      membersJson_eq_iff h] at hentries
    obtain ⟨hid, hcomparison, hprovenance, hdigest, hstrategy, hmembers, hassurance, hauthority⟩ := hentries
    exact ⟨hid, hcomparison, hprovenance, hdigest, hstrategy, hassurance, hauthority, hmembers⟩
  · intro hsame
    have hdict : g.toDict = g'.toDict := by
      rw [RelationGroup.toDict, RelationGroup.toDict, (membersJson_eq_iff h).mpr hsame.members, hsame.relationId,
        hsame.comparison, hsame.provenance, hsame.sourceDigest, hsame.numericStrategy, hsame.claimAssurance, hsame.claimAuthority]
    rw [hdict]

theorem tagJson_inj {t t' : ExternalIndexTag} : (entriesJson t.toDict : Json χ) = entriesJson t'.toDict ↔ t = t' := by
  constructor
  · intro h
    have hkeys : (t.toDict : List (String × Option (Json χ))).map (·.1) = t'.toDict.map (·.1) := rfl
    have hentries := entriesJson_inj hkeys (by simp [ExternalIndexTag.toDict]) h
    cases t
    cases t'
    simpa [ExternalIndexTag.toDict] using hentries
  · intro h
    rw [h]

theorem tagsJson_eq_iff {tags tags' : List ExternalIndexTag} (h : (tags.map ExternalIndexTag.upperName).Nodup) :
    (sortedBy ExternalIndexTag.sortKey tags).map (fun t => (entriesJson t.toDict : Json χ)) =
      (sortedBy ExternalIndexTag.sortKey tags').map (fun t => (entriesJson t.toDict : Json χ)) ↔ tags.Perm tags' := by
  have hkeys : (tags.map ExternalIndexTag.sortKey).Nodup := by
    apply nodup_map_of_determines h
    intro t t' heq
    exact congrArg (fun key => (ofLex key).1) heq
  rw [map_sortedBy_eq_iff ExternalIndexTag.sortKey hkeys (fun t _ t' _ => tagJson_inj)
    (fun t t' heq => congrArg ExternalIndexTag.sortKey heq)]
  exact sameUpToOrder_eq

theorem indexClaimJson_eq_iff {c c' : ExternalIndexClaim} (h : (c.tags.map ExternalIndexTag.upperName).Nodup) :
    (entriesJson c.toDict : Json χ) = entriesJson c'.toDict ↔ SameIndexClaim c c' := by
  constructor
  · intro heq
    have hkeys : (c.toDict : List (String × Option (Json χ))).map (·.1) = c'.toDict.map (·.1) := rfl
    have hentries := entriesJson_inj hkeys (by simp [ExternalIndexClaim.toDict]) heq
    simp only [ExternalIndexClaim.toDict, List.cons.injEq, Prod.mk.injEq, true_and, and_true, Option.some.injEq,
      Json.arr.injEq, Json.plain_inj, Vocabulary.toJson_inj, @tagsJson_eq_iff χ _ _ _ h] at hentries
    obtain ⟨hid, htable, hfile, hkind, htags, hstate, hassurance, hprovenance, hauthority⟩ := hentries
    exact ⟨hid, htable, hfile, hkind, hstate, hassurance, hprovenance, hauthority, htags⟩
  · intro hsame
    have hdict : (c.toDict : List (String × Option (Json χ))) = c'.toDict := by
      rw [ExternalIndexClaim.toDict, ExternalIndexClaim.toDict, (tagsJson_eq_iff h).mpr hsame.tags, hsame.claimId,
        hsame.tablePath, hsame.indexFilePath, hsame.indexKind, hsame.verificationState, hsame.assurance, hsame.provenance,
        hsame.authority]
    rw [hdict]

variable {d d' : RelationshipDocument χ}

theorem relationsJson_eq_iff [LinearOrder χ] (h : DistinctDocument d) :
    (sortedBy RelationGroup.relationId d.groups).map (fun g => entriesJson g.toDict) =
      (sortedBy RelationGroup.relationId d'.groups).map (fun g => entriesJson g.toDict) ↔
        SameUpToOrder SameGroup d.groups d'.groups :=
  map_sortedBy_eq_iff RelationGroup.relationId h.relationIds (fun g hg _ _ => groupJson_eq_iff (h.members g hg))
    (fun _ _ hsame => hsame.relationId)

theorem sameUpToOrder_nil {α : Type} {R : α → α → Prop} {items : List α} : SameUpToOrder R [] items ↔ items = [] := by
  constructor
  · intro h
    obtain ⟨listed, hperm, hlisted⟩ := h
    rw [List.nil_perm.mp hperm] at hlisted
    exact List.forall₂_nil_left_iff.mp hlisted
  · intro h
    rw [h]
    exact ⟨[], .nil, .nil⟩

theorem sameUpToOrder_nil_right {α : Type} {R : α → α → Prop} {items : List α} : SameUpToOrder R items [] ↔ items = [] := by
  constructor
  · intro h
    obtain ⟨listed, hperm, hlisted⟩ := h
    rw [List.forall₂_nil_right_iff.mp hlisted] at hperm
    exact List.perm_nil.mp hperm
  · intro h
    rw [h]
    exact ⟨[], .nil, .nil⟩

theorem indexClaimsJson_eq_iff (h : DistinctDocument d) :
    d.indexClaimsJson = d'.indexClaimsJson ↔ SameUpToOrder SameIndexClaim d.indexClaims d'.indexClaims := by
  unfold RelationshipDocument.indexClaimsJson
  by_cases hd : d.indexClaims = []
  · rw [if_pos hd, hd, sameUpToOrder_nil]
    split_ifs with hd' <;> simp [hd']
  · rw [if_neg hd]
    by_cases hd' : d'.indexClaims = []
    · rw [if_pos hd', hd', sameUpToOrder_nil_right]
      simp [hd]
    · rw [if_neg hd', Option.some.injEq, Json.arr.injEq]
      exact map_sortedBy_eq_iff ExternalIndexClaim.claimId h.claimIds (fun c hc _ _ => indexClaimJson_eq_iff (h.tagNames c hc))
        (fun _ _ hsame => hsame.claimId)

/-- Producer id and version are there together, so the producer object determines both. -/
theorem producerJson_eq_iff (h : DistinctDocument d) (h' : ∃ envelope groups, d' = ExternalEnvelope.document envelope groups) :
    d.producerJson = d'.producerJson ↔ d.producerId = d'.producerId ∧ d.producerVersion = d'.producerVersion := by
  obtain ⟨envelope, groups, rfl⟩ := h.envelope
  obtain ⟨envelope', groups', rfl⟩ := h'
  have hobject : ∀ e e' : ExternalEnvelope,
      (entriesJson [("producer_id", some (.plain e.producer.producerId)),
        ("producer_version", some (.plain e.producer.producerVersion))] : Json χ) =
        entriesJson [("producer_id", some (.plain e'.producer.producerId)),
          ("producer_version", some (.plain e'.producer.producerVersion))] ↔
          e.producer.producerId = e'.producer.producerId ∧ e.producer.producerVersion = e'.producer.producerVersion := by
    intro e e'
    constructor
    · intro heq
      have hentries := entriesJson_inj (by simp) (by simp) heq
      simpa using hentries
    · intro heq
      rw [heq.1, heq.2]
  cases envelope <;> cases envelope' <;>
    simp [RelationshipDocument.producerJson, ExternalEnvelope.document, hobject]

theorem documentJson_eq_iff [LinearOrder χ] (h : DistinctDocument d)
    (h' : ∃ envelope groups, d' = ExternalEnvelope.document envelope groups) :
    entriesJson d.toDict = entriesJson d'.toDict ↔ SameDocument d d' := by
  constructor
  · intro heq
    have hentries := entriesJson_inj (show d.toDict.map (·.1) = d'.toDict.map (·.1) from rfl)
      (by simp [RelationshipDocument.toDict]) heq
    simp only [RelationshipDocument.toDict, List.cons.injEq, Prod.mk.injEq, true_and, and_true, Option.some.injEq,
      Json.arr.injEq, Json.map_plain_inj, Vocabulary.map_toJson_inj, relationsJson_eq_iff h, producerJson_eq_iff h h',
      indexClaimsJson_eq_iff h] at hentries
    obtain ⟨hgroups, hversion, ⟨hid, hproducer⟩, hauthority, hclaims⟩ := hentries
    exact ⟨hversion, hid, hproducer, hauthority, hgroups, hclaims⟩
  · intro hsame
    have hdict : d.toDict = d'.toDict := by
      rw [RelationshipDocument.toDict, RelationshipDocument.toDict, (relationsJson_eq_iff h).mpr hsame.groups,
        (indexClaimsJson_eq_iff h).mpr hsame.indexClaims,
        (producerJson_eq_iff h h').mpr ⟨hsame.producerId, hsame.producerVersion⟩, hsame.externalMetadataSchemaVersion,
        hsame.externalAuthority]
    rw [hdict]

def RelationshipDocument.tablePaths (d : RelationshipDocument χ) : List (List χ) :=
  d.groups.flatMap fun g => g.members.map RelationMember.tablePath

theorem canonicalRelationshipBytes_congr [LinearOrder χ] (h : entriesJson d.toDict = entriesJson d'.toDict) :
    canonicalRelationshipBytes d = canonicalRelationshipBytes d' := by
  rw [canonicalRelationshipBytes, canonicalRelationshipBytes, h]

section Written
variable {T T' : List χ → Prop} (hplain : ∀ s, T (TextChar.ofPlain s))
include hplain

theorem written_member {m : RelationMember χ} (h : T m.tablePath) : Json.Written T (entriesJson m.toDict) := by
  apply written_entriesJson
  intro e he v hv
  simp only [RelationMember.toDict, List.mem_cons, List.not_mem_nil, or_false] at he
  rcases he with rfl | rfl | rfl | rfl | rfl | rfl | rfl | rfl <;> cases hv
  all_goals first | trivial | exact h | exact hplain _

theorem written_group [LinearOrder χ] {g : RelationGroup χ} (h : ∀ m ∈ g.members, T m.tablePath) :
    Json.Written T (entriesJson g.toDict) := by
  apply written_entriesJson
  intro e he v hv
  simp only [RelationGroup.toDict, List.mem_cons, List.not_mem_nil, or_false] at he
  rcases he with rfl | rfl | rfl | rfl | rfl | rfl | rfl | rfl
  · cases hv
    exact hplain _
  · cases hv
    exact hplain _
  · cases hv
    exact hplain _
  · cases hv
    cases g.sourceDigest with
    | none => trivial
    | some digest => exact hplain digest
  · cases hv
    exact hplain _
  · cases hv
    exact written_arr fun m hm => written_member hplain (h m ((mem_sortedBy _).mp hm))
  · obtain ⟨_, -, rfl⟩ := Option.map_eq_some_iff.mp hv
    exact hplain _
  · obtain ⟨_, -, rfl⟩ := Option.map_eq_some_iff.mp hv
    exact hplain _

theorem written_tag (t : ExternalIndexTag) : Json.Written T (entriesJson t.toDict) := by
  apply written_entriesJson
  intro e he v hv
  simp only [ExternalIndexTag.toDict, List.mem_cons, List.not_mem_nil, or_false] at he
  rcases he with rfl | rfl | rfl
  · cases hv
    exact hplain _
  · cases hv
    exact hplain _
  · obtain ⟨_, -, rfl⟩ := Option.map_eq_some_iff.mp hv
    exact hplain _

theorem written_indexClaim (c : ExternalIndexClaim) : Json.Written T (entriesJson c.toDict) := by
  apply written_entriesJson
  intro e he v hv
  simp only [ExternalIndexClaim.toDict, List.mem_cons, List.not_mem_nil, or_false] at he
  rcases he with rfl | rfl | rfl | rfl | rfl | rfl | rfl | rfl | rfl <;> cases hv
  all_goals first | exact hplain _ | exact written_arr fun t _ => written_tag hplain t

theorem written_producer {v : Json χ} (h : d.producerJson = some v) : Json.Written T v := by
  obtain ⟨producerId, -, h⟩ := Option.bind_eq_some_iff.mp h
  obtain ⟨producerVersion, -, h⟩ := Option.bind_eq_some_iff.mp h
  obtain rfl := Option.some.inj h
  apply written_entriesJson
  intro e he v hv
  simp only [List.mem_cons, List.not_mem_nil, or_false] at he
  rcases he with rfl | rfl <;> cases hv <;> exact hplain _

theorem written_document [LinearOrder χ] (h : ∀ path ∈ d.tablePaths, T path) : Json.Written T (entriesJson d.toDict) := by
  have hmembers : ∀ g ∈ d.groups, ∀ m ∈ g.members, T m.tablePath := by
    intro g hg m hm
    exact h m.tablePath (List.mem_flatMap.mpr ⟨g, hg, List.mem_map_of_mem hm⟩)
  apply written_entriesJson
  intro e he v hv
  simp only [RelationshipDocument.toDict, List.mem_cons, List.not_mem_nil, or_false] at he
  rcases he with rfl | rfl | rfl | rfl | rfl | rfl
  · cases hv
    exact hplain _
  · cases hv
    exact written_arr fun g hg => written_group hplain (hmembers g ((mem_sortedBy _).mp hg))
  · obtain ⟨_, -, rfl⟩ := Option.map_eq_some_iff.mp hv
    exact hplain _
  · exact written_producer hplain hv
  · obtain ⟨_, -, rfl⟩ := Option.map_eq_some_iff.mp hv
    exact hplain _
  · have hclaims : d.indexClaimsJson = some v := hv
    unfold RelationshipDocument.indexClaimsJson at hclaims
    split_ifs at hclaims
    obtain rfl := Option.some.inj hclaims
    exact written_arr fun c _ => written_indexClaim hplain c

/-- Documents whose table paths are told apart by their quotations are told apart by their canonical bytes. -/
theorem canonicalRelationshipBytes_inj [LinearOrder χ] (hplain' : ∀ s, T' (TextChar.ofPlain s)) (hquote : Json.QuotedApart T T')
    (h : ∀ path ∈ d.tablePaths, T path) (h' : ∀ path ∈ d'.tablePaths, T' path) :
    canonicalRelationshipBytes d = canonicalRelationshipBytes d' ↔ entriesJson d.toDict = entriesJson d'.toDict := by
  have hwritten := written_document hplain h
  have hwritten' := written_document hplain' h'
  constructor
  · intro heq
    have htext := asciiBytes_inj (Json.asciiText_dumps _ hwritten) (Json.asciiText_dumps _ hwritten') heq
    exact Json.dumps_inj hquote hwritten hwritten' htext
  · exact canonicalRelationshipBytes_congr

end Written

section Listings

def keyMemberPayload (table : List χ) (role : KeyRole) : Json χ :=
  .obj [("table".toList, .str table), ("field".toList, .plain "ID".toList), ("role".toList, Vocabulary.toJson role),
    ("ordinal".toList, .int 1), ("dbf_type".toList, .plain ['I']), ("byte_width".toList, .int 4),
    ("encoding".toList, .plain numericMemberEncoding), ("nullable".toList, .bool false)]

/-- An external document of one verified relation, with its members as they are listed. -/
def listedPayload (members : List (Json χ)) : Json χ :=
  .obj [("metadata_schema_version".toList, .plain ['1', '.', '0']),
    ("external_metadata_schema_version".toList, .plain ['1', '.', '0']),
    ("producer".toList, .obj [("producer_id".toList, .plain ['p']), ("producer_version".toList, .plain ['1'])]),
    ("authority".toList, Vocabulary.toJson ClaimAuthority.contractAuthoritative),
    ("relations".toList, .arr [.obj [("relation_id".toList, .plain ['r']),
      ("provenance".toList, Vocabulary.toJson Provenance.externalVfpMetadata),
      ("comparison".toList, Vocabulary.toJson Comparison.exactValue), ("members".toList, .arr members),
      ("assurance".toList, Vocabulary.toJson ClaimAssurance.verified),
      ("authority".toList, Vocabulary.toJson ClaimAuthority.contractAuthoritative)]])]

def keyMember (tablePath : List χ) (keyRole : KeyRole) : RelationMember χ :=
  ⟨tablePath, ['I', 'D'], keyRole, 1, .i, 4, numericMemberEncoding, false⟩

def listedGroup (members : List (RelationMember χ)) : RelationGroup χ :=
  ⟨['r'], members, .exactValue, .externalVfpMetadata, none, .identity, some .verified, some .contractAuthoritative⟩

def listedDocument (members : List (RelationMember χ)) : RelationshipDocument χ where
  groups := [listedGroup members]
  externalMetadataSchemaVersion := some ['1', '.', '0']
  producerId := some ['p']
  producerVersion := some ['1']
  externalAuthority := some .contractAuthoritative

/-- A document without envelope of one relation, the child in front of the parent. -/
def plainPayload (parent child : List χ) : Json χ :=
  .obj [("metadata_schema_version".toList, .plain ['1', '.', '0']),
    ("relations".toList, .arr [.obj [("relation_id".toList, .plain ['r']),
      ("provenance".toList, Vocabulary.toJson Provenance.policyFile),
      ("comparison".toList, Vocabulary.toJson Comparison.exactValue),
      ("members".toList, .arr [keyMemberPayload child .foreign, keyMemberPayload parent .primary])]])]

def plainDocument (parent child : List χ) : RelationshipDocument χ where
  groups := [⟨['r'], [keyMember child .foreign, keyMember parent .primary], .exactValue, .policyFile, none, .identity, none, none⟩]

end Listings
end DbfAnonymizer.Relationships
