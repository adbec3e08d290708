import DbfAnonymizer.Relationships.Document

/-! What the parser of relationship documents accepts, one reading for each kind of object. -/
namespace DbfAnonymizer.Relationships
open Lib
open Verification (pathSuffix)

variable {χ : Type} [TextChar χ]

structure MemberBuilt [DecidableEq χ] (raw m : RelationMember χ) : Prop where
  tablePath : normalizeRelativeTablePath raw.tablePath = .ok m.tablePath
  fieldName : isBoundedToken raw.fieldName = true
  ordinal : 1 ≤ raw.compositeOrdinal
  byteWidth : 1 ≤ raw.byteWidth
  encoding : if raw.isNumericMember then raw.encoding = numericMemberEncoding else isBoundedToken raw.encoding = true
  shape : raw.isNumericMember = true → raw.validateNumericMemberShape = .ok ()
  kept : m = { raw with
    tablePath := m.tablePath
    encoding := if raw.isNumericMember then raw.encoding else raw.encoding.map Char.toLower }

theorem memberBuilt_iff [DecidableEq χ] {raw m : RelationMember χ} : raw.postInit = .ok m ↔ MemberBuilt raw m := by
  constructor
  · intro h
    obtain ⟨tablePath, hpath, h⟩ := bind_eq_ok.mp h
    obtain ⟨_, hfield, h⟩ := bind_eq_ok.mp h
    obtain ⟨_, hordinal, h⟩ := bind_eq_ok.mp h
    obtain ⟨_, hwidth, h⟩ := bind_eq_ok.mp h
    have hfield' := Bool.of_not_eq_false (refuseIf_eq_ok.mp hfield)
    have hordinal' := not_lt.mp (refuseIf_eq_ok.mp hordinal)
    have hwidth' := not_lt.mp (refuseIf_eq_ok.mp hwidth)
    by_cases hnumeric : raw.isNumericMember = true
    · rw [if_pos hnumeric] at h
      obtain ⟨_, hencoding, h⟩ := bind_eq_ok.mp h
      obtain ⟨_, hshape, h⟩ := bind_eq_ok.mp h
      obtain rfl := Except.ok.inj h
      have hencoding' := not_not.mp (refuseIf_eq_ok.mp hencoding)
      exact ⟨hpath, hfield', hordinal', hwidth', by simpa [hnumeric] using hencoding', fun _ => hshape, by simp [hnumeric]⟩
    · rw [if_neg hnumeric] at h
      obtain ⟨_, hencoding, h⟩ := bind_eq_ok.mp h
      obtain rfl := Except.ok.inj h
      have hencoding' := Bool.of_not_eq_false (refuseIf_eq_ok.mp hencoding)
      exact ⟨hpath, hfield', hordinal', hwidth', by simpa [hnumeric] using hencoding', fun h => absurd h hnumeric,
        by simp [hnumeric]⟩
  · intro h
    have hfield := h.fieldName
    have hordinal := Nat.ne_of_gt h.ordinal
    have hwidth := Nat.ne_of_gt h.byteWidth
    have hencoding := h.encoding
    rw [h.kept]
    by_cases hnumeric : raw.isNumericMember = true
    · rw [if_pos hnumeric] at hencoding
      simp [RelationMember.postInit, h.tablePath, refuseIf, hfield, hordinal, hwidth, hnumeric, hencoding, h.shape hnumeric]
    · rw [if_neg hnumeric] at hencoding
      simp [RelationMember.postInit, h.tablePath, refuseIf, hfield, hordinal, hwidth, hnumeric, hencoding]

/-- The member that a payload asks for, before its constructor has seen it. -/
def rawMember (pairs : List (Text × Json χ)) (tablePath : List χ) (keyRole : KeyRole) (dbfType : MemberType) (nullable : Bool) :
    RelationMember χ where
  tablePath := tablePath
  fieldName := jsonTextOrEmpty (valueOrNull pairs "field")
  keyRole := keyRole
  compositeOrdinal := jsonCountOrZero (valueOrNull pairs "ordinal")
  dbfType := dbfType
  byteWidth := jsonCountOrZero (valueOrNull pairs "byte_width")
  encoding := jsonTextOrEmpty (valueOrNull pairs "encoding")
  nullable := nullable

structure MemberAccepted [DecidableEq χ] (external : Bool) (pairs : List (Text × Json χ)) (m : RelationMember χ) : Prop where
  onlyKeys : hasOnlyKeys pairs memberKeys = true
  allKeys : hasAllKeys pairs memberKeys = true
  keyRole : Vocabulary.ofJson (valueOrNull pairs "role") = some m.keyRole
  dbfType : Vocabulary.ofJson (valueOrNull pairs "dbf_type") = some m.dbfType
  nullable : jsonBool? (valueOrNull pairs "nullable") = some m.nullable
  built : ∃ tablePath, memberTable external (valueOrNull pairs "table") = .ok tablePath ∧
    MemberBuilt (rawMember pairs tablePath m.keyRole m.dbfType m.nullable) m

theorem parseMember_eq_ok [DecidableEq χ] {external : Bool} {v : Json χ} {m : RelationMember χ} :
    parseMember external v = .ok m ↔ ∃ pairs, v = .obj pairs ∧ MemberAccepted external pairs m := by
  constructor
  · intro h
    cases v with
    | obj pairs =>
      obtain ⟨_, honly, h⟩ := bind_eq_ok.mp h
      obtain ⟨_, hall, h⟩ := bind_eq_ok.mp h
      obtain ⟨keyRole, hrole, h⟩ := bind_eq_ok.mp h
      obtain ⟨dbfType, htype, h⟩ := bind_eq_ok.mp h
      obtain ⟨tablePath, hpath, h⟩ := bind_eq_ok.mp h
      obtain ⟨member, hbuilt, h⟩ := bind_eq_ok.mp h
      obtain ⟨_, hnullable, h⟩ := bind_eq_ok.mp h
      obtain rfl := Except.ok.inj h
      obtain ⟨nullable, hnull⟩ := Option.ne_none_iff_exists'.mp (refuseIf_eq_ok.mp hnullable)
      rw [hnull] at hbuilt
      have hbuilt' := memberBuilt_iff.mp hbuilt
      have hkept := hbuilt'.kept
      have hkeyRole : keyRole = member.keyRole := (congrArg RelationMember.keyRole hkept).symm
      have hdbfType : dbfType = member.dbfType := (congrArg RelationMember.dbfType hkept).symm
      have hnullable' : nullable = member.nullable := (congrArg RelationMember.nullable hkept).symm
      refine ⟨pairs, rfl, Bool.of_not_eq_false (refuseIf_eq_ok.mp honly), Bool.of_not_eq_false (refuseIf_eq_ok.mp hall),
        hkeyRole ▸ required_eq_ok.mp hrole, hdbfType ▸ required_eq_ok.mp htype, hnullable' ▸ hnull, tablePath, hpath, ?_⟩
      rw [← hkeyRole, ← hdbfType, ← hnullable']
      exact hbuilt'
    | _ => cases h
  · intro h
    obtain ⟨pairs, rfl, h⟩ := h
    obtain ⟨tablePath, hpath, hbuilt⟩ := h.built
    have hpost := memberBuilt_iff.mpr hbuilt
    simp only [rawMember] at hpost
    simp [parseMember, refuseIf, h.onlyKeys, h.allKeys, required, h.keyRole, h.dbfType, hpath, h.nullable, hpost]

structure GroupBuilt (g : RelationGroup χ) : Prop where
  relationId : isBoundedToken g.relationId = true
  nonempty : g.members ≠ []
  sourceDigest : g.sourceDigest.all isBoundedToken = true
  distinct : (g.members.map RelationMember.identity).Nodup
  strategy : ¬ (g.numericStrategy = .reversibleBijective ∧ ¬ g.members.any RelationMember.isNumericMember)
  unambiguous : ¬ (KeyRole.primary ∈ g.roles ∧ KeyRole.candidate ∈ g.roles)
  parent : KeyRole.primary ∈ g.roles ∨ KeyRole.candidate ∈ g.roles
  foreign : KeyRole.foreign ∈ g.roles
  ordinals : [KeyRole.primary, .candidate, .foreign].all g.ordinalsContiguous = true
  arity : g.parentCount = (g.membersOf .foreign).length

omit [TextChar χ] in
theorem groupBuilt_iff [DecidableEq χ] {g : RelationGroup χ} : g.postInit = .ok () ↔ GroupBuilt g := by
  constructor
  · intro h
    obtain ⟨_, hid, h⟩ := bind_eq_ok.mp h
    obtain ⟨_, hnonempty, h⟩ := bind_eq_ok.mp h
    obtain ⟨_, hdigest, h⟩ := bind_eq_ok.mp h
    obtain ⟨_, hdistinct, h⟩ := bind_eq_ok.mp h
    obtain ⟨_, hstrategy, h⟩ := bind_eq_ok.mp h
    obtain ⟨_, hunambiguous, h⟩ := bind_eq_ok.mp h
    obtain ⟨_, hparent, h⟩ := bind_eq_ok.mp h
    obtain ⟨_, hforeign, h⟩ := bind_eq_ok.mp h
    obtain ⟨_, hordinals, harity⟩ := bind_eq_ok.mp h
    exact ⟨Bool.of_not_eq_false (refuseIf_eq_ok.mp hid), refuseIf_eq_ok.mp hnonempty,
      Bool.of_not_eq_false (refuseIf_eq_ok.mp hdigest), not_not.mp (refuseIf_eq_ok.mp hdistinct), refuseIf_eq_ok.mp hstrategy,
      refuseIf_eq_ok.mp hunambiguous, not_not.mp (refuseIf_eq_ok.mp hparent), not_not.mp (refuseIf_eq_ok.mp hforeign),
      not_not.mp (refuseIf_eq_ok.mp hordinals), not_not.mp (refuseIf_eq_ok.mp harity)⟩
  · intro h
    have hid : ¬ isBoundedToken g.relationId = false := by simp [h.relationId]
    have hdigest : ¬ g.sourceDigest.all isBoundedToken = false := by simp [h.sourceDigest]
    simp only [RelationGroup.postInit, refuseIf, if_neg hid, if_neg h.nonempty, if_neg hdigest, if_neg (not_not.mpr h.distinct),
      if_neg h.strategy, if_neg h.unambiguous, if_neg (not_not.mpr h.parent), if_neg (not_not.mpr h.foreign),
      if_neg (not_not.mpr h.ordinals), if_neg (not_not.mpr h.arity), ok_bind]

omit [TextChar χ] in
/-- The order in which a group lists its members is nothing to its constructor. -/
theorem GroupBuilt.perm {g : RelationGroup χ} (h : GroupBuilt g) {members : List (RelationMember χ)}
    (hperm : members.Perm g.members) :
    GroupBuilt { g with members } where
  relationId := h.relationId
  nonempty hnil := h.nonempty (List.nil_perm.mp (hnil ▸ hperm))
  sourceDigest := h.sourceDigest
  distinct := (hperm.map _).nodup_iff.mpr h.distinct
  strategy := by
    have hany : members.any RelationMember.isNumericMember = g.members.any RelationMember.isNumericMember := hperm.any_eq
    rw [hany]
    exact h.strategy
  unambiguous hboth := h.unambiguous ⟨(hperm.map _).mem_iff.mp hboth.1, (hperm.map _).mem_iff.mp hboth.2⟩
  parent := h.parent.imp (hperm.map _).mem_iff.mpr (hperm.map _).mem_iff.mpr
  foreign := (hperm.map _).mem_iff.mpr h.foreign
  ordinals := by
    have hsame : ({ g with members } : RelationGroup χ).ordinalsContiguous = g.ordinalsContiguous := by
      funext role
      have hordinals := ((hperm.filter (·.keyRole = role)).map RelationMember.compositeOrdinal)
      have hsorted : (((members.filter (·.keyRole = role)).map RelationMember.compositeOrdinal).insertionSort (· ≤ ·)) =
          ((g.members.filter (·.keyRole = role)).map RelationMember.compositeOrdinal).insertionSort (· ≤ ·) :=
        List.Perm.eq_of_pairwise' (List.pairwise_insertionSort _ _) (List.pairwise_insertionSort _ _)
          ((List.perm_insertionSort _ _).trans (hordinals.trans (List.perm_insertionSort _ _).symm))
      exact congrArg (fun ordinals : List ℕ => decide (ordinals = (List.range ordinals.length).map (· + 1))) hsorted
    rw [hsame]
    exact h.ordinals
  arity := by
    have hparents := (hperm.filter fun m => m.keyRole = .primary ∨ m.keyRole = .candidate).length_eq
    have hforeign := (hperm.filter (·.keyRole = .foreign)).length_eq
    have harity := h.arity
    simp only [RelationGroup.parentCount, RelationGroup.membersOf] at harity ⊢
    rw [hparents, hforeign, harity]

theorem parseMembers_eq_ok [DecidableEq χ] {external : Bool} {v : Json χ} {members : List (RelationMember χ)} :
    parseMembers external v = .ok members ↔ ∃ items, v = .arr items ∧ items.isEmpty = false ∧
      items.length ≤ maxRelationMembers ∧ List.Forall₂ (fun item m => parseMember external item = .ok m) items members := by
  constructor
  · intro h
    cases v with
    | arr items =>
      obtain ⟨_, hbounds, h⟩ := bind_eq_ok.mp h
      have hbounds' := not_or.mp (refuseIf_eq_ok.mp hbounds)
      exact ⟨items, rfl, Bool.eq_false_of_not_eq_true hbounds'.1, not_lt.mp hbounds'.2, mapM_eq_ok_iff.mp h⟩
    | _ => cases h
  · intro h
    obtain ⟨items, rfl, hne, hlen, hitems⟩ := h
    have hlen' := not_lt.mpr hlen
    simp [parseMembers, refuseIf, hne, hlen', mapM_eq_ok_iff.mpr hitems]

/-- The claim of an external relation, and what rules its strength. -/
structure ClaimAccepted (pairs : List (Text × Json χ)) (provenance : Provenance) (strategy : NumericStrategy)
    (assurance : ClaimAssurance) (authority : ClaimAuthority) : Prop where
  assurance_read : Vocabulary.ofJson (valueOrNull pairs "assurance") = some assurance
  authority_read : Vocabulary.ofJson (valueOrNull pairs "authority") = some authority
  consistent : ¬ (authority = .inferred ∧ assurance = .verified)
  authoritative : ¬ (authority = .contractAuthoritative ∧ assurance = .verified ∧
    externalProvenanceClassAllowed provenance = false)
  strengthening : strategy = .reversibleBijective → authority = .contractAuthoritative ∧ assurance = .verified

theorem isSome_of_ofJson {α : Type} [Vocabulary α] {pairs : List (Text × Json χ)} {key : String} {a : α}
    (h : Vocabulary.ofJson (valueOrNull pairs key) = some a) : (valueAt pairs key).isNone = false := by
  cases hvalue : valueAt pairs key with
  | none =>
    rw [valueOrNull, hvalue] at h
    cases h
  | some v => rfl

theorem parseClaimFacts_external {pairs : List (Text × Json χ)} {provenance : Provenance} {strategy : NumericStrategy}
    {claim : Option (ClaimAssurance × ClaimAuthority)} :
    parseClaimFacts true pairs provenance strategy = .ok claim ↔
      ∃ assurance authority, claim = some (assurance, authority) ∧ ClaimAccepted pairs provenance strategy assurance authority := by
  constructor
  · intro h
    rw [parseClaimFacts, if_pos rfl] at h
    obtain ⟨_, -, h⟩ := bind_eq_ok.mp h
    obtain ⟨assurance, hassurance, h⟩ := bind_eq_ok.mp h
    obtain ⟨_, -, h⟩ := bind_eq_ok.mp h
    obtain ⟨authority, hauthority, h⟩ := bind_eq_ok.mp h
    obtain ⟨_, hconsistent, h⟩ := bind_eq_ok.mp h
    obtain ⟨_, hprovenance, h⟩ := bind_eq_ok.mp h
    obtain ⟨_, hstrategy, h⟩ := bind_eq_ok.mp h
    obtain rfl := Except.ok.inj h
    refine ⟨assurance, authority, rfl, required_eq_ok.mp hassurance, required_eq_ok.mp hauthority,
      refuseIf_eq_ok.mp hconsistent, refuseIf_eq_ok.mp hprovenance, ?_⟩
    intro hreversible
    have hstrong := refuseIf_eq_ok.mp hstrategy
    rw [not_and, not_or, not_not, not_not] at hstrong
    exact hstrong hreversible
  · intro h
    obtain ⟨assurance, authority, rfl, h⟩ := h
    have hstrong : ¬ (strategy = .reversibleBijective ∧ (authority ≠ .contractAuthoritative ∨ assurance ≠ .verified)) := by
      rw [not_and, not_or, not_not, not_not]
      exact h.strengthening
    rw [parseClaimFacts, if_pos rfl, isSome_of_ofJson h.assurance_read, isSome_of_ofJson h.authority_read, parseClaimAssurance,
      required_eq_ok.mpr h.assurance_read, parseExternalAuthority, required_eq_ok.mpr h.authority_read]
    simp only [ok_bind, validateAuthorityAssurance, refuseIf, if_neg h.consistent, if_neg h.authoritative, if_neg hstrong,
      Bool.false_eq_true, if_false, pure_eq_ok]

theorem parseClaimFacts_plain {pairs : List (Text × Json χ)} {provenance : Provenance} {strategy : NumericStrategy}
    {claim : Option (ClaimAssurance × ClaimAuthority)} :
    parseClaimFacts false pairs provenance strategy = .ok claim ↔ (valueAt pairs "assurance").isSome = false ∧ claim = none := by
  rw [parseClaimFacts, if_neg Bool.false_ne_true, bind_eq_ok]
  constructor
  · intro h
    obtain ⟨_, habsent, h⟩ := h
    exact ⟨Bool.eq_false_of_not_eq_true (refuseIf_eq_ok.mp habsent), (Except.ok.inj h).symm⟩
  · intro h
    obtain ⟨habsent, rfl⟩ := h
    exact ⟨(), refuseIf_eq_ok.mpr (by simp [habsent]), rfl⟩

structure GroupAccepted [DecidableEq χ] (external : Bool) (pairs : List (Text × Json χ)) (g : RelationGroup χ) : Prop where
  onlyKeys : hasOnlyKeys pairs groupKeys = true
  allKeys : hasAllKeys pairs requiredGroupKeys = true
  relationId : jsonTextOrEmpty (valueOrNull pairs "relation_id") = g.relationId
  comparison : Vocabulary.ofJson (valueOrNull pairs "comparison") = some g.comparison
  provenance : Vocabulary.ofJson (valueOrNull pairs "provenance") = some g.provenance
  numericStrategy : parseNumericStrategy (valueOrNull pairs "numeric_strategy") = .ok g.numericStrategy
  members : parseMembers external (valueOrNull pairs "members") = .ok g.members
  sourceDigest : parseSourceDigest (valueOrNull pairs "source_digest") = .ok g.sourceDigest
  claim : ∃ claim, parseClaimFacts external pairs g.provenance g.numericStrategy = .ok claim ∧
    g.claimAssurance = claim.map Prod.fst ∧ g.claimAuthority = claim.map Prod.snd
  built : g.postInit = .ok ()

theorem parseGroup_eq_ok [DecidableEq χ] {external : Bool} {v : Json χ} {g : RelationGroup χ} :
    parseGroup external v = .ok g ↔ ∃ pairs, v = .obj pairs ∧ GroupAccepted external pairs g := by
  constructor
  · intro h
    cases v with
    | obj pairs =>
      obtain ⟨_, honly, h⟩ := bind_eq_ok.mp h
      obtain ⟨_, hall, h⟩ := bind_eq_ok.mp h
      obtain ⟨comparison, hcomparison, h⟩ := bind_eq_ok.mp h
      obtain ⟨provenance, hprovenance, h⟩ := bind_eq_ok.mp h
      obtain ⟨numericStrategy, hstrategy, h⟩ := bind_eq_ok.mp h
      obtain ⟨members, hmembers, h⟩ := bind_eq_ok.mp h
      obtain ⟨sourceDigest, hdigest, h⟩ := bind_eq_ok.mp h
      obtain ⟨claim, hclaim, h⟩ := bind_eq_ok.mp h
      obtain ⟨_, hbuilt, h⟩ := bind_eq_ok.mp h
      obtain rfl := Except.ok.inj h
      exact ⟨pairs, rfl, Bool.of_not_eq_false (refuseIf_eq_ok.mp honly), Bool.of_not_eq_false (refuseIf_eq_ok.mp hall), rfl,
        required_eq_ok.mp hcomparison, required_eq_ok.mp hprovenance, hstrategy, hmembers, hdigest, ⟨claim, hclaim, rfl, rfl⟩,
        hbuilt⟩
    | _ => cases h
  · intro h
    obtain ⟨pairs, rfl, h⟩ := h
    obtain ⟨claim, hclaim, hassurance, hauthority⟩ := h.claim
    have hgroup : g = ⟨jsonTextOrEmpty (valueOrNull pairs "relation_id"), g.members, g.comparison, g.provenance, g.sourceDigest,
        g.numericStrategy, claim.map Prod.fst, claim.map Prod.snd⟩ := by
      rw [h.relationId, ← hassurance, ← hauthority]
    have hbuilt := h.built
    rw [hgroup] at hbuilt
    rw [parseGroup, h.onlyKeys, h.allKeys, required_eq_ok.mpr h.comparison, required_eq_ok.mpr h.provenance]
    simp only [refuseIf, Bool.true_eq_false, if_false, ok_bind, h.numericStrategy, h.members, h.sourceDigest, hclaim, hbuilt]
    rw [← hgroup]
    rfl

theorem parseRelations_eq_ok [DecidableEq χ] {external : Bool} {v : Json χ} {groups : List (RelationGroup χ)} :
    parseRelations external v = .ok groups ↔ ∃ items, v = .arr items ∧ items.length ≤ maxRelationGroups ∧
      List.Forall₂ (fun item g => parseGroup external item = .ok g) items groups := by
  constructor
  · intro h
    cases v with
    | arr items =>
      obtain ⟨_, hlen, h⟩ := bind_eq_ok.mp h
      exact ⟨items, rfl, not_lt.mp (refuseIf_eq_ok.mp hlen), mapM_eq_ok_iff.mp h⟩
    | _ => cases h
  · intro h
    obtain ⟨items, rfl, hlen, hitems⟩ := h
    have hlen' := not_lt.mpr hlen
    simp [parseRelations, refuseIf, hlen', mapM_eq_ok_iff.mpr hitems]

structure IndexTagAccepted (pairs : List (Text × Json χ)) (t : ExternalIndexTag) : Prop where
  onlyKeys : hasOnlyKeys pairs tagKeys = true
  allKeys : hasAllKeys pairs ["name", "sort_order"] = true
  name : jsonToken? (valueOrNull pairs "name") = some t.name
  sortOrder : Vocabulary.ofJson (valueOrNull pairs "sort_order") = some t.sortOrder
  expression : parseTagExpression (valueOrNull pairs "expression") = .ok t.expression

theorem parseIndexTag_eq_ok {v : Json χ} {t : ExternalIndexTag} :
    parseIndexTag v = .ok t ↔ ∃ pairs, v = .obj pairs ∧ IndexTagAccepted pairs t := by
  constructor
  · intro h
    cases v with
    | obj pairs =>
      obtain ⟨_, hkeys, h⟩ := bind_eq_ok.mp h
      obtain ⟨name, hname, h⟩ := bind_eq_ok.mp h
      obtain ⟨sortOrder, horder, h⟩ := bind_eq_ok.mp h
      obtain ⟨expression, hexpression, h⟩ := bind_eq_ok.mp h
      obtain rfl := Except.ok.inj h
      have hkeys' := not_or.mp (refuseIf_eq_ok.mp hkeys)
      exact ⟨pairs, rfl, Bool.of_not_eq_false hkeys'.1, Bool.of_not_eq_false hkeys'.2, required_eq_ok.mp hname,
        required_eq_ok.mp horder, hexpression⟩
    | _ => cases h
  · intro h
    obtain ⟨pairs, rfl, h⟩ := h
    simp [parseIndexTag, refuseIf, h.onlyKeys, h.allKeys, required, h.name, h.sortOrder, h.expression]

theorem parseIndexTags_eq_ok {v : Json χ} {detail : String} {tags : List ExternalIndexTag} :
    parseIndexTags v detail = .ok tags ↔ ∃ items, v = .arr items ∧ items.isEmpty = false ∧ items.length ≤ maxIndexTags ∧
      List.Forall₂ (fun item t => parseIndexTag item = .ok t) items tags ∧ (tags.map ExternalIndexTag.upperName).Nodup := by
  constructor
  · intro h
    cases v with
    | arr items =>
      obtain ⟨_, hbounds, h⟩ := bind_eq_ok.mp h
      obtain ⟨parsed, hitems, h⟩ := bind_eq_ok.mp h
      obtain ⟨_, hnodup, h⟩ := bind_eq_ok.mp h
      obtain rfl := Except.ok.inj h
      have hbounds' := not_or.mp (refuseIf_eq_ok.mp hbounds)
      exact ⟨items, rfl, Bool.eq_false_of_not_eq_true hbounds'.1, not_lt.mp hbounds'.2, mapM_eq_ok_iff.mp hitems,
        not_not.mp (refuseIf_eq_ok.mp hnodup)⟩
    | _ => cases h
  · intro h
    obtain ⟨items, rfl, hne, hlen, hitems, hnodup⟩ := h
    have hlen' := not_lt.mpr hlen
    simp [parseIndexTags, refuseIf, hne, hlen', mapM_eq_ok_iff.mpr hitems, hnodup]

structure IndexClaimAccepted (pairs : List (Text × Json χ)) (c : ExternalIndexClaim) : Prop where
  keys : hasExactKeys pairs indexClaimKeys = true
  claimId : jsonToken? (valueOrNull pairs "claim_id") = some c.claimId
  tablePath : validateExternalMetadataPath (jsonTextOrEmpty (valueOrNull pairs "table")) true = .ok c.tablePath
  indexFilePath : validateExternalMetadataPath (jsonTextOrEmpty (valueOrNull pairs "index_file")) false = .ok c.indexFilePath
  indexKind : Vocabulary.ofJson (valueOrNull pairs "index_kind") = some c.indexKind
  tags : parseIndexTags (valueOrNull pairs "tags") "EXTERNAL_METADATA_INDEX_TAGS_INVALID" = .ok c.tags
  verificationState : Vocabulary.ofJson (valueOrNull pairs "verification_state") = some c.verificationState
  assurance : Vocabulary.ofJson (valueOrNull pairs "assurance") = some c.assurance
  consistent : c.assurance = c.verificationState
  authority : Vocabulary.ofJson (valueOrNull pairs "authority") = some c.authority
  suffix : (pathSuffix c.indexFilePath).map Char.toLower = c.indexKind.suffix
  provenance : Vocabulary.ofJson (valueOrNull pairs "provenance") = some c.provenance
  authoritative : ¬ (c.authority = .contractAuthoritative ∧ c.assurance = .verified ∧ c.verificationState = .verified ∧
    externalProvenanceClassAllowed c.provenance = false)

theorem parseIndexClaim_eq_ok {seen : List Text} {v : Json χ} {c : ExternalIndexClaim} :
    parseIndexClaim seen v = .ok c ↔ c.claimId ∉ seen ∧ ∃ pairs, v = .obj pairs ∧ IndexClaimAccepted pairs c := by
  constructor
  · intro h
    cases v with
    | obj pairs =>
      obtain ⟨_, hkeys, h⟩ := bind_eq_ok.mp h
      obtain ⟨claimId, hid, h⟩ := bind_eq_ok.mp h
      obtain ⟨_, hseen, h⟩ := bind_eq_ok.mp h
      obtain ⟨tablePath, htable, h⟩ := bind_eq_ok.mp h
      obtain ⟨indexFilePath, hfile, h⟩ := bind_eq_ok.mp h
      obtain ⟨indexKind, hkind, h⟩ := bind_eq_ok.mp h
      obtain ⟨tags, htags, h⟩ := bind_eq_ok.mp h
      obtain ⟨verificationState, hstate, h⟩ := bind_eq_ok.mp h
      obtain ⟨assurance, hassurance, h⟩ := bind_eq_ok.mp h
      obtain ⟨_, hconsistent, h⟩ := bind_eq_ok.mp h
      obtain ⟨authority, hauthority, h⟩ := bind_eq_ok.mp h
      obtain ⟨_, hsuffix, h⟩ := bind_eq_ok.mp h
      obtain ⟨provenance, hprovenance, h⟩ := bind_eq_ok.mp h
      obtain ⟨_, hauthoritative, h⟩ := bind_eq_ok.mp h
      obtain rfl := Except.ok.inj h
      exact ⟨refuseIf_eq_ok.mp hseen, pairs, rfl, Bool.of_not_eq_false (refuseIf_eq_ok.mp hkeys), required_eq_ok.mp hid, htable,
        hfile, required_eq_ok.mp hkind, htags, required_eq_ok.mp hstate, required_eq_ok.mp hassurance,
        not_not.mp (refuseIf_eq_ok.mp hconsistent), required_eq_ok.mp hauthority, not_not.mp (refuseIf_eq_ok.mp hsuffix),
        required_eq_ok.mp hprovenance, refuseIf_eq_ok.mp hauthoritative⟩
    | _ => cases h
  · intro h
    obtain ⟨hseen, pairs, rfl, h⟩ := h
    rw [parseIndexClaim, h.keys, required_eq_ok.mpr h.claimId, required_eq_ok.mpr h.indexKind,
      required_eq_ok.mpr h.verificationState, required_eq_ok.mpr h.assurance, required_eq_ok.mpr h.authority,
      required_eq_ok.mpr h.provenance]
    simp only [refuseIf, Bool.true_eq_false, if_false, ok_bind, if_neg hseen, h.tablePath, h.indexFilePath, h.tags,
      if_neg (not_not.mpr h.consistent), if_neg (not_not.mpr h.suffix), if_neg h.authoritative]
    rfl

theorem foldlM_addIndexClaim_eq_ok {items : List (Json χ)} {before claims : List ExternalIndexClaim}
    (hbefore : (before.map ExternalIndexClaim.claimId).Nodup) :
    items.foldlM addIndexClaim before = .ok claims ↔ ∃ added, claims = before ++ added ∧
      List.Forall₂ (fun item c => parseIndexClaim [] item = .ok c) items added ∧
        (claims.map ExternalIndexClaim.claimId).Nodup := by
  induction items generalizing before with
  | nil =>
    constructor
    · intro h
      obtain rfl := Except.ok.inj h
      exact ⟨[], by simp, .nil, hbefore⟩
    · intro h
      obtain ⟨added, rfl, hadded, -⟩ := h
      cases hadded
      simp
  | cons item items ih =>
    have hnext : ∀ {c : ExternalIndexClaim}, c.claimId ∉ before.map ExternalIndexClaim.claimId →
        ((before ++ [c]).map ExternalIndexClaim.claimId).Nodup := by
      intro c hfresh
      rw [List.map_append]
      apply List.Nodup.append hbefore (List.nodup_singleton _)
      simpa using hfresh
    rw [List.foldlM_cons]
    constructor
    · intro h
      obtain ⟨next, hitem, h⟩ := bind_eq_ok.mp h
      obtain ⟨c, hc, hitem⟩ := bind_eq_ok.mp hitem
      obtain rfl := Except.ok.inj hitem
      obtain ⟨hfresh, haccepted⟩ := parseIndexClaim_eq_ok.mp hc
      obtain ⟨added, rfl, hadded, hnodup⟩ := (ih (hnext hfresh)).mp h
      exact ⟨c :: added, by simp, .cons (parseIndexClaim_eq_ok.mpr ⟨List.not_mem_nil, haccepted⟩) hadded, hnodup⟩
    · intro h
      obtain ⟨added, rfl, hadded, hnodup⟩ := h
      cases hadded with
      | cons hc hrest =>
        rename_i c rest
        have hfresh : c.claimId ∉ before.map ExternalIndexClaim.claimId := by
          rw [List.map_append, List.map_cons] at hnodup
          intro hmem
          exact (List.disjoint_of_nodup_append hnodup) hmem List.mem_cons_self
        have hitem : addIndexClaim before item = .ok (before ++ [c]) := by
          rw [addIndexClaim, parseIndexClaim_eq_ok.mpr ⟨hfresh, (parseIndexClaim_eq_ok.mp hc).2⟩]
          rfl
        rw [hitem, ok_bind]
        exact (ih (hnext hfresh)).mpr ⟨rest, by simp, hrest, by simpa using hnodup⟩

theorem nodup_claimIds_nil : (([] : List ExternalIndexClaim).map ExternalIndexClaim.claimId).Nodup := List.nodup_nil

theorem parseIndexClaims_eq_ok {v : Json χ} {claims : List ExternalIndexClaim} :
    parseIndexClaims v = .ok claims ↔ ∃ items, v = .arr items ∧ items.length ≤ maxIndexClaims ∧
      List.Forall₂ (fun item c => parseIndexClaim [] item = .ok c) items claims ∧
        (claims.map ExternalIndexClaim.claimId).Nodup := by
  constructor
  · intro h
    cases v with
    | arr items =>
      obtain ⟨_, hlen, h⟩ := bind_eq_ok.mp h
      obtain ⟨added, rfl, hadded, hnodup⟩ := (foldlM_addIndexClaim_eq_ok nodup_claimIds_nil).mp h
      exact ⟨items, rfl, not_lt.mp (refuseIf_eq_ok.mp hlen), hadded, hnodup⟩
    | _ => cases h
  · intro h
    obtain ⟨items, rfl, hlen, hitems, hnodup⟩ := h
    have hlen' := not_lt.mpr hlen
    have hfold : items.foldlM addIndexClaim [] = .ok claims :=
      (foldlM_addIndexClaim_eq_ok nodup_claimIds_nil).mpr ⟨claims, rfl, hitems, hnodup⟩
    simp [parseIndexClaims, refuseIf, hlen', hfold]

theorem parseProducer_eq_ok {v : Json χ} {producer : ExternalProducerProvenance} :
    parseProducer v = .ok producer ↔ ∃ pairs, v = .obj pairs ∧ hasOnlyKeys pairs producerKeys = true ∧
      jsonToken? (valueOrNull pairs "producer_id") = some producer.producerId ∧
        jsonToken? (valueOrNull pairs "producer_version") = some producer.producerVersion := by
  constructor
  · intro h
    cases v with
    | obj pairs =>
      obtain ⟨_, honly, h⟩ := bind_eq_ok.mp h
      obtain ⟨producerId, hid, h⟩ := bind_eq_ok.mp h
      obtain ⟨producerVersion, hversion, h⟩ := bind_eq_ok.mp h
      obtain rfl := Except.ok.inj h
      exact ⟨pairs, rfl, Bool.of_not_eq_false (refuseIf_eq_ok.mp honly), required_eq_ok.mp hid, required_eq_ok.mp hversion⟩
    | _ => cases h
  · intro h
    obtain ⟨pairs, rfl, honly, hid, hversion⟩ := h
    simp [parseProducer, refuseIf, honly, required, hid, hversion]

theorem envelopeClaims_eq_ok {v : Option (Json χ)} {claims : List ExternalIndexClaim} :
    envelopeClaims v = .ok claims ↔ (v = none ∧ claims = [] ∨ ∃ w, v = some w ∧ parseIndexClaims w = .ok claims) ∧
      ∀ c ∈ claims, ¬ (c.authority = .inferred ∧ c.assurance = .verified) := by
  cases v with
  | none =>
    constructor
    · intro h
      obtain rfl := Except.ok.inj h
      simp
    · intro h
      rcases h.1 with ⟨-, rfl⟩ | ⟨w, hw, -⟩
      · rfl
      · cases hw
  | some w =>
    constructor
    · intro h
      obtain ⟨parsed, hparsed, h⟩ := bind_eq_ok.mp h
      obtain ⟨_, hconsistent, h⟩ := bind_eq_ok.mp h
      obtain rfl := Except.ok.inj h
      refine ⟨Or.inr ⟨w, rfl, hparsed⟩, ?_⟩
      intro c hc
      exact refuseIf_eq_ok.mp (forM_eq_ok_iff.mp hconsistent c hc)
    · intro h
      obtain ⟨hread, hconsistent⟩ := h
      rcases hread with ⟨hnone, -⟩ | ⟨w', hw, hparsed⟩
      · cases hnone
      · obtain rfl := Option.some.inj hw
        have hall : (claims.forM fun c => validateAuthorityAssurance c.authority c.assurance) = .ok () :=
          forM_eq_ok_iff.mpr fun c hc => refuseIf_eq_ok.mpr (hconsistent c hc)
        rw [envelopeClaims, hparsed, ok_bind, hall]
        rfl

structure EnvelopeAccepted (pairs : List (Text × Json χ)) (envelope : ExternalEnvelope) : Prop where
  keys : hasAllKeys pairs requiredEnvelopeKeys = true
  version : jsonText? (valueOrNull pairs "external_metadata_schema_version") = some externalMetadataSchemaVersion
  producer : parseProducer (valueOrNull pairs "producer") = .ok envelope.producer
  authority : Vocabulary.ofJson (valueOrNull pairs "authority") = some envelope.authority
  indexClaims : envelopeClaims (valueAt pairs "index_claims") = .ok envelope.indexClaims

theorem parseEnvelope_eq_none {pairs : List (Text × Json χ)} :
    parseEnvelope pairs = .ok none ↔ (envelopeKeys.all fun key => (valueAt pairs key).isNone) = true := by
  unfold parseEnvelope
  constructor
  · intro h
    by_contra habsent
    rw [if_neg habsent] at h
    obtain ⟨_, -, h⟩ := bind_eq_ok.mp h
    obtain ⟨_, -, h⟩ := bind_eq_ok.mp h
    obtain ⟨_, -, h⟩ := bind_eq_ok.mp h
    obtain ⟨_, -, h⟩ := bind_eq_ok.mp h
    obtain ⟨_, -, h⟩ := bind_eq_ok.mp h
    cases h
  · intro habsent
    rw [if_pos habsent]

theorem parseEnvelope_eq_some {pairs : List (Text × Json χ)} {envelope : ExternalEnvelope} :
    parseEnvelope pairs = .ok (some envelope) ↔ EnvelopeAccepted pairs envelope := by
  unfold parseEnvelope
  constructor
  · intro h
    by_cases habsent : (envelopeKeys.all fun key => (valueAt pairs key).isNone) = true
    · rw [if_pos habsent] at h
      cases h
    rw [if_neg habsent] at h
    obtain ⟨_, hkeys, h⟩ := bind_eq_ok.mp h
    obtain ⟨_, hversion, h⟩ := bind_eq_ok.mp h
    obtain ⟨producer, hproducer, h⟩ := bind_eq_ok.mp h
    obtain ⟨authority, hauthority, h⟩ := bind_eq_ok.mp h
    obtain ⟨indexClaims, hclaims, h⟩ := bind_eq_ok.mp h
    obtain rfl := Option.some.inj (Except.ok.inj h)
    exact ⟨Bool.of_not_eq_false (refuseIf_eq_ok.mp hkeys), not_not.mp (refuseIf_eq_ok.mp hversion), hproducer,
      required_eq_ok.mp hauthority, hclaims⟩
  · intro h
    have hpresent : ¬ (envelopeKeys.all fun key => (valueAt pairs key).isNone) = true := by
      intro habsent
      have hauthority := List.all_eq_true.mp habsent "authority" (by decide)
      rw [isSome_of_ofJson h.authority] at hauthority
      cases hauthority
    rw [if_neg hpresent, h.keys, h.version, parseExternalAuthority, required_eq_ok.mpr h.authority]
    simp only [refuseIf, Bool.true_eq_false, if_false, ok_bind, ne_eq, not_true_eq_false, h.producer, h.indexClaims]
    rfl

structure DocumentAccepted [DecidableEq χ] (pairs : List (Text × Json χ)) (envelope : Option ExternalEnvelope)
    (groups : List (RelationGroup χ)) : Prop where
  onlyKeys : hasOnlyKeys pairs (documentKeys ++ envelopeKeys) = true
  allKeys : hasAllKeys pairs documentKeys = true
  version : jsonText? (valueOrNull pairs "metadata_schema_version") = some relationshipMetadataSchemaVersion
  envelope_read : parseEnvelope pairs = .ok envelope
  groups_read : parseRelations envelope.isSome (valueOrNull pairs "relations") = .ok groups
  relationIds : (groups.map RelationGroup.relationId).Nodup

theorem parseRelationshipDocument_eq_ok [DecidableEq χ] {v : Json χ} {d : RelationshipDocument χ} :
    parseRelationshipDocument v = .ok d ↔ ∃ pairs envelope groups, v = .obj pairs ∧ DocumentAccepted pairs envelope groups ∧
      d = ExternalEnvelope.document envelope groups := by
  constructor
  · intro h
    cases v with
    | obj pairs =>
      obtain ⟨_, honly, h⟩ := bind_eq_ok.mp h
      obtain ⟨_, hall, h⟩ := bind_eq_ok.mp h
      obtain ⟨_, hversion, h⟩ := bind_eq_ok.mp h
      obtain ⟨envelope, henvelope, h⟩ := bind_eq_ok.mp h
      obtain ⟨groups, hgroups, h⟩ := bind_eq_ok.mp h
      obtain ⟨_, hids, h⟩ := bind_eq_ok.mp h
      obtain rfl := Except.ok.inj h
      have hnodup : (groups.map RelationGroup.relationId).Nodup := by
        unfold RelationshipDocument.postInit at hids
        split_ifs at hids with hnodup
        exact hnodup
      exact ⟨pairs, envelope, groups, rfl, ⟨Bool.of_not_eq_false (refuseIf_eq_ok.mp honly),
        Bool.of_not_eq_false (refuseIf_eq_ok.mp hall), not_not.mp (refuseIf_eq_ok.mp hversion), henvelope, hgroups, hnodup⟩, rfl⟩
    | _ => cases h
  · intro h
    obtain ⟨pairs, envelope, groups, rfl, h, rfl⟩ := h
    have hids : (ExternalEnvelope.document envelope groups).postInit = .ok () := if_pos h.relationIds
    rw [parseRelationshipDocument, h.onlyKeys, h.allKeys, h.version]
    simp only [refuseIf, Bool.true_eq_false, if_false, ok_bind, ne_eq, not_true_eq_false, h.envelope_read, h.groups_read, hids]
    rfl

end DbfAnonymizer.Relationships
