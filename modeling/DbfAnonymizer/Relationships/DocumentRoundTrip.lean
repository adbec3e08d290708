import DbfAnonymizer.Lib.Letters
import DbfAnonymizer.Relationships.DocumentIdentity
import DbfAnonymizer.Relationships.TablePaths

/-! What becomes of a parsed document that is written out and parsed again. -/
namespace DbfAnonymizer.Relationships
open Lib

theorem isTokenCharacter_toLower {c : Char} (h : isTokenCharacter c = true) : isTokenCharacter c.toLower = true := by
  by_cases halpha : c.isAlphanum = true
  · simp [isTokenCharacter, isAlphanum_toLower halpha]
  · have hself : c.toLower = c := by
      apply toLower_eq_self
      intro hupper
      exact halpha (isAlphanum_iff.mpr (Or.inl hupper))
    rwa [hself]

theorem isTokenBody_toLower {value : Text} (h : isTokenBody value = true) : isTokenBody (value.map Char.toLower) = true := by
  simp only [isTokenBody, Bool.and_eq_true, List.length_map, List.all_eq_true] at h ⊢
  refine ⟨h.1, fun c hc => ?_⟩
  obtain ⟨d, hd, rfl⟩ := List.mem_map.mp hc
  exact isTokenCharacter_toLower (h.2 d hd)

theorem isBoundedToken_toLower {value : Text} (h : isBoundedToken value = true) :
    isBoundedToken (value.map Char.toLower) = true := by
  rw [isBoundedToken, Bool.or_eq_true, Bool.and_eq_true, beq_iff_eq] at h ⊢
  rcases h with hbody | ⟨hlast, hbody⟩
  · exact Or.inl (isTokenBody_toLower hbody)
  · right
    rw [List.getLast?_map, hlast, ← List.map_dropLast]
    exact ⟨rfl, isTokenBody_toLower hbody⟩

theorem map_toLower_toLower (value : Text) : (value.map Char.toLower).map Char.toLower = value.map Char.toLower := by
  rw [List.map_map]
  exact List.map_congr_left fun c _ => toLower_toLower c

theorem isBoundedToken_of_jsonToken? {v : Json} {token : Text} (h : jsonToken? v = some token) : isBoundedToken token = true := by
  cases v with
  | str value =>
    rw [jsonToken?] at h
    split_ifs at h with htoken
    rwa [← Option.some.inj h]
  | _ => cases h

@[simp] theorem jsonToken?_str {token : Text} (h : isBoundedToken token = true) : jsonToken? (.str token) = some token := if_pos h

/-- What is read of an object as it was written. -/
abbrev written (entries : List (String × Option Json)) : List (Text × Json) := sortedBy Prod.fst (objectOf entries)

section Members
variable {external : Bool} {m m' : RelationMember}

theorem nodup_memberEntries (m : RelationMember) : (m.toDict.map (·.1)).Nodup := by simp [RelationMember.toDict]

theorem rawMember_written (m : RelationMember) :
    rawMember (written m.toDict) m.tablePath m.keyRole m.dbfType m.nullable = m := by
  have hread := valueOrNull_written (nodup_memberEntries m)
  simp only [rawMember, hread]
  cases m
  simp [RelationMember.toDict, jsonTextOrEmpty, jsonText?, jsonCountOrZero, jsonCount?]

theorem tableText_written (m : RelationMember) : jsonTextOrEmpty (valueOrNull (written m.toDict) "table") = m.tablePath := by
  have hread := valueOrNull_written (nodup_memberEntries m)
  rw [hread]
  simp [RelationMember.toDict, jsonTextOrEmpty, jsonText?]

theorem memberTable_eq_ok {v : Json} {path : Text} (h : memberTable external v = .ok path) : path = jsonTextOrEmpty v := by
  cases external with
  | true =>
    rw [memberTable_external] at h
    exact (validateExternalMetadataPath_eq_ok.mp h).1
  | false =>
    rw [← pathOrEmpty_char]
    exact (Except.ok.inj h).symm

theorem MemberAccepted.tablePath {pairs : List (Text × Json)} (h : MemberAccepted external pairs m) :
    TablePathAccepted (jsonTextOrEmpty (valueOrNull pairs "table")) m.tablePath := by
  obtain ⟨path, hpath, hbuilt⟩ := h.built
  rw [← memberTable_eq_ok hpath]
  exact normalizeRelativeTablePath_eq_ok.mp hbuilt.tablePath

/-- What the constructor has kept it accepts once more, as long as the path is its own normal form. -/
theorem MemberBuilt.again {raw : RelationMember} (h : MemberBuilt raw m)
    (hpath : normalizeRelativeTablePath m.tablePath = .ok m.tablePath) : MemberBuilt m m := by
  have hkept := h.kept
  have hfield : m.fieldName = raw.fieldName := by rw [hkept]
  have hordinal : m.compositeOrdinal = raw.compositeOrdinal := by rw [hkept]
  have hwidth : m.byteWidth = raw.byteWidth := by rw [hkept]
  have htype : m.dbfType = raw.dbfType := by rw [hkept]
  have hencoding : m.encoding = if raw.isNumericMember then raw.encoding else raw.encoding.map Char.toLower := by
    rw [hkept]
  have hnumeric : m.isNumericMember = raw.isNumericMember := by rw [RelationMember.isNumericMember, htype]; rfl
  have hshape : m.validateNumericMemberShape = raw.validateNumericMemberShape := by
    rw [RelationMember.validateNumericMemberShape, htype, hwidth]
    rfl
  have hraw := h.encoding
  refine ⟨hpath, hfield ▸ h.fieldName, hordinal ▸ h.ordinal, hwidth ▸ h.byteWidth, ?_, ?_, ?_⟩
  · rw [hnumeric, hencoding]
    split_ifs at hraw ⊢
    · exact hraw
    · exact isBoundedToken_toLower hraw
  · rw [hnumeric, hshape]
    exact h.shape
  · have hsame : (if raw.isNumericMember then m.encoding else m.encoding.map Char.toLower) = m.encoding := by
      rw [hencoding]
      split_ifs
      · rfl
      · exact map_toLower_toLower _
    rw [hnumeric, hsame]

theorem memberTable_written {pairs : List (Text × Json)} (h : MemberAccepted external pairs m) :
    memberTable external (valueOrNull (written m.toDict) "table") = .ok m.tablePath := by
  cases external with
  | true =>
    obtain ⟨path, hpath, -⟩ := h.built
    rw [memberTable_external] at hpath ⊢
    have hnormalized := (validateExternalMetadataPath_eq_ok.mp hpath).2.normalized h.tablePath
    rw [tableText_written]
    exact validateExternalMetadataPath_eq_ok.mpr ⟨rfl, hnormalized.2⟩
  | false =>
    rw [← tableText_written m, ← pathOrEmpty_char]
    rfl

theorem parseMember_written {pairs : List (Text × Json)} (h : MemberAccepted external pairs m)
    (hblank : endsBlank m.tablePath = false) : parseMember external (entriesJson m.toDict) = .ok m := by
  apply parseMember_eq_ok.mpr
  have hpath := normalizeRelativeTablePath_eq_ok.mpr (h.tablePath.again hblank)
  obtain ⟨path, -, hbuilt⟩ := h.built
  have hread := valueOrNull_written (nodup_memberEntries m)
  refine ⟨written m.toDict, rfl, ?_, ?_, ?_, ?_, ?_, m.tablePath, memberTable_written h, ?_⟩
  · exact hasOnlyKeys_written (by simp [RelationMember.toDict, memberKeys])
  · exact hasAllKeys_written (nodup_memberEntries m) (by simp [RelationMember.toDict, memberKeys])
  · rw [hread]
    simp [RelationMember.toDict]
  · rw [hread]
    simp [RelationMember.toDict]
  · rw [hread]
    simp [RelationMember.toDict, jsonBool?]
  · rw [rawMember_written]
    exact hbuilt.again hpath

/-- Reading a written member back never lengthens its path, and shortens it where it ends in a blank. -/
theorem length_tablePath_written (h : parseMember external (entriesJson m.toDict) = .ok m') :
    m'.tablePath.length ≤ m.tablePath.length ∧ (endsBlank m.tablePath = true → m'.tablePath.length < m.tablePath.length) := by
  obtain ⟨pairs, hpairs, haccepted⟩ := parseMember_eq_ok.mp h
  obtain rfl := Json.obj.inj hpairs
  have hpath := haccepted.tablePath
  rw [tableText_written] at hpath
  exact ⟨hpath.length_le, hpath.length_lt⟩

end Members

section Groups
variable {external : Bool} {pairs : List (Text × Json)} {g g' : RelationGroup}

def RelationGroup.relisted (g : RelationGroup) : RelationGroup :=
  { g with members := sortedBy RelationMember.sortKey g.members }

theorem nodup_groupEntries (g : RelationGroup) : (g.toDict.map (·.1)).Nodup := by simp [RelationGroup.toDict]

theorem accepted_of_parseMembers {v : Json} {members : List RelationMember} (h : parseMembers external v = .ok members)
    {m : RelationMember} (hm : m ∈ members) : ∃ pairs, MemberAccepted external pairs m := by
  obtain ⟨items, -, -, -, hitems⟩ := parseMembers_eq_ok.mp h
  obtain ⟨item, -, hitem⟩ := exists_of_forall₂_right hitems hm
  obtain ⟨pairs, -, haccepted⟩ := parseMember_eq_ok.mp hitem
  exact ⟨pairs, haccepted⟩

theorem parseMembers_written {v : Json} {members : List RelationMember} (h : parseMembers external v = .ok members)
    (hblank : ∀ m ∈ members, endsBlank m.tablePath = false) :
    parseMembers external (.arr ((sortedBy RelationMember.sortKey members).map fun m => entriesJson m.toDict)) =
      .ok (sortedBy RelationMember.sortKey members) := by
  obtain ⟨items, -, hne, hlen, hitems⟩ := parseMembers_eq_ok.mp h
  have hlength : (sortedBy RelationMember.sortKey members).length = items.length := by
    rw [(sortedBy_perm RelationMember.sortKey members).length_eq, hitems.length_eq]
  apply parseMembers_eq_ok.mpr
  refine ⟨_, rfl, ?_, ?_, ?_⟩
  · rw [List.isEmpty_eq_false_iff_exists_mem] at hne
    obtain ⟨item, hitem⟩ := hne
    rw [List.isEmpty_eq_false_iff, ← List.length_pos_iff, List.length_map, hlength]
    exact List.length_pos_of_mem hitem
  · rw [List.length_map, hlength]
    exact hlen
  · rw [List.forall₂_map_left_iff, List.forall₂_same]
    intro m hm
    have hmem := (mem_sortedBy RelationMember.sortKey).mp hm
    obtain ⟨pairs, haccepted⟩ := accepted_of_parseMembers h hmem
    exact parseMember_written haccepted (hblank m hmem)

theorem parseNumericStrategy_toJson (strategy : NumericStrategy) :
    parseNumericStrategy (Vocabulary.toJson strategy) = .ok strategy := by
  cases strategy <;> rfl

theorem parseSourceDigest_written {digest : Option Text} (h : digest.all isBoundedToken = true) :
    parseSourceDigest ((digest.map Json.str).getD .null) = .ok digest := by
  cases digest with
  | none => rfl
  | some digest =>
    have htoken : jsonToken? (.str digest) = some digest := if_pos h
    rw [Option.map_some, Option.getD_some, parseSourceDigest, htoken]
    · rfl
    · intro hnull
      cases hnull

theorem parseClaimFacts_written (h : GroupAccepted external pairs g) :
    ∃ claim, parseClaimFacts external (written g.toDict) g.provenance g.numericStrategy = .ok claim ∧
      g.claimAssurance = claim.map Prod.fst ∧ g.claimAuthority = claim.map Prod.snd := by
  have hread := valueOrNull_written (nodup_groupEntries g)
  obtain ⟨claim, hclaim, hassurance, hauthority⟩ := h.claim
  refine ⟨claim, ?_, hassurance, hauthority⟩
  cases external with
  | false =>
    obtain ⟨-, rfl⟩ := parseClaimFacts_plain.mp hclaim
    have hnone : g.claimAssurance = none := hassurance
    apply parseClaimFacts_plain.mpr
    rw [valueAt_written (nodup_groupEntries g)]
    simp [RelationGroup.toDict, hnone]
  | true =>
    obtain ⟨assurance, authority, rfl, haccepted⟩ := parseClaimFacts_external.mp hclaim
    have hsomeAssurance : g.claimAssurance = some assurance := hassurance
    have hsomeAuthority : g.claimAuthority = some authority := hauthority
    apply parseClaimFacts_external.mpr
    refine ⟨assurance, authority, rfl, ?_, ?_, haccepted.consistent, haccepted.authoritative, haccepted.strengthening⟩
    · rw [hread]
      simp [RelationGroup.toDict, hsomeAssurance]
    · rw [hread]
      simp [RelationGroup.toDict, hsomeAuthority]

theorem parseGroup_written (h : GroupAccepted external pairs g) (hblank : ∀ m ∈ g.members, endsBlank m.tablePath = false) :
    parseGroup external (entriesJson g.toDict) = .ok g.relisted := by
  have hread := valueOrNull_written (nodup_groupEntries g)
  have hbuilt := groupBuilt_iff.mp h.built
  apply parseGroup_eq_ok.mpr
  refine ⟨written g.toDict, rfl, ?_, ?_, ?_, ?_, ?_, ?_, ?_, ?_, parseClaimFacts_written h, ?_⟩
  · exact hasOnlyKeys_written (by simp [RelationGroup.toDict, groupKeys])
  · exact hasAllKeys_written (nodup_groupEntries g) (by simp [RelationGroup.toDict, requiredGroupKeys])
  · rw [hread]
    simp [RelationGroup.toDict, RelationGroup.relisted, jsonTextOrEmpty, jsonText?]
  · rw [hread]
    simp [RelationGroup.toDict, RelationGroup.relisted]
  · rw [hread]
    simp [RelationGroup.toDict, RelationGroup.relisted]
  · rw [hread]
    simp [RelationGroup.toDict, RelationGroup.relisted, parseNumericStrategy_toJson]
  · rw [hread]
    simpa [RelationGroup.toDict, RelationGroup.relisted] using parseMembers_written h.members hblank
  · rw [hread]
    simpa [RelationGroup.toDict, RelationGroup.relisted] using parseSourceDigest_written hbuilt.sourceDigest
  · exact groupBuilt_iff.mpr (hbuilt.perm (sortedBy_perm RelationMember.sortKey g.members))

theorem members_written (h : parseGroup external (entriesJson g.toDict) = .ok g') :
    List.Forall₂ (fun m m' => parseMember external (entriesJson m.toDict) = .ok m')
      (sortedBy RelationMember.sortKey g.members) g'.members := by
  obtain ⟨pairs, hpairs, haccepted⟩ := parseGroup_eq_ok.mp h
  obtain rfl := Json.obj.inj hpairs
  obtain ⟨items, harr, -, -, hitems⟩ := parseMembers_eq_ok.mp haccepted.members
  have hread := valueOrNull_written (nodup_groupEntries g) "members"
  have hmembers : valueOrNull (written g.toDict) "members" =
      .arr ((sortedBy RelationMember.sortKey g.members).map fun m => entriesJson m.toDict) := by
    rw [hread]
    simp [RelationGroup.toDict]
  rw [hmembers] at harr
  rw [← Json.arr.inj harr, List.forall₂_map_left_iff] at hitems
  exact hitems

end Groups

section Claims
variable {pairs : List (Text × Json)} {t : ExternalIndexTag} {c : ExternalIndexClaim}

def ExternalIndexClaim.relisted (c : ExternalIndexClaim) : ExternalIndexClaim :=
  { c with tags := sortedBy ExternalIndexTag.sortKey c.tags }

theorem nodup_tagEntries (t : ExternalIndexTag) : (t.toDict.map (·.1)).Nodup := by simp [ExternalIndexTag.toDict]

theorem parseTagExpression_written {v : Json} {expression : Option Text} (h : parseTagExpression v = .ok expression) :
    parseTagExpression ((expression.map Json.str).getD .null) = .ok expression := by
  cases v with
  | null =>
    obtain rfl := Except.ok.inj h
    rfl
  | str s =>
    rw [parseTagExpression] at h
    split_ifs at h with hvalid
    obtain rfl := Except.ok.inj h
    exact if_pos hvalid
  | _ => cases h

theorem parseIndexTag_written (h : IndexTagAccepted pairs t) : parseIndexTag (entriesJson t.toDict) = .ok t := by
  have hread := valueOrNull_written (nodup_tagEntries t)
  have hname := isBoundedToken_of_jsonToken? h.name
  apply parseIndexTag_eq_ok.mpr
  refine ⟨written t.toDict, rfl, ?_, ?_, ?_, ?_, ?_⟩
  · exact hasOnlyKeys_written (by simp [ExternalIndexTag.toDict, tagKeys])
  · exact hasAllKeys_written (nodup_tagEntries t) (by simp [ExternalIndexTag.toDict])
  · rw [hread]
    simp [ExternalIndexTag.toDict, hname]
  · rw [hread]
    simp [ExternalIndexTag.toDict]
  · rw [hread]
    simpa [ExternalIndexTag.toDict] using parseTagExpression_written h.expression

theorem parseIndexTags_written {v : Json} {detail : String} {tags : List ExternalIndexTag}
    (h : parseIndexTags v detail = .ok tags) :
    parseIndexTags (.arr ((sortedBy ExternalIndexTag.sortKey tags).map fun t => entriesJson t.toDict)) detail =
      .ok (sortedBy ExternalIndexTag.sortKey tags) := by
  obtain ⟨items, -, hne, hlen, hitems, hnodup⟩ := parseIndexTags_eq_ok.mp h
  have hperm := sortedBy_perm ExternalIndexTag.sortKey tags
  have hlength : (sortedBy ExternalIndexTag.sortKey tags).length = items.length := by
    rw [hperm.length_eq, hitems.length_eq]
  apply parseIndexTags_eq_ok.mpr
  refine ⟨_, rfl, ?_, ?_, ?_, (hperm.map _).nodup_iff.mpr hnodup⟩
  · rw [List.isEmpty_eq_false_iff_exists_mem] at hne
    obtain ⟨item, hitem⟩ := hne
    rw [List.isEmpty_eq_false_iff, ← List.length_pos_iff, List.length_map, hlength]
    exact List.length_pos_of_mem hitem
  · rw [List.length_map, hlength]
    exact hlen
  · rw [List.forall₂_map_left_iff, List.forall₂_same]
    intro t ht
    obtain ⟨item, -, hitem⟩ := exists_of_forall₂_right hitems ((mem_sortedBy ExternalIndexTag.sortKey).mp ht)
    obtain ⟨pairs, -, haccepted⟩ := parseIndexTag_eq_ok.mp hitem
    exact parseIndexTag_written haccepted

theorem nodup_indexClaimEntries (c : ExternalIndexClaim) : (c.toDict.map (·.1)).Nodup := by simp [ExternalIndexClaim.toDict]

theorem IndexClaimAccepted.paths (h : IndexClaimAccepted pairs c) :
    ExternalPath c.tablePath true ∧ ExternalPath c.indexFilePath false := by
  obtain ⟨htable, htablePath⟩ := validateExternalMetadataPath_eq_ok.mp h.tablePath
  obtain ⟨hfile, hfilePath⟩ := validateExternalMetadataPath_eq_ok.mp h.indexFilePath
  rw [← htable] at htablePath
  rw [← hfile] at hfilePath
  exact ⟨htablePath, hfilePath⟩

theorem parseIndexClaim_written (h : IndexClaimAccepted pairs c) :
    parseIndexClaim [] (entriesJson c.toDict) = .ok c.relisted := by
  have hread := valueOrNull_written (nodup_indexClaimEntries c)
  have hid := isBoundedToken_of_jsonToken? h.claimId
  apply parseIndexClaim_eq_ok.mpr
  refine ⟨List.not_mem_nil, written c.toDict, rfl, ?_, ?_, ?_, ?_, ?_, ?_, ?_, ?_, h.consistent, ?_, h.suffix, ?_, h.authoritative⟩
  · rw [hasExactKeys, Bool.and_eq_true]
    exact ⟨hasOnlyKeys_written (by simp [ExternalIndexClaim.toDict, indexClaimKeys]),
      hasAllKeys_written (nodup_indexClaimEntries c) (by simp [ExternalIndexClaim.toDict, indexClaimKeys])⟩
  · rw [hread]
    simp [ExternalIndexClaim.toDict, ExternalIndexClaim.relisted, hid]
  · rw [hread]
    simpa [ExternalIndexClaim.toDict, ExternalIndexClaim.relisted, jsonTextOrEmpty, jsonText?] using
      validateExternalMetadataPath_eq_ok.mpr ⟨rfl, h.paths.1⟩
  · rw [hread]
    simpa [ExternalIndexClaim.toDict, ExternalIndexClaim.relisted, jsonTextOrEmpty, jsonText?] using
      validateExternalMetadataPath_eq_ok.mpr ⟨rfl, h.paths.2⟩
  · rw [hread]
    simp [ExternalIndexClaim.toDict, ExternalIndexClaim.relisted]
  · rw [hread]
    simpa [ExternalIndexClaim.toDict, ExternalIndexClaim.relisted] using parseIndexTags_written h.tags
  · rw [hread]
    simp [ExternalIndexClaim.toDict, ExternalIndexClaim.relisted]
  · rw [hread]
    simp [ExternalIndexClaim.toDict, ExternalIndexClaim.relisted]
  · rw [hread]
    simp [ExternalIndexClaim.toDict, ExternalIndexClaim.relisted]
  · rw [hread]
    simp [ExternalIndexClaim.toDict, ExternalIndexClaim.relisted]

end Claims

section Envelope
variable {pairs : List (Text × Json)} {envelope : ExternalEnvelope} {groups : List RelationGroup}

def ExternalEnvelope.relisted (envelope : ExternalEnvelope) : ExternalEnvelope :=
  { envelope with
    indexClaims := (sortedBy ExternalIndexClaim.claimId envelope.indexClaims).map ExternalIndexClaim.relisted }

theorem parseProducer_written (producer : ExternalProducerProvenance) (hid : isBoundedToken producer.producerId = true)
    (hversion : isBoundedToken producer.producerVersion = true) :
    parseProducer (entriesJson [("producer_id", some (.str producer.producerId)),
      ("producer_version", some (.str producer.producerVersion))]) = .ok producer := by
  apply parseProducer_eq_ok.mpr
  refine ⟨written _, rfl, hasOnlyKeys_written (by simp [producerKeys]), ?_, ?_⟩
  · rw [valueOrNull_written (by simp)]
    simp [hid]
  · rw [valueOrNull_written (by simp)]
    simp [hversion]

theorem envelopeClaims_written {v : Option Json} (h : envelopeClaims v = .ok envelope.indexClaims) :
    envelopeClaims (ExternalEnvelope.document (some envelope) groups).indexClaimsJson = .ok envelope.relisted.indexClaims := by
  have hperm := sortedBy_perm ExternalIndexClaim.claimId envelope.indexClaims
  obtain ⟨hread, hconsistent⟩ := envelopeClaims_eq_ok.mp h
  have hclaims : (ExternalEnvelope.document (some envelope) groups).indexClaims = envelope.indexClaims := rfl
  rw [RelationshipDocument.indexClaimsJson, hclaims]
  by_cases hnil : envelope.indexClaims = []
  · rw [if_pos hnil, ExternalEnvelope.relisted, hnil]
    rfl
  rw [if_neg hnil]
  apply envelopeClaims_eq_ok.mpr
  constructor
  · right
    refine ⟨_, rfl, ?_⟩
    rcases hread with ⟨-, hclaims⟩ | ⟨w, -, hparsed⟩
    · exact absurd hclaims hnil
    obtain ⟨items, -, hlen, hitems, hnodup⟩ := parseIndexClaims_eq_ok.mp hparsed
    apply parseIndexClaims_eq_ok.mpr
    refine ⟨_, rfl, ?_, ?_, ?_⟩
    · rw [List.length_map, hperm.length_eq, ← hitems.length_eq]
      exact hlen
    · rw [ExternalEnvelope.relisted, List.forall₂_map_left_iff, List.forall₂_map_right_iff, List.forall₂_same]
      intro c hc
      obtain ⟨item, -, hitem⟩ := exists_of_forall₂_right hitems (hperm.mem_iff.mp hc)
      obtain ⟨-, pairs, -, haccepted⟩ := parseIndexClaim_eq_ok.mp hitem
      exact parseIndexClaim_written haccepted
    · rw [ExternalEnvelope.relisted, List.map_map]
      exact (hperm.map ExternalIndexClaim.claimId).nodup_iff.mpr hnodup
  · intro c hc
    obtain ⟨original, horiginal, rfl⟩ := List.mem_map.mp hc
    exact hconsistent original (hperm.mem_iff.mp horiginal)

theorem nodup_documentEntries (d : RelationshipDocument) : (d.toDict.map (·.1)).Nodup := by simp [RelationshipDocument.toDict]

theorem parseEnvelope_written (h : EnvelopeAccepted pairs envelope) :
    parseEnvelope (written (ExternalEnvelope.document (some envelope) groups).toDict) = .ok (some envelope.relisted) := by
  have hn := nodup_documentEntries (ExternalEnvelope.document (some envelope) groups)
  have hread := valueOrNull_written hn
  obtain ⟨producerPairs, -, -, hid, hversion⟩ := parseProducer_eq_ok.mp h.producer
  have hproducer : _ = Except.ok envelope.relisted.producer :=
    parseProducer_written envelope.producer (isBoundedToken_of_jsonToken? hid) (isBoundedToken_of_jsonToken? hversion)
  apply parseEnvelope_eq_some.mpr
  refine ⟨?_, ?_, ?_, ?_, ?_⟩
  · apply hasAllKeys_written hn
    simp [RelationshipDocument.toDict, RelationshipDocument.producerJson, ExternalEnvelope.document, requiredEnvelopeKeys]
  · rw [hread]
    simp [RelationshipDocument.toDict, ExternalEnvelope.document, jsonText?]
  · rw [hread]
    simpa [RelationshipDocument.toDict, RelationshipDocument.producerJson, ExternalEnvelope.document] using hproducer
  · rw [hread]
    simp [RelationshipDocument.toDict, ExternalEnvelope.document, ExternalEnvelope.relisted]
  · rw [valueAt_written hn]
    simpa [RelationshipDocument.toDict] using envelopeClaims_written h.indexClaims

theorem parseEnvelope_written_none (groups : List RelationGroup) :
    parseEnvelope (written (ExternalEnvelope.document none groups).toDict) = .ok none := by
  have hn := nodup_documentEntries (ExternalEnvelope.document none groups)
  apply parseEnvelope_eq_none.mpr
  apply List.all_eq_true.mpr
  intro key hkey
  rw [valueAt_written hn]
  simp only [envelopeKeys, requiredEnvelopeKeys, List.mem_append, List.mem_cons, List.not_mem_nil, or_false] at hkey
  rcases hkey with (rfl | rfl | rfl) | rfl <;>
    simp [RelationshipDocument.toDict, RelationshipDocument.producerJson, RelationshipDocument.indexClaimsJson,
      ExternalEnvelope.document]

end Envelope

section Documents
variable {pairs : List (Text × Json)} {envelope : Option ExternalEnvelope} {groups : List RelationGroup}
  {d d' : RelationshipDocument}

def relistedGroups (groups : List RelationGroup) : List RelationGroup :=
  (sortedBy RelationGroup.relationId groups).map RelationGroup.relisted

theorem parseRelationshipDocument_written (h : DocumentAccepted pairs envelope groups)
    (hblank : ∀ g ∈ groups, ∀ m ∈ g.members, endsBlank m.tablePath = false) :
    parseRelationshipDocument (entriesJson (ExternalEnvelope.document envelope groups).toDict) =
      .ok (ExternalEnvelope.document (envelope.map ExternalEnvelope.relisted) (relistedGroups groups)) := by
  have hn := nodup_documentEntries (ExternalEnvelope.document envelope groups)
  have hread := valueOrNull_written hn
  have hperm := sortedBy_perm RelationGroup.relationId groups
  obtain ⟨items, -, hlen, hitems⟩ := parseRelations_eq_ok.mp h.groups_read
  apply parseRelationshipDocument_eq_ok.mpr
  refine ⟨written _, envelope.map ExternalEnvelope.relisted, relistedGroups groups, rfl, ⟨?_, ?_, ?_, ?_, ?_, ?_⟩, rfl⟩
  · apply hasOnlyKeys_written
    simp [RelationshipDocument.toDict, documentKeys, envelopeKeys, requiredEnvelopeKeys]
  · apply hasAllKeys_written hn
    simp [RelationshipDocument.toDict, documentKeys]
  · rw [hread]
    simp [RelationshipDocument.toDict, jsonText?]
  · cases envelope with
    | none => exact parseEnvelope_written_none groups
    | some envelope => exact parseEnvelope_written (parseEnvelope_eq_some.mp h.envelope_read)
  · have hrelations : valueOrNull (written (ExternalEnvelope.document envelope groups).toDict) "relations" =
        .arr ((sortedBy RelationGroup.relationId groups).map fun g => entriesJson g.toDict) := by
      rw [hread]
      simp [RelationshipDocument.toDict, ExternalEnvelope.document]
    rw [hrelations, Option.isSome_map]
    apply parseRelations_eq_ok.mpr
    refine ⟨_, rfl, ?_, ?_⟩
    · rw [List.length_map, hperm.length_eq, ← hitems.length_eq]
      exact hlen
    · rw [relistedGroups, List.forall₂_map_left_iff, List.forall₂_map_right_iff, List.forall₂_same]
      intro g hg
      have hmem := hperm.mem_iff.mp hg
      obtain ⟨item, -, hitem⟩ := exists_of_forall₂_right hitems hmem
      obtain ⟨groupPairs, -, haccepted⟩ := parseGroup_eq_ok.mp hitem
      exact parseGroup_written haccepted (hblank g hmem)
  · rw [relistedGroups, List.map_map]
    exact (hperm.map RelationGroup.relationId).nodup_iff.mpr h.relationIds

theorem sameDocument_relisted (envelope : Option ExternalEnvelope) (groups : List RelationGroup) :
    SameDocument (ExternalEnvelope.document envelope groups)
      (ExternalEnvelope.document (envelope.map ExternalEnvelope.relisted) (relistedGroups groups)) := by
  have hgroups : SameUpToOrder SameGroup groups (relistedGroups groups) := by
    refine ⟨_, (sortedBy_perm RelationGroup.relationId groups).symm, ?_⟩
    rw [relistedGroups, List.forall₂_map_right_iff, List.forall₂_same]
    intro g _
    exact ⟨rfl, rfl, rfl, rfl, rfl, rfl, rfl, (sortedBy_perm RelationMember.sortKey g.members).symm⟩
  cases envelope with
  | none => exact ⟨rfl, rfl, rfl, rfl, hgroups, ⟨[], .nil, .nil⟩⟩
  | some envelope =>
    refine ⟨rfl, rfl, rfl, rfl, hgroups, _, (sortedBy_perm ExternalIndexClaim.claimId envelope.indexClaims).symm, ?_⟩
    show List.Forall₂ SameIndexClaim _ ((sortedBy ExternalIndexClaim.claimId envelope.indexClaims).map ExternalIndexClaim.relisted)
    rw [List.forall₂_map_right_iff, List.forall₂_same]
    intro c _
    exact ⟨rfl, rfl, rfl, rfl, rfl, rfl, rfl, rfl, (sortedBy_perm ExternalIndexTag.sortKey c.tags).symm⟩

def pathsLength (g : RelationGroup) : ℕ := (g.members.map fun m => m.tablePath.length).sum

theorem SameGroup.pathsLength_eq {g g' : RelationGroup} (h : SameGroup g g') : pathsLength g = pathsLength g' :=
  (h.members.map _).sum_eq

theorem pathsLength_eq_of_same (h : SameDocument d d') :
    (d.groups.map pathsLength).sum = (d'.groups.map pathsLength).sum := by
  obtain ⟨listed, hperm, hlisted⟩ := h.groups
  rw [(hperm.map pathsLength).sum_eq]
  have hle := sum_le_of_forall₂ hlisted fun g g' hsame => (SameGroup.pathsLength_eq hsame).ge
  have hge := sum_le_of_forall₂ hlisted.flip fun g' g hsame => (SameGroup.pathsLength_eq hsame).le
  exact Nat.le_antisymm hge hle

theorem pathsLength_written_le {external : Bool} {g g' : RelationGroup}
    (h : parseGroup external (entriesJson g.toDict) = .ok g') : pathsLength g' ≤ pathsLength g := by
  have hle := sum_le_of_forall₂ (members_written h) fun m m' hm => (length_tablePath_written hm).1
  rwa [((sortedBy_perm RelationMember.sortKey g.members).map _).sum_eq] at hle

theorem not_endsBlank_of_pathsLength_eq {external : Bool} {g g' : RelationGroup}
    (h : parseGroup external (entriesJson g.toDict) = .ok g') (heq : pathsLength g' = pathsLength g) {m : RelationMember}
    (hm : m ∈ g.members) : endsBlank m.tablePath = false := by
  have hperm := sortedBy_perm RelationMember.sortKey g.members
  have hall := forall₂_eq_of_sum_eq (members_written h) (fun m m' hm => (length_tablePath_written hm).1)
    (heq.trans (hperm.map _).sum_eq.symm)
  obtain ⟨m', -, hread, hlength⟩ := exists_of_forall₂_left hall (hperm.mem_iff.mpr hm)
  by_contra hblank
  rw [Bool.not_eq_false] at hblank
  have hlt := (length_tablePath_written hread).2 hblank
  omega

theorem not_endsBlank_of_same (h : parseRelationshipDocument (entriesJson d.toDict) = .ok d') (hsame : SameDocument d d') :
    ∀ g ∈ d.groups, ∀ m ∈ g.members, endsBlank m.tablePath = false := by
  obtain ⟨pairs, envelope, groups, hpairs, haccepted, rfl⟩ := parseRelationshipDocument_eq_ok.mp h
  obtain rfl := Json.obj.inj hpairs
  obtain ⟨items, harr, -, hitems⟩ := parseRelations_eq_ok.mp haccepted.groups_read
  have hrelations : valueOrNull (written d.toDict) "relations" =
      .arr ((sortedBy RelationGroup.relationId d.groups).map fun g => entriesJson g.toDict) := by
    rw [valueOrNull_written (nodup_documentEntries d)]
    simp [RelationshipDocument.toDict]
  rw [hrelations] at harr
  rw [← Json.arr.inj harr, List.forall₂_map_left_iff] at hitems
  have hperm := sortedBy_perm RelationGroup.relationId d.groups
  have hsum : (groups.map pathsLength).sum = ((sortedBy RelationGroup.relationId d.groups).map pathsLength).sum := by
    rw [(hperm.map pathsLength).sum_eq]
    exact (pathsLength_eq_of_same hsame).symm
  have hall := forall₂_eq_of_sum_eq hitems (fun g g' hg => pathsLength_written_le hg) hsum
  intro g hg m hm
  obtain ⟨g', -, hread, heq⟩ := exists_of_forall₂_left hall (hperm.mem_iff.mpr hg)
  exact not_endsBlank_of_pathsLength_eq hread heq hm

/-- The items that an object lists under a key. -/
def listedUnder (key : String) : Json → List Json
  | .obj pairs =>
    match valueOrNull pairs key with
    | .arr items => items
    | _ => []
  | _ => []

def tableText : Json → Text
  | .obj pairs => jsonTextOrEmpty (valueOrNull pairs "table")
  | _ => []

/-- The table of every member, as the payload spells it. -/
def memberTables (payload : Json) : List Text :=
  (listedUnder "relations" payload).flatMap fun group => (listedUnder "members" group).map tableText

theorem endsBlank_of_parseMember {external : Bool} {v : Json} {m : RelationMember} (h : parseMember external v = .ok m) :
    trailingBlank (tableText v) = false ↔ endsBlank m.tablePath = false := by
  obtain ⟨pairs, rfl, haccepted⟩ := parseMember_eq_ok.mp h
  rw [haccepted.tablePath.endsBlank_path]
  rfl

theorem endsBlank_of_parseGroup {external : Bool} {v : Json} {g : RelationGroup} (h : parseGroup external v = .ok g) :
    (∀ item ∈ listedUnder "members" v, trailingBlank (tableText item) = false) ↔
      ∀ m ∈ g.members, endsBlank m.tablePath = false := by
  obtain ⟨pairs, rfl, haccepted⟩ := parseGroup_eq_ok.mp h
  obtain ⟨items, harr, -, -, hitems⟩ := parseMembers_eq_ok.mp haccepted.members
  rw [listedUnder, harr]
  exact forall_iff_of_forall₂ hitems fun _ _ hm => endsBlank_of_parseMember hm

theorem endsBlank_of_parsed {payload : Json} (h : parseRelationshipDocument payload = .ok d) :
    (∀ value ∈ memberTables payload, trailingBlank value = false) ↔
      ∀ g ∈ d.groups, ∀ m ∈ g.members, endsBlank m.tablePath = false := by
  obtain ⟨pairs, envelope, groups, rfl, haccepted, rfl⟩ := parseRelationshipDocument_eq_ok.mp h
  obtain ⟨items, harr, -, hitems⟩ := parseRelations_eq_ok.mp haccepted.groups_read
  have hgroups := forall_iff_of_forall₂ hitems fun _ _ hg => endsBlank_of_parseGroup hg
  rw [memberTables, listedUnder, harr]
  simp only [List.mem_flatMap, List.mem_map]
  constructor
  · intro hall
    apply hgroups.mp
    intro group hgroup item hitem
    exact hall _ ⟨group, hgroup, item, hitem, rfl⟩
  · intro hall value hvalue
    obtain ⟨group, hgroup, item, hitem, rfl⟩ := hvalue
    exact hgroups.mpr hall group hgroup item hitem

/-- Written and parsed again, an accepted document is accepted and the same exactly when no table is spelled with a blank
in front of trailing separators. -/
theorem relationshipDocument_roundTrip_iff {payload : Json} (h : parseRelationshipDocument payload = .ok d) :
    (∃ d', parseRelationshipDocument (entriesJson d.toDict) = .ok d' ∧
      canonicalRelationshipBytes d' = canonicalRelationshipBytes d ∧ SameDocument d d') ↔
        ∀ value ∈ memberTables payload, trailingBlank value = false := by
  rw [endsBlank_of_parsed h]
  constructor
  · intro hround
    obtain ⟨d', hread, -, hsame⟩ := hround
    exact not_endsBlank_of_same hread hsame
  · intro hblank
    obtain ⟨pairs, envelope, groups, -, haccepted, rfl⟩ := parseRelationshipDocument_eq_ok.mp h
    have hread := parseRelationshipDocument_written haccepted hblank
    have hsame := sameDocument_relisted envelope groups
    have hjson := (documentJson_eq_iff (distinctDocument_of_parsed h) (distinctDocument_of_parsed hread).envelope).mpr hsame
    exact ⟨_, hread, (canonicalRelationshipBytes_congr hjson).symm, hsame⟩

/-- Separators and blanks around a path leave the document stable. -/
theorem relationshipDocument_roundTrip_spaced :
    ∃ d', parseRelationshipDocument (entriesJson (plainDocument "data/a.dbf".toList "b.dbf".toList).toDict) = .ok d' ∧
      canonicalRelationshipBytes d' = canonicalRelationshipBytes (plainDocument "data/a.dbf".toList "b.dbf".toList) ∧
        SameDocument (plainDocument "data/a.dbf".toList "b.dbf".toList) d' := by
  have hparsed : parseRelationshipDocument (plainPayload " data\\\\a.dbf/ ".toList "b.dbf".toList) =
      .ok (plainDocument "data/a.dbf".toList "b.dbf".toList) := by decide +kernel
  exact (relationshipDocument_roundTrip_iff hparsed).mpr (by decide +kernel)

/-- A blank in front of a trailing separator stays on the path at first and is gone when the document is read back. -/
theorem relationshipDocument_roundTrip_blank :
    parseRelationshipDocument (plainPayload "a.dbf /".toList "b.dbf".toList) =
        .ok (plainDocument "a.dbf ".toList "b.dbf".toList) ∧
      ¬ ∃ d', parseRelationshipDocument (entriesJson (plainDocument "a.dbf ".toList "b.dbf".toList).toDict) = .ok d' ∧
        canonicalRelationshipBytes d' = canonicalRelationshipBytes (plainDocument "a.dbf ".toList "b.dbf".toList) := by
  have hread : parseRelationshipDocument (entriesJson (plainDocument "a.dbf ".toList "b.dbf".toList).toDict) =
      .ok (plainDocument "a.dbf".toList "b.dbf".toList) := by decide +kernel
  have hbytes : canonicalRelationshipBytes (plainDocument "a.dbf".toList "b.dbf".toList) ≠
      canonicalRelationshipBytes (plainDocument "a.dbf ".toList "b.dbf".toList) := by decide +kernel
  constructor
  · decide +kernel
  · intro h
    obtain ⟨d', hd', heq⟩ := h
    rw [hread] at hd'
    obtain rfl := Except.ok.inj hd'
    exact hbytes heq

end Documents
end DbfAnonymizer.Relationships
