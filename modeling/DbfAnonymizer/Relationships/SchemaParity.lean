import DbfAnonymizer.Relationships.DocumentRoundTrip
import DbfAnonymizer.Relationships.ExternalSchema

/-! The parser of external metadata against the shipped schema: exactly which accepted payloads the schema accepts too. -/
namespace DbfAnonymizer.Relationships
open Lib Lib.Schema
open Verification (pathSuffix)

def under (key : String) : Json → Json
  | .obj pairs => valueOrNull pairs key
  | _ => .null

def isNull : Json → Bool
  | .null => true
  | _ => false

/-- A key that is there and holds a null. -/
def nullUnder (key : String) : Json → Bool
  | .obj pairs => (valueAt pairs key).any isNull
  | _ => false

def endsInNewline : Json → Bool
  | .str s => s.getLast? == some '\n'
  | _ => false

/-- A file name that is the suffix of a table and nothing else. -/
def bareSuffix (path : Text) : Bool := ((path.splitOn '/').getLast?.any fun name => name.map Char.toLower == tableSuffix)

def startsBlank (value : Text) : Bool := value.head?.any isWhitespace

def conformingMember (v : Json) : Bool :=
  !endsInNewline (under "field" v) && !endsInNewline (under "encoding" v) && !bareSuffix (tableText v)

def conformingRelation (v : Json) : Bool :=
  !endsInNewline (under "relation_id" v) && !endsInNewline (under "source_digest" v) && !nullUnder "source_digest" v &&
    !nullUnder "numeric_strategy" v && (listedUnder "members" v).all conformingMember

def conformingTag (v : Json) : Bool := !endsInNewline (under "name" v) && !nullUnder "expression" v

def conformingIndexClaim (v : Json) : Bool :=
  !endsInNewline (under "claim_id" v) && !bareSuffix (tableText v) && (listedUnder "tags" v).all conformingTag

def conformingProducer (v : Json) : Bool :=
  !endsInNewline (under "producer_id" v) && !endsInNewline (under "producer_version" v)

/-- No optional null, no token that ends in a newline, no table that is called by its suffix alone. -/
def conformingPayload (v : Json) : Bool :=
  conformingProducer (under "producer" v) && (listedUnder "relations" v).all conformingRelation &&
    (listedUnder "index_claims" v).all conformingIndexClaim

theorem boundedToken_str {t : Text} (h : isBoundedToken t = true) :
    boundedToken (.str t) = true ↔ endsInNewline (.str t) = false := by
  have hnewline : isTokenCharacter '\n' = false := by decide
  rw [isBoundedToken, Bool.or_eq_true, Bool.and_eq_true] at h
  constructor
  · intro hschema
    rw [endsInNewline, beq_eq_false_iff_ne]
    intro hlast
    have hmem : '\n' ∈ t := List.mem_of_getLast? hlast
    simp only [boundedToken, allOf, isString, minLength, maxLength, pattern, tokenPattern, List.all_cons, List.all_nil,
      Bool.and_true, Bool.and_eq_true, List.all_eq_true] at hschema
    have hchar := hschema.2.2.2.2 '\n' hmem
    rw [hnewline] at hchar
    cases hchar
  · intro hend
    rcases h with hbody | ⟨hlast, -⟩
    · simp only [isTokenBody, Bool.and_eq_true, decide_eq_true_eq] at hbody
      have hne : t ≠ [] := List.length_pos_iff.mp hbody.1.1
      simpa [boundedToken, allOf, isString, minLength, maxLength, pattern, tokenPattern, hbody.1.1, hbody.1.2, hne] using hbody.2
    · rw [endsInNewline, hlast] at hend
      cases hend

theorem relativePath_str {path : Text} (h : ExternalPath path false) : relativePath (.str path) = true := by
  have hlength : 1 ≤ path.length := List.length_pos_iff.mpr h.nonempty
  have hbounded : path.length ≤ 256 := h.bounded
  have hdots : noDotSegments path = true := by
    apply List.all_eq_true.mpr
    intro part hpart
    have hsegment := h.segments part hpart
    simp [hsegment.2.1, hsegment.2.2.1]
  have hsegments : segmentsPattern path = true := by
    apply List.all_eq_true.mpr
    intro part hpart
    have hsegment := h.segments part hpart
    simpa [hsegment.1] using hsegment.2.2.2
  simp [relativePath, allOf, isString, minLength, maxLength, pattern, relativePathPattern, hlength, hbounded, hdots, hsegments]

/-- In front of its suffix a table path has whole segments unless its file name is the suffix alone. -/
theorem segmentsPattern_stem {path : Text} (h : ExternalPath path true) :
    segmentsPattern (path.take (path.length - tableSuffix.length)) = true ↔ bareSuffix path = false := by
  obtain ⟨front, tail, hpath, hlower, htail⟩ : ∃ front tail, path = front ++ tail ∧ tail.map Char.toLower = tableSuffix ∧
      tail.length = 4 := by
    obtain ⟨front, a, b, c, d, hpath, hlower, -, -⟩ := h.suffix_characters
    exact ⟨front, [a, b, c, d], hpath, hlower, rfl⟩
  have hclean : ∀ c ∈ tail, (c == '/') = false := by
    intro c hc
    rw [beq_eq_false_iff_ne]
    rintro rfl
    have hin : '/'.toLower ∈ tail.map Char.toLower := List.mem_map_of_mem hc
    rw [hlower] at hin
    exact absurd hin (by decide)
  obtain ⟨before, last, hsplit, happend⟩ := splitOnP_append_of_clean_suffix hclean
  have hstem : path.take (path.length - tableSuffix.length) = front := by
    rw [hpath, List.length_append, htail]
    exact List.take_left' (by simp [tableSuffix])
  have hsegments : path.splitOn '/' = before ++ [last ++ tail] := hpath ▸ happend
  have hstemSegments : front.splitOn '/' = before ++ [last] := hsplit
  have hbare : bareSuffix path = false ↔ last ≠ [] := by
    have hname : (last ++ tail).map Char.toLower = tableSuffix ↔ last = [] := by
      rw [List.map_append, hlower]
      simp
    rw [bareSuffix, hsegments, List.getLast?_append_cons, List.getLast?_singleton, Option.any_some, beq_eq_false_iff_ne, Ne, hname]
  rw [hstem, hbare, segmentsPattern, hstemSegments, List.all_append, Bool.and_eq_true]
  have hbefore : (before.all fun part => !part.isEmpty && part.all isExternalPathCharacter) = true := by
    apply List.all_eq_true.mpr
    intro part hpart
    have hsegment := h.segments part (hsegments ▸ List.mem_append_left _ hpart)
    simpa [hsegment.1] using hsegment.2.2.2
  have hlast : last.all isExternalPathCharacter = true := by
    have hsegment := h.segments (last ++ tail) (hsegments ▸ List.mem_append_right _ List.mem_cons_self)
    rw [List.all_append, Bool.and_eq_true] at hsegment
    exact hsegment.2.2.2.1
  simp [hbefore, hlast]

theorem relativeTablePath_str {path : Text} (h : ExternalPath path true) :
    relativeTablePath (.str path) = true ↔ bareSuffix path = false := by
  have hlength : 1 ≤ path.length := List.length_pos_iff.mpr h.nonempty
  have hbounded : path.length ≤ 256 := h.bounded
  have hdots : noDotSegments path = true := by
    apply List.all_eq_true.mpr
    intro part hpart
    have hsegment := h.segments part hpart
    simp [hsegment.2.1, hsegment.2.2.1]
  have hsuffix : suffixPattern tableSuffix path = true := h.suffix rfl
  rw [← segmentsPattern_stem h]
  simp [relativeTablePath, allOf, isString, minLength, maxLength, pattern, relativeTablePathPattern, hlength, hbounded, hdots,
    hsuffix]

section Reading
variable {pairs : List (Text × Json)} {key : String}

theorem valueAt_word {α : Type} [Vocabulary α] {a : α} (h : Vocabulary.ofJson (valueOrNull pairs key) = some a) :
    valueAt pairs key = some (Vocabulary.toJson a) := by
  apply valueAt_of_valueOrNull (Vocabulary.ofJson_eq_some.mp h)
  intro hnull
  cases hnull

theorem valueAt_token {token : Text} (h : jsonToken? (valueOrNull pairs key) = some token) :
    valueAt pairs key = some (.str token) := by
  cases hv : valueOrNull pairs key with
  | str s =>
    rw [hv, jsonToken?] at h
    split_ifs at h
    obtain rfl := Option.some.inj h
    apply valueAt_of_valueOrNull hv
    intro hnull
    cases hnull
  | _ =>
    rw [hv] at h
    cases h

theorem valueAt_text {value : Text} (h : jsonTextOrEmpty (valueOrNull pairs key) = value) (hne : value ≠ []) :
    valueAt pairs key = some (.str value) := by
  cases hv : valueOrNull pairs key with
  | str s =>
    rw [hv] at h
    obtain rfl : s = value := h
    apply valueAt_of_valueOrNull hv
    intro hnull
    cases hnull
  | _ =>
    rw [hv] at h
    exact absurd h.symm hne

theorem valueAt_count {n : ℕ} (h : jsonCountOrZero (valueOrNull pairs key) = n) (hpos : 1 ≤ n) :
    valueAt pairs key = some (.int n) := by
  cases hv : valueOrNull pairs key with
  | int value =>
    rw [hv, jsonCountOrZero, jsonCount?] at h
    split_ifs at h with hsign
    · have hvalue : value = n := by
        rw [← h, Option.getD_some, Int.natCast_natAbs, abs_of_nonneg hsign]
      rw [← hvalue]
      apply valueAt_of_valueOrNull hv
      intro hnull
      cases hnull
    · rw [Option.getD_none] at h
      omega
  | _ =>
    rw [hv] at h
    have hzero : 0 = n := h
    omega

theorem valueAt_bool {b : Bool} (h : jsonBool? (valueOrNull pairs key) = some b) : valueAt pairs key = some (.bool b) := by
  cases hv : valueOrNull pairs key with
  | bool value =>
    rw [hv] at h
    obtain rfl : value = b := Option.some.inj h
    apply valueAt_of_valueOrNull hv
    intro hnull
    cases hnull
  | _ =>
    rw [hv] at h
    cases h

theorem valueAt_arr {items : List Json} (h : valueOrNull pairs key = .arr items) : valueAt pairs key = some (.arr items) := by
  apply valueAt_of_valueOrNull h
  intro hnull
  cases hnull

theorem ne_nil_of_boundedToken {token : Text} (h : isBoundedToken token = true) : token ≠ [] := by
  rintro rfl
  cases h

theorem under_of_valueAt {v : Json} (h : valueAt pairs key = some v) : under key (.obj pairs) = v := by
  rw [under, valueOrNull, h, Option.getD_some]

theorem ExternalPath.read {requireTableSuffix : Bool} {path : Text}
    (h : validateExternalMetadataPath (jsonTextOrEmpty (valueOrNull pairs key)) requireTableSuffix = .ok path) :
    valueAt pairs key = some (.str path) ∧ ExternalPath path requireTableSuffix := by
  obtain ⟨rfl, hpath⟩ := validateExternalMetadataPath_eq_ok.mp h
  exact ⟨valueAt_text rfl hpath.nonempty, hpath⟩

end Reading

section Members
variable {integral : Text → Option ℤ} {pairs : List (Text × Json)} {m : RelationMember}

/-- The values of an accepted payload, one for each field of the member that its constructor is given. -/
structure MemberRead (pairs : List (Text × Json)) (raw : RelationMember) : Prop where
  tablePath : valueAt pairs "table" = some (.str raw.tablePath)
  fieldName : valueAt pairs "field" = some (.str raw.fieldName)
  keyRole : valueAt pairs "role" = some (Vocabulary.toJson raw.keyRole)
  ordinal : valueAt pairs "ordinal" = some (.int raw.compositeOrdinal)
  dbfType : valueAt pairs "dbf_type" = some (Vocabulary.toJson raw.dbfType)
  byteWidth : valueAt pairs "byte_width" = some (.int raw.byteWidth)
  encoding : valueAt pairs "encoding" = some (.str raw.encoding)
  nullable : valueAt pairs "nullable" = some (.bool raw.nullable)

variable {raw : RelationMember}

theorem MemberBuilt.isBoundedToken_encoding (h : MemberBuilt raw m) : isBoundedToken raw.encoding = true := by
  have hencoding := h.encoding
  split_ifs at hencoding
  · rw [hencoding]
    decide
  · exact hencoding

theorem MemberBuilt.integer (h : MemberBuilt raw m) (htype : raw.dbfType = .i) :
    raw.byteWidth = 4 ∧ raw.encoding = numericMemberEncoding := by
  have hnumeric : raw.isNumericMember = true := by simp [RelationMember.isNumericMember, htype]
  have hencoding := h.encoding
  have hshape := h.shape hnumeric
  rw [if_pos hnumeric] at hencoding
  rw [RelationMember.validateNumericMemberShape] at hshape
  split_ifs at hshape with hwidth
  exact ⟨by_contra fun hne => hwidth ⟨htype, hne⟩, hencoding⟩

theorem MemberBuilt.numeric (h : MemberBuilt raw m) (htype : raw.dbfType = .n) :
    raw.byteWidth ≤ 20 ∧ raw.encoding = numericMemberEncoding := by
  have hnumeric : raw.isNumericMember = true := by simp [RelationMember.isNumericMember, htype]
  have hencoding := h.encoding
  have hshape := h.shape hnumeric
  rw [if_pos hnumeric] at hencoding
  rw [RelationMember.validateNumericMemberShape] at hshape
  split_ifs at hshape with hinteger hwidth
  rw [not_and, not_not] at hwidth
  exact ⟨(hwidth htype).2, hencoding⟩

theorem MemberAccepted.read (h : MemberAccepted true pairs m) :
    ∃ raw, MemberRead pairs raw ∧ ExternalPath raw.tablePath true ∧ MemberBuilt raw m := by
  obtain ⟨path, hpath, hbuilt⟩ := h.built
  rw [memberTable_external] at hpath
  obtain ⟨htable, hexternal⟩ := ExternalPath.read hpath
  exact ⟨_, ⟨htable, valueAt_text rfl (ne_nil_of_boundedToken hbuilt.fieldName), valueAt_word h.keyRole,
    valueAt_count rfl hbuilt.ordinal, valueAt_word h.dbfType, valueAt_count rfl hbuilt.byteWidth,
    valueAt_text rfl (ne_nil_of_boundedToken hbuilt.isBoundedToken_encoding), valueAt_bool h.nullable⟩, hexternal, hbuilt⟩

theorem memberProperties_iff (hread : MemberRead pairs raw) (hpath : ExternalPath raw.tablePath true)
    (hbuilt : MemberBuilt raw m) :
    (∀ p ∈ memberProperties integral, property p.1 p.2 (.obj pairs) = true) ↔ conformingMember (.obj pairs) = true := by
  have hroles : enumeration ["PRIMARY", "CANDIDATE", "FOREIGN"] (Vocabulary.toJson raw.keyRole) = true := by
    cases raw.keyRole <;> rfl
  have htypes : enumeration ["C", "V", "I", "N"] (Vocabulary.toJson raw.dbfType) = true := by cases raw.dbfType <;> rfl
  have hordinal : allOf [isInteger integral, minimum integral 1] (.int raw.compositeOrdinal) = true := by
    simpa [allOf, isInteger, minimum, integerOf] using hbuilt.ordinal
  have hwidth : allOf [isInteger integral, minimum integral 1] (.int raw.byteWidth) = true := by
    simpa [allOf, isInteger, minimum, integerOf] using hbuilt.byteWidth
  have htable : tableText (.obj pairs) = raw.tablePath := by
    rw [tableText, valueOrNull, hread.tablePath]
    rfl
  simp only [memberProperties, List.forall_mem_cons, property_some hread.tablePath, property_some hread.fieldName,
    property_some hread.keyRole, property_some hread.ordinal, property_some hread.dbfType, property_some hread.byteWidth,
    property_some hread.encoding, property_some hread.nullable, relativeTablePath_str hpath, boundedToken_str hbuilt.fieldName,
    boundedToken_str hbuilt.isBoundedToken_encoding, hroles, htypes, hordinal, hwidth, isBoolean]
  rw [conformingMember, under_of_valueAt hread.fieldName, under_of_valueAt hread.encoding, htable]
  simp only [Bool.and_eq_true, Bool.not_eq_true']
  constructor
  · intro h
    exact ⟨⟨h.2.1, h.2.2.2.2.2.2.1⟩, h.1⟩
  · intro h
    exact ⟨h.2, h.1.1, trivial, trivial, trivial, trivial, h.1.2, trivial, by simp⟩

theorem memberSchema_iff (h : MemberAccepted true pairs m) :
    memberSchema integral (.obj pairs) = true ↔ conformingMember (.obj pairs) = true := by
  obtain ⟨raw, hread, hpath, hbuilt⟩ := h.read
  have hobject : object memberKeys (memberProperties integral) (.obj pairs) = true ↔ conformingMember (.obj pairs) = true :=
    (object_obj h.onlyKeys h.allKeys).trans (memberProperties_iff hread hpath hbuilt)
  have hinteger : integerMember integral (.obj pairs) = true := by
    rw [integerMember, ifThen_iff, properties_obj, properties_obj]
    simp only [List.forall_mem_cons, property_some hread.dbfType, property_some hread.byteWidth, property_some hread.encoding]
    intro hI
    have htype : raw.dbfType = .i := by
      cases htype : raw.dbfType <;> rw [htype] at hI <;> first | rfl | cases hI.1
    obtain ⟨hwidth, hencoding⟩ := hbuilt.integer htype
    rw [hwidth, hencoding]
    exact ⟨rfl, rfl, by simp⟩
  have hnumeric : numericMember integral (.obj pairs) = true := by
    rw [numericMember, ifThen_iff, properties_obj, properties_obj]
    simp only [List.forall_mem_cons, property_some hread.dbfType, property_some hread.byteWidth, property_some hread.encoding]
    intro hN
    have htype : raw.dbfType = .n := by
      cases htype : raw.dbfType <;> rw [htype] at hN <;> first | rfl | cases hN.1
    obtain ⟨hwidth, hencoding⟩ := hbuilt.numeric htype
    rw [hencoding]
    refine ⟨?_, rfl, by simp⟩
    have hpositive := hbuilt.byteWidth
    simp only [allOf, minimum, maximum, integerOf, List.all_cons, List.all_nil, Option.all_some, Bool.and_true, Bool.and_eq_true,
      decide_eq_true_eq]
    omega
  rw [← hobject]
  simp [memberSchema, memberKeys, allOf, hinteger, hnumeric]

end Members

section Claims
variable {pairs : List (Text × Json)}

theorem expressionProperty_iff {expression : Option Text}
    (h : parseTagExpression (valueOrNull pairs "expression") = .ok expression) :
    property "expression" expressionSchema (.obj pairs) = true ↔ nullUnder "expression" (.obj pairs) = false := by
  cases hvalue : valueAt pairs "expression" with
  | none => simp [property_none hvalue, nullUnder, hvalue]
  | some v =>
    rw [valueOrNull, hvalue, Option.getD_some] at h
    rw [property_some hvalue]
    cases v with
    | null => simp [expressionSchema, allOf, isString, nullUnder, hvalue, isNull]
    | str s =>
      rw [parseTagExpression] at h
      split_ifs at h with hvalid
      simp only [isTagExpression, TextChar.plain_char, Bool.and_eq_true, decide_eq_true_eq, Bool.not_eq_true'] at hvalid
      obtain ⟨⟨⟨hlow, hhigh⟩, hchars⟩, hpath⟩ := hvalid
      have hne : s ≠ [] := List.length_pos_iff.mp hlow
      have hprintable : printablePattern s = true := by simpa [printablePattern, hne] using hchars
      simp [expressionSchema, allOf, isString, minLength, maxLength, pattern, forbidden, hlow, hhigh, hprintable, hpath, nullUnder,
        hvalue, isNull]
    | _ => cases h

theorem tagSchema_iff {t : ExternalIndexTag} (h : IndexTagAccepted pairs t) :
    tagSchema (.obj pairs) = true ↔ conformingTag (.obj pairs) = true := by
  have hname := valueAt_token h.name
  have hexpression := expressionProperty_iff h.expression
  have horder : property "sort_order" (enumeration ["ASCENDING", "DESCENDING"]) (.obj pairs) = true := by
    rw [property_some (valueAt_word h.sortOrder)]
    cases t.sortOrder <;> rfl
  rw [tagSchema, object_obj h.onlyKeys h.allKeys, conformingTag, under_of_valueAt hname]
  simp only [List.forall_mem_cons, property_some hname, boundedToken_str (isBoundedToken_of_jsonToken? h.name), horder, hexpression]
  simp

theorem uniqueTags {items : List Json} {tags : List ExternalIndexTag}
    (hitems : List.Forall₂ (fun item t => parseIndexTag item = .ok t) items tags)
    (hnodup : (tags.map ExternalIndexTag.upperName).Nodup) : uniqueItems (.arr items) = true := by
  have hdistinct : ∀ v t w u, parseIndexTag v = .ok t → parseIndexTag w = .ok u → t.upperName ≠ u.upperName →
      Json.same v.ordered w.ordered = false := by
    intro v t w u hv hw hne
    obtain ⟨pairs, rfl, ht⟩ := parseIndexTag_eq_ok.mp hv
    obtain ⟨pairs', rfl, hu⟩ := parseIndexTag_eq_ok.mp hw
    by_contra hsame
    rw [Bool.not_eq_false] at hsame
    have hnames := valueAt_ordered (Json.eq_of_same hsame) "name"
    rw [valueAt_token ht.name, valueAt_token hu.name] at hnames
    have hname : t.name = u.name := Json.str.inj (Option.some.inj hnames)
    exact hne (congrArg (List.map Char.toUpper) hname)
  have hpairwise := pairwise_of_forall₂ hitems hdistinct (List.pairwise_map.mp hnodup)
  rw [uniqueItems, decide_eq_true_eq, List.pairwise_map]
  exact hpairwise

theorem itemsSchema_iff {α : Type} {R : Json → α → Prop} {schema conforming : Json → Bool} {vs : List Json} {results : List α}
    (hvs : List.Forall₂ R vs results) (h : ∀ v a, R v a → (schema v = true ↔ conforming v = true)) :
    items schema (.arr vs) = true ↔ vs.all conforming = true := by
  rw [items, List.all_eq_true, List.all_eq_true]
  constructor
  · intro hall v hv
    obtain ⟨a, -, ha⟩ := exists_of_forall₂_left hvs hv
    exact (h v a ha).mp (hall v hv)
  · intro hall v hv
    obtain ⟨a, -, ha⟩ := exists_of_forall₂_left hvs hv
    exact (h v a ha).mpr (hall v hv)

theorem tagsSchema_iff {detail : String} {tags : List ExternalIndexTag}
    (h : parseIndexTags (valueOrNull pairs "tags") detail = .ok tags) :
    property "tags" tagsSchema (.obj pairs) = true ↔ (listedUnder "tags" (.obj pairs)).all conformingTag = true := by
  obtain ⟨vs, harr, hne, hlen, hitems, hnodup⟩ := parseIndexTags_eq_ok.mp h
  have hconforming : items tagSchema (.arr vs) = true ↔ vs.all conformingTag = true := by
    apply itemsSchema_iff hitems
    intro v t ht
    obtain ⟨pairs', rfl, haccepted⟩ := parseIndexTag_eq_ok.mp ht
    exact tagSchema_iff haccepted
  have hlow : 1 ≤ vs.length := List.length_pos_iff.mpr (List.isEmpty_eq_false_iff.mp hne)
  have hhigh : vs.length ≤ 256 := hlen
  rw [property_some (valueAt_arr harr), listedUnder, harr, ← hconforming]
  simp [tagsSchema, allOf, isArray, minItems, maxItems, hlow, hhigh, uniqueTags hitems hnodup]

theorem indexClaimRules {c : ExternalIndexClaim} (h : IndexClaimAccepted pairs c) :
    consistentAssurance (.obj pairs) = true ∧ indexClaimProvenance (.obj pairs) = true := by
  have hassurance := valueAt_word h.assurance
  have hstate := valueAt_word h.verificationState
  have hprovenance := valueAt_word h.provenance
  have hauthority := valueAt_word h.authority
  have hauthoritative := h.authoritative
  constructor
  · rw [h.consistent] at hassurance
    simp only [consistentAssurance, ifThenElse, properties, allOf, List.map_cons, List.map_nil, List.all_cons, List.all_nil,
      property_some hassurance, property_some hstate]
    cases c.verificationState <;> rfl
  · rw [indexClaimProvenance, ifThen_iff, properties_obj, properties_obj]
    simp only [List.forall_mem_cons, property_some hassurance, property_some hstate, property_some hprovenance,
      property_some hauthority]
    intro hstrong
    have hauthorityEq : c.authority = .contractAuthoritative := by
      cases heq : c.authority with
      | contractAuthoritative => rfl
      | inferred =>
        rw [heq] at hstrong
        cases hstrong.1
    have hassuranceEq : c.assurance = .verified := by
      cases heq : c.assurance with
      | verified => rfl
      | unverified =>
        rw [heq] at hstrong
        cases hstrong.2.1
    have hstateEq : c.verificationState = .verified := by rw [← h.consistent, hassuranceEq]
    cases heq : c.provenance with
    | policyFile => exact absurd ⟨hauthorityEq, hassuranceEq, hstateEq, by rw [heq]; rfl⟩ hauthoritative
    | mcpVfp9sp2Toolchain => exact ⟨rfl, by simp⟩
    | externalVfpMetadata => exact ⟨rfl, by simp⟩

theorem inferredUnverified_obj {assurance : ClaimAssurance} {authority : ClaimAuthority}
    (hassurance : valueAt pairs "assurance" = some (Vocabulary.toJson assurance))
    (hauthority : valueAt pairs "authority" = some (Vocabulary.toJson authority))
    (hconsistent : ¬ (authority = .inferred ∧ assurance = .verified)) : inferredUnverified (.obj pairs) = true := by
  rw [inferredUnverified, ifThen_iff, properties_obj, properties_obj]
  simp only [List.forall_mem_cons, property_some hassurance, property_some hauthority]
  intro hinferred
  cases authority with
  | contractAuthoritative => cases hinferred.1
  | inferred =>
    cases assurance with
    | verified => exact absurd ⟨rfl, rfl⟩ hconsistent
    | unverified => exact ⟨rfl, by simp⟩

theorem pathSuffix_suffix (path : Text) : pathSuffix path <:+ path := by
  have hname : (path.reverse.takeWhile (· ≠ '/')).reverse <:+ path := by
    rw [← List.reverse_prefix, List.reverse_reverse]
    exact List.takeWhile_prefix _
  apply List.IsSuffix.trans _ hname
  unfold pathSuffix
  generalize (path.reverse.takeWhile (· ≠ '/')).reverse = name
  dsimp only
  split_ifs with hsuffix
  · have hsplit : name.reverse.takeWhile (· ≠ '.') ++ name.reverse.dropWhile (· ≠ '.') = name.reverse :=
      List.takeWhile_append_dropWhile
    cases hrest : name.reverse.dropWhile (· ≠ '.') with
    | nil =>
      have hlength := congrArg List.length hsplit
      rw [hrest] at hlength
      simp only [List.length_append, List.length_nil, List.length_reverse] at hlength hsuffix
      omega
    | cons d rest =>
      have hdot : d = '.' := by
        have hnot := List.head?_dropWhile_not (· ≠ '.') name.reverse
        rw [hrest] at hnot
        simpa using hnot
      have hname := congrArg List.reverse hsplit
      rw [hrest, hdot, List.reverse_append, List.reverse_cons, List.reverse_reverse, List.append_assoc] at hname
      exact ⟨rest.reverse, hname⟩
  · exact List.nil_suffix

theorem indexFileRules {c : ExternalIndexClaim} (h : IndexClaimAccepted pairs c) :
    structuralIndexFile (.obj pairs) = true ∧ standaloneIndexFile (.obj pairs) = true := by
  obtain ⟨hfile, -⟩ := ExternalPath.read h.indexFilePath
  have hkind := valueAt_word h.indexKind
  have hsuffix : suffixPattern c.indexKind.suffix c.indexFilePath = true := by
    rw [suffixPattern, ← h.suffix]
    exact List.isSuffixOf_iff_suffix.mpr ((pathSuffix_suffix c.indexFilePath).map _)
  rw [structuralIndexFile, standaloneIndexFile, ifThen_iff, ifThen_iff, properties_obj, properties_obj, properties_obj,
    properties_obj]
  simp only [List.forall_mem_cons, property_some hfile, property_some hkind]
  cases hcase : c.indexKind with
  | structuralCdx =>
    rw [hcase] at hsuffix
    exact ⟨fun _ => ⟨hsuffix, by simp⟩, fun hother => absurd hother.1 Bool.false_ne_true⟩
  | standaloneIdx =>
    rw [hcase] at hsuffix
    exact ⟨fun hother => absurd hother.1 Bool.false_ne_true, fun _ => ⟨hsuffix, by simp⟩⟩

theorem indexClaimSchema_iff {c : ExternalIndexClaim} (h : IndexClaimAccepted pairs c)
    (hconsistent : ¬ (c.authority = .inferred ∧ c.assurance = .verified)) :
    indexClaimSchema (.obj pairs) = true ↔ conformingIndexClaim (.obj pairs) = true := by
  have hid := valueAt_token h.claimId
  obtain ⟨htable, htablePath⟩ := ExternalPath.read h.tablePath
  obtain ⟨hfile, hfilePath⟩ := ExternalPath.read h.indexFilePath
  have hassurance := valueAt_word h.assurance
  have hauthority := valueAt_word h.authority
  have hkinds : enumeration ["STRUCTURAL_CDX", "STANDALONE_IDX"] (Vocabulary.toJson c.indexKind) = true := by
    cases c.indexKind <;> rfl
  have hstates : assuranceSchema (Vocabulary.toJson c.verificationState) = true := by cases c.verificationState <;> rfl
  have hassurances : assuranceSchema (Vocabulary.toJson c.assurance) = true := by cases c.assurance <;> rfl
  have hprovenances : provenanceSchema (Vocabulary.toJson c.provenance) = true := by cases c.provenance <;> rfl
  have hauthorities : authoritySchema (Vocabulary.toJson c.authority) = true := by cases c.authority <;> rfl
  have htableText : tableText (.obj pairs) = c.tablePath := by
    rw [tableText, valueOrNull, htable]
    rfl
  have hkeys := h.keys
  rw [hasExactKeys, Bool.and_eq_true] at hkeys
  have hobject : object indexClaimKeys indexClaimProperties (.obj pairs) = true ↔ conformingIndexClaim (.obj pairs) = true := by
    rw [object_obj hkeys.1 hkeys.2, conformingIndexClaim, under_of_valueAt hid, htableText]
    simp only [indexClaimProperties, List.forall_mem_cons, property_some hid, property_some htable, property_some hfile,
      property_some (valueAt_word h.indexKind), property_some (valueAt_word h.verificationState), property_some hassurance,
      property_some (valueAt_word h.provenance), property_some hauthority, tagsSchema_iff h.tags,
      boundedToken_str (isBoundedToken_of_jsonToken? h.claimId), relativeTablePath_str htablePath, relativePath_str hfilePath,
      hkinds, hstates, hassurances, hprovenances, hauthorities]
    simp [and_assoc]
  obtain ⟨hrule, hprovenance⟩ := indexClaimRules h
  obtain ⟨hstructural, hstandalone⟩ := indexFileRules h
  have hinferred := inferredUnverified_obj hassurance hauthority hconsistent
  rw [← hobject]
  simp [indexClaimSchema, indexClaimKeys, allOf, hrule, hprovenance, hstructural, hstandalone, hinferred]

end Claims

section Relations
variable {integral : Text → Option ℤ} {pairs : List (Text × Json)} {g : RelationGroup}

theorem numericStrategyProperty_iff {strategy : NumericStrategy}
    (h : parseNumericStrategy (valueOrNull pairs "numeric_strategy") = .ok strategy) :
    property "numeric_strategy" (enumeration ["IDENTITY", "REVERSIBLE_BIJECTIVE"]) (.obj pairs) = true ↔
      nullUnder "numeric_strategy" (.obj pairs) = false := by
  cases hvalue : valueAt pairs "numeric_strategy" with
  | none => simp [property_none hvalue, nullUnder, hvalue]
  | some v =>
    rw [valueOrNull, hvalue, Option.getD_some] at h
    rw [property_some hvalue]
    by_cases hnull : v = .null
    · simp [hnull, enumeration, nullUnder, hvalue, isNull]
    · rw [parseNumericStrategy] at h
      · obtain rfl := Vocabulary.ofJson_eq_some.mp (required_eq_ok.mp h)
        cases strategy <;> simp [nullUnder, hvalue, isNull, enumeration, Vocabulary.value]
      · exact hnull

theorem sourceDigestProperty_iff {digest : Option Text}
    (h : parseSourceDigest (valueOrNull pairs "source_digest") = .ok digest) :
    property "source_digest" boundedToken (.obj pairs) = true ↔
      endsInNewline (under "source_digest" (.obj pairs)) = false ∧ nullUnder "source_digest" (.obj pairs) = false := by
  cases hvalue : valueAt pairs "source_digest" with
  | none => simp [property_none hvalue, nullUnder, under, valueOrNull, hvalue, endsInNewline]
  | some v =>
    rw [valueOrNull, hvalue, Option.getD_some] at h
    rw [property_some hvalue, under_of_valueAt hvalue]
    by_cases hnull : v = .null
    · simp [hnull, boundedToken, allOf, isString, nullUnder, hvalue, isNull]
    · rw [parseSourceDigest] at h
      · obtain ⟨token, htoken, -⟩ := bind_eq_ok.mp h
        have hread := required_eq_ok.mp htoken
        cases v with
        | str s =>
          have hbounded := isBoundedToken_of_jsonToken? hread
          rw [jsonToken?, TextChar.plain_char] at hread
          split_ifs at hread
          obtain rfl := Option.some.inj hread
          rw [boundedToken_str hbounded]
          simp [nullUnder, hvalue, isNull]
        | _ => cases hread
      · exact hnull

theorem membersSchema_iff {members : List RelationMember}
    (h : parseMembers true (valueOrNull pairs "members") = .ok members) :
    property "members" (allOf [isArray, minItems 1, maxItems 512, items (memberSchema integral)]) (.obj pairs) = true ↔
      (listedUnder "members" (.obj pairs)).all conformingMember = true := by
  obtain ⟨vs, harr, hne, hlen, hitems⟩ := parseMembers_eq_ok.mp h
  have hconforming : items (memberSchema integral) (.arr vs) = true ↔ vs.all conformingMember = true := by
    apply itemsSchema_iff hitems
    intro v m hm
    obtain ⟨pairs', rfl, haccepted⟩ := parseMember_eq_ok.mp hm
    exact memberSchema_iff haccepted
  have hlow : 1 ≤ vs.length := List.length_pos_iff.mpr (List.isEmpty_eq_false_iff.mp hne)
  have hhigh : vs.length ≤ 512 := hlen
  rw [property_some (valueAt_arr harr), listedUnder, harr, ← hconforming]
  simp [allOf, isArray, minItems, maxItems, hlow, hhigh]

section Claimed
variable {assurance : ClaimAssurance} {authority : ClaimAuthority}
  (h : GroupAccepted true pairs g) (hclaim : ClaimAccepted pairs g.provenance g.numericStrategy assurance authority)
include h hclaim

theorem relationProvenance_obj : relationProvenance (.obj pairs) = true := by
  have hassurance := valueAt_word hclaim.assurance_read
  have hauthority := valueAt_word hclaim.authority_read
  have hauthoritative := hclaim.authoritative
  rw [relationProvenance, ifThen_iff, properties_obj, properties_obj]
  simp only [List.forall_mem_cons, property_some hassurance, property_some hauthority, property_some (valueAt_word h.provenance)]
  intro hstrong
  cases authority with
  | inferred => cases hstrong.1
  | contractAuthoritative =>
    cases assurance with
    | unverified => cases hstrong.2.1
    | verified =>
      cases heq : g.provenance with
      | policyFile => exact absurd ⟨rfl, rfl, by rw [heq]; rfl⟩ hauthoritative
      | mcpVfp9sp2Toolchain => exact ⟨rfl, by simp⟩
      | externalVfpMetadata => exact ⟨rfl, by simp⟩

theorem relationStrengthening_obj : relationStrengthening (.obj pairs) = true := by
  have hassurance := valueAt_word hclaim.assurance_read
  have hauthority := valueAt_word hclaim.authority_read
  have hbuilt := groupBuilt_iff.mp h.built
  obtain ⟨vs, harr, -, -, hitems⟩ := parseMembers_eq_ok.mp h.members
  rw [relationStrengthening, ifThen_iff, properties_obj]
  simp only [List.forall_mem_cons, property_some hassurance, property_some hauthority, property_some (valueAt_arr harr)]
  intro hdeclared
  simp only [allOf, List.all_cons, List.all_nil, Bool.and_true, Bool.and_eq_true] at hdeclared
  obtain ⟨hstrategy, hrequired⟩ := hdeclared
  have hreversible : g.numericStrategy = .reversibleBijective := by
    have hpresent : (valueAt pairs "numeric_strategy").isSome := by
      have hkeys : hasAllKeys pairs ["numeric_strategy"] = true := hrequired
      exact hasAllKeys_iff.mp hkeys _ List.mem_cons_self
    obtain ⟨v, hv⟩ := Option.isSome_iff_exists.mp hpresent
    have hword : constant "REVERSIBLE_BIJECTIVE" v = true := by
      have hproperty := properties_obj.mp hstrategy _ List.mem_cons_self
      rwa [property_some hv] at hproperty
    have hparsed := h.numericStrategy
    rw [valueOrNull, hv, Option.getD_some] at hparsed
    cases v with
    | str s =>
      have hs : s = "REVERSIBLE_BIJECTIVE".toList := by simpa [constant, enumeration] using hword
      rw [hs] at hparsed
      exact (Except.ok.inj hparsed).symm
    | _ => cases hword
  obtain ⟨hauthorityEq, hassuranceEq⟩ := hclaim.strengthening hreversible
  have hnumeric : contains (properties [("dbf_type", enumeration ["I", "N"])]) (.arr vs) = true := by
    have hany : g.members.any RelationMember.isNumericMember = true :=
      by_contra fun hnone => hbuilt.strategy ⟨hreversible, hnone⟩
    obtain ⟨m, hm, hmember⟩ := List.any_eq_true.mp hany
    obtain ⟨v, hv, hread⟩ := exists_of_forall₂_right hitems hm
    obtain ⟨memberPairs, rfl, haccepted⟩ := parseMember_eq_ok.mp hread
    rw [contains, List.any_eq_true]
    refine ⟨_, hv, ?_⟩
    rw [properties_obj]
    simp only [List.forall_mem_cons, property_some (valueAt_word haccepted.dbfType)]
    cases htype : m.dbfType with
    | c => simp [RelationMember.isNumericMember, htype] at hmember
    | v => simp [RelationMember.isNumericMember, htype] at hmember
    | i => exact ⟨rfl, by simp⟩
    | n => exact ⟨rfl, by simp⟩
  rw [hauthorityEq, hassuranceEq]
  exact ⟨rfl, rfl, hnumeric, by simp⟩

end Claimed

theorem relationSchema_iff (h : GroupAccepted true pairs g) :
    relationSchema integral (.obj pairs) = true ↔ conformingRelation (.obj pairs) = true := by
  obtain ⟨claim, hfacts, -, -⟩ := h.claim
  obtain ⟨assurance, authority, -, hclaim⟩ := parseClaimFacts_external.mp hfacts
  have hbuilt := groupBuilt_iff.mp h.built
  have hid := valueAt_text h.relationId (ne_nil_of_boundedToken hbuilt.relationId)
  have hassurance := valueAt_word hclaim.assurance_read
  have hauthority := valueAt_word hclaim.authority_read
  have hcomparison := valueAt_word h.comparison
  have hprovenance := valueAt_word h.provenance
  have hcomparisons : enumeration ["EXACT_VALUE", "UNSPECIFIED"] (Vocabulary.toJson g.comparison) = true := by
    cases g.comparison <;> rfl
  have hassurances : assuranceSchema (Vocabulary.toJson assurance) = true := by cases assurance <;> rfl
  have hprovenances : provenanceSchema (Vocabulary.toJson g.provenance) = true := by cases g.provenance <;> rfl
  have hauthorities : authoritySchema (Vocabulary.toJson authority) = true := by cases authority <;> rfl
  have honly : hasOnlyKeys pairs ((relationProperties integral).map Prod.fst) = true :=
    hasOnlyKeys_of_subset h.onlyKeys (by simp [groupKeys, relationProperties])
  have hall : hasAllKeys pairs ["relation_id", "provenance", "assurance", "comparison", "members", "authority"] = true := by
    obtain ⟨vs, harr, -⟩ := parseMembers_eq_ok.mp h.members
    simp [hasAllKeys_iff, hid, hassurance, hauthority, hcomparison, hprovenance, valueAt_arr harr]
  have hobject : object ["relation_id", "provenance", "assurance", "comparison", "members", "authority"]
      (relationProperties integral) (.obj pairs) = true ↔ conformingRelation (.obj pairs) = true := by
    rw [object_obj honly hall, conformingRelation, under_of_valueAt hid]
    simp only [relationProperties, List.forall_mem_cons, property_some hid, property_some hassurance, property_some hauthority,
      property_some hcomparison, property_some hprovenance, numericStrategyProperty_iff h.numericStrategy,
      sourceDigestProperty_iff h.sourceDigest, membersSchema_iff h.members, boundedToken_str hbuilt.relationId, hcomparisons,
      hassurances, hprovenances, hauthorities]
    simp [and_assoc, and_left_comm]
  rw [← hobject]
  simp [relationSchema, allOf, inferredUnverified_obj hassurance hauthority hclaim.consistent, relationProvenance_obj h hclaim,
    relationStrengthening_obj h hclaim]

end Relations

section Documents
variable {integral : Text → Option ℤ} {pairs : List (Text × Json)} {d : RelationshipDocument}

theorem valueAt_version {key : String} {version : Text} (h : jsonText? (valueOrNull pairs key) = some version) :
    valueAt pairs key = some (.str version) := by
  cases hv : valueOrNull pairs key with
  | str s =>
    rw [hv] at h
    obtain rfl : s = version := Option.some.inj h
    apply valueAt_of_valueOrNull hv
    intro hnull
    cases hnull
  | _ =>
    rw [hv] at h
    cases h

theorem producerProperty_iff {producer : ExternalProducerProvenance}
    (h : parseProducer (valueOrNull pairs "producer") = .ok producer) :
    property "producer" producerSchema (.obj pairs) = true ↔ conformingProducer (under "producer" (.obj pairs)) = true := by
  obtain ⟨producerPairs, hobj, honly, hid, hversion⟩ := parseProducer_eq_ok.mp h
  have hproducer : valueAt pairs "producer" = some (.obj producerPairs) := by
    apply valueAt_of_valueOrNull hobj
    intro hnull
    cases hnull
  have hidRead := valueAt_token hid
  have hversionRead := valueAt_token hversion
  have hall : hasAllKeys producerPairs ["producer_id", "producer_version"] = true := by
    simp [hasAllKeys_iff, hidRead, hversionRead]
  rw [property_some hproducer, under_of_valueAt hproducer, producerSchema, object_obj honly hall, conformingProducer,
    under_of_valueAt hidRead, under_of_valueAt hversionRead]
  simp only [List.forall_mem_cons, property_some hidRead, property_some hversionRead,
    boundedToken_str (isBoundedToken_of_jsonToken? hid), boundedToken_str (isBoundedToken_of_jsonToken? hversion)]
  simp

theorem indexClaimsProperty_iff {claims : List ExternalIndexClaim}
    (h : envelopeClaims (valueAt pairs "index_claims") = .ok claims) :
    property "index_claims" (allOf [isArray, maxItems 256, items indexClaimSchema]) (.obj pairs) = true ↔
      (listedUnder "index_claims" (.obj pairs)).all conformingIndexClaim = true := by
  obtain ⟨hread, hconsistent⟩ := envelopeClaims_eq_ok.mp h
  rcases hread with ⟨hnone, -⟩ | ⟨w, hw, hparsed⟩
  · simp [property_none hnone, listedUnder, valueOrNull, hnone]
  · obtain ⟨vs, rfl, hlen, hitems, -⟩ := parseIndexClaims_eq_ok.mp hparsed
    have hhigh : vs.length ≤ 256 := hlen
    have hconforming : items indexClaimSchema (.arr vs) = true ↔ vs.all conformingIndexClaim = true := by
      rw [items, List.all_eq_true, List.all_eq_true]
      have hclaim : ∀ v ∈ vs, (indexClaimSchema v = true ↔ conformingIndexClaim v = true) := by
        intro v hv
        obtain ⟨c, hc, hread⟩ := exists_of_forall₂_left hitems hv
        obtain ⟨-, claimPairs, rfl, haccepted⟩ := parseIndexClaim_eq_ok.mp hread
        exact indexClaimSchema_iff haccepted (hconsistent c hc)
      exact forall₂_congr hclaim
    rw [property_some hw, listedUnder, valueOrNull, hw, Option.getD_some, ← hconforming]
    simp [allOf, isArray, maxItems, hhigh]

theorem relationsProperty_iff {groups : List RelationGroup}
    (h : parseRelations true (valueOrNull pairs "relations") = .ok groups) :
    property "relations" (allOf [isArray, maxItems 256, items (relationSchema integral)]) (.obj pairs) = true ↔
      (listedUnder "relations" (.obj pairs)).all conformingRelation = true := by
  obtain ⟨vs, harr, hlen, hitems⟩ := parseRelations_eq_ok.mp h
  have hconforming : items (relationSchema integral) (.arr vs) = true ↔ vs.all conformingRelation = true := by
    apply itemsSchema_iff hitems
    intro v g hg
    obtain ⟨pairs', rfl, haccepted⟩ := parseGroup_eq_ok.mp hg
    exact relationSchema_iff haccepted
  have hhigh : vs.length ≤ 256 := hlen
  rw [property_some (valueAt_arr harr), listedUnder, harr, ← hconforming]
  simp [allOf, isArray, maxItems, hhigh]

theorem externalSchema_iff {envelope : ExternalEnvelope} {groups : List RelationGroup}
    (h : DocumentAccepted pairs (some envelope) groups) :
    externalVfpMetadataSchema integral (.obj pairs) = true ↔ conformingPayload (.obj pairs) = true := by
  have hexternal := parseEnvelope_eq_some.mp h.envelope_read
  have hversion := valueAt_version h.version
  have hcontract := valueAt_version hexternal.version
  have hauthority := valueAt_word hexternal.authority
  have hauthorities : authoritySchema (Vocabulary.toJson envelope.authority) = true := by cases envelope.authority <;> rfl
  have hversions : constant "1.0" (.str relationshipMetadataSchemaVersion) = true := by decide
  have hcontracts : constant "1.0" (.str externalMetadataSchemaVersion) = true := by decide
  obtain ⟨items, harr, -⟩ := parseRelations_eq_ok.mp h.groups_read
  obtain ⟨producerPairs, hobj, -⟩ := parseProducer_eq_ok.mp hexternal.producer
  have hproducer : valueAt pairs "producer" = some (.obj producerPairs) := by
    apply valueAt_of_valueOrNull hobj
    intro hnull
    cases hnull
  have hall : hasAllKeys pairs
      ["metadata_schema_version", "external_metadata_schema_version", "producer", "authority", "relations"] = true := by
    simp [hasAllKeys_iff, hversion, hcontract, hproducer, hauthority, valueAt_arr harr]
  have honly : hasOnlyKeys pairs ["metadata_schema_version", "external_metadata_schema_version", "producer", "authority",
      "index_claims", "relations"] = true :=
    hasOnlyKeys_of_subset h.onlyKeys (by simp [documentKeys, envelopeKeys, requiredEnvelopeKeys])
  rw [externalVfpMetadataSchema, object_obj honly hall, conformingPayload]
  simp only [List.forall_mem_cons, property_some hversion, property_some hcontract, property_some hauthority,
    producerProperty_iff hexternal.producer, indexClaimsProperty_iff hexternal.indexClaims,
    relationsProperty_iff h.groups_read, hauthorities, hversions, hcontracts]
  simp [and_comm, and_left_comm]

/-- A path of external metadata is kept as it stands unless it starts with a blank. -/
theorem tablePath_verbatim {m : RelationMember} (h : MemberAccepted true pairs m) :
    m.tablePath = tableText (.obj pairs) ↔ startsBlank (tableText (.obj pairs)) = false := by
  obtain ⟨path, hpath, -⟩ := h.built
  rw [memberTable_external] at hpath
  obtain ⟨hpath, hexternal⟩ := validateExternalMetadataPath_eq_ok.mp hpath
  have haccepted := h.tablePath
  rw [tableText]
  have hstrip := hexternal.normalized_eq haccepted
  obtain ⟨_, _, _, _, _, -, -, -, hvalue⟩ := hexternal.strip_eq
  generalize jsonTextOrEmpty (valueOrNull pairs "table") = value at *
  rw [hstrip]
  cases value with
  | nil => exact absurd rfl hexternal.nonempty
  | cons c rest =>
    rw [startsBlank, List.head?_cons, Option.any_some]
    by_cases hblank : isWhitespace c = true
    · rw [hblank]
      simp only [Bool.true_eq_false, iff_false]
      intro hsame
      rw [hsame, List.takeWhile_cons_of_pos hblank] at hvalue
      have hlength := congrArg List.length hvalue
      simp only [List.length_append, List.length_cons] at hlength
      omega
    · rw [List.takeWhile_cons_of_neg hblank, List.nil_append] at hvalue
      simp [hblank, ← hvalue]

/-- The paths of the document are the texts of the payload. -/
def PathsVerbatim (payload : Json) (d : RelationshipDocument) : Prop :=
  (d.groups.flatMap RelationGroup.members).map RelationMember.tablePath =
      ((listedUnder "relations" payload).flatMap (listedUnder "members")).map tableText ∧
    d.indexClaims.map (fun c => (c.tablePath, c.indexFilePath)) =
      (listedUnder "index_claims" payload).map fun v => (tableText v, jsonTextOrEmpty (under "index_file" v))

theorem memberPaths_verbatim {groups : List RelationGroup}
    (h : parseRelations true (valueOrNull pairs "relations") = .ok groups) :
    (groups.flatMap RelationGroup.members).map RelationMember.tablePath =
      ((listedUnder "relations" (.obj pairs)).flatMap (listedUnder "members")).map tableText ↔
        ∀ value ∈ memberTables (.obj pairs), startsBlank value = false := by
  obtain ⟨vs, harr, -, hitems⟩ := parseRelations_eq_ok.mp h
  have hlisted : listedUnder "relations" (.obj pairs) = vs := by rw [listedUnder, harr]
  have hmembers : List.Forall₂ (fun v m => parseMember true v = .ok m) (vs.flatMap (listedUnder "members"))
      (groups.flatMap RelationGroup.members) := by
    apply List.rel_flatMap hitems
    intro v g hg
    obtain ⟨groupPairs, rfl, haccepted⟩ := parseGroup_eq_ok.mp hg
    obtain ⟨items, hread, -, -, hmembers⟩ := parseMembers_eq_ok.mp haccepted.members
    rw [listedUnder, hread]
    exact hmembers
  have hmember : ∀ v m, parseMember true v = .ok m →
      (m.tablePath = tableText v ↔ startsBlank (tableText v) = false) := by
    intro v m hm
    obtain ⟨memberPairs, rfl, haccepted⟩ := parseMember_eq_ok.mp hm
    exact tablePath_verbatim haccepted
  rw [memberTables, hlisted, map_eq_iff_of_forall₂ hmembers hmember, ← List.map_flatMap]
  simp only [List.forall_mem_map]

theorem indexPaths_verbatim {claims : List ExternalIndexClaim}
    (h : envelopeClaims (valueAt pairs "index_claims") = .ok claims) :
    claims.map (fun c => (c.tablePath, c.indexFilePath)) =
      (listedUnder "index_claims" (.obj pairs)).map fun v => (tableText v, jsonTextOrEmpty (under "index_file" v)) := by
  rcases (envelopeClaims_eq_ok.mp h).1 with ⟨hnone, rfl⟩ | ⟨w, hw, hparsed⟩
  · simp [listedUnder, valueOrNull, hnone]
  · obtain ⟨vs, rfl, -, hitems, -⟩ := parseIndexClaims_eq_ok.mp hparsed
    have hclaim : ∀ v c, parseIndexClaim [] v = .ok c →
        ((c.tablePath, c.indexFilePath) = (tableText v, jsonTextOrEmpty (under "index_file" v)) ↔ True) := by
      intro v c hc
      obtain ⟨-, claimPairs, rfl, haccepted⟩ := parseIndexClaim_eq_ok.mp hc
      have htable := (validateExternalMetadataPath_eq_ok.mp haccepted.tablePath).1
      have hfile := (validateExternalMetadataPath_eq_ok.mp haccepted.indexFilePath).1
      exact iff_of_true (Prod.ext htable hfile) trivial
    rw [listedUnder, valueOrNull, hw, Option.getD_some]
    exact (map_eq_iff_of_forall₂ hitems hclaim).mpr fun _ _ => trivial

def carriesEnvelope : Json → Bool
  | .obj pairs => envelopeKeys.any fun key => (valueAt pairs key).isSome
  | _ => false

/-- Of the payloads with an envelope that the parser accepts, the schema accepts those without optional nulls, without
tokens that end in a newline and without tables called by their suffix alone, and the paths are kept but for leading blanks. -/
theorem externalMetadata_validates_iff {payload : Json} (integral : Text → Option ℤ)
    (h : parseRelationshipDocument payload = .ok d) (hcarries : carriesEnvelope payload = true) :
    externalVfpMetadataSchema integral payload = true ∧ PathsVerbatim payload d ↔
      conformingPayload payload = true ∧ ∀ value ∈ memberTables payload, startsBlank value = false := by
  obtain ⟨pairs, envelope, groups, rfl, haccepted, rfl⟩ := parseRelationshipDocument_eq_ok.mp h
  cases envelope with
  | none =>
    have habsent := parseEnvelope_eq_none.mp haccepted.envelope_read
    obtain ⟨key, hkey, hsome⟩ := List.any_eq_true.mp hcarries
    have hnone := List.all_eq_true.mp habsent key hkey
    rw [Option.isNone_iff_eq_none.mp hnone] at hsome
    cases hsome
  | some envelope =>
    have hclaims := indexPaths_verbatim (parseEnvelope_eq_some.mp haccepted.envelope_read).indexClaims
    rw [externalSchema_iff haccepted, ← memberPaths_verbatim haccepted.groups_read]
    exact and_congr_right fun _ => and_iff_left hclaims

/-- The relation of two listed tables conforms, and its paths are kept. -/
theorem externalMetadata_validates_listed :
    externalVfpMetadataSchema (fun _ => none)
        (listedPayload [keyMemberPayload "a.dbf".toList .primary, keyMemberPayload "b.dbf".toList .foreign]) = true ∧
      PathsVerbatim (listedPayload [keyMemberPayload "a.dbf".toList .primary, keyMemberPayload "b.dbf".toList .foreign])
        (listedDocument [keyMember "a.dbf".toList .primary, keyMember "b.dbf".toList .foreign]) := by
  have hparsed : parseRelationshipDocument (listedPayload
      [keyMemberPayload "a.dbf".toList .primary, keyMemberPayload "b.dbf".toList .foreign]) =
        .ok (listedDocument [keyMember "a.dbf".toList .primary, keyMember "b.dbf".toList .foreign]) := by decide +kernel
  exact (externalMetadata_validates_iff (fun _ => none) hparsed (by decide)).mpr (by decide +kernel)

/-- A table that is called `.dbf` behind a blank is accepted without the blank; the schema refuses it in either spelling. -/
theorem externalMetadata_bareSuffix :
    parseRelationshipDocument (listedPayload [keyMemberPayload " .dbf".toList .primary, keyMemberPayload "b/.dbf".toList .foreign]) =
        .ok (listedDocument [keyMember ".dbf".toList .primary, keyMember "b/.dbf".toList .foreign]) ∧
      externalVfpMetadataSchema (fun _ => none)
        (listedPayload [keyMemberPayload " .dbf".toList .primary, keyMemberPayload "b/.dbf".toList .foreign]) = false ∧
      ¬ PathsVerbatim (listedPayload [keyMemberPayload " .dbf".toList .primary, keyMemberPayload "b/.dbf".toList .foreign])
        (listedDocument [keyMember ".dbf".toList .primary, keyMember "b/.dbf".toList .foreign]) := by
  constructor
  · decide +kernel
  constructor
  · decide +kernel
  · intro h
    have hpaths := h.1
    revert hpaths
    decide +kernel

end Documents

end DbfAnonymizer.Relationships
