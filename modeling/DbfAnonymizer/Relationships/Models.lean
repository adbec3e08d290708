import Mathlib
import DbfAnonymizer.Errors
import DbfAnonymizer.Lib.CodePoint
import DbfAnonymizer.Lib.Outcome

/-! Declared relationship metadata: members, groups, documents, and what their constructors refuse. -/
namespace DbfAnonymizer.Relationships
open Lib

inductive KeyRole
  | primary | candidate | foreign
  deriving DecidableEq, Repr

inductive Comparison
  | exactValue | unspecified
  deriving DecidableEq, Repr

inductive Provenance
  | policyFile | mcpVfp9sp2Toolchain | externalVfpMetadata
  deriving DecidableEq, Repr

/-- The member types of a relation: text `C`/`V` and declared numeric keys `I`/`N`. -/
inductive MemberType
  | c | v | i | n
  deriving DecidableEq, Repr

inductive NumericStrategy
  | identity | reversibleBijective
  deriving DecidableEq, Repr

inductive ClaimAssurance
  | verified | unverified
  deriving DecidableEq, Repr

inductive ClaimAuthority
  | contractAuthoritative | inferred
  deriving DecidableEq, Repr

def numericMemberEncoding : Text := ['n', 'o', 'n', 'e']
def integerMemberByteWidth : ℕ := 4
def numericMemberWidthMin : ℕ := 1
def numericMemberWidthMax : ℕ := 20

def invalid (detailCode : String) : Raised := .typed .policyInvalid "build_plan" detailCode

def isTokenCharacter (c : Char) : Bool := c.isAlphanum || c == '_' || c == '.' || c == '-'

def isTokenBody (value : Text) : Bool :=
  1 ≤ value.length && value.length ≤ 64 && value.all isTokenCharacter

/-- The bounded token pattern; its `$` also matches in front of one trailing newline. -/
def isBoundedToken (value : Text) : Bool :=
  isTokenBody value || (value.getLast? == some '\n' && isTokenBody value.dropLast)

section Paths
variable {χ : Type} [TextChar χ]

/-- The characters that `str.strip` removes. -/
def isWhitespace (c : χ) : Bool :=
  let n := TextChar.codePoint c
  (9 ≤ n && n ≤ 13) || (28 ≤ n && n ≤ 32) || n == 0x85 || n == 0xa0 || n == 0x1680 ||
    (0x2000 ≤ n && n ≤ 0x200a) || n == 0x2028 || n == 0x2029 || n == 0x202f || n == 0x205f || n == 0x3000

def strip (value : List χ) : List χ := ((value.dropWhile isWhitespace).reverse.dropWhile isWhitespace).reverse

variable [DecidableEq χ]

def isPathSeparator (c : χ) : Bool := c == TextChar.ofChar '\\' || c == TextChar.ofChar '/'

/-- The relative forward-slash form of a member table path. Splitting at single separators leaves
extra empty segments where the source splits at runs of them; both are dropped. -/
def normalizeRelativeTablePath (value : List χ) : Except Raised (List χ) :=
  if (strip value).isEmpty then .error (invalid "RELATIONSHIP_TABLE_PATH_INVALID")
  else
    let segments := (strip value).splitOnP isPathSeparator
    if segments.head? = some [] then .error (invalid "RELATIONSHIP_TABLE_PATH_ABSOLUTE")
    else
      let parts := segments.filter (· ≠ [])
      if parts.isEmpty then .error (invalid "RELATIONSHIP_TABLE_PATH_INVALID")
      else do
        parts.forM fun part =>
          if part = [TextChar.ofChar '.'] ∨ part = [TextChar.ofChar '.', TextChar.ofChar '.'] then
            .error (invalid "RELATIONSHIP_TABLE_PATH_TRAVERSAL")
          else if TextChar.ofChar ':' ∈ part then .error (invalid "RELATIONSHIP_TABLE_PATH_ABSOLUTE")
          else .ok ()
        return List.intercalate [TextChar.ofChar '/'] parts

end Paths

/-- One ordered member of a relation group. Only its table path may hold what is not a character. -/
structure RelationMember (χ : Type := Char) where
  tablePath : List χ
  fieldName : Text
  keyRole : KeyRole
  compositeOrdinal : ℕ
  dbfType : MemberType
  byteWidth : ℕ
  encoding : Text
  nullable : Bool
  deriving DecidableEq, Repr

namespace RelationMember
variable {χ : Type}

def isNumericMember (m : RelationMember χ) : Bool := m.dbfType == .i || m.dbfType == .n

def identity (m : RelationMember χ) : List χ × Text × KeyRole := (m.tablePath, m.fieldName, m.keyRole)

def column (m : RelationMember) : Text × Text := (m.tablePath, m.fieldName)

def validateNumericMemberShape (m : RelationMember χ) : Except Raised Unit :=
  if m.dbfType = .i ∧ m.byteWidth ≠ integerMemberByteWidth then
    .error (invalid "RELATIONSHIP_INTEGER_WIDTH_INVALID")
  else if m.dbfType = .n ∧ ¬ (numericMemberWidthMin ≤ m.byteWidth ∧ m.byteWidth ≤ numericMemberWidthMax) then
    .error (invalid "RELATIONSHIP_NUMERIC_WIDTH_INVALID")
  else .ok ()

/-- The constructor: it normalizes path and encoding and refuses every malformed member. -/
def postInit [TextChar χ] [DecidableEq χ] (m : RelationMember χ) : Except Raised (RelationMember χ) := do
  let tablePath ← normalizeRelativeTablePath m.tablePath
  refuseIf (isBoundedToken m.fieldName = false) (invalid "RELATIONSHIP_FIELD_INVALID")
  refuseIf (m.compositeOrdinal < 1) (invalid "RELATIONSHIP_ORDINAL_INVALID")
  refuseIf (m.byteWidth < 1) (invalid "RELATIONSHIP_BYTE_WIDTH_INVALID")
  if m.isNumericMember then do
    refuseIf (m.encoding ≠ numericMemberEncoding) (invalid "RELATIONSHIP_NUMERIC_ENCODING_INVALID")
    m.validateNumericMemberShape
    return { m with tablePath }
  else do
    refuseIf (isBoundedToken m.encoding = false) (invalid "RELATIONSHIP_ENCODING_INVALID")
    return { m with tablePath, encoding := m.encoding.map Char.toLower }

end RelationMember

structure RelationGroup (χ : Type := Char) where
  relationId : Text
  members : List (RelationMember χ)
  comparison : Comparison
  provenance : Provenance
  sourceDigest : Option Text
  numericStrategy : NumericStrategy
  claimAssurance : Option ClaimAssurance
  claimAuthority : Option ClaimAuthority
  deriving DecidableEq, Repr

namespace RelationGroup
variable {χ : Type}

def membersOf (g : RelationGroup χ) (role : KeyRole) : List (RelationMember χ) :=
  g.members.filter (·.keyRole = role)

/-- The order of a role's members: by ordinal, then by the column they name. -/
def memberLE (a b : RelationMember) : Prop :=
  a.compositeOrdinal < b.compositeOrdinal ∨
    a.compositeOrdinal = b.compositeOrdinal ∧
      (a.tablePath < b.tablePath ∨ a.tablePath = b.tablePath ∧ a.fieldName ≤ b.fieldName)

instance (a b : RelationMember) : Decidable (memberLE a b) := by
  unfold memberLE
  infer_instance

def membersForRole (g : RelationGroup) (role : KeyRole) : List RelationMember :=
  (g.membersOf role).insertionSort memberLE

def roles (g : RelationGroup χ) : List KeyRole := g.members.map RelationMember.keyRole

/-- One role's ordinals are exactly `1..N`. -/
def ordinalsContiguous (g : RelationGroup χ) (role : KeyRole) : Bool :=
  let ordinals := ((g.membersOf role).map RelationMember.compositeOrdinal).insertionSort (· ≤ ·)
  ordinals = (List.range ordinals.length).map (· + 1)

def parentCount (g : RelationGroup χ) : ℕ :=
  (g.members.filter fun m => m.keyRole = .primary ∨ m.keyRole = .candidate).length

def postInit [DecidableEq χ] (g : RelationGroup χ) : Except Raised Unit := do
  refuseIf (isBoundedToken g.relationId = false) (invalid "RELATIONSHIP_ID_INVALID")
  refuseIf (g.members = []) (invalid "RELATIONSHIP_MEMBERS_EMPTY")
  refuseIf (g.sourceDigest.all isBoundedToken = false) (invalid "RELATIONSHIP_SOURCE_DIGEST_INVALID")
  refuseIf (¬ (g.members.map RelationMember.identity).Nodup) (invalid "RELATIONSHIP_MEMBER_DUPLICATE")
  refuseIf (g.numericStrategy = .reversibleBijective ∧ ¬ g.members.any RelationMember.isNumericMember)
    (invalid "RELATIONSHIP_NUMERIC_STRATEGY_MEMBER_REQUIRED")
  refuseIf (KeyRole.primary ∈ g.roles ∧ KeyRole.candidate ∈ g.roles)
    (invalid "RELATIONSHIP_PARENT_SIDE_AMBIGUOUS")
  refuseIf (¬ (KeyRole.primary ∈ g.roles ∨ KeyRole.candidate ∈ g.roles))
    (invalid "RELATIONSHIP_PARENT_SIDE_MISSING")
  refuseIf (KeyRole.foreign ∉ g.roles) (invalid "RELATIONSHIP_FOREIGN_SIDE_MISSING")
  refuseIf (¬ [KeyRole.primary, .candidate, .foreign].all g.ordinalsContiguous)
    (invalid "RELATIONSHIP_ORDINAL_SEQUENCE_INVALID")
  refuseIf (g.parentCount ≠ (g.membersOf .foreign).length) (invalid "RELATIONSHIP_ARITY_MISMATCH")

/-- The parent side: the primary members, or the candidate ones when there are none. -/
def parentMembers (g : RelationGroup) : List RelationMember :=
  if (g.membersForRole .primary).isEmpty then g.membersForRole .candidate else g.membersForRole .primary

def foreignMembers (g : RelationGroup) : List RelationMember := g.membersForRole .foreign

end RelationGroup

inductive IndexKind
  | structuralCdx | standaloneIdx
  deriving DecidableEq, Repr

inductive TagSortOrder
  | ascending | descending
  deriving DecidableEq, Repr

structure ExternalIndexTag where
  name : Text
  sortOrder : TagSortOrder
  expression : Option Text
  deriving DecidableEq, Repr

/-- An external index claim. Its verification state is read from the words of a claim's assurance. -/
structure ExternalIndexClaim where
  claimId : Text
  tablePath : Text
  indexFilePath : Text
  indexKind : IndexKind
  tags : List ExternalIndexTag
  verificationState : ClaimAssurance
  assurance : ClaimAssurance
  provenance : Provenance
  authority : ClaimAuthority
  deriving DecidableEq, Repr

/-- The document; without the external envelope all its fields but the groups are absent. -/
structure RelationshipDocument (χ : Type := Char) where
  groups : List (RelationGroup χ)
  externalMetadataSchemaVersion : Option Text := none
  producerId : Option Text := none
  producerVersion : Option Text := none
  externalAuthority : Option ClaimAuthority := none
  indexClaims : List ExternalIndexClaim := []
  deriving DecidableEq, Repr

namespace RelationshipDocument

def postInit {χ : Type} (d : RelationshipDocument χ) : Except Raised Unit :=
  if (d.groups.map RelationGroup.relationId).Nodup then .ok ()
  else .error (invalid "RELATIONSHIP_ID_DUPLICATE")

/-- The groups that may affect grouping and evidence: all of a plain document, and of an external
one the verified claims of contract authority. -/
def effectiveGroups (d : RelationshipDocument) : List RelationGroup :=
  if d.externalMetadataSchemaVersion = none then d.groups
  else d.groups.filter fun g =>
    g.claimAuthority = some .contractAuthoritative ∧ g.claimAssurance = some .verified

theorem mem_groups_of_mem_effectiveGroups {d : RelationshipDocument} {g : RelationGroup}
    (h : g ∈ d.effectiveGroups) : g ∈ d.groups := by
  unfold effectiveGroups at h
  split_ifs at h
  · exact h
  · exact List.mem_of_mem_filter h

end RelationshipDocument

/-- A document all of whose constructors returned: what the parser can hand over. -/
structure AcceptedDocument where
  document : RelationshipDocument
  members_accepted : ∀ g ∈ document.groups, ∀ m ∈ g.members, ∃ raw, RelationMember.postInit raw = .ok m
  groups_accepted : ∀ g ∈ document.groups, g.postInit = .ok ()
  accepted : document.postInit = .ok ()

theorem AcceptedDocument.relationId_inj (A : AcceptedDocument) {g g' : RelationGroup}
    (hg : g ∈ A.document.groups) (hg' : g' ∈ A.document.groups) (h : g.relationId = g'.relationId) : g = g' := by
  have hnodup : (A.document.groups.map RelationGroup.relationId).Nodup := by
    have h := A.accepted
    unfold RelationshipDocument.postInit at h
    split_ifs at h with hnodup
    exact hnodup
  exact List.inj_on_of_nodup_map hnodup hg hg' h

/-- A document whose members are already in the form their constructor gives them. -/
def AcceptedDocument.ofCanonical (document : RelationshipDocument)
    (hmembers : ∀ g ∈ document.groups, ∀ m ∈ g.members, m.postInit = .ok m)
    (hgroups : ∀ g ∈ document.groups, g.postInit = .ok ()) (haccepted : document.postInit = .ok ()) :
    AcceptedDocument where
  document
  members_accepted := fun g hg m hm => ⟨m, hmembers g hg m hm⟩
  groups_accepted := hgroups
  accepted := haccepted

end DbfAnonymizer.Relationships
