import DbfAnonymizer.Policy
import DbfAnonymizer.Relationships.Compatibility

/-! Binding a relationship document to the discovered table schemas. -/
namespace DbfAnonymizer.Relationships
open Transforms Lib

/-- The schema facts that a declared member is bound to. -/
structure FieldFact where
  dbfType : Char
  length : ℕ
  encoding : Text
  decimals : ℕ
  autoincrement : Bool
  nullable : Bool
  deriving DecidableEq, Repr

def MemberType.char : MemberType → Char
  | .c => 'C'
  | .v => 'V'
  | .i => 'I'
  | .n => 'N'

def bindingError (detailCode : String) : Raised := .typed .policyInvalid "build_plan" detailCode

def fieldFacts (tables : List (Text × TableSchema)) : List ((Text × Text) × FieldFact) :=
  tables.flatMap fun table => table.2.fields.map fun f =>
    ((table.1, f.name),
      ⟨f.dbfType, f.length, table.2.encoding, f.decimalCount, f.isAutoincrement, f.nullable⟩)

def bindMember (codecs : Codecs) (tables : List (Text × TableSchema)) (strategy : NumericStrategy)
    (member : RelationMember) : Except Raised ((Text × Text) × FieldFact) := do
  refuseIf (member.tablePath ∉ tables.map Prod.fst) (bindingError "RELATIONSHIP_MEMBER_TABLE_UNKNOWN")
  match (fieldFacts tables).find? (·.1 = member.column) with
  | none => throw (bindingError "RELATIONSHIP_MEMBER_FIELD_UNKNOWN")
  | some bound =>
    refuseIf (member.dbfType.char ≠ bound.2.dbfType) (bindingError "RELATIONSHIP_MEMBER_TYPE_MISMATCH")
    refuseIf (member.byteWidth ≠ bound.2.length) (bindingError "RELATIONSHIP_MEMBER_WIDTH_MISMATCH")
    if member.isNumericMember then do
      refuseIf (strategy = .reversibleBijective ∧ member.dbfType = .n ∧ bound.2.decimals ≠ 0)
        (bindingError "NUMERIC_MEMBER_DECIMALS_UNSUPPORTED")
      refuseIf (strategy = .reversibleBijective ∧ bound.2.autoincrement = true)
        (bindingError "NUMERIC_MEMBER_AUTOINCREMENT_UNSUPPORTED")
      refuseIf (strategy = .reversibleBijective ∧ member.nullable ≠ bound.2.nullable)
        (bindingError "NUMERIC_MEMBER_NULLABILITY_MISMATCH")
      return bound
    else do
      refuseIf (candidateAlphabet codecs [member.encoding, bound.2.encoding] = [])
        (bindingError "RELATIONSHIP_MEMBER_ENCODING_INCOMPATIBLE")
      return bound

/-- Binds the index claims' tables and every member of every group; the result is what later stages
look member facts up in. -/
def bindRelationshipDocument (codecs : Codecs) (tables : List (Text × TableSchema))
    (document : RelationshipDocument) : Except Raised (List ((Text × Text) × FieldFact)) := do
  document.indexClaims.forM fun claim =>
    refuseIf (claim.tablePath ∉ tables.map Prod.fst) (bindingError "EXTERNAL_METADATA_INDEX_TABLE_UNKNOWN")
  let bindings ← document.groups.mapM fun g => g.members.mapM (bindMember codecs tables g.numericStrategy)
  return bindings.flatten

/-- An accepted document that is compatible and bound to a dataset's tables. -/
structure BoundDocument (codecs : Codecs) (hashing : Hashing) (tables : List (Text × TableSchema)) extends
    AcceptedDocument where
  compatible : validateDocumentCompatibility codecs hashing document = .ok ()
  bindings : List ((Text × Text) × FieldFact)
  bound : bindRelationshipDocument codecs tables document = .ok bindings

theorem bindMember_eq_ok {codecs : Codecs} {tables : List (Text × TableSchema)} {strategy : NumericStrategy}
    {m : RelationMember} {b : (Text × Text) × FieldFact} (h : bindMember codecs tables strategy m = .ok b) :
    (fieldFacts tables).find? (·.1 = m.column) = some b ∧ m.dbfType.char = b.2.dbfType ∧
      m.byteWidth = b.2.length := by
  unfold bindMember at h
  obtain ⟨-, -, h⟩ := bind_eq_ok.mp h
  cases hfind : (fieldFacts tables).find? (·.1 = m.column) with
  | none => simp [hfind] at h
  | some bound =>
    simp only [hfind] at h
    obtain ⟨_, htype, h⟩ := bind_eq_ok.mp h
    obtain ⟨_, hwidth, h⟩ := bind_eq_ok.mp h
    have hb : b = bound := by
      split_ifs at h
      · obtain ⟨-, -, h⟩ := bind_eq_ok.mp h
        obtain ⟨-, -, h⟩ := bind_eq_ok.mp h
        obtain ⟨-, -, h⟩ := bind_eq_ok.mp h
        exact (Except.ok.inj h).symm
      · obtain ⟨-, -, h⟩ := bind_eq_ok.mp h
        exact (Except.ok.inj h).symm
    subst hb
    exact ⟨rfl, not_not.mp (refuseIf_eq_ok.mp htype), not_not.mp (refuseIf_eq_ok.mp hwidth)⟩

theorem find?_bindings {codecs : Codecs} {tables : List (Text × TableSchema)} {d : RelationshipDocument}
    {bindings : List ((Text × Text) × FieldFact)} (h : bindRelationshipDocument codecs tables d = .ok bindings)
    {g : RelationGroup} {m : RelationMember} (hg : g ∈ d.groups) (hm : m ∈ g.members) :
    ∃ b, bindings.find? (·.1 = m.column) = some b ∧ (fieldFacts tables).find? (·.1 = m.column) = some b ∧
      m.dbfType.char = b.2.dbfType ∧ m.byteWidth = b.2.length := by
  unfold bindRelationshipDocument at h
  obtain ⟨-, -, h⟩ := bind_eq_ok.mp h
  obtain ⟨lists, hlists, h⟩ := bind_eq_ok.mp h
  rw [pure_eq_ok] at h
  cases h
  obtain ⟨l, hl, hmapped⟩ := exists_of_mapM_ok hlists hg
  obtain ⟨b, hb, hbound⟩ := exists_of_mapM_ok hmapped hm
  obtain ⟨hfind, htype, hwidth⟩ := bindMember_eq_ok hbound
  have hmem : b ∈ lists.flatten := List.mem_flatten.mpr ⟨l, hl, hb⟩
  have hcol : b.1 = m.column := by simpa using List.find?_some hfind
  cases hfound : lists.flatten.find? (·.1 = m.column) with
  | none => exact absurd hcol (by simpa using List.find?_eq_none.mp hfound b hmem)
  | some b' =>
    -- every entry of that column is the one the dataset's facts give
    have hcol' : b'.1 = m.column := by simpa using List.find?_some hfound
    obtain ⟨l', hl', hb'⟩ := List.mem_flatten.mp (List.mem_of_find?_eq_some hfound)
    obtain ⟨g', -, hmapped'⟩ := exists_of_mem_mapM_ok hlists hl'
    obtain ⟨m', -, hbound'⟩ := exists_of_mem_mapM_ok hmapped' hb'
    obtain ⟨hfind', -, -⟩ := bindMember_eq_ok hbound'
    have hcol'' : b'.1 = m'.column := by simpa using List.find?_some hfind'
    rw [← hcol'', hcol', hfind] at hfind'
    cases hfind'
    exact ⟨b, rfl, hfind, htype, hwidth⟩

end DbfAnonymizer.Relationships
