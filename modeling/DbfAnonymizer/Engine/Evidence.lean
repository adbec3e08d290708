import DbfAnonymizer.Engine.Directives
import DbfAnonymizer.Records

/-! Relation evidence: what one record contributes to the declared relations before and after. -/
namespace DbfAnonymizer.Engine
open Transforms Relationships Lib

inductive EvidenceSide
  | before | after
  deriving DecidableEq, Repr

inductive SideRole
  | parent | foreign
  deriving DecidableEq, Repr

/-- One component of a composite key: decoded text or an integer. -/
inductive KeyComponent
  | text (value : Text)
  | int (value : ℤ)
  deriving DecidableEq, Repr

def asciiBytes (text : Text) : List UInt8 := text.map fun c => UInt8.ofNat c.toNat

def utf8Bytes (text : Text) : List UInt8 := text.flatMap String.utf8EncodeChar

def KeyComponent.identity : KeyComponent → List UInt8
  | .text value =>
    let payload := utf8Bytes value
    asciiBytes ('T' :: canonicalIntegerText payload.length ++ [':']) ++ payload
  | .int value =>
    let payload := canonicalIntegerText value
    asciiBytes ('N' :: canonicalIntegerText payload.length ++ ['|'] ++ payload)

/-- The length-prefixed identity of an ordered composite key. -/
def canonicalCompositeIdentity (components : List KeyComponent) : List UInt8 :=
  List.intercalate [0]
    (asciiBytes (canonicalIntegerText components.length) :: components.map KeyComponent.identity)

/-- One member value of a key: NULL gives no component, text and integers give theirs. -/
def keyComponent : Value → Except Raised (Option KeyComponent)
  | .null => .ok none
  | .text value => .ok (some (.text value))
  | .int value => .ok (some (.int value))
  | _ => .error (mappingFailure "ENGINE_RELATION_MEMBER_UNSUPPORTED")

/-- What one record adds to one side of one relation; a tuple with a NULL has no key. -/
structure RelationObservation where
  side : EvidenceSide
  relationId : Text
  role : SideRole
  key : Option (List UInt8)
  deriving DecidableEq, Repr

/-- `_observe_relation_side` for the source values, `_observe_after_side` for the transformed ones. -/
def observeSide (side : EvidenceSide) (relationId : Text) (role : SideRole) (fields : List Text)
    (values : Values) : Except Raised RelationObservation := do
  let components ← fields.mapM fun field => keyComponent (values field)
  return ⟨side, relationId, role,
    if components.contains none then none else some (canonicalCompositeIdentity components.reduceOption)⟩

/-- One side of a relation that a table's records are observed for. -/
structure ObservedSide where
  relationId : Text
  role : SideRole
  fields : List Text
  deriving DecidableEq, Repr

/-- Both passes observe a relation for each side whose table is the one at hand. -/
def observedSides (relations : List RelationDirective) (relativePath : Text) : List ObservedSide :=
  relations.flatMap fun r =>
    (if r.parentTable = relativePath then [⟨r.relationId, .parent, r.parentFields⟩] else []) ++
      if r.foreignTable = relativePath then [⟨r.relationId, .foreign, r.foreignFields⟩] else []

def observeRelations (side : EvidenceSide) (relations : List RelationDirective) (relativePath : Text)
    (values : Values) : Except Raised (List RelationObservation) :=
  (observedSides relations relativePath).mapM fun s => observeSide side s.relationId s.role s.fields values

theorem observeSide_congr {side : EvidenceSide} {relationId : Text} {role : SideRole} {fields : List Text}
    {values values' : Values} (h : ∀ field ∈ fields, values field = values' field) :
    observeSide side relationId role fields values = observeSide side relationId role fields values' := by
  unfold observeSide
  have hmap : ∀ names : List Text, (∀ field ∈ names, values field = values' field) →
      names.mapM (fun field => keyComponent (values field)) =
        names.mapM fun field => keyComponent (values' field) := by
    intro names
    induction names with
    | nil => intro _; rfl
    | cons name names ih =>
      intro hnames
      rw [List.mapM_cons, List.mapM_cons, hnames name (by simp),
        ih fun field hfield => hnames field (List.mem_cons_of_mem _ hfield)]
  rw [hmap fields h]

def RelationDirective.sideTable (r : RelationDirective) : SideRole → Text
  | .parent => r.parentTable
  | .foreign => r.foreignTable

def RelationDirective.sideFields (r : RelationDirective) : SideRole → List Text
  | .parent => r.parentFields
  | .foreign => r.foreignFields

theorem mem_observedSides {relations : List RelationDirective} {relativePath : Text} {s : ObservedSide} :
    s ∈ observedSides relations relativePath ↔ ∃ r ∈ relations, ∃ role,
      r.sideTable role = relativePath ∧ s = ⟨r.relationId, role, r.sideFields role⟩ := by
  unfold observedSides
  simp only [List.mem_flatMap, List.mem_append]
  constructor
  · rintro ⟨r, hr, hs | hs⟩
    · split_ifs at hs with ht
      · exact ⟨r, hr, .parent, ht, List.mem_singleton.mp hs⟩
      · cases hs
    · split_ifs at hs with ht
      · exact ⟨r, hr, .foreign, ht, List.mem_singleton.mp hs⟩
      · cases hs
  · rintro ⟨r, hr, role, ht, rfl⟩
    refine ⟨r, hr, ?_⟩
    cases role with
    | parent => exact Or.inl (by simp [show r.parentTable = relativePath from ht, RelationDirective.sideFields])
    | foreign => exact Or.inr (by simp [show r.foreignTable = relativePath from ht, RelationDirective.sideFields])

end DbfAnonymizer.Engine
