import DbfAnonymizer.Lib.JsonObject

/-! Schemas of JSON values, keyword by keyword. A keyword about one type of value accepts every value of another type. -/
namespace DbfAnonymizer.Lib

namespace Json

mutual
/-- The same value with the keys of every object in order. -/
def ordered : Json → Json
  | .arr items => .arr (orderedItems items)
  | .obj pairs => .obj (sortedBy Prod.fst (orderedPairs pairs))
  | v => v

def orderedItems : List Json → List Json
  | [] => []
  | v :: items => ordered v :: orderedItems items

def orderedPairs : List (List Char × Json) → List (List Char × Json)
  | [] => []
  | (key, v) :: pairs => (key, ordered v) :: orderedPairs pairs
end

mutual
def same : Json → Json → Bool
  | .null, .null => true
  | .bool a, .bool b => a == b
  | .int a, .int b => a == b
  | .float a, .float b => a == b
  | .str a, .str b => a == b
  | .arr items, .arr items' => sameItems items items'
  | .obj pairs, .obj pairs' => samePairs pairs pairs'
  | _, _ => false

def sameItems : List Json → List Json → Bool
  | [], [] => true
  | v :: items, w :: items' => same v w && sameItems items items'
  | _, _ => false

def samePairs : List (List Char × Json) → List (List Char × Json) → Bool
  | [], [] => true
  | (key, v) :: pairs, (key', w) :: pairs' => key == key' && same v w && samePairs pairs pairs'
  | _, _ => false
end

mutual
theorem eq_of_same {v w : Json} (h : same v w = true) : v = w := by
  cases v with
  | arr items =>
    cases w <;> simp only [same, Bool.false_eq_true] at h
    rw [eq_of_sameItems h]
  | obj pairs =>
    cases w <;> simp only [same, Bool.false_eq_true] at h
    rw [eq_of_samePairs h]
  | _ => cases w <;> simp_all [same]

theorem eq_of_sameItems {items items' : List Json} (h : sameItems items items' = true) : items = items' := by
  cases items with
  | nil =>
    cases items' with
    | nil => rfl
    | cons w items' => cases h
  | cons v items =>
    cases items' with
    | nil => cases h
    | cons w items' =>
      rw [sameItems, Bool.and_eq_true] at h
      rw [eq_of_same h.1, eq_of_sameItems h.2]

theorem eq_of_samePairs {pairs pairs' : List (List Char × Json)} (h : samePairs pairs pairs' = true) : pairs = pairs' := by
  cases pairs with
  | nil =>
    cases pairs' with
    | nil => rfl
    | cons q pairs' => cases h
  | cons p pairs =>
    cases pairs' with
    | nil => cases h
    | cons q pairs' =>
      rcases p with ⟨key, v⟩
      rcases q with ⟨key', w⟩
      rw [samePairs, Bool.and_eq_true, Bool.and_eq_true, beq_iff_eq] at h
      rw [h.1.1, eq_of_same h.1.2, eq_of_samePairs h.2]
end

end Json

theorem valueAt_orderedPairs (pairs : List (List Char × Json)) (key : String) :
    valueAt (Json.orderedPairs pairs) key = (valueAt pairs key).map Json.ordered := by
  induction pairs with
  | nil => rfl
  | cons p pairs ih =>
    rw [Json.orderedPairs, valueAt_cons, valueAt_cons, ih]
    split_ifs <;> rfl

theorem valueAt_ordered {pairs pairs' : List (List Char × Json)} (h : Json.ordered (.obj pairs) = Json.ordered (.obj pairs'))
    (key : String) : (valueAt pairs key).map Json.ordered = (valueAt pairs' key).map Json.ordered := by
  simp only [Json.ordered, Json.obj.injEq] at h
  rw [← valueAt_orderedPairs, ← valueAt_orderedPairs, ← valueAt_sortedBy, ← valueAt_sortedBy (Json.orderedPairs pairs'), h]

abbrev Schema := Json → Bool

namespace Schema

def allOf (schemas : List Schema) : Schema := fun v => schemas.all fun s => s v
def ifThenElse (condition consequence alternative : Schema) : Schema :=
  fun v => if condition v then consequence v else alternative v

def ifThen (condition consequence : Schema) : Schema := ifThenElse condition consequence fun _ => true

/-- A choice between texts. -/
def enumeration (words : List String) : Schema
  | .str s => (words.map String.toList).contains s
  | _ => false

def constant (word : String) : Schema := enumeration [word]

def isObject : Schema
  | .obj _ => true
  | _ => false

def isArray : Schema
  | .arr _ => true
  | _ => false

def isString : Schema
  | .str _ => true
  | _ => false

def isBoolean : Schema
  | .bool _ => true
  | _ => false

def minLength (n : ℕ) : Schema
  | .str s => n ≤ s.length
  | _ => true

def maxLength (n : ℕ) : Schema
  | .str s => s.length ≤ n
  | _ => true

def pattern (matching : List Char → Bool) : Schema
  | .str s => matching s
  | _ => true

def forbidden (s : Schema) : Schema := fun v => !s v

def minItems (n : ℕ) : Schema
  | .arr items => n ≤ items.length
  | _ => true

def maxItems (n : ℕ) : Schema
  | .arr items => items.length ≤ n
  | _ => true

def uniqueItems : Schema
  | .arr items => (items.map Json.ordered).Pairwise fun v w => Json.same v w = false
  | _ => true

def items (s : Schema) : Schema
  | .arr vs => vs.all s
  | _ => true

def contains (s : Schema) : Schema
  | .arr vs => vs.any s
  | _ => true

def requires (keys : List String) : Schema
  | .obj pairs => hasAllKeys pairs keys
  | _ => true

def noOthers (keys : List String) : Schema
  | .obj pairs => hasOnlyKeys pairs keys
  | _ => true

def property (key : String) (s : Schema) : Schema
  | .obj pairs => (valueAt pairs key).all s
  | _ => true

def properties (members : List (String × Schema)) : Schema := allOf (members.map fun p => property p.1 p.2)

/-- An object with these properties and no others. -/
def object (keys : List String) (members : List (String × Schema)) : Schema :=
  allOf [isObject, noOthers (members.map Prod.fst), requires keys, properties members]

section Numbers
variable (integral : List Char → Option ℤ)

def integerOf : Json → Option ℤ
  | .int n => some n
  | .float literal => integral literal
  | _ => none

def isInteger : Schema := fun v => (integerOf integral v).isSome
def constantInteger (n : ℤ) : Schema := fun v => integerOf integral v == some n
def minimum (n : ℤ) : Schema := fun v => (integerOf integral v).all (n ≤ ·)
def maximum (n : ℤ) : Schema := fun v => (integerOf integral v).all (· ≤ n)

end Numbers

theorem property_some {pairs : List (List Char × Json)} {key : String} {s : Schema} {v : Json}
    (h : valueAt pairs key = some v) : property key s (.obj pairs) = s v := by
  rw [property, h, Option.all_some]

theorem property_none {pairs : List (List Char × Json)} {key : String} {s : Schema} (h : valueAt pairs key = none) :
    property key s (.obj pairs) = true := by
  rw [property, h, Option.all_none]

theorem properties_obj {pairs : List (List Char × Json)} {members : List (String × Schema)} :
    properties members (.obj pairs) = true ↔ ∀ p ∈ members, property p.1 p.2 (.obj pairs) = true := by
  simp [properties, allOf]

theorem object_obj {keys : List String} {members : List (String × Schema)} {pairs : List (List Char × Json)}
    (honly : hasOnlyKeys pairs (members.map Prod.fst) = true) (hall : hasAllKeys pairs keys = true) :
    object keys members (.obj pairs) = true ↔ ∀ p ∈ members, property p.1 p.2 (.obj pairs) = true := by
  rw [← properties_obj]
  simp [object, allOf, isObject, noOthers, requires, honly, hall]

theorem ifThen_iff {condition consequence : Schema} {v : Json} :
    ifThen condition consequence v = true ↔ (condition v = true → consequence v = true) := by
  unfold ifThen ifThenElse
  split_ifs with h <;> simp [h]

end Schema
end DbfAnonymizer.Lib
