import Mathlib.Data.Char
import Mathlib.Data.List.Lex
import DbfAnonymizer.Lib.Canonical
import DbfAnonymizer.Lib.JsonText

/-! A JSON object read by its keys, and one written from entries of which some may be absent. -/
namespace DbfAnonymizer.Lib

section Objects
variable {χ : Type}

def valueAt (pairs : List (List Char × Json χ)) (key : String) : Option (Json χ) :=
  (pairs.find? fun p => p.1 = key.toList).map (·.2)

/-- `pairs.get(key)`, where an absent key reads as a null. -/
def valueOrNull (pairs : List (List Char × Json χ)) (key : String) : Json χ := (valueAt pairs key).getD .null

/-- `set(pairs) <= set(keys)`. -/
def hasOnlyKeys (pairs : List (List Char × Json χ)) (keys : List String) : Bool :=
  pairs.all fun p => (keys.map String.toList).contains p.1

/-- `set(keys) <= set(pairs)`. -/
def hasAllKeys (pairs : List (List Char × Json χ)) (keys : List String) : Bool :=
  keys.all fun key => (pairs.map (·.1)).contains key.toList

/-- `set(pairs) == set(keys)`. -/
def hasExactKeys (pairs : List (List Char × Json χ)) (keys : List String) : Bool :=
  hasOnlyKeys pairs keys && hasAllKeys pairs keys

def jsonText? [TextChar χ] : Json χ → Option (List Char)
  | .str value => some (TextChar.plain value)
  | _ => none

def jsonBool? : Json χ → Option Bool
  | .bool value => some value
  | _ => none

/-- A genuine integer that is not negative. -/
def jsonCount? : Json χ → Option ℕ
  | .int value => if 0 ≤ value then some value.natAbs else none
  | _ => none

/-- `None` or a text. -/
def jsonOptionalText? : Json → Option (Option (List Char))
  | .null => some none
  | .str value => some (some value)
  | _ => none

/-- The object of the entries that have a value. -/
def objectOf (entries : List (String × Option (Json χ))) : List (List Char × Json χ) :=
  entries.filterMap fun e => e.2.map fun v => (e.1.toList, v)

theorem objectOf_cons (e : String × Option (Json χ)) (entries : List (String × Option (Json χ))) :
    objectOf (e :: entries) = (e.2.map fun v => (e.1.toList, v)).toList ++ objectOf entries := by
  cases hvalue : e.2 with
  | none => simp [objectOf, hvalue]
  | some v => simp [objectOf, hvalue]

theorem mem_keys_objectOf {entries : List (String × Option (Json χ))} {key : List Char}
    (h : key ∈ (objectOf entries).map (·.1)) : ∃ e ∈ entries, e.1.toList = key ∧ e.2.isSome := by
  obtain ⟨p, hp, rfl⟩ := List.mem_map.mp h
  obtain ⟨e, he, heq⟩ := List.mem_filterMap.mp hp
  obtain ⟨v, hv, rfl⟩ := Option.map_eq_some_iff.mp heq
  exact ⟨e, he, rfl, by simp [hv]⟩

theorem valueAt_cons (p : List Char × Json χ) (pairs : List (List Char × Json χ)) (key : String) :
    valueAt (p :: pairs) key = if p.1 = key.toList then some p.2 else valueAt pairs key := by
  rw [valueAt, List.find?_cons]
  by_cases hkey : p.1 = key.toList
  · simp [hkey]
  · simp [hkey, valueAt]

theorem valueAt_eq_none {pairs : List (List Char × Json χ)} {key : String}
    (h : key.toList ∉ pairs.map (·.1)) : valueAt pairs key = none := by
  have hfind : (pairs.find? fun p => p.1 = key.toList) = none := by
    rw [List.find?_eq_none]
    intro p hp heq
    exact h (List.mem_map.mpr ⟨p, hp, by simpa using heq⟩)
  rw [valueAt, hfind, Option.map_none]

theorem isSome_valueAt_iff {pairs : List (List Char × Json χ)} {key : String} :
    (valueAt pairs key).isSome ↔ key.toList ∈ pairs.map (·.1) := by
  simp [valueAt]

theorem hasAllKeys_iff {pairs : List (List Char × Json χ)} {keys : List String} :
    hasAllKeys pairs keys = true ↔ ∀ key ∈ keys, (valueAt pairs key).isSome := by
  simp only [hasAllKeys, List.all_eq_true, List.contains_iff_mem, isSome_valueAt_iff]

theorem hasOnlyKeys_of_subset {pairs : List (List Char × Json χ)} {keys keys' : List String}
    (h : hasOnlyKeys pairs keys = true) (hsub : keys ⊆ keys') : hasOnlyKeys pairs keys' = true := by
  simp only [hasOnlyKeys, List.all_eq_true, List.contains_iff_mem] at h ⊢
  exact fun p hp => List.map_subset _ hsub (h p hp)

theorem valueAt_of_valueOrNull {pairs : List (List Char × Json χ)} {key : String} {v : Json χ}
    (h : valueOrNull pairs key = v) (hv : v ≠ .null) : valueAt pairs key = some v := by
  unfold valueOrNull at h
  cases hvalue : valueAt pairs key with
  | none =>
    rw [hvalue] at h
    exact absurd h.symm hv
  | some w =>
    rw [hvalue, Option.getD_some] at h
    rw [h]

theorem valueAt_objectOf {entries : List (String × Option (Json χ))} (h : (entries.map (·.1)).Nodup) (key : String) :
    valueAt (objectOf entries) key = (entries.find? fun e => e.1 = key).bind (·.2) := by
  induction entries with
  | nil => rfl
  | cons e entries ih =>
    have hrest := ih (List.nodup_cons.mp h).2
    have hfresh : e.1 ∉ entries.map (·.1) := (List.nodup_cons.mp h).1
    rw [objectOf_cons]
    by_cases hkey : e.1 = key
    · have hnone : valueAt (objectOf entries) key = none := by
        apply valueAt_eq_none
        intro hmem
        obtain ⟨other, hother, hsame, -⟩ := mem_keys_objectOf hmem
        rw [String.toList_inj] at hsame
        exact hfresh (List.mem_map.mpr ⟨other, hother, hsame.trans hkey.symm⟩)
      have hfind : (e :: entries).find? (fun e => e.1 = key) = some e := by simp [hkey]
      rw [hfind, Option.bind_some]
      cases hvalue : e.2 with
      | none => simpa [hvalue] using hnone
      | some v => simp [valueAt, hkey]
    · have hfind : (e :: entries).find? (fun e => e.1 = key) = entries.find? (fun e => e.1 = key) := by simp [hkey]
      have hne : e.1.toList ≠ key.toList := by
        rw [Ne, String.toList_inj]
        exact hkey
      rw [hfind, ← hrest]
      cases e.2 with
      | none => rfl
      | some v => simp [valueAt, hne]

/-- What `json.loads` makes of the pairs of an object: the last value of a key is kept. -/
def dictOf : List (List Char × Json χ) → List (List Char × Json χ)
  | [] => []
  | pair :: pairs => if (pairs.map (·.1)).contains pair.1 then dictOf pairs else pair :: dictOf pairs

theorem dictOf_eq_self {pairs : List (List Char × Json χ)} (h : (pairs.map (·.1)).Nodup) : dictOf pairs = pairs := by
  induction pairs with
  | nil => rfl
  | cons pair pairs ih =>
    obtain ⟨hfresh, hrest⟩ := List.nodup_cons.mp h
    rw [dictOf, if_neg (by simpa using hfresh), ih hrest]

/-- `sort_keys=True`. -/
def sortedObject (pairs : List (List Char × Json χ)) : Json χ := .obj (sortedBy Prod.fst pairs)

theorem nodup_keys_sortedBy {pairs : List (List Char × Json χ)} (h : (pairs.map (·.1)).Nodup) :
    ((sortedBy Prod.fst pairs).map (·.1)).Nodup := ((sortedBy_perm Prod.fst pairs).map (·.1)).nodup_iff.mpr h

/-- The sort keeps the first value of every key in front. -/
theorem valueAt_sortedBy (pairs : List (List Char × Json χ)) (key : String) :
    valueAt (sortedBy Prod.fst pairs) key = valueAt pairs key := by
  unfold sortedBy
  induction pairs with
  | nil => rfl
  | cons p pairs ih =>
    have hinsert : ∀ sorted : List (List Char × Json χ),
        valueAt (sorted.orderedInsert (fun a b => a.1 ≤ b.1) p) key = valueAt (p :: sorted) key := by
      intro sorted
      induction sorted with
      | nil => rfl
      | cons q sorted ih =>
        rw [List.orderedInsert]
        split_ifs with hle
        · rfl
        · have hne : ¬ (p.1 = key.toList ∧ q.1 = key.toList) := fun h => hle (h.1.trans h.2.symm).le
          rw [valueAt_cons, ih, valueAt_cons, valueAt_cons, valueAt_cons]
          split_ifs with hq hp
          · exact absurd ⟨hp, hq⟩ hne
          · rfl
          · rfl
          · rfl
    rw [List.insertionSort_cons, hinsert, valueAt_cons, valueAt_cons, ih]

theorem hasExactKeys_sortedBy {pairs : List (List Char × Json χ)} {keys : List String}
    (h : pairs.map (·.1) = keys.map String.toList) : hasExactKeys (sortedBy Prod.fst pairs) keys = true := by
  have hperm := (sortedBy_perm Prod.fst pairs).map (·.1)
  unfold hasExactKeys hasOnlyKeys hasAllKeys
  rw [Bool.and_eq_true, List.all_eq_true, List.all_eq_true]
  constructor
  · intro p hp
    rw [List.contains_iff_mem, ← h, ← hperm.mem_iff]
    exact List.mem_map_of_mem hp
  · intro key hkey
    rw [List.contains_iff_mem, hperm.mem_iff, h]
    exact List.mem_map_of_mem hkey

theorem kept_sortedObject {ε : Type} {pairs : List (List Char × Json)} (h : (pairs.map (·.1)).Nodup)
    (hvalues : ∀ p ∈ pairs, Json.Kept (fun pairs => (.ok (.obj (dictOf pairs)) : Except ε Json)) p.2) :
    Json.Kept (fun pairs => (.ok (.obj (dictOf pairs)) : Except ε Json)) (sortedObject pairs) := by
  unfold sortedObject Json.Kept
  rw [dictOf_eq_self (nodup_keys_sortedBy h), Json.keptPairs_iff]
  exact ⟨rfl, fun p hp => hvalues p ((mem_sortedBy Prod.fst).mp hp)⟩

theorem kept_arr {α ε : Type} {hook : List (List Char × Json) → Except ε Json} {items : List α} {f : α → Json}
    (h : ∀ a ∈ items, Json.Kept hook (f a)) : Json.Kept hook (.arr (items.map f)) := by
  unfold Json.Kept
  rw [Json.keptItems_iff]
  intro v hv
  obtain ⟨a, ha, rfl⟩ := List.mem_map.mp hv
  exact h a ha

theorem written_arr {α : Type} {T : List χ → Prop} {items : List α} {f : α → Json χ}
    (h : ∀ a ∈ items, Json.Written T (f a)) : Json.Written T (.arr (items.map f)) := by
  unfold Json.Written
  rw [Json.writtenItems_iff]
  intro v hv
  obtain ⟨a, ha, rfl⟩ := List.mem_map.mp hv
  exact h a ha

theorem eq_of_lookups {entries entries' : List (String × Option (Json χ))} (hkeys : entries.map (·.1) = entries'.map (·.1))
    (hn : (entries.map (·.1)).Nodup)
    (h : ∀ key, (entries.find? fun e => e.1 = key).bind (·.2) = (entries'.find? fun e => e.1 = key).bind (·.2)) :
    entries = entries' := by
  induction entries generalizing entries' with
  | nil => exact (List.map_eq_nil_iff.mp hkeys.symm).symm
  | cons e entries ih =>
    cases entries' with
    | nil => cases hkeys
    | cons e' entries' =>
      obtain ⟨hkey, hrest⟩ := List.cons.inj hkeys
      obtain ⟨hfresh, hn'⟩ := List.nodup_cons.mp hn
      have hvalue : e.2 = e'.2 := by simpa [hkey] using h e.1
      have htail : entries = entries' := by
        apply ih hrest hn'
        intro key
        by_cases heq : e.1 = key
        · have hnone : entries.find? (fun e => e.1 = key) = none := by
            rw [List.find?_eq_none]
            intro other hother hsame
            exact hfresh (List.mem_map.mpr ⟨other, hother, (of_decide_eq_true hsame).trans heq.symm⟩)
          have hnone' : entries'.find? (fun e => e.1 = key) = none := by
            rw [List.find?_eq_none]
            intro other hother hsame
            have hmem : other.1 ∈ entries'.map (·.1) := List.mem_map_of_mem hother
            rw [← hrest, of_decide_eq_true hsame, ← heq] at hmem
            exact hfresh hmem
          rw [hnone, hnone']
        · have heq' : e'.1 ≠ key := fun hsame => heq (hkey.trans hsame)
          simpa [heq, heq'] using h key
      rw [Prod.ext hkey hvalue, htail]

/-- An object with its keys in order, of entries some of which may be absent. -/
def entriesJson (entries : List (String × Option (Json χ))) : Json χ := sortedObject (objectOf entries)

section Written
variable {entries : List (String × Option (Json χ))}

theorem valueAt_written (hn : (entries.map (·.1)).Nodup) (key : String) :
    valueAt (sortedBy Prod.fst (objectOf entries)) key = (entries.find? fun e => e.1 = key).bind (·.2) := by
  rw [valueAt_sortedBy, valueAt_objectOf hn]

theorem valueOrNull_written (hn : (entries.map (·.1)).Nodup) (key : String) :
    valueOrNull (sortedBy Prod.fst (objectOf entries)) key = ((entries.find? fun e => e.1 = key).bind (·.2)).getD .null := by
  rw [valueOrNull, valueAt_written hn]

theorem mem_keys_written {key : List Char} (h : key ∈ (sortedBy Prod.fst (objectOf entries)).map (·.1)) :
    ∃ e ∈ entries, e.1.toList = key ∧ e.2.isSome := by
  apply mem_keys_objectOf
  rwa [((sortedBy_perm Prod.fst (objectOf entries)).map (·.1)).mem_iff] at h

theorem hasOnlyKeys_written {keys : List String} (h : ∀ e ∈ entries, e.2.isSome → e.1 ∈ keys) :
    hasOnlyKeys (sortedBy Prod.fst (objectOf entries)) keys = true := by
  apply List.all_eq_true.mpr
  intro p hp
  obtain ⟨e, he, hkey, hsome⟩ := mem_keys_written (List.mem_map_of_mem hp)
  rw [List.contains_iff_mem, ← hkey]
  exact List.mem_map_of_mem (h e he hsome)

theorem hasAllKeys_written (hn : (entries.map (·.1)).Nodup) {keys : List String}
    (h : ∀ key ∈ keys, ((entries.find? fun e => e.1 = key).bind (·.2)).isSome) :
    hasAllKeys (sortedBy Prod.fst (objectOf entries)) keys = true := by
  apply List.all_eq_true.mpr
  intro key hkey
  rw [List.contains_iff_mem, ← isSome_valueAt_iff, valueAt_written hn]
  exact h key hkey

end Written

theorem entriesJson_inj {entries entries' : List (String × Option (Json χ))} (hkeys : entries.map (·.1) = entries'.map (·.1))
    (hn : (entries.map (·.1)).Nodup) (h : entriesJson entries = entriesJson entries') : entries = entries' := by
  have hn' : (entries'.map (·.1)).Nodup := hkeys ▸ hn
  have hpairs : sortedBy Prod.fst (objectOf entries) = sortedBy Prod.fst (objectOf entries') := Json.obj.inj h
  apply eq_of_lookups hkeys hn
  intro key
  rw [← valueAt_objectOf hn, ← valueAt_objectOf hn', ← valueAt_sortedBy, hpairs,
    valueAt_sortedBy]

theorem written_entriesJson {T : List χ → Prop} {entries : List (String × Option (Json χ))}
    (hvalues : ∀ e ∈ entries, ∀ v ∈ e.2, Json.Written T v) : Json.Written T (entriesJson entries) := by
  unfold entriesJson sortedObject Json.Written
  rw [Json.writtenPairs_iff]
  intro p hp
  obtain ⟨e, he, heq⟩ := List.mem_filterMap.mp ((mem_sortedBy Prod.fst).mp hp)
  obtain ⟨v, hv, rfl⟩ := Option.map_eq_some_iff.mp heq
  exact hvalues e he v hv

theorem dumps_entriesJson_congr [TextChar χ] {entries entries' : List (String × Option (Json χ))}
    (h : List.Forall₂ (fun e e' => e.1 = e'.1 ∧ Option.Rel (fun v w => v.dumps = w.dumps) e.2 e'.2) entries entries') :
    (entriesJson entries).dumps = (entriesJson entries').dumps := by
  have hpairs : List.Forall₂ (fun p p' => p.1 = p'.1 ∧ p.2.dumps = p'.2.dumps) (objectOf entries) (objectOf entries') := by
    induction h with
    | nil => exact .nil
    | @cons e e' _ _ hfirst _ ih =>
      obtain ⟨hkey, hvalue⟩ := hfirst
      rw [objectOf_cons, objectOf_cons, hkey]
      generalize e.2 = v at hvalue
      generalize e'.2 = w at hvalue
      cases hvalue with
      | none => exact ih
      | some hsame => exact .cons ⟨rfl, hsame⟩ ih
  exact Json.dumps_obj_congr (forall₂_sortedBy Prod.fst (fun _ _ hsame => hsame.1) hpairs)

/-- The object with another value under a key that it has. -/
def replaceAt (pairs : List (List Char × Json χ)) (key : String) (v : Json χ) : List (List Char × Json χ) :=
  pairs.map fun p => if p.1 = key.toList then (p.1, v) else p

section Replaced
variable (pairs : List (List Char × Json χ)) (key : String) (v : Json χ)

theorem keys_replaceAt : (replaceAt pairs key v).map (·.1) = pairs.map (·.1) := by
  rw [replaceAt, List.map_map]
  apply List.map_congr_left
  intro p _
  show (if p.1 = key.toList then (p.1, v) else p).1 = p.1
  split_ifs <;> rfl

@[simp] theorem hasOnlyKeys_replaceAt (keys : List String) : hasOnlyKeys (replaceAt pairs key v) keys = hasOnlyKeys pairs keys := by
  have hall : ∀ pairs : List (List Char × Json χ), hasOnlyKeys pairs keys =
      (pairs.map (·.1)).all fun k => (keys.map String.toList).contains k := by
    intro pairs
    rw [List.all_map]
    rfl
  rw [hall, hall, keys_replaceAt]

@[simp] theorem hasAllKeys_replaceAt (keys : List String) : hasAllKeys (replaceAt pairs key v) keys = hasAllKeys pairs keys := by
  rw [hasAllKeys, hasAllKeys, keys_replaceAt]

theorem valueAt_replaceAt_self : valueAt (replaceAt pairs key v) key = (valueAt pairs key).map fun _ => v := by
  induction pairs with
  | nil => rfl
  | cons p pairs ih =>
    rw [replaceAt, List.map_cons, valueAt_cons, valueAt_cons]
    by_cases hkey : p.1 = key.toList
    · simp [hkey]
    · rw [if_neg hkey, if_neg hkey, if_neg hkey]
      exact ih

theorem valueAt_replaceAt_ne {other : String} (hne : other ≠ key) :
    valueAt (replaceAt pairs key v) other = valueAt pairs other := by
  induction pairs with
  | nil => rfl
  | cons p pairs ih =>
    rw [replaceAt, List.map_cons, valueAt_cons, valueAt_cons]
    by_cases hkey : p.1 = key.toList
    · have hother : ¬ p.1 = other.toList := by
        rw [hkey, String.toList_inj]
        exact fun heq => hne heq.symm
      rw [if_pos hkey, if_neg hother, if_neg hother]
      exact ih
    · rw [if_neg hkey]
      split_ifs
      · rfl
      · exact ih

theorem valueOrNull_replaceAt_ne {other : String} (hne : other ≠ key) :
    valueOrNull (replaceAt pairs key v) other = valueOrNull pairs other := by
  rw [valueOrNull, valueOrNull, valueAt_replaceAt_ne pairs key v hne]

variable {pairs key}

theorem valueOrNull_replaceAt_self {keys : List String} (hall : hasAllKeys pairs keys = true) (hkey : key ∈ keys) :
    valueOrNull (replaceAt pairs key v) key = v := by
  obtain ⟨w, hw⟩ := Option.isSome_iff_exists.mp (hasAllKeys_iff.mp hall key hkey)
  rw [valueOrNull, valueAt_replaceAt_self, hw]
  rfl

end Replaced

end Objects
end DbfAnonymizer.Lib
