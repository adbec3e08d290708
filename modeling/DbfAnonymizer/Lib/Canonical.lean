import Mathlib.Data.List.Perm.Basic
import Mathlib.Data.List.Sort
import Mathlib.Data.Prod.Lex
import DbfAnonymizer.Lib.Json

/-! Canonical forms: closed vocabularies of words, and lists put in the order of their keys. -/
namespace DbfAnonymizer.Lib

/-- A finite type whose terms are told apart by the words they are written as. -/
class Vocabulary (α : Type) where
  all : List α
  value : α → List Char
  complete : ∀ a, a ∈ all
  injective : Function.Injective value

namespace Vocabulary
variable {α χ : Type} [Vocabulary α] [TextChar χ]

/-- `Vocabulary(word)`, where the word is one of its own. -/
def ofWord (word : List Char) : Option α := all.find? fun a => value a = word

theorem ofWord_eq_some {word : List Char} {a : α} : ofWord word = some a ↔ value a = word := by
  constructor
  · intro h
    have hword := List.find?_some h
    simpa using hword
  · intro h
    have hsome : (ofWord word : Option α).isSome := by
      rw [ofWord, List.find?_isSome]
      exact ⟨a, complete a, by simpa using h⟩
    obtain ⟨b, hb⟩ := Option.isSome_iff_exists.mp hsome
    have hword : value b = word := by simpa using List.find?_some hb
    have hsame : b = a := injective (hword.trans h.symm)
    rw [hb, hsame]

def ofJson : Json χ → Option α
  | .str word => ofWord (TextChar.plain word)
  | _ => none

theorem ofJson_eq_some {v : Json} {a : α} : ofJson v = some a ↔ v = .str (value a) := by
  cases v with
  | str word =>
    rw [ofJson, ofWord_eq_some, Json.str.injEq]
    exact eq_comm
  | _ => simp [ofJson]

def toJson (a : α) : Json χ := .plain (value a)

@[simp] theorem ofJson_toJson (a : α) : ofJson (toJson a : Json χ) = some a := by
  rw [toJson, Json.plain, ofJson, TextChar.plain_ofPlain]
  exact ofWord_eq_some.mpr rfl

theorem toJson_injective : Function.Injective (toJson : α → Json χ) := by
  intro a b h
  exact injective (Json.plain_injective h)

@[simp] theorem toJson_inj {a b : α} : (toJson a : Json χ) = toJson b ↔ a = b := toJson_injective.eq_iff

@[simp] theorem map_toJson_inj {a b : Option α} : a.map (toJson : α → Json χ) = b.map toJson ↔ a = b :=
  (Option.map_injective toJson_injective).eq_iff

end Vocabulary

theorem nodup_map_of_determines {α β γ : Type*} {f : α → β} {g : α → γ} {items : List α} (h : (items.map f).Nodup)
    (hdetermines : ∀ a b, g a = g b → f a = f b) : (items.map g).Nodup := by
  apply List.Nodup.map_on _ (List.Nodup.of_map f h)
  intro a ha b hb heq
  exact List.inj_on_of_nodup_map h ha hb (hdetermines a b heq)

section Sorted
variable {α κ : Type*} [LinearOrder κ] (key : α → κ)

/-- `sorted(items, key=key)`. -/
def sortedBy (items : List α) : List α := items.insertionSort fun a b => key a ≤ key b

theorem sortedBy_perm (items : List α) : (sortedBy key items).Perm items := List.perm_insertionSort _ _

theorem mem_sortedBy {items : List α} {a : α} : a ∈ sortedBy key items ↔ a ∈ items :=
  (sortedBy_perm key items).mem_iff

theorem pairwise_sortedBy (items : List α) : (sortedBy key items).Pairwise fun a b => key a ≤ key b := by
  have htotal : Std.Total fun a b => key a ≤ key b := ⟨fun a b => le_total (key a) (key b)⟩
  have htrans : IsTrans α fun a b => key a ≤ key b := ⟨fun _ _ _ => le_trans⟩
  exact List.pairwise_insertionSort _ _

/-- Sorting by a key that tells the items apart forgets their order and nothing else. -/
theorem sortedBy_eq_iff {items items' : List α} (h : (items.map key).Nodup) :
    sortedBy key items = sortedBy key items' ↔ items.Perm items' := by
  constructor
  · intro heq
    exact (sortedBy_perm key items).symm.trans (heq ▸ sortedBy_perm key items')
  · intro hperm
    have hsorted : (sortedBy key items).Perm (sortedBy key items') :=
      ((sortedBy_perm key items).trans hperm).trans (sortedBy_perm key items').symm
    refine List.Perm.eq_of_pairwise ?_ (pairwise_sortedBy key items) (pairwise_sortedBy key items') hsorted
    intro a b ha hb hle hge
    have ha' : a ∈ items := (mem_sortedBy key).mp ha
    have hb' : b ∈ items := hperm.mem_iff.mpr ((mem_sortedBy key).mp hb)
    exact List.inj_on_of_nodup_map h ha' hb' (le_antisymm hle hge)

theorem sortedBy_eq_of_coarser {κ' : Type*} [LinearOrder κ'] {coarse : α → κ'}
    (hcoarse : ∀ a b, key a ≤ key b → coarse a ≤ coarse b) {items : List α} (hn : (items.map coarse).Nodup) :
    sortedBy key items = sortedBy coarse items := by
  have hperm : (sortedBy key items).Perm (sortedBy coarse items) :=
    (sortedBy_perm key items).trans (sortedBy_perm coarse items).symm
  have hsorted : (sortedBy key items).Pairwise fun a b => coarse a ≤ coarse b :=
    (pairwise_sortedBy key items).imp (hcoarse _ _)
  refine List.Perm.eq_of_pairwise ?_ hsorted (pairwise_sortedBy coarse items) hperm
  intro a b ha hb hle hge
  have ha' : a ∈ items := (mem_sortedBy key).mp ha
  have hb' : b ∈ items := (mem_sortedBy coarse).mp hb
  exact List.inj_on_of_nodup_map hn ha' hb' (le_antisymm hle hge)

theorem pairwise_sortedBy_iff_of_injective {items : List α} (hkey : Function.Injective key) (hnodup : items.Nodup)
    {R : α → α → Prop} : (sortedBy key items).Pairwise R ↔ ∀ a ∈ items, ∀ b ∈ items, key a < key b → R a b := by
  have hsorted := pairwise_sortedBy key items
  constructor
  · intro h a ha b hb hlt
    have hboth := h.and hsorted
    rw [List.pairwise_iff_getElem] at hboth
    obtain ⟨i, hi, rfl⟩ := List.mem_iff_getElem.mp ((mem_sortedBy key).mpr ha)
    obtain ⟨j, hj, rfl⟩ := List.mem_iff_getElem.mp ((mem_sortedBy key).mpr hb)
    rcases lt_trichotomy i j with hij | rfl | hji
    · exact (hboth i j hi hj hij).1
    · exact absurd hlt (lt_irrefl _)
    · exact absurd (hboth j i hj hi hji).2 (not_le.mpr hlt)
  · intro h
    have hdistinct : (sortedBy key items).Pairwise (· ≠ ·) := (sortedBy_perm key items).nodup_iff.mpr hnodup
    apply (hsorted.and hdistinct).imp_of_mem
    intro a b ha hb hab
    exact h a ((mem_sortedBy key).mp ha) b ((mem_sortedBy key).mp hb) (lt_of_le_of_ne hab.1 (hkey.ne hab.2))

theorem pair_sublist_or {items : List α} (hn : items.Nodup) {a b : α} (ha : a ∈ items) (hb : b ∈ items) (hne : a ≠ b) :
    ([a, b].Sublist items ∨ [b, a].Sublist items) ∧ ¬ ([a, b].Sublist items ∧ [b, a].Sublist items) := by
  induction items with
  | nil => cases ha
  | cons x rest ih =>
    obtain ⟨hx, hn'⟩ := List.nodup_cons.mp hn
    have hpair : ∀ {c d : α}, [c, d].Sublist (x :: rest) ↔ c = x ∧ d ∈ rest ∨ [c, d].Sublist rest := by
      intro c d
      rw [List.cons_sublist_cons']
      by_cases hcx : c = x
      · simp [hcx, or_comm]
      · simp [hcx]
    have hmem : ∀ {c d : α}, [c, d].Sublist rest → c ∈ rest ∧ d ∈ rest := by
      intro c d h
      have hsub := h.subset
      exact ⟨hsub (by simp), hsub (by simp)⟩
    rw [hpair, hpair]
    rcases List.mem_cons.mp ha with rfl | hrest
    · have hb' : b ∈ rest := (List.mem_cons.mp hb).resolve_left fun heq => hne heq.symm
      refine ⟨Or.inl (Or.inl ⟨rfl, hb'⟩), ?_⟩
      rintro ⟨-, ⟨heq, -⟩ | h⟩
      · exact hne heq.symm
      · exact hx (hmem h).2
    · rcases List.mem_cons.mp hb with rfl | hrest'
      · refine ⟨Or.inr (Or.inl ⟨rfl, hrest⟩), ?_⟩
        rintro ⟨⟨heq, -⟩ | h, -⟩
        · exact hne heq
        · exact hx (hmem h).2
      · have hax : a ≠ x := fun heq => hx (heq ▸ hrest)
        have hbx : b ≠ x := fun heq => hx (heq ▸ hrest')
        simpa [hax, hbx] using ih hn' hrest hrest'

theorem pairwise_sortedBy_iff {items : List α} (hn : items.Nodup) {R : α → α → Prop} :
    ((sortedBy key items).Pairwise fun a b => key a = key b → R a b) ↔ items.Pairwise fun a b => key a = key b → R a b := by
  have hn' : (sortedBy key items).Nodup := (sortedBy_perm key items).nodup_iff.mpr hn
  have hstable : ∀ {a b : α}, [a, b].Sublist items → key a = key b → [a, b].Sublist (sortedBy key items) :=
    fun h heq => List.pair_sublist_insertionSort heq.le h
  have hmem : ∀ {a b : α} {l : List α}, [a, b].Sublist l → a ∈ l ∧ b ∈ l := by
    intro a b l h
    have hsub := h.subset
    exact ⟨hsub (by simp), hsub (by simp)⟩
  simp only [List.pairwise_iff_forall_sublist]
  constructor
  · intro h a b hab heq
    exact h (hstable hab heq) heq
  · intro h a b hab heq
    obtain ⟨ha, hb⟩ := hmem hab
    have hne : a ≠ b := by
      intro hsame
      subst hsame
      exact List.nodup_iff_sublist.mp hn' a hab
    have ha' := (mem_sortedBy key).mp ha
    have hb' := (mem_sortedBy key).mp hb
    rcases (pair_sublist_or hn ha' hb' hne).1 with hforth | hback
    · exact h hforth heq
    · exact absurd ⟨hab, hstable hback heq.symm⟩ (pair_sublist_or hn' ha hb hne).2

theorem forall₂_sortedBy {β : Type*} {key' : β → κ} {R : α → β → Prop} (hkey : ∀ a b, R a b → key a = key' b)
    {items : List α} {items' : List β} (h : List.Forall₂ R items items') :
    List.Forall₂ R (sortedBy key items) (sortedBy key' items') := by
  obtain ⟨hlen, hmem⟩ := List.forall₂_iff_zip.mp h
  have hleft : (sortedBy (key ∘ Prod.fst) (items.zip items')).map Prod.fst = sortedBy key items := by
    have hfst : (items.zip items').map Prod.fst = items := List.map_fst_zip hlen.le
    rw [← hfst, List.map_fst_zip hlen.le]
    unfold sortedBy
    nth_rewrite 2 [← hfst]
    apply List.map_insertionSort
    intro a _ b _
    exact Iff.rfl
  have hright : (sortedBy (key ∘ Prod.fst) (items.zip items')).map Prod.snd = sortedBy key' items' := by
    have hsnd : (items.zip items').map Prod.snd = items' := List.map_snd_zip hlen.ge
    unfold sortedBy
    nth_rewrite 2 [← hsnd]
    apply List.map_insertionSort
    intro a ha b hb
    show key a.1 ≤ key b.1 ↔ key' a.2 ≤ key' b.2
    rw [hkey _ _ (hmem ha), hkey _ _ (hmem hb)]
  rw [← hleft, ← hright, List.forall₂_map_left_iff, List.forall₂_map_right_iff, List.forall₂_same]
  intro p hp
  exact hmem ((mem_sortedBy _).mp hp)

/-- The written forms of two lists in the order of their keys agree when the lists agree up to their order. -/
theorem map_sortedBy_eq_iff {β : Type*} {f : α → β} {R : α → α → Prop} {items items' : List α} (hn : (items.map key).Nodup)
    (hf : ∀ a ∈ items, ∀ b ∈ items', f a = f b ↔ R a b) (hkey : ∀ a b, R a b → key a = key b) :
    (sortedBy key items).map f = (sortedBy key items').map f ↔ ∃ listed, items.Perm listed ∧ List.Forall₂ R listed items' := by
  constructor
  · intro heq
    have hsame : List.Forall₂ (fun a b => f a = f b) (sortedBy key items) (sortedBy key items') := by
      have hmapped : List.Forall₂ Eq ((sortedBy key items).map f) ((sortedBy key items').map f) := by
        rw [List.forall₂_eq_eq_eq]
        exact heq
      rwa [List.forall₂_map_left_iff, List.forall₂_map_right_iff] at hmapped
    obtain ⟨hlen, hmem⟩ := List.forall₂_iff_zip.mp hsame
    have hrel : List.Forall₂ R (sortedBy key items) (sortedBy key items') := by
      rw [List.forall₂_iff_zip]
      refine ⟨hlen, fun {a b} hab => ?_⟩
      obtain ⟨ha, hb⟩ := List.of_mem_zip hab
      exact (hf a ((mem_sortedBy key).mp ha) b ((mem_sortedBy key).mp hb)).mp (hmem hab)
    have hcomp : Relation.Comp (List.Forall₂ R) List.Perm (sortedBy key items) items' := ⟨_, hrel, sortedBy_perm key items'⟩
    rw [List.forall₂_comp_perm_eq_perm_comp_forall₂] at hcomp
    obtain ⟨listed, hperm, hlisted⟩ := hcomp
    exact ⟨listed, (sortedBy_perm key items).symm.trans hperm, hlisted⟩
  · rintro ⟨listed, hperm, hlisted⟩
    rw [(sortedBy_eq_iff key hn).mpr hperm]
    obtain ⟨hlen, hmem⟩ := List.forall₂_iff_zip.mp (forall₂_sortedBy key hkey hlisted)
    rw [← List.forall₂_eq_eq_eq, List.forall₂_map_left_iff, List.forall₂_map_right_iff, List.forall₂_iff_zip]
    refine ⟨hlen, fun {a b} hab => ?_⟩
    obtain ⟨ha, hb⟩ := List.of_mem_zip hab
    have ha' : a ∈ items := hperm.mem_iff.mpr ((mem_sortedBy key).mp ha)
    exact (hf a ha' b ((mem_sortedBy key).mp hb)).mpr (hmem hab)

end Sorted
end DbfAnonymizer.Lib
