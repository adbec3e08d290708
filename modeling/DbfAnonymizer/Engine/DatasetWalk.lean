import DbfAnonymizer.Engine.PublicationState
import DbfAnonymizer.Lib.Canonical

/-! The walk over a dataset tree meets every file of the tree in an order of its own. -/
namespace DbfAnonymizer.Engine
open Lib

/-- What is no directory itself: a regular file, a link to a directory, or anything else. -/
inductive DatasetLeaf
  | file (content : List UInt8)
  | directoryLink
  | irregular
  deriving DecidableEq, Repr

/-- A tree as it is listed; the entries of a directory come in any order. -/
inductive DatasetNode
  | leaf (found : DatasetLeaf)
  | directory (entries : List (Text × DatasetNode))

namespace DatasetNode

def leaves (entries : List (Text × DatasetNode)) : List (Text × DatasetLeaf) := entries.filterMap fun entry =>
  match entry.2 with
  | leaf found => some (entry.1, found)
  | directory _ => none

mutual

/-- `_iter_dataset_files`: links to directories first, then the other leaves by name, then the subdirectories
by name; a path is the list of its names. -/
def walk : DatasetNode → List (List Text × DatasetLeaf)
  | leaf _ => []
  | directory entries =>
    let (links, files) := (leaves entries).partition (·.2 = .directoryLink)
    (sortedBy Prod.fst links ++ sortedBy Prod.fst files).map (fun item => ([item.1], item.2)) ++
      (sortedBy Prod.fst (walkBelow entries)).flatMap fun item => item.2.map fun found => (item.1 :: found.1, found.2)

/-- The walks of the entries; below a leaf there is nothing to meet. -/
def walkBelow : List (Text × DatasetNode) → List (Text × List (List Text × DatasetLeaf))
  | [] => []
  | (name, node) :: rest => (name, walk node) :: walkBelow rest

end

/-- `relative_to(root).as_posix()`. -/
def relativePath (names : List Text) : Text := List.intercalate ['/'] names

def datasetEntry (item : List Text × DatasetLeaf) : DatasetEntry :=
  match item.2 with
  | .file content => .file (relativePath item.1) content
  | .directoryLink => .directoryLink
  | .irregular => .irregular

def nodeAt : DatasetNode → List Text → Option DatasetNode
  | node, [] => some node
  | leaf _, _ :: _ => none
  | directory entries, name :: names => do
    let entry ← entries.find? (·.1 = name)
    nodeAt entry.2 names

def contentAt (node : DatasetNode) (names : List Text) : Option (List UInt8) :=
  match node.nodeAt names with
  | some (leaf (.file content)) => some content
  | _ => none

/-- A tree of regular files and directories, with names that can be told apart. -/
inductive Plain : DatasetNode → Prop
  | file (content : List UInt8) : Plain (leaf (.file content))
  | directory {entries : List (Text × DatasetNode)} (distinct : (entries.map Prod.fst).Nodup)
      (named : ∀ entry ∈ entries, '/' ∉ entry.1) (plain : ∀ entry ∈ entries, Plain entry.2) :
      Plain (directory entries)

variable {node : DatasetNode} {entries : List (Text × DatasetNode)} {name : Text} {names : List Text}
  {found : DatasetLeaf} {content : List UInt8}

theorem walkBelow_eq (entries : List (Text × DatasetNode)) :
    walkBelow entries = entries.map fun entry => (entry.1, walk entry.2) := by
  induction entries with
  | nil => rfl
  | cons entry rest ih => rw [walkBelow, ih, List.map_cons]

theorem mem_leaves : (name, found) ∈ leaves entries ↔ (name, leaf found) ∈ entries := by
  unfold leaves
  rw [List.mem_filterMap]
  constructor
  · rintro ⟨⟨name', node⟩, hmem, hsome⟩
    cases node with
    | leaf found' =>
      obtain ⟨rfl, rfl⟩ := Prod.mk.inj (Option.some.inj hsome)
      exact hmem
    | directory _ => cases hsome
  · intro hmem
    exact ⟨_, hmem, rfl⟩

theorem walk_directory (entries : List (Text × DatasetNode)) : walk (directory entries) =
    (sortedBy Prod.fst ((leaves entries).filter (·.2 = .directoryLink)) ++
      sortedBy Prod.fst ((leaves entries).filter (·.2 ≠ .directoryLink))).map (fun item => ([item.1], item.2)) ++
    (sortedBy Prod.fst (entries.map fun entry => (entry.1, walk entry.2))).flatMap
      fun item => item.2.map fun found => (item.1 :: found.1, found.2) := by
  rw [walk, walkBelow_eq, List.partition_eq_filter_filter]
  simp [Function.comp_def]

theorem mem_walk_directory : (names, found) ∈ walk (directory entries) ↔
    (∃ name, names = [name] ∧ (name, leaf found) ∈ entries) ∨
      ∃ name node rest, (name, node) ∈ entries ∧ names = name :: rest ∧ (rest, found) ∈ walk node := by
  rw [walk_directory]
  simp only [List.mem_append, List.mem_map, List.mem_flatMap, mem_sortedBy, List.mem_filter, decide_eq_true_eq]
  apply or_congr
  · constructor
    · rintro ⟨⟨name, found'⟩, hmem, heq⟩
      obtain ⟨rfl, rfl⟩ := Prod.mk.inj heq
      exact ⟨name, rfl, mem_leaves.mp (hmem.elim And.left And.left)⟩
    · rintro ⟨name, rfl, hmem⟩
      exact ⟨(name, found), (em _).imp (⟨mem_leaves.mpr hmem, ·⟩) (⟨mem_leaves.mpr hmem, ·⟩), rfl⟩
  · constructor
    · rintro ⟨_, ⟨⟨name, node⟩, hmem, rfl⟩, ⟨rest, found'⟩, hwalk, heq⟩
      obtain ⟨rfl, rfl⟩ := Prod.mk.inj heq
      exact ⟨name, node, rest, hmem, rfl, hwalk⟩
    · rintro ⟨name, node, rest, hmem, rfl, hwalk⟩
      exact ⟨_, ⟨(name, node), hmem, rfl⟩, (rest, found), hwalk, rfl⟩

theorem find?_eq_some (h : (entries.map Prod.fst).Nodup) {entry : Text × DatasetNode} :
    entries.find? (·.1 = name) = some entry ↔ entry.1 = name ∧ entry ∈ entries := by
  constructor
  · intro hfind
    have hname := List.find?_some hfind
    exact ⟨by simpa using hname, List.mem_of_find?_eq_some hfind⟩
  · rintro ⟨rfl, hmem⟩
    have hsome : (entries.find? (·.1 = entry.1)).isSome := by
      rw [List.find?_isSome]
      exact ⟨entry, hmem, decide_eq_true rfl⟩
    obtain ⟨other, hother⟩ := Option.isSome_iff_exists.mp hsome
    have hname := List.find?_some hother
    rw [hother, List.inj_on_of_nodup_map h (List.mem_of_find?_eq_some hother) hmem (by simpa using hname)]

theorem contentAt_directory (h : (entries.map Prod.fst).Nodup) : (directory entries).contentAt names = some content ↔
    ∃ name node rest, (name, node) ∈ entries ∧ names = name :: rest ∧ node.contentAt rest = some content := by
  cases names with
  | nil => simp [contentAt, nodeAt]
  | cons name names =>
    unfold contentAt
    rw [nodeAt]
    cases hfind : entries.find? (·.1 = name) with
    | none =>
      rw [List.find?_eq_none] at hfind
      constructor
      · intro hnone
        cases hnone
      · rintro ⟨name', node, rest, hmem, heq, -⟩
        obtain ⟨rfl, rfl⟩ := List.cons.inj heq
        exact absurd (decide_eq_true rfl) (hfind _ hmem)
    | some entry =>
      obtain ⟨rfl, hentry⟩ := (find?_eq_some h).mp hfind
      constructor
      · intro hcontent
        exact ⟨entry.1, entry.2, names, hentry, rfl, hcontent⟩
      · rintro ⟨name', node, rest, hmem, heq, hcontent⟩
        obtain ⟨rfl, rfl⟩ := List.cons.inj heq
        have hsame := List.inj_on_of_nodup_map h hmem hentry rfl
        rw [← hsame]
        exact hcontent

theorem ne_nil_of_mem_walk (h : (names, found) ∈ walk node) : names ≠ [] := by
  cases node with
  | leaf _ => cases h
  | directory entries =>
    rcases mem_walk_directory.mp h with ⟨name, rfl, -⟩ | ⟨name, node, rest, -, rfl, -⟩
    · exact List.cons_ne_nil _ _
    · exact List.cons_ne_nil _ _

/-- The walk meets the files, each under the path that leads to it. -/
theorem Plain.mem_walk (h : node.Plain) : (names, found) ∈ walk node ↔
    names ≠ [] ∧ ∃ content, found = .file content ∧ node.contentAt names = some content := by
  induction h generalizing names with
  | file content =>
    constructor
    · intro hmem
      cases hmem
    · rintro ⟨hne, content', -, hcontent⟩
      obtain ⟨name, names, rfl⟩ := List.exists_cons_of_ne_nil hne
      cases hcontent
  | @directory entries distinct named plain ih =>
    rw [mem_walk_directory]
    constructor
    · rintro (⟨name, rfl, hmem⟩ | ⟨name, node, rest, hmem, rfl, hwalk⟩)
      · obtain ⟨content, rfl⟩ : ∃ content, found = .file content := by
          have hplain := plain _ hmem
          cases hplain with
          | file content => exact ⟨content, rfl⟩
        refine ⟨List.cons_ne_nil _ _, content, rfl, ?_⟩
        exact (contentAt_directory distinct).mpr ⟨name, _, [], hmem, rfl, rfl⟩
      · obtain ⟨-, content, rfl, hcontent⟩ := (ih _ hmem).mp hwalk
        refine ⟨List.cons_ne_nil _ _, content, rfl, ?_⟩
        exact (contentAt_directory distinct).mpr ⟨name, node, rest, hmem, rfl, hcontent⟩
    · rintro ⟨-, content, rfl, hcontent⟩
      obtain ⟨name, node, rest, hmem, rfl, hbelow⟩ := (contentAt_directory distinct).mp hcontent
      cases rest with
      | nil =>
        have hplain := plain _ hmem
        cases hplain with
        | file content' =>
          obtain rfl : content' = content := Option.some.inj hbelow
          exact Or.inl ⟨name, rfl, hmem⟩
        | directory => cases hbelow
      | cons next rest =>
        exact Or.inr ⟨name, node, next :: rest, hmem, rfl, (ih _ hmem).mpr ⟨List.cons_ne_nil _ _, content, rfl, hbelow⟩⟩

/-- The files of a directory come before everything below it, and everything goes by name. -/
def Precedes : List Text → List Text → Prop
  | name :: names, name' :: names' => (names = [] ∧ (names' ≠ [] ∨ name < name')) ∨
      (names ≠ [] ∧ names' ≠ [] ∧ (name < name' ∨ name = name' ∧ Precedes names names'))
  | _, _ => False

theorem Precedes.asymm {names names' : List Text} (h : Precedes names names') : ¬ Precedes names' names := by
  intro h'
  induction names generalizing names' with
  | nil => cases h
  | cons name names ih =>
    cases names' with
    | nil => cases h
    | cons name' names' =>
      rcases h with ⟨rfl, hlate⟩ | ⟨hne, hne', hlate⟩
      · rcases h' with ⟨rfl, hearly⟩ | ⟨-, hne, -⟩
        · exact lt_asymm (hlate.resolve_left fun hne => hne rfl) (hearly.resolve_left fun hne => hne rfl)
        · exact hne rfl
      · rcases h' with ⟨rfl, -⟩ | ⟨-, -, hearly⟩
        · exact hne' rfl
        · rcases hlate with hlt | ⟨rfl, hbelow⟩
          · rcases hearly with hgt | ⟨rfl, -⟩
            · exact lt_asymm hlt hgt
            · exact lt_irrefl _ hlt
          · rcases hearly with hgt | ⟨-, hbelow'⟩
            · exact lt_irrefl _ hgt
            · exact ih hbelow hbelow'

theorem pairwise_lt_sortedBy {α : Type*} {items : List (Text × α)} (h : (items.map Prod.fst).Nodup) :
    (sortedBy Prod.fst items).Pairwise fun a b => a.1 < b.1 := by
  have hnodup : ((sortedBy Prod.fst items).map Prod.fst).Nodup :=
    ((sortedBy_perm Prod.fst items).map Prod.fst).nodup_iff.mpr h
  have hne := List.pairwise_map.mp hnodup
  exact ((pairwise_sortedBy Prod.fst items).and hne).imp fun hab => lt_of_le_of_ne hab.1 hab.2

theorem nodup_leaves (h : (entries.map Prod.fst).Nodup) : ((leaves entries).map Prod.fst).Nodup := by
  have hsub : ((leaves entries).map Prod.fst).Sublist (entries.map Prod.fst) := by
    clear h
    induction entries with
    | nil => exact List.Sublist.refl _
    | cons entry rest ih =>
      obtain ⟨name, node⟩ := entry
      cases node with
      | leaf found => exact ih.cons_cons name
      | directory below => exact ih.cons name
  exact hsub.nodup h

theorem Plain.pairwise_walk (h : node.Plain) : (walk node).Pairwise fun a b => Precedes a.1 b.1 := by
  induction h with
  | file content => exact List.Pairwise.nil
  | @directory entries distinct named plain ih =>
    have hnolink : (leaves entries).filter (·.2 = .directoryLink) = [] := by
      rw [List.filter_eq_nil_iff]
      rintro ⟨name, found⟩ hmem hlink
      have hplain := plain _ (mem_leaves.mp hmem)
      cases hplain
      simp at hlink
    have hfiles : (((leaves entries).filter (·.2 ≠ .directoryLink)).map Prod.fst).Nodup :=
      (List.filter_sublist.map Prod.fst).nodup (nodup_leaves distinct)
    have hbelow : ((entries.map fun entry => (entry.1, walk entry.2)).map Prod.fst).Nodup := by
      rw [List.map_map]
      exact distinct
    rw [walk_directory, hnolink]
    apply List.pairwise_append.mpr
    refine ⟨?_, ?_, ?_⟩
    · apply List.pairwise_map.mpr
      apply (pairwise_lt_sortedBy hfiles).imp
      intro a b hlt
      exact Or.inl ⟨rfl, Or.inr hlt⟩
    · apply List.pairwise_flatMap.mpr
      constructor
      · rintro ⟨name, found⟩ hmem
        obtain ⟨entry, hentry, heq⟩ := List.mem_map.mp ((mem_sortedBy Prod.fst).mp hmem)
        obtain ⟨rfl, rfl⟩ := Prod.mk.inj heq
        apply List.pairwise_map.mpr
        apply (ih entry hentry).imp_of_mem
        intro a b ha hb hab
        exact Or.inr ⟨ne_nil_of_mem_walk ha, ne_nil_of_mem_walk hb, Or.inr ⟨rfl, hab⟩⟩
      · apply (pairwise_lt_sortedBy hbelow).imp_of_mem
        rintro ⟨name, found⟩ ⟨name', found'⟩ hmem hmem' hlt a ha b hb
        obtain ⟨entry, -, heq⟩ := List.mem_map.mp ((mem_sortedBy Prod.fst).mp hmem)
        obtain ⟨rfl, rfl⟩ := Prod.mk.inj heq
        obtain ⟨entry', -, heq'⟩ := List.mem_map.mp ((mem_sortedBy Prod.fst).mp hmem')
        obtain ⟨rfl, rfl⟩ := Prod.mk.inj heq'
        obtain ⟨x, hx, rfl⟩ := List.mem_map.mp ha
        obtain ⟨y, hy, rfl⟩ := List.mem_map.mp hb
        exact Or.inr ⟨ne_nil_of_mem_walk hx, ne_nil_of_mem_walk hy, Or.inl hlt⟩
    · intro a ha b hb
      obtain ⟨file, -, rfl⟩ := List.mem_map.mp ha
      obtain ⟨item, hitem, hb⟩ := List.mem_flatMap.mp hb
      obtain ⟨entry, -, rfl⟩ := List.mem_map.mp ((mem_sortedBy Prod.fst).mp hitem)
      obtain ⟨y, hy, rfl⟩ := List.mem_map.mp hb
      exact Or.inl ⟨rfl, Or.inl (ne_nil_of_mem_walk hy)⟩

theorem Plain.walk_eq {node' : DatasetNode} (h : node.Plain) (h' : node'.Plain)
    (hsame : ∀ names, node.contentAt names = node'.contentAt names) : walk node = walk node' := by
  have hnodup : ∀ {n : DatasetNode}, n.Plain → (walk n).Nodup := by
    intro n hn
    apply hn.pairwise_walk.imp
    rintro a _ hab rfl
    exact hab.asymm hab
  have hperm : (walk node).Perm (walk node') := by
    rw [List.perm_ext_iff_of_nodup (hnodup h) (hnodup h')]
    rintro ⟨names, found⟩
    rw [h.mem_walk, h'.mem_walk, hsame]
  apply hperm.eq_of_pairwise ?_ h.pairwise_walk h'.pairwise_walk
  intro a b _ _ hab hba
  exact absurd hba hab.asymm

end DatasetNode
end DbfAnonymizer.Engine
