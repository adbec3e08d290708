import DbfAnonymizer.Engine.DatasetWalk
import DbfAnonymizer.Engine.KeyIdentity

/-! The bytes under a dataset fingerprint tell every two trees apart. -/
namespace DbfAnonymizer.Engine
open Lib DatasetNode

@[simp] theorem length_bigEndian (width n : ℕ) : (bigEndian width n).length = width := by
  induction width generalizing n with
  | zero => rfl
  | succ width ih => rw [bigEndian, List.length_append, ih, List.length_singleton]

theorem bigEndian_inj {width m n : ℕ} (hm : m < 256 ^ width) (hn : n < 256 ^ width)
    (h : bigEndian width m = bigEndian width n) : m = n := by
  induction width generalizing m n with
  | zero =>
    rw [pow_zero] at hm hn
    omega
  | succ width ih =>
    rw [pow_succ] at hm hn
    obtain ⟨hhigh, hlow⟩ := List.append_inj h (by simp)
    have hdiv := ih (Nat.div_lt_of_lt_mul (by omega)) (Nat.div_lt_of_lt_mul (by omega)) hhigh
    have hmod := congrArg UInt8.toNat (List.singleton_inj.mp hlow)
    rw [UInt8.toNat_ofNat', UInt8.toNat_ofNat'] at hmod
    omega

theorem bigEndian_prefixFree (width : ℕ) : PrefixFree (· < 256 ^ width) (bigEndian width) :=
  .of_length width (length_bigEndian width) fun _ _ => bigEndian_inj

/-- What one file adds to the digest. -/
def fileFrame (item : Text × List UInt8) : List UInt8 :=
  bigEndian 4 (utf8Bytes item.1).length ++ utf8Bytes item.1 ++ (bigEndian 8 item.2.length ++ item.2)

theorem fileFrame_prefixFree : PrefixFree
    (fun item : Text × List UInt8 => (utf8Bytes item.1).length < 256 ^ 4 ∧ item.2.length < 256 ^ 8) fileFrame :=
  ((bigEndian_prefixFree 4).sized utf8Bytes_injective).append ((bigEndian_prefixFree 8).sized Function.injective_id)

/-- All that is fed to the digest. -/
def datasetPreimage (inventory : List (Text × List UInt8)) : List UInt8 :=
  asciiBytes "DBF-ANONYMIZER-DATASET/v1".toList ++ [0] ++ inventory.flatMap fileFrame ++ bigEndian 8 inventory.length

theorem fingerprintDataset_eq {tree : DatasetTree} {inventory : List (Text × List UInt8)}
    (h : tree.mapM inspectEntry = .ok inventory) (sha256 : List UInt8 → Text) :
    fingerprintDataset sha256 (some (.directory tree)) = .ok ("out-".toList ++ sha256 (datasetPreimage inventory)) := by
  simp only [fingerprintDataset, h, datasetPreimage, List.append_assoc]
  rfl

theorem datasetPreimage_inj {inventory inventory' : List (Text × List UInt8)}
    (h : ∀ item ∈ inventory, (utf8Bytes item.1).length < 256 ^ 4 ∧ item.2.length < 256 ^ 8)
    (h' : ∀ item ∈ inventory', (utf8Bytes item.1).length < 256 ^ 4 ∧ item.2.length < 256 ^ 8)
    (heq : datasetPreimage inventory = datasetPreimage inventory') : inventory = inventory' := by
  simp only [datasetPreimage, List.append_assoc, List.append_cancel_left_eq] at heq
  have hnonempty : ∀ item, 0 < (fileFrame item).length := by
    intro item
    simp only [fileFrame, List.length_append, length_bigEndian]
    omega
  have htrailer : (bigEndian 8 inventory.length).length = (bigEndian 8 inventory'.length).length := by
    rw [length_bigEndian, length_bigEndian]
  exact (fileFrame_prefixFree.flatMap_append_inj h h' htrailer hnonempty heq).1

/-- A dataset root: a listing of files and directories, whose paths and sizes fit their frames. -/
structure DatasetRoot where
  entries : List (Text × DatasetNode)
  plain : (directory entries).Plain
  fits : ∀ names content, (directory entries).contentAt names = some content →
    (utf8Bytes (relativePath names)).length < 2 ^ 32 ∧ content.length < 2 ^ 64

namespace DatasetRoot
variable (root : DatasetRoot)

/-- The map of the tree: what a path holds. -/
def contentAt (names : List Text) : Option (List UInt8) := (directory root.entries).contentAt names

def tree : DatasetTree := (walk (directory root.entries)).map datasetEntry

def fileOf (item : List Text × DatasetLeaf) : Option (Text × List UInt8) :=
  match item.2 with
  | .file content => some (relativePath item.1, content)
  | _ => none

def inventory : List (Text × List UInt8) := (walk (directory root.entries)).filterMap fileOf

variable {root} {root' : DatasetRoot} {names : List Text} {content : List UInt8}

theorem mem_walk : (names, .file content) ∈ walk (directory root.entries) ↔ root.contentAt names = some content := by
  rw [root.plain.mem_walk]
  constructor
  · rintro ⟨-, _, heq, hcontent⟩
    rw [DatasetLeaf.file.inj heq]
    exact hcontent
  · intro hcontent
    refine ⟨?_, content, rfl, hcontent⟩
    rintro rfl
    cases hcontent

theorem mapM_inspectEntry : root.tree.mapM inspectEntry = .ok root.inventory := by
  have hfiles : ∀ item ∈ walk (directory root.entries), ∃ content, item.2 = .file content := by
    rintro ⟨names, found⟩ hmem
    obtain ⟨-, content, hfound, -⟩ := root.plain.mem_walk.mp hmem
    exact ⟨content, hfound⟩
  unfold tree inventory
  generalize walk (directory root.entries) = items at hfiles
  induction items with
  | nil => rfl
  | cons item items ih =>
    obtain ⟨content, hcontent⟩ := hfiles item List.mem_cons_self
    have hrest := ih fun other hother => hfiles other (List.mem_cons_of_mem _ hother)
    obtain ⟨names, found⟩ := item
    obtain rfl : found = .file content := hcontent
    rw [List.map_cons, List.mapM_cons, hrest]
    rfl

theorem mem_inventory {path : Text} : (path, content) ∈ root.inventory ↔
    ∃ names, relativePath names = path ∧ root.contentAt names = some content := by
  unfold inventory
  rw [List.mem_filterMap]
  constructor
  · rintro ⟨⟨names, found⟩, hmem, hfile⟩
    cases found with
    | file content' =>
      obtain ⟨rfl, rfl⟩ := Prod.mk.inj (Option.some.inj hfile)
      exact ⟨names, rfl, mem_walk.mp hmem⟩
    | _ => cases hfile
  · rintro ⟨names, rfl, hcontent⟩
    exact ⟨_, mem_walk.mpr hcontent, rfl⟩

theorem fits_inventory : ∀ item ∈ root.inventory,
    (utf8Bytes item.1).length < 256 ^ 4 ∧ item.2.length < 256 ^ 8 := by
  rintro ⟨path, content⟩ hmem
  obtain ⟨names, rfl, hcontent⟩ := mem_inventory.mp hmem
  exact root.fits names content hcontent

theorem splitOn_relativePath (h : root.contentAt names = some content) : (relativePath names).splitOn '/' = names := by
  have hnamed : ∀ {node : DatasetNode}, node.Plain → ∀ {names}, node.contentAt names = some content →
      ∀ name ∈ names, '/' ∉ name := by
    intro node hnode
    induction hnode with
    | file content =>
      intro names hcontent name hname
      cases names with
      | nil => cases hname
      | cons => cases hcontent
    | directory distinct named plain ih =>
      intro names hcontent name hname
      obtain ⟨first, node, rest, hmem, rfl, hbelow⟩ := (contentAt_directory distinct).mp hcontent
      rcases List.mem_cons.mp hname with rfl | hname
      · exact named _ hmem
      · exact ih _ hmem hbelow name hname
  apply List.splitOn_intercalate '/' (hnamed root.plain h)
  rintro rfl
  cases h

theorem contentAt_of_inventory (h : root.inventory = root'.inventory) (hcontent : root.contentAt names = some content) :
    root'.contentAt names = some content := by
  have hmem : (relativePath names, content) ∈ root'.inventory := h ▸ mem_inventory.mpr ⟨names, rfl, hcontent⟩
  obtain ⟨names', hpath, hcontent'⟩ := mem_inventory.mp hmem
  have hnames : names' = names := by
    rw [← splitOn_relativePath hcontent', hpath, splitOn_relativePath hcontent]
  rw [← hnames]
  exact hcontent'

/-- Two trees feed the same bytes to the digest exactly when they are one map, however they are listed. -/
theorem preimage_eq_iff (root root' : DatasetRoot) : ∃ fed fed' : List UInt8,
    (∀ sha256, fingerprintDataset sha256 (some (.directory root.tree)) = .ok ("out-".toList ++ sha256 fed)) ∧
    (∀ sha256, fingerprintDataset sha256 (some (.directory root'.tree)) = .ok ("out-".toList ++ sha256 fed')) ∧
      (fed = fed' ↔ ∀ names, root.contentAt names = root'.contentAt names) := by
  refine ⟨_, _, fingerprintDataset_eq mapM_inspectEntry, fingerprintDataset_eq mapM_inspectEntry, ?_⟩
  constructor
  · intro heq names
    have hsame := datasetPreimage_inj fits_inventory fits_inventory heq
    apply Option.ext
    intro content
    exact ⟨contentAt_of_inventory hsame, contentAt_of_inventory hsame.symm⟩
  · intro hmap
    have hwalk := root.plain.walk_eq root'.plain hmap
    rw [inventory, inventory, hwalk]

def file (name : Text) (content : List UInt8) : Text × DatasetNode := (name, leaf (.file content))

theorem fits_files {a b : List UInt8} {entries : List (Text × DatasetNode)} {content : List UInt8} {names : List Text}
    (hentries : ∀ entry ∈ entries, entry = file ['A'] a ∨ entry = file ['B'] b) (ha : a.length < 2 ^ 64)
    (hb : b.length < 2 ^ 64) (hdistinct : (entries.map Prod.fst).Nodup)
    (h : (directory entries).contentAt names = some content) :
    (utf8Bytes (relativePath names)).length < 2 ^ 32 ∧ content.length < 2 ^ 64 := by
  obtain ⟨name, node, rest, hmem, rfl, hbelow⟩ := (contentAt_directory hdistinct).mp h
  have hrest : rest = [] := by
    cases rest with
    | nil => rfl
    | cons =>
      rcases hentries _ hmem with heq | heq
      all_goals
        obtain ⟨-, rfl⟩ := Prod.mk.inj heq
        cases hbelow
  subst hrest
  rcases hentries _ hmem with heq | heq
  · obtain ⟨rfl, rfl⟩ := Prod.mk.inj heq
    cases hbelow
    exact ⟨by decide, ha⟩
  · obtain ⟨rfl, rfl⟩ := Prod.mk.inj heq
    cases hbelow
    exact ⟨by decide, hb⟩

def twoFiles (entries : List (Text × DatasetNode))
    (hentries : entries = [file ['A'] [1], file ['B'] [2]] ∨ entries = [file ['B'] [2], file ['A'] [1]]) : DatasetRoot where
  entries
  plain := by
    rcases hentries with rfl | rfl
    all_goals
      refine .directory (by decide) (by decide) ?_
      intro entry hentry
      rcases List.mem_pair.mp hentry with rfl | rfl
      all_goals exact .file _
  fits := by
    intro names content h
    rcases hentries with rfl | rfl
    · exact fits_files (a := [1]) (b := [2]) (by simp) (by decide) (by decide) (by decide) h
    · exact fits_files (a := [1]) (b := [2]) (by simp [or_comm]) (by decide) (by decide) (by decide) h

def listed : DatasetRoot := twoFiles [file ['A'] [1], file ['B'] [2]] (Or.inl rfl)

def listedBack : DatasetRoot := twoFiles [file ['B'] [2], file ['A'] [1]] (Or.inr rfl)

/-- Listed either way, the two files feed the same bytes to the digest. -/
theorem listed_sameBytes : ∃ fed : List UInt8, ∀ sha256,
    fingerprintDataset sha256 (some (.directory listed.tree)) = .ok ("out-".toList ++ sha256 fed) ∧
      fingerprintDataset sha256 (some (.directory listedBack.tree)) = .ok ("out-".toList ++ sha256 fed) := by
  obtain ⟨fed, fed', hfed, hfed', hsame⟩ := preimage_eq_iff listed listedBack
  have hmap : ∀ names, listed.contentAt names = listedBack.contentAt names := by
    intro names
    apply Option.ext
    intro content
    have hl : (listed.entries.map Prod.fst).Nodup := by decide
    have hb : (listedBack.entries.map Prod.fst).Nodup := by decide
    rw [contentAt, contentAt, contentAt_directory hl, contentAt_directory hb]
    simp only [listed, listedBack, twoFiles, List.mem_pair, or_comm]
  obtain rfl := hsame.mpr hmap
  exact ⟨fed, fun sha256 => ⟨hfed sha256, hfed' sha256⟩⟩

end DatasetRoot
end DbfAnonymizer.Engine
