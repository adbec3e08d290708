import DbfAnonymizer.Lib.Segments
import DbfAnonymizer.Transfer.Creation

/-! Paths in normal form as lists of components, and the companion of a table among them. -/
namespace DbfAnonymizer.Transfer
open Lib Verification

/-- The components that a relative path can have. -/
structure Components (names : List Text) : Prop where
  nonempty : names ≠ []
  named : ∀ name ∈ names, name ≠ [] ∧ name ≠ ['.'] ∧ '/' ∉ name

def joined (names : List Text) : Text := List.intercalate ['/'] names

theorem Components.pathParts_joined {names : List Text} (h : Components names) :
    pathParts isPosixSeparator (joined names) = names := by
  have hsplit : (joined names).splitOnP isPosixSeparator = names :=
    List.splitOn_intercalate '/' (fun name hname => (h.named name hname).2.2) h.nonempty
  unfold pathParts
  rw [hsplit]
  apply List.filter_eq_self.mpr
  intro name hname
  have hnamed := h.named name hname
  simpa using ⟨hnamed.1, hnamed.2.1⟩

theorem Components.head_joined {names : List Text} (h : Components names) :
    ∃ c rest, joined names = c :: rest ∧ c ≠ '/' := by
  obtain ⟨name, names, rfl⟩ := List.exists_cons_of_ne_nil h.nonempty
  have hname := h.named name (List.mem_cons_self ..)
  obtain ⟨c, rest, rfl⟩ := List.exists_cons_of_ne_nil hname.1
  have hc : c ≠ '/' := by
    intro heq
    exact hname.2.2 (heq ▸ List.mem_cons_self ..)
  unfold joined
  cases names with
  | nil => exact ⟨c, rest, List.intercalate_singleton, hc⟩
  | cons other names =>
    rw [List.intercalate_cons_cons]
    exact ⟨c, _, rfl, hc⟩

theorem Components.purePosixPath_joined {names : List Text} (h : Components names) :
    purePosixPath (joined names) = ⟨[], names⟩ := by
  obtain ⟨c, rest, hjoined, hc⟩ := h.head_joined
  have hparts := h.pathParts_joined
  unfold purePosixPath
  rw [hparts, hjoined]
  simp [hc]

theorem Components.asPosix_joined {names : List Text} (h : Components names) :
    (purePosixPath (joined names)).asPosix = joined names := by
  rw [h.purePosixPath_joined]
  unfold PurePosixPath.asPosix
  rw [if_neg fun hnone => h.nonempty hnone.2]
  rfl

/-- A text with a path of its own, whichever slashes it is read with. -/
structure NormalPath (path : Text) : Prop where
  components : ∃ names, Components names ∧ path = joined names
  unslashed : '\\' ∉ path

theorem NormalPath.slashed {path : Text} (h : NormalPath path) :
    (path.map fun c => if c = '\\' then '/' else c) = path := by
  have hid : ∀ c ∈ path, (if c = '\\' then '/' else c) = c := by
    intro c hc
    apply if_neg
    intro heq
    exact h.unslashed (heq ▸ hc)
  rw [List.map_congr_left hid, List.map_id']

theorem NormalPath.asPosix {path : Text} (h : NormalPath path) : (purePosixPath path).asPosix = path := by
  obtain ⟨names, hnames, rfl⟩ := h.components
  exact hnames.asPosix_joined

theorem NormalPath.intercalate_parts {path : Text} (h : NormalPath path) :
    List.intercalate ['/'] (purePosixPath path).parts = path := by
  obtain ⟨names, hnames, rfl⟩ := h.components
  rw [hnames.purePosixPath_joined]
  rfl

theorem components_pathParts {s : Text} (h : pathParts isPosixSeparator s ≠ []) :
    Components (pathParts isPosixSeparator s) := by
  constructor
  · exact h
  · intro name hname
    have hmem := List.mem_filter.mp hname
    have hkept : name ≠ [] ∧ name ≠ ['.'] := by simpa using hmem.2
    refine ⟨hkept.1, hkept.2, ?_⟩
    intro hslash
    have hclean := (forall_of_mem_splitOnP hmem.1 '/' hslash).2
    cases hclean

theorem notMem_joined {names : List Text} {c : Char} (hc : c ≠ '/') (h : ∀ name ∈ names, c ∉ name) :
    c ∉ joined names := by
  induction names with
  | nil => simp [joined]
  | cons name names ih =>
    have hname := h name (List.mem_cons_self ..)
    have hrest := ih fun other hother => h other (List.mem_cons_of_mem _ hother)
    cases names with
    | nil => simpa [joined] using hname
    | cons other names =>
      unfold joined at *
      rw [List.intercalate_cons_cons]
      simp [hname, hc, hrest]

theorem normalPath_of_normalized {rt : PythonRuntime} {value path : Text}
    (h : normalizedRelativePath rt value = some path) : NormalPath path := by
  unfold normalizedRelativePath at h
  dsimp only at h
  split_ifs at h with hrefused
  simp only [not_or, not_not] at hrefused
  obtain ⟨-, -, -, -, -, -, hroot, -, -, hdot⟩ := hrefused
  rw [← Option.some.inj h]
  set slashed := value.map fun c => if c = '\\' then '/' else c with hslashed
  have hparts : (purePosixPath slashed).parts ≠ [] := by
    intro hnone
    apply hdot
    unfold PurePosixPath.asPosix
    rw [if_pos ⟨hroot, hnone⟩]
  have htext : (purePosixPath slashed).asPosix = joined (pathParts isPosixSeparator slashed) := by
    unfold PurePosixPath.asPosix
    rw [if_neg fun hnone => hparts hnone.2, hroot]
    rfl
  rw [htext]
  constructor
  · exact ⟨_, components_pathParts hparts, rfl⟩
  · apply notMem_joined (by decide)
    intro name hname hbackslash
    have hmem := (List.mem_filter.mp hname).1
    have hin : '\\' ∈ slashed := (forall_of_mem_splitOnP hmem _ hbackslash).1
    rw [hslashed, List.mem_map] at hin
    obtain ⟨c, -, hc⟩ := hin
    split_ifs at hc with heq
    · exact absurd hc (by decide)
    · exact heq hc

theorem NormalPath.eq_of_normalized {path path' : Text} (h : NormalPath path)
    (hpath : normalizedRelativePath rt path = some path') : path' = path := by
  unfold normalizedRelativePath at hpath
  dsimp only at hpath
  split_ifs at hpath with hrefused
  rw [← Option.some.inj hpath, h.slashed, h.asPosix]

theorem joined_concat (names : List Text) (last : Text) :
    joined (names ++ [last]) = names.flatMap (fun name => name ++ ['/']) ++ last := by
  induction names with
  | nil => exact List.intercalate_singleton
  | cons name names ih =>
    have hne : names ++ [last] ≠ [] := by simp
    unfold joined at *
    rw [List.cons_append, List.intercalate_cons_of_ne_nil hne, ih, List.flatMap_cons]
    simp

theorem exists_stem {names : List Text} {last : Text} (hlast : '/' ∉ last)
    (h : pathSuffix (joined (names ++ [last])) ≠ []) :
    ∃ stem, stem ≠ [] ∧ last = stem ++ pathSuffix (joined (names ++ [last])) := by
  have hname : ((joined (names ++ [last])).reverse.takeWhile (· ≠ '/')).reverse = last := by
    have hclean : ∀ c ∈ last.reverse, decide (c ≠ '/') = true := by
      intro c hc
      rw [decide_eq_true_eq]
      intro heq
      exact hlast (heq ▸ List.mem_reverse.mp hc)
    have hlead : (names.flatMap (fun name => name ++ ['/'])).reverse.takeWhile (· ≠ '/') = [] := by
      rcases List.eq_nil_or_concat' names with hnil | ⟨init, name, hconcat⟩
      · simp [hnil]
      · simp [hconcat]
    rw [joined_concat, List.reverse_append, List.takeWhile_append_of_pos hclean, hlead, List.append_nil,
      List.reverse_reverse]
  unfold pathSuffix at *
  rw [hname] at h ⊢
  dsimp only at h ⊢
  split_ifs at h with hextension
  · rw [if_pos hextension]
    generalize hsplit : last.reverse.takeWhile (· ≠ '.') = extension at hextension ⊢
    have hrest := List.takeWhile_append_dropWhile (p := fun c => decide (c ≠ '.')) (l := last.reverse)
    rw [hsplit] at hrest
    cases hdrop : last.reverse.dropWhile (· ≠ '.') with
    | nil =>
      rw [hdrop, List.append_nil] at hrest
      have hlength := congrArg List.length hrest
      simp at hlength hextension
      omega
    | cons dot stem =>
      have hdot : dot = '.' := by
        have hhead := List.head?_dropWhile_not (fun c => decide (c ≠ '.')) last.reverse
        rw [hdrop] at hhead
        simpa using hhead
      rw [hdrop, hdot] at hrest
      have hlength := congrArg List.length hrest
      refine ⟨stem.reverse, ?_, ?_⟩
      · intro hnil
        rw [List.reverse_eq_nil_iff] at hnil
        simp [hnil] at hlength hextension
        omega
      · have hreverse := congrArg List.reverse hrest
        simpa using hreverse.symm
  · exact absurd rfl h

theorem withSuffix_append (base suffix : Text) (path : Text) (h : path = base ++ pathSuffix path) :
    withSuffix path suffix = base ++ suffix := by
  have hlength : path.length - (pathSuffix path).length = base.length := by
    have heq := congrArg List.length h
    rw [List.length_append] at heq
    omega
  unfold withSuffix
  rw [hlength]
  nth_rewrite 1 [h]
  rw [List.take_left]

theorem Components.with_last {init : List Text} {last other : Text} (h : Components (init ++ [last]))
    (hother : other ≠ [] ∧ other ≠ ['.'] ∧ '/' ∉ other) : Components (init ++ [other]) := by
  constructor
  · simp
  · intro name hname
    rcases List.mem_append.mp hname with hinit | hnew
    · exact h.named name (List.mem_append_left _ hinit)
    · rw [List.mem_singleton.mp hnew]
      exact hother

/-- A normal path with a suffix keeps its form under the suffix of a companion. -/
theorem NormalPath.exists_base {path : Text} (h : NormalPath path) (hsuffix : pathSuffix path ≠ []) :
    ∃ base, path = base ++ pathSuffix path ∧ NormalPath (base ++ fptSuffix) := by
  obtain ⟨names, hnames, hpath⟩ := h.components
  obtain ⟨init, last, hconcat⟩ := (List.eq_nil_or_concat' names).resolve_left hnames.nonempty
  rw [hconcat] at hnames hpath
  rw [hpath] at hsuffix
  have hlast := hnames.named last (by simp)
  obtain ⟨stem, hstem, hsplit⟩ := exists_stem hlast.2.2 hsuffix
  rw [← hpath] at hsplit
  have hbase : path = init.flatMap (fun name => name ++ ['/']) ++ stem ++ pathSuffix path := by
    rw [List.append_assoc, ← hsplit, hpath]
    exact joined_concat init last
  have hstemSlash : '/' ∉ stem := by
    intro hslash
    apply hlast.2.2
    rw [hsplit]
    exact List.mem_append_left _ hslash
  refine ⟨init.flatMap (fun name => name ++ ['/']) ++ stem, hbase, ?_⟩
  constructor
  · refine ⟨init ++ [stem ++ fptSuffix], ?_, ?_⟩
    · apply hnames.with_last
      refine ⟨by simp [fptSuffix], ?_, by simp [hstemSlash, fptSuffix]⟩
      intro heq
      have hlength := congrArg List.length heq
      simp [fptSuffix] at hlength
    · rw [joined_concat, List.append_assoc]
  · intro hbackslash
    rcases List.mem_append.mp hbackslash with hmem | hmem
    · apply h.unslashed
      rw [hbase]
      exact List.mem_append_left _ hmem
    · exact absurd hmem (by decide)

theorem PythonRuntime.casefold_append (rt : PythonRuntime) (s t : Text) :
    rt.casefold (s ++ t) = rt.casefold s ++ rt.casefold t := List.flatMap_append

theorem isAscii_of_map_toLower {s : Text} (h : isAscii (s.map Char.toLower) = true) : isAscii s = true := by
  apply List.all_eq_true.mpr
  intro c hc
  have hlower := List.all_eq_true.mp h c.toLower (List.mem_map_of_mem hc)
  rw [decide_eq_true_eq, toNat_toLower] at hlower
  rw [decide_eq_true_eq]
  split_ifs at hlower <;> omega

/-- A discovered table and its companion share all but their suffixes. -/
structure TablePath (rt : PythonRuntime) (path base : Text) : Prop where
  path_eq : path = base ++ pathSuffix path
  companion_eq : withSuffix path fptSuffix = base ++ fptSuffix
  companion_normal : NormalPath (base ++ fptSuffix)
  folded : rt.casefold path = rt.casefold base ++ ArtifactType.dbf.extension
  suffix_length : (pathSuffix path).length = ArtifactType.dbf.extension.length
  companion_folded : rt.casefold (base ++ fptSuffix) = rt.casefold base ++ ArtifactType.fpt.extension

theorem exists_tablePath (rt : PythonRuntime) {path : Text} (h : NormalPath path)
    (hsuffix : (pathSuffix path).map Char.toLower = ArtifactType.dbf.extension) : ∃ base, TablePath rt path base := by
  have hne : pathSuffix path ≠ [] := by
    intro hnil
    rw [hnil] at hsuffix
    cases hsuffix
  obtain ⟨base, hpath, hcompanion⟩ := h.exists_base hne
  have hascii : isAscii (pathSuffix path) = true := by
    apply isAscii_of_map_toLower
    rw [hsuffix]
    rfl
  refine ⟨base, ?_⟩
  constructor
  case path_eq => exact hpath
  case companion_eq => exact withSuffix_append base fptSuffix path hpath
  case companion_normal => exact hcompanion
  case folded =>
    nth_rewrite 1 [hpath]
    rw [rt.casefold_append, rt.casefold_ascii hascii, hsuffix]
  case suffix_length => rw [← hsuffix, List.length_map]
  case companion_folded =>
    have hfpt : rt.casefold fptSuffix = ArtifactType.fpt.extension := by
      rw [rt.casefold_ascii rfl]
      rfl
    rw [rt.casefold_append, hfpt]

theorem TablePath.companion_own {rt : PythonRuntime} {path base : Text} (h : TablePath rt path base)
    (hpath : rt.casefold path = path) : rt.casefold (base ++ fptSuffix) = base ++ fptSuffix := by
  have hboth : rt.casefold base ++ ArtifactType.dbf.extension = base ++ pathSuffix path := by
    rw [← h.folded, hpath, ← h.path_eq]
  have hbase : rt.casefold base = base := (List.append_inj' hboth h.suffix_length.symm).1
  rw [h.companion_folded, hbase]
  rfl

end DbfAnonymizer.Transfer
