import DbfAnonymizer.Transfer.PathComponents

/-! When a normalized artifact path is a portable path in normal form, whatever it was normalized from. -/
namespace DbfAnonymizer.Transfer
open Lib Verification

variable {rt : PythonRuntime} {fail : String → Raised} {path normalized : Text}

def slashed (path : Text) : Text := path.map fun c => if c = '\\' then '/' else c

theorem splitOnP_slashed (path : Text) : (slashed path).splitOnP isPosixSeparator = path.splitOnP isWindowsSeparator := by
  induction path with
  | nil => rfl
  | cons c path ih =>
    unfold slashed at *
    rw [List.map_cons, List.splitOnP_cons_eq_if_modifyHead, List.splitOnP_cons_eq_if_modifyHead, ih]
    by_cases hbackslash : c = '\\'
    · rw [hbackslash]
      rfl
    · rw [if_neg hbackslash]
      have hsame : isWindowsSeparator c = isPosixSeparator c := by simp [isWindowsSeparator, isPosixSeparator, hbackslash]
      rw [hsame]

theorem parts_slashed (path : Text) : (purePosixPath (slashed path)).parts = windowsParts path := by
  unfold purePosixPath windowsParts pathParts
  rw [splitOnP_slashed]

theorem head_slashed (path : Text) : (slashed path).head? = path.head?.map fun c => if c = '\\' then '/' else c := by
  cases path <;> rfl

theorem root_slashed (h : windowsRoot path = false) : (purePosixPath (slashed path)).root = [] := by
  apply root_of_head
  rw [head_slashed]
  intro hslash
  obtain ⟨c, hc, hmap⟩ := Option.map_eq_some_iff.mp hslash
  rw [windowsRoot, hc] at h
  simp only [Option.any_some, isWindowsSeparator, Bool.or_eq_false_iff, beq_eq_false_iff_ne] at h
  rw [if_neg h.2] at hmap
  exact h.1 hmap

theorem windowsDrive_slashed (h : windowsRoot path = false) : windowsDrive rt (slashed path) = windowsDrive rt path := by
  match path with
  | [] => rfl
  | [c] => rfl
  | c :: d :: rest =>
    simp only [windowsRoot, List.head?_cons, Option.any_some, isWindowsSeparator, Bool.or_eq_false_iff,
      beq_eq_false_iff_ne] at h
    unfold slashed
    rw [List.map_cons, List.map_cons, if_neg h.2]
    by_cases hd : d = '\\'
    · rw [hd]
      rfl
    · rw [if_neg hd]
      by_cases hcolon : d = ':'
      · rw [hcolon]
        rfl
      · simp [windowsDrive, hcolon]

/-- What the checks of the normalization ask of a path. -/
structure Accepted (rt : PythonRuntime) (path : Text) : Prop where
  nonempty : path ≠ []
  no_nul : '\x00' ∉ path
  bounded : path.length ≤ maxArtifactPathLength
  rootless : windowsRoot path = false
  undriven : windowsDrive rt path = false
  inside : ['.', '.'] ∉ windowsParts path

theorem normalizedArtifactPath_eq_ok_iff : normalizedArtifactPath rt fail path = .ok normalized ↔
    Accepted rt path ∧ normalized = (purePosixPath (slashed path)).asPosix := by
  have hplain : ∀ part ∈ windowsParts path, part ≠ [] ∧ part ≠ ['.'] := by
    intro part hpart
    simpa using (List.mem_filter.mp hpart).2
  have hparts : (purePosixPath (path.map fun c => if c = '\\' then '/' else c)).parts = windowsParts path :=
    parts_slashed path
  unfold normalizedArtifactPath
  simp only [hparts]
  constructor
  · intro h
    obtain ⟨_, hnonempty, h⟩ := bind_eq_ok.mp h
    obtain ⟨_, hbounded, h⟩ := bind_eq_ok.mp h
    obtain ⟨_, _, h⟩ := bind_eq_ok.mp h
    obtain ⟨_, _, h⟩ := bind_eq_ok.mp h
    obtain ⟨_, hwindows, h⟩ := bind_eq_ok.mp h
    obtain ⟨_, _, h⟩ := bind_eq_ok.mp h
    rw [refuseIf_eq_ok, not_or] at hnonempty
    rw [refuseIf_eq_ok, not_lt] at hbounded
    rw [refuseIf_eq_ok, not_or, not_or] at hwindows
    refine ⟨⟨hnonempty.1, hnonempty.2, hbounded, ?_, ?_, hwindows.2.2⟩, (Except.ok.inj h).symm⟩
    · exact Bool.eq_false_iff.mpr hwindows.2.1
    · exact Bool.eq_false_iff.mpr hwindows.1
  · rintro ⟨h, rfl⟩
    have hroot : (purePosixPath (path.map fun c => if c = '\\' then '/' else c)).root = [] := root_slashed h.rootless
    have hdrive : windowsDrive rt (path.map fun c => if c = '\\' then '/' else c) = false :=
      (windowsDrive_slashed h.rootless).trans h.undriven
    have hdots : ¬ ∃ part ∈ windowsParts path, part = [] ∨ part = ['.'] ∨ part = ['.', '.'] := by
      rintro ⟨part, hpart, hnil | hdot | hparent⟩
      · exact (hplain part hpart).1 hnil
      · exact (hplain part hpart).2 hdot
      · exact h.inside (hparent ▸ hpart)
    rw [refuseIf_bind_neg (by simp [h.nonempty, h.no_nul]), refuseIf_bind_neg (not_lt.mpr h.bounded),
      refuseIf_bind_neg (by simp [hroot, h.inside]), refuseIf_bind_neg hdots,
      refuseIf_bind_neg (by simp [h.undriven, h.rootless, h.inside]), refuseIf_bind_neg (by simp [hdrive])]
    rfl

theorem length_joined_windowsParts (h : windowsParts path ≠ []) : (joined (windowsParts path)).length ≤ path.length :=
  length_intercalate_filter_le _ h

theorem windowsDrive_joined {first : Text} {rest : List Text} (h : first ≠ []) :
    windowsDrive rt (joined (first :: rest)) = windowsDrive rt first := by
  obtain ⟨c, first, rfl⟩ := List.exists_cons_of_ne_nil h
  cases rest with
  | nil => simp [joined]
  | cons other rest =>
    unfold joined
    rw [List.intercalate_cons_cons]
    cases first with
    | nil => rfl
    | cons d first => by_cases hd : d = ':' <;> simp [windowsDrive, hd]

theorem components_windowsParts (h : windowsParts path ≠ []) : Components (windowsParts path) := by
  have hparts : pathParts isPosixSeparator (slashed path) = windowsParts path := parts_slashed path
  rw [← hparts] at h ⊢
  exact components_pathParts h

theorem mem_of_mem_windowsParts {part : Text} {c : Char} (h : part ∈ windowsParts path) (hc : c ∈ part) :
    c ∈ path ∧ isWindowsSeparator c = false :=
  forall_of_mem_splitOnP (List.mem_filter.mp h).1 c hc

/-- What is promised of a normalized path: both grammars read it as a relative path that stays inside its root, no
segment is empty or a single dot, and normalizing it again changes nothing. -/
structure SafeArtifactPath (rt : PythonRuntime) (fail : String → Raised) (path : Text) : Prop where
  portable : Portable rt path
  segments : ∀ part ∈ path.splitOnP isWindowsSeparator, part ≠ [] ∧ part ≠ ['.']
  fixed : normalizedArtifactPath rt fail path = .ok path

theorem normalPath_joined (h : windowsParts path ≠ []) : NormalPath (joined (windowsParts path)) := by
  refine ⟨⟨_, components_windowsParts h, rfl⟩, ?_⟩
  apply notMem_joined (by decide)
  intro part hpart hmem
  have hseparator := (mem_of_mem_windowsParts hpart hmem).2
  exact absurd hseparator (by decide)

theorem splitOnP_joined (h : windowsParts path ≠ []) :
    (joined (windowsParts path)).splitOnP isWindowsSeparator = windowsParts path := by
  have hslashed : slashed (joined (windowsParts path)) = joined (windowsParts path) := (normalPath_joined h).slashed
  rw [← splitOnP_slashed, hslashed]
  exact List.splitOn_intercalate '/' (fun part hpart => ((components_windowsParts h).named part hpart).2.2) h

theorem windowsParts_joined (h : windowsParts path ≠ []) :
    windowsParts (joined (windowsParts path)) = windowsParts path := by
  have hparts : windowsParts (joined (windowsParts path)) = (windowsParts path).filter fun part => part ≠ [] ∧ part ≠ ['.'] :=
    congrArg (List.filter _) (splitOnP_joined h)
  rw [hparts]
  apply List.filter_eq_self.mpr
  intro part hpart
  have hnamed := (components_windowsParts h).named part hpart
  simpa using ⟨hnamed.1, hnamed.2.1⟩

theorem windowsRoot_joined (h : windowsParts path ≠ []) : windowsRoot (joined (windowsParts path)) = false := by
  obtain ⟨c, tail, hjoined, hslash⟩ := (components_windowsParts h).head_joined
  have hbackslash : c ≠ '\\' := by
    intro hc
    have hmem := (normalPath_joined h).unslashed
    rw [hjoined, hc] at hmem
    exact hmem List.mem_cons_self
  rw [hjoined, windowsRoot, List.head?_cons, Option.any_some, isWindowsSeparator]
  simp [hslash, hbackslash]

/-- The joined segments of an accepted path are accepted themselves, unless they begin with a drive. -/
theorem accepted_joined (h : Accepted rt path) {first : Text} {rest : List Text} (hparts : windowsParts path = first :: rest)
    (hdrive : windowsDrive rt first = false) : Accepted rt (joined (windowsParts path)) := by
  have hne : windowsParts path ≠ [] := by
    rw [hparts]
    exact List.cons_ne_nil _ _
  have hfirst := (components_windowsParts hne).named first (hparts ▸ List.mem_cons_self)
  constructor
  · obtain ⟨c, tail, hjoined, -⟩ := (components_windowsParts hne).head_joined
    rw [hjoined]
    exact List.cons_ne_nil _ _
  · apply notMem_joined (by decide)
    intro part hpart hmem
    exact h.no_nul (mem_of_mem_windowsParts hpart hmem).1
  · exact (length_joined_windowsParts hne).trans h.bounded
  · exact windowsRoot_joined hne
  · rw [hparts, windowsDrive_joined hfirst.1, hdrive]
  · rw [windowsParts_joined hne]
    exact h.inside

theorem safe_joined (h : Accepted rt path) {first : Text} {rest : List Text} (hparts : windowsParts path = first :: rest)
    (hdrive : windowsDrive rt first = false) : SafeArtifactPath rt fail (joined (windowsParts path)) := by
  have hne : windowsParts path ≠ [] := by
    rw [hparts]
    exact List.cons_ne_nil _ _
  have hfixed : normalizedArtifactPath rt fail (joined (windowsParts path)) = .ok (joined (windowsParts path)) := by
    apply normalizedArtifactPath_eq_ok_iff.mpr
    have hnormal := normalPath_joined hne
    have hslashed : slashed (joined (windowsParts path)) = joined (windowsParts path) := hnormal.slashed
    rw [hslashed, hnormal.asPosix]
    exact ⟨accepted_joined h hparts hdrive, rfl⟩
  refine ⟨(normalizedArtifactPath_eq_ok hfixed).1, ?_, hfixed⟩
  intro part hpart
  rw [splitOnP_joined hne] at hpart
  have hnamed := (components_windowsParts hne).named part hpart
  exact ⟨hnamed.1, hnamed.2.1⟩

/-- The accepted paths that lose their normal form: nothing but dots, or a drive that only leading dots conceal. -/
structure ConcealedByDots (rt : PythonRuntime) (path : Text) : Prop extends Accepted rt path where
  concealed : ∀ first ∈ (windowsParts path).head?, windowsDrive rt first = true

/-- The normalized path is safe exactly when the given one does not conceal a drive, or nothing, behind dots. -/
theorem normalizedArtifactPath_safe_iff (rt : PythonRuntime) (fail : String → Raised) (path : Text) :
    (∀ normalized, normalizedArtifactPath rt fail path = .ok normalized → SafeArtifactPath rt fail normalized) ↔
      ¬ ConcealedByDots rt path := by
  constructor
  · intro hsafe hconcealed
    have h := hsafe _ (normalizedArtifactPath_eq_ok_iff.mpr ⟨hconcealed.toAccepted, rfl⟩)
    unfold PurePosixPath.asPosix at h
    rw [root_slashed hconcealed.rootless, parts_slashed] at h
    cases hparts : windowsParts path with
    | nil =>
      rw [hparts, if_pos ⟨rfl, rfl⟩] at h
      exact (h.segments ['.'] (by decide)).2 rfl
    | cons first rest =>
      rw [hparts, if_neg fun hnone => List.cons_ne_nil _ _ hnone.2, List.nil_append] at h
      have hne : windowsParts path ≠ [] := by
        rw [hparts]
        exact List.cons_ne_nil _ _
      have hfirst := (components_windowsParts hne).named first (hparts ▸ List.mem_cons_self)
      have hdrive : windowsDrive rt (joined (first :: rest)) = windowsDrive rt first := windowsDrive_joined hfirst.1
      have hconceals := hconcealed.concealed first (by rw [hparts]; rfl)
      have hundriven : windowsDrive rt (joined (first :: rest)) = false := h.portable.windows_undriven
      rw [hdrive, hconceals] at hundriven
      cases hundriven
  · intro hplain normalized hrun
    obtain ⟨haccepted, rfl⟩ := normalizedArtifactPath_eq_ok_iff.mp hrun
    obtain ⟨first, hfirst, hdrive⟩ : ∃ first ∈ (windowsParts path).head?, windowsDrive rt first = false := by
      by_contra hnone
      apply hplain
      refine ⟨haccepted, ?_⟩
      intro first hfirst
      apply Bool.of_not_eq_false
      intro hfalse
      exact hnone ⟨first, hfirst, hfalse⟩
    obtain ⟨rest, hparts⟩ := List.head?_eq_some_iff.mp hfirst
    unfold PurePosixPath.asPosix
    rw [root_slashed haccepted.rootless, parts_slashed, if_neg fun hnone => by simp [hparts] at hnone]
    exact safe_joined haccepted hparts hdrive

/-- A drive behind a leading dot comes out in front. -/
theorem normalizedArtifactPath_concealedDrive : ∃ normalized,
    normalizedArtifactPath asciiRuntime (fun detail => .valueError detail) "./C:/evil.dbf".toList = .ok normalized ∧
      normalized = "C:/evil.dbf".toList ∧ windowsDrive asciiRuntime normalized = true ∧
        ¬ SafeArtifactPath asciiRuntime (fun detail => .valueError detail) normalized := by
  refine ⟨"C:/evil.dbf".toList, by decide, rfl, by decide, ?_⟩
  intro h
  exact absurd h.portable.windows_undriven (by decide)

end DbfAnonymizer.Transfer
