import Mathlib.Data.List.Basic
import Mathlib.Data.List.Infix
import DbfAnonymizer.Errors
import DbfAnonymizer.Lib.Letters
import DbfAnonymizer.Lib.Outcome

/-! Artifact paths of a transfer bundle under the POSIX and the Windows path grammar. -/
namespace DbfAnonymizer.Transfer
open Lib

def isAscii (s : Text) : Bool := s.all fun c => c.toNat < 128

/-- What the code takes from the tables of the Python runtime, and what is documented about them. -/
structure PythonRuntime where
  /-- Full case folding of one code point. -/
  fold : Char → Text
  /-- `str.lower`. -/
  lower : Text → Text
  /-- `str.isprintable`. -/
  isPrintable : Char → Bool
  /-- A first character that forms a Windows drive with the colon after it. -/
  isDriveLetter : Char → Bool
  fold_ascii : ∀ c : Char, c.toNat < 128 → fold c = [c.toLower]
  fold_fold : ∀ c : Char, (fold c).flatMap fold = fold c
  lower_ascii : ∀ s : Text, isAscii s = true → lower s = s.map Char.toLower
  isPrintable_ascii : ∀ c : Char, 32 ≤ c.toNat → c.toNat < 127 → isPrintable c = true

def PythonRuntime.casefold (rt : PythonRuntime) (s : Text) : Text := s.flatMap rt.fold

theorem PythonRuntime.casefold_casefold (rt : PythonRuntime) (s : Text) :
    rt.casefold (rt.casefold s) = rt.casefold s := by
  unfold casefold
  rw [List.flatMap_assoc]
  have hfold : (fun c => (rt.fold c).flatMap rt.fold) = rt.fold := funext rt.fold_fold
  rw [hfold]

theorem PythonRuntime.casefold_ascii (rt : PythonRuntime) {s : Text} (h : isAscii s = true) :
    rt.casefold s = s.map Char.toLower := by
  induction s with
  | nil => rfl
  | cons c s ih =>
    rw [isAscii, List.all_cons, Bool.and_eq_true, decide_eq_true_eq] at h
    have hc := rt.fold_ascii c h.1
    have hs := ih h.2
    unfold casefold at *
    rw [List.flatMap_cons, hc, hs]
    rfl

/-- The tables of a runtime that knows the letters of ASCII only. -/
def asciiRuntime : PythonRuntime where
  fold c := [c.toLower]
  lower s := s.map Char.toLower
  isPrintable c := 32 ≤ c.toNat && c.toNat < 127
  isDriveLetter := Char.isAlpha
  fold_ascii _ _ := rfl
  fold_fold c := congrArg (fun d => [d]) (toLower_toLower c)
  lower_ascii _ _ := rfl
  isPrintable_ascii c h h' := by simp [h, h']

/-- The components of a path: empty ones and single dots are dropped. -/
def pathParts (isSeparator : Char → Bool) (s : Text) : List Text :=
  (s.splitOnP isSeparator).filter fun part => part ≠ [] ∧ part ≠ ['.']

def isPosixSeparator (c : Char) : Bool := c == '/'

def isWindowsSeparator (c : Char) : Bool := c == '/' || c == '\\'

/-- `PurePosixPath`: exactly two leading slashes are a root of their own. -/
structure PurePosixPath where
  root : Text
  parts : List Text
  deriving DecidableEq, Repr

def purePosixPath (s : Text) : PurePosixPath where
  root :=
    if s.take 2 = ['/', '/'] ∧ s[2]? ≠ some '/' then ['/', '/']
    else if s.head? = some '/' then ['/'] else []
  parts := pathParts isPosixSeparator s

namespace PurePosixPath

def asPosix (p : PurePosixPath) : Text :=
  if p.root = [] ∧ p.parts = [] then ['.'] else p.root ++ List.intercalate ['/'] p.parts

def name (p : PurePosixPath) : Text := p.parts.getLast?.getD []

end PurePosixPath

/-- `PureWindowsPath(s).drive` of a path without a leading separator. -/
def windowsDrive (rt : PythonRuntime) : Text → Bool
  | c :: ':' :: _ => rt.isDriveLetter c
  | _ => false

/-- A leading separator makes a root, or a UNC drive. -/
def windowsRoot (s : Text) : Bool := s.head?.any isWindowsSeparator

def windowsParts (s : Text) : List Text := pathParts isWindowsSeparator s

def maxArtifactPathLength : ℕ := 512

/-- `_normalized_artifact_path`. -/
def normalizedArtifactPath (rt : PythonRuntime) (fail : String → Raised) (relativePath : Text) : Except Raised Text := do
  refuseIf (relativePath = [] ∨ '\x00' ∈ relativePath) (fail "TRANSFER_MANIFEST_PATH_INVALID")
  refuseIf (maxArtifactPathLength < relativePath.length) (fail "TRANSFER_MANIFEST_PATH_TOO_LONG")
  let slashed := relativePath.map fun c => if c = '\\' then '/' else c
  let posix := purePosixPath slashed
  refuseIf (posix.root ≠ [] ∨ ['.', '.'] ∈ posix.parts) (fail "TRANSFER_MANIFEST_PATH_INVALID")
  refuseIf (∃ part ∈ posix.parts, part = [] ∨ part = ['.'] ∨ part = ['.', '.']) (fail "TRANSFER_MANIFEST_PATH_INVALID")
  refuseIf (windowsDrive rt relativePath = true ∨ windowsRoot relativePath = true ∨
    ['.', '.'] ∈ windowsParts relativePath) (fail "TRANSFER_MANIFEST_PATH_INVALID")
  refuseIf (windowsDrive rt slashed = true) (fail "TRANSFER_MANIFEST_PATH_INVALID")
  return posix.asPosix

/-- Neither grammar reads the path as absolute, rooted, drive-qualified or leaving its root. -/
structure Portable (rt : PythonRuntime) (s : Text) : Prop where
  posix_relative : (purePosixPath s).root = []
  posix_inside : ['.', '.'] ∉ (purePosixPath s).parts
  windows_undriven : windowsDrive rt s = false
  windows_rootless : windowsRoot s = false
  windows_inside : ['.', '.'] ∉ windowsParts s

theorem splitOnP_of_le {coarse fine : Char → Bool} (hle : ∀ c, coarse c = true → fine c = true) (s : Text) :
    ∃ head rest head' rest', s.splitOnP coarse = head :: rest ∧ s.splitOnP fine = head' :: rest' ∧
      ((∀ c ∈ head, fine c = false) → head = head') ∧
      ∀ part ∈ rest, (∀ c ∈ part, fine c = false) → part ∈ rest' := by
  induction s with
  | nil => exact ⟨[], [], [], [], rfl, rfl, fun _ => rfl, by simp⟩
  | cons c s ih =>
    obtain ⟨head, rest, head', rest', hcoarse, hfine, hhead, hrest⟩ := ih
    rw [List.splitOnP_cons_eq_if_modifyHead, List.splitOnP_cons_eq_if_modifyHead, hcoarse, hfine]
    by_cases hc : coarse c = true
    · rw [if_pos hc, if_pos (hle c hc)]
      refine ⟨[], head :: rest, [], head' :: rest', rfl, rfl, fun _ => rfl, ?_⟩
      intro part hpart hclean
      rcases List.mem_cons.mp hpart with heq | hmem
      · rw [heq, hhead (heq ▸ hclean)]
        exact List.mem_cons_self ..
      · exact List.mem_cons_of_mem _ (hrest part hmem hclean)
    · rw [if_neg hc]
      by_cases hf : fine c = true
      · rw [if_pos hf]
        refine ⟨c :: head, rest, [], head' :: rest', rfl, rfl, ?_, ?_⟩
        · intro hclean
          rw [hclean c (List.mem_cons_self ..)] at hf
          cases hf
        · intro part hpart hclean
          exact List.mem_cons_of_mem _ (hrest part hpart hclean)
      · rw [if_neg hf]
        refine ⟨c :: head, rest, c :: head', rest', rfl, rfl, ?_, hrest⟩
        intro hclean
        rw [hhead fun d hd => hclean d (List.mem_cons_of_mem c hd)]

theorem mem_splitOnP_of_le {coarse fine : Char → Bool} (hle : ∀ c, coarse c = true → fine c = true) {s part : Text}
    (hpart : part ∈ s.splitOnP coarse) (hclean : ∀ c ∈ part, fine c = false) : part ∈ s.splitOnP fine := by
  obtain ⟨head, rest, head', rest', hcoarse, hfine, hhead, hrest⟩ := splitOnP_of_le hle s
  rw [hcoarse] at hpart
  rw [hfine]
  rcases List.mem_cons.mp hpart with heq | hmem
  · rw [heq, hhead (heq ▸ hclean)]
    exact List.mem_cons_self ..
  · exact List.mem_cons_of_mem _ (hrest part hmem hclean)

theorem parent_mem_windowsParts {s : Text} (h : ['.', '.'] ∈ (purePosixPath s).parts) :
    ['.', '.'] ∈ windowsParts s := by
  have hmem := List.mem_filter.mp h
  apply List.mem_filter.mpr
  constructor
  · apply mem_splitOnP_of_le _ hmem.1 (by simp [isWindowsSeparator])
    intro c hc
    rw [isPosixSeparator] at hc
    rw [isWindowsSeparator, hc, Bool.true_or]
  · exact hmem.2

theorem root_of_head {s : Text} (hhead : s.head? ≠ some '/') : (purePosixPath s).root = [] := by
  have htwo : s.take 2 ≠ ['/', '/'] := by
    intro hslash
    cases s with
    | nil => cases hslash
    | cons c s =>
      rw [List.take_succ_cons, List.cons.injEq] at hslash
      rw [hslash.1] at hhead
      exact hhead rfl
  unfold purePosixPath
  dsimp only
  rw [if_neg fun hboth => htwo hboth.1, if_neg hhead]

theorem root_of_windowsRoot {s : Text} (h : windowsRoot s = false) : (purePosixPath s).root = [] := by
  apply root_of_head
  intro hslash
  rw [windowsRoot, hslash] at h
  cases h

theorem normalizedArtifactPath_eq_ok {rt : PythonRuntime} {fail : String → Raised} {path normalized : Text}
    (h : normalizedArtifactPath rt fail path = .ok normalized) :
    Portable rt path ∧ normalized = (purePosixPath (path.map fun c => if c = '\\' then '/' else c)).asPosix := by
  unfold normalizedArtifactPath at h
  obtain ⟨_, _, h⟩ := bind_eq_ok.mp h
  obtain ⟨_, _, h⟩ := bind_eq_ok.mp h
  obtain ⟨_, _, h⟩ := bind_eq_ok.mp h
  obtain ⟨_, _, h⟩ := bind_eq_ok.mp h
  obtain ⟨_, hwindows, h⟩ := bind_eq_ok.mp h
  obtain ⟨_, _, h⟩ := bind_eq_ok.mp h
  rw [refuseIf_eq_ok, not_or, not_or] at hwindows
  have hrootless : windowsRoot path = false := by simpa using hwindows.2.1
  constructor
  · constructor
    · exact root_of_windowsRoot hrootless
    · exact fun hparent => hwindows.2.2 (parent_mem_windowsParts hparent)
    · simpa using hwindows.1
    · exact hrootless
    · exact hwindows.2.2
  · exact (Except.ok.inj h).symm

/-- The casefolded paths of an inventory, unless two of them agree. -/
def casefoldInventory (rt : PythonRuntime) (fail : String → Raised) (relativePaths : List Text) :
    Except Raised (List (Text × Text)) :=
  relativePaths.foldlM (fun inventory path => do
    refuseIf (rt.casefold path ∈ inventory.map (·.1)) (fail "TRANSFER_INVENTORY_CASE_COLLISION")
    return inventory ++ [(rt.casefold path, path)]) []

def forbiddenSuffixes : List String :=
  [".sqlite", ".sqlite3", ".sqlite-wal", ".sqlite3-wal", "-wal", "-shm", ".journal", ".jrn", ".log", ".tmp", ".temp",
    ".lock", ".staging", ".partial", ".bak", ".cdx", ".idx", ".dbc", ".dct", ".dcx", ".exe", ".dll", ".py", ".pyc",
    ".bat", ".cmd", ".ps1", ".sh", ".bin"]

def forbiddenBasenameMarkers : List String :=
  ["temp-", "dictionary.sqlite", "recovery", "private-manifest", "source-manifest", "reverse-mapping",
    "mapping-table", "secret", "salt", "keyfile", "debug"]

/-- Whether the denylist classifies a path as an artifact that never travels. -/
def isForbiddenArtifact (rt : PythonRuntime) (relativePath : Text) : Bool :=
  let lowered := rt.lower relativePath
  let posixName := (purePosixPath lowered).name
  forbiddenSuffixes.any (fun suffix => suffix.toList.isSuffixOf lowered) ||
    forbiddenBasenameMarkers.any (fun marker => decide (marker.toList <:+: posixName)) ||
    ['.'].isPrefixOf posixName || ['~', '$'].isPrefixOf posixName

end DbfAnonymizer.Transfer
