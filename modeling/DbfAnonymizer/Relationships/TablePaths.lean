import DbfAnonymizer.Lib.Letters
import DbfAnonymizer.Lib.Segments
import DbfAnonymizer.Relationships.DocumentParsing

/-! Table paths: what normalization leaves of a spelling, and when it leaves its own result alone. -/
namespace DbfAnonymizer.Relationships
open Lib

section Tables
variable {χ : Type} [TextChar χ]

def endsBlank (value : List χ) : Bool := value.getLast?.any isWhitespace

/-- The blanks in front of trailing separators, which `str.strip` does not reach. -/
def trailingBlank [DecidableEq χ] (value : List χ) : Bool := endsBlank ((strip value).rdropWhile isPathSeparator)

theorem head?_strip {value : List χ} {c : χ} (h : (strip value).head? = some c) : isWhitespace c = false := by
  have hfront : (strip value) <+: value.dropWhile isWhitespace := List.rdropWhile_prefix isWhitespace _
  obtain ⟨rest, hrest⟩ := hfront
  have hhead : (value.dropWhile isWhitespace).head? = some c := by
    rw [← hrest, List.head?_append, h]
    rfl
  have hnot := List.head?_dropWhile_not isWhitespace value
  rw [hhead] at hnot
  exact hnot

theorem length_strip_le (value : List χ) : (strip value).length ≤ value.length :=
  (List.rdropWhile_prefix isWhitespace _).length_le.trans (List.dropWhile_suffix isWhitespace).length_le

theorem strip_eq_self {value : List χ} {c : χ} (hhead : value.head? = some c) (hc : isWhitespace c = false)
    (hlast : endsBlank value = false) : strip value = value := by
  have hfront : value.dropWhile isWhitespace = value := by
    obtain ⟨rest, rfl⟩ := List.head?_eq_some_iff.mp hhead
    exact List.dropWhile_cons_of_neg (by simp [hc])
  have hback : value.rdropWhile isWhitespace = value := by
    rw [List.rdropWhile_eq_self_iff]
    intro hne hblank
    rw [endsBlank, List.getLast?_eq_getLast_of_ne_nil hne, Option.any_some] at hlast
    rw [hlast] at hblank
    cases hblank
  rw [strip, hfront]
  exact hback

theorem length_strip_lt {value : List χ} (h : endsBlank value = true) : (strip value).length < value.length := by
  by_contra hle
  have hsame : strip value = value.dropWhile isWhitespace ∧ value.dropWhile isWhitespace = value := by
    have hfront := (List.dropWhile_suffix isWhitespace (l := value)).length_le
    have hfront : strip value <+: value.dropWhile isWhitespace := List.rdropWhile_prefix isWhitespace _
    have hback := hfront.length_le
    exact ⟨hfront.eq_of_length (by omega), (List.dropWhile_suffix isWhitespace).eq_of_length (by omega)⟩
  have hself : value.rdropWhile isWhitespace = value := by
    have hstrip : (value.dropWhile isWhitespace).rdropWhile isWhitespace = value.dropWhile isWhitespace := hsame.1
    rwa [hsame.2] at hstrip
  have hne : value ≠ [] := by
    rintro rfl
    cases h
  have hnot := List.rdropWhile_eq_self_iff.mp hself hne
  rw [endsBlank, List.getLast?_eq_getLast_of_ne_nil hne, Option.any_some] at h
  exact hnot h

variable [DecidableEq χ]

@[simp] theorem isPathSeparator_slash : isPathSeparator (TextChar.ofChar '/' : χ) = true := by simp [isPathSeparator]

def tableSegments (value : List χ) : List (List χ) := segmentsOf isPathSeparator (strip value)

structure TablePathAccepted (value path : List χ) : Prop where
  present : strip value ≠ []
  relative : ((strip value).splitOnP isPathSeparator).head? ≠ some []
  segments : tableSegments value ≠ []
  inside : ∀ part ∈ tableSegments value, part ≠ [TextChar.ofChar '.'] ∧
    part ≠ [TextChar.ofChar '.', TextChar.ofChar '.'] ∧ TextChar.ofChar ':' ∉ part
  joined : path = List.intercalate [TextChar.ofChar '/'] (tableSegments value)

theorem normalizeRelativeTablePath_eq_ok {value path : List χ} :
    normalizeRelativeTablePath value = .ok path ↔ TablePathAccepted value path := by
  have hpart : ∀ part : List χ, (if part = [TextChar.ofChar '.'] ∨ part = [TextChar.ofChar '.', TextChar.ofChar '.'] then
      .error (invalid "RELATIONSHIP_TABLE_PATH_TRAVERSAL")
      else if TextChar.ofChar ':' ∈ part then .error (invalid "RELATIONSHIP_TABLE_PATH_ABSOLUTE")
      else .ok () : Except Raised Unit) = .ok () ↔
        part ≠ [TextChar.ofChar '.'] ∧ part ≠ [TextChar.ofChar '.', TextChar.ofChar '.'] ∧ TextChar.ofChar ':' ∉ part := by
    intro part
    by_cases hdots : part = [TextChar.ofChar '.'] ∨ part = [TextChar.ofChar '.', TextChar.ofChar '.']
    · rw [if_pos hdots]
      rcases hdots with rfl | rfl <;> simp
    · rw [if_neg hdots]
      rw [not_or] at hdots
      split_ifs with hcolon <;> simp [hdots, hcolon]
  unfold normalizeRelativeTablePath
  dsimp only
  constructor
  · intro h
    split_ifs at h with hpresent hrelative hsegments
    obtain ⟨_, hinside, h⟩ := bind_eq_ok.mp h
    obtain rfl := Except.ok.inj h
    have hinside' := forM_eq_ok_iff.mp hinside
    exact ⟨by simpa using hpresent, hrelative, by simpa [tableSegments, segmentsOf] using hsegments,
      fun part hmem => (hpart part).mp (hinside' part hmem), rfl⟩
  · intro h
    have hpresent : ¬ (strip value).isEmpty = true := by simpa using h.present
    have hsegments : ¬ (((strip value).splitOnP isPathSeparator).filter (· ≠ [])).isEmpty = true := by
      simpa [tableSegments, segmentsOf] using h.segments
    have hinside := forM_eq_ok_iff.mpr fun part hmem => (hpart part).mpr (h.inside part hmem)
    rw [if_neg hpresent, if_neg h.relative, if_neg hsegments, h.joined]
    exact (congrArg (· >>= _) hinside).trans rfl

namespace TablePathAccepted
variable {value path : List χ}

theorem clean {part : List χ} (h : part ∈ tableSegments value) : part ≠ [] ∧ ∀ c ∈ part, isPathSeparator c = false := by
  obtain ⟨hmem, hne⟩ := List.mem_filter.mp h
  exact ⟨of_decide_eq_true hne, fun c hc => (forall_of_mem_splitOnP hmem c hc).2⟩

theorem splitOnP_path (h : TablePathAccepted value path) : path.splitOnP isPathSeparator = tableSegments value := by
  rw [h.joined]
  exact splitOnP_intercalate isPathSeparator_slash (fun part hpart => (clean hpart).2) h.segments

theorem head (h : TablePathAccepted value path) : ∃ c, path.head? = some c ∧ isWhitespace c = false := by
  obtain ⟨first, rest, hsplit⟩ := List.exists_cons_of_ne_nil (List.splitOnP_ne_nil isPathSeparator (strip value))
  have hfirst : first ≠ [] := by
    intro hnil
    have hrelative := h.relative
    rw [hsplit, hnil] at hrelative
    exact hrelative rfl
  have hsegments : tableSegments value = first :: rest.filter (· ≠ []) := by
    rw [tableSegments, segmentsOf, hsplit]
    exact List.filter_cons_of_pos (by simpa using hfirst)
  obtain ⟨c, hc⟩ := Option.ne_none_iff_exists'.mp fun hnone => h.present (List.head?_eq_none_iff.mp hnone)
  have hpath : path.head? = some c := by
    rw [h.joined, hsegments, head?_intercalate hfirst, head?_splitOnP hsplit hfirst, hc]
  exact ⟨c, hpath, head?_strip hc⟩

/-- The normalized path ends in a blank where a blank stands in front of trailing separators. -/
theorem endsBlank_path (h : TablePathAccepted value path) : endsBlank path = trailingBlank value := by
  have hsplit : (strip value).rdropWhile isPathSeparator ++ (strip value).rtakeWhile isPathSeparator = strip value :=
    List.rdropWhile_append_rtakeWhile
  have hsegments : tableSegments value = segmentsOf isPathSeparator ((strip value).rdropWhile isPathSeparator) := by
    have happend : segmentsOf isPathSeparator ((strip value).rdropWhile isPathSeparator ++
        (strip value).rtakeWhile isPathSeparator) = segmentsOf isPathSeparator ((strip value).rdropWhile isPathSeparator) :=
      segmentsOf_append_separators fun c hc => List.mem_rtakeWhile_imp hc
    rw [hsplit] at happend
    exact happend
  have hne : (strip value).rdropWhile isPathSeparator ≠ [] := by
    intro hnil
    apply h.segments
    rw [hsegments, hnil]
    rfl
  have hlast := List.getLast?_eq_getLast_of_ne_nil hne
  have hsep := Bool.eq_false_of_not_eq_true (List.rdropWhile_last_not isPathSeparator (strip value) hne)
  rw [endsBlank, trailingBlank, endsBlank, h.joined, hsegments, getLast?_intercalate_segmentsOf hlast hsep, hlast]

theorem again (h : TablePathAccepted value path) (hblank : endsBlank path = false) : TablePathAccepted path path := by
  obtain ⟨c, hhead, hc⟩ := h.head
  have hstrip : strip path = path := strip_eq_self hhead hc hblank
  have hclean : ∀ part ∈ tableSegments value, part ≠ [] := fun part hpart => (clean hpart).1
  have hsegments : tableSegments path = tableSegments value := by
    rw [tableSegments, segmentsOf, hstrip, h.splitOnP_path]
    exact List.filter_eq_self.mpr fun part hpart => by simpa using hclean part hpart
  refine ⟨?_, ?_, hsegments ▸ h.segments, hsegments ▸ h.inside, hsegments ▸ h.joined⟩
  · intro hnil
    rw [← hstrip, hnil] at hhead
    cases hhead
  · rw [hstrip, h.splitOnP_path]
    intro hfirst
    exact hclean [] (List.mem_of_head? hfirst) rfl

theorem length_le_strip (h : TablePathAccepted value path) : path.length ≤ (strip value).length := by
  rw [h.joined]
  exact length_intercalate_filter_le _ h.segments

theorem length_le (h : TablePathAccepted value path) : path.length ≤ value.length :=
  h.length_le_strip.trans (length_strip_le value)

theorem length_lt (h : TablePathAccepted value path) (hblank : endsBlank value = true) : path.length < value.length :=
  h.length_le_strip.trans_lt (length_strip_lt hblank)

end TablePathAccepted

/-- What normalization makes of some spelling. -/
structure TablePath (path : List χ) : Prop where
  head : ∃ c, path.head? = some c ∧ isWhitespace c = false
  slashes : ∀ c ∈ path, isPathSeparator c = true → c = TextChar.ofChar '/'
  segments : ∀ part ∈ path.splitOnP isPathSeparator,
    part ≠ [] ∧ part ≠ [TextChar.ofChar '.'] ∧ part ≠ [TextChar.ofChar '.', TextChar.ofChar '.'] ∧ TextChar.ofChar ':' ∉ part

theorem TablePathAccepted.tablePath {value path : List χ} (h : TablePathAccepted value path) : TablePath path where
  head := h.head
  slashes c hc hsep := by
    rw [h.joined] at hc
    exact eq_of_mem_intercalate (fun part hpart => (clean hpart).2) hc hsep
  segments part hpart := by
    rw [h.splitOnP_path] at hpart
    exact ⟨(clean hpart).1, h.inside part hpart⟩

/-- With a slash behind it, such a path is a spelling of itself. -/
theorem TablePath.accepted {path : List χ} (h : TablePath path) : TablePathAccepted (path ++ [(TextChar.ofChar '/' : χ)]) path := by
  obtain ⟨c, hhead, hc⟩ := h.head
  obtain ⟨rest, rfl⟩ := List.head?_eq_some_iff.mp hhead
  have hstrip : strip ((c :: rest) ++ [(TextChar.ofChar '/' : χ)]) = (c :: rest) ++ [(TextChar.ofChar '/' : χ)] := by
    apply strip_eq_self rfl hc
    rw [endsBlank, List.getLast?_concat, Option.any_some]
    simp [isWhitespace]
  have hsegments : tableSegments ((c :: rest) ++ [(TextChar.ofChar '/' : χ)]) = (c :: rest).splitOnP isPathSeparator := by
    rw [tableSegments, hstrip, segmentsOf_append_separators (by simp), segmentsOf]
    exact List.filter_eq_self.mpr fun part hpart => by simpa using (h.segments part hpart).1
  have hfirst : isPathSeparator c = false := by
    by_contra hsep
    have hnil : [] ∈ (c :: rest).splitOnP isPathSeparator := by
      rw [List.splitOnP_cons_eq_if_modifyHead, if_pos (Bool.of_not_eq_false hsep)]
      exact List.mem_cons_self
    exact (h.segments [] hnil).1 rfl
  refine ⟨by rw [hstrip]; simp, ?_, ?_, ?_, ?_⟩
  · rw [hstrip, List.cons_append, List.splitOnP_cons_eq_if_modifyHead, if_neg (by simp [hfirst])]
    obtain ⟨first, others, hsplit⟩ := List.exists_cons_of_ne_nil
      (List.splitOnP_ne_nil isPathSeparator (rest ++ [(TextChar.ofChar '/' : χ)]))
    rw [hsplit]
    simp
  · rw [hsegments]
    exact List.splitOnP_ne_nil _ _
  · rw [hsegments]
    exact fun part hpart => (h.segments part hpart).2
  · rw [hsegments]
    have hsame : (c :: rest).splitOnP isPathSeparator = (c :: rest).splitOn (TextChar.ofChar '/') := by
      apply splitOnP_congr
      intro d hd
      by_cases hsep : isPathSeparator d = true
      · rw [hsep, h.slashes d hd hsep]
        simp
      · have hne : d ≠ TextChar.ofChar '/' := by
          intro heq
          rw [heq] at hsep
          exact hsep isPathSeparator_slash
        rw [Bool.eq_false_of_not_eq_true hsep, beq_false_of_ne hne]
    rw [hsame, List.intercalate_splitOn]

theorem TablePath.replaced {front part part' back : List χ} (h : TablePath (front ++ part ++ back)) (hne : part' ≠ [])
    (hpart : ∀ c ∈ part, 0xd800 ≤ TextChar.codePoint c) (hpart' : ∀ c ∈ part', 0xd800 ≤ TextChar.codePoint c) :
    TablePath (front ++ part' ++ back) := by
  have hother : ∀ {c : χ} {d : Char}, 0xd800 ≤ TextChar.codePoint c → d.toNat < 0xd800 → c ≠ TextChar.ofChar d := by
    intro c d hc hd heq
    rw [heq, TextChar.codePoint_ofChar] at hc
    omega
  have hclean : ∀ {c : χ}, 0xd800 ≤ TextChar.codePoint c → isPathSeparator c = false := by
    intro c hc
    simp [isPathSeparator, hother hc (show '\\'.toNat < 0xd800 by decide), hother hc (show '/'.toNat < 0xd800 by decide)]
  have hnonblank : ∀ {c : χ}, 0xd800 ≤ TextChar.codePoint c → isWhitespace c = false := by
    intro c hc
    simp only [isWhitespace, Bool.or_eq_false_iff, Bool.and_eq_false_iff, decide_eq_false_iff_not, beq_eq_false_iff_ne]
    omega
  obtain ⟨d, part'', rfl⟩ := List.exists_cons_of_ne_nil hne
  have hd := hpart' d List.mem_cons_self
  refine ⟨?_, ?_, ?_⟩
  · cases front with
    | nil => exact ⟨d, rfl, hnonblank hd⟩
    | cons c front =>
      obtain ⟨c', hhead, hc'⟩ := h.head
      obtain rfl : c = c' := Option.some.inj hhead
      exact ⟨c, rfl, hc'⟩
  · intro c hc hsep
    simp only [List.mem_append] at hc
    rcases hc with (hc | hc) | hc
    · exact h.slashes c (by simp [hc]) hsep
    · rw [hclean (hpart' c hc)] at hsep
      cases hsep
    · exact h.slashes c (by simp [hc]) hsep
  · intro segment' hsegment'
    have hsegments := forall₂_splitOnP_replaced (fun c hc => hclean (hpart c hc)) (fun c hc => hclean (hpart' c hc)) front back
    obtain ⟨segment, hsegment, hrel⟩ := exists_of_forall₂_right hsegments hsegment'
    have hold := h.segments segment hsegment
    rcases hrel with rfl | ⟨before, after, rfl, rfl⟩
    · exact hold
    · have hmem : d ∈ before ++ d :: part'' ++ after := by simp
      refine ⟨List.ne_nil_of_mem hmem, ?_, ?_, ?_⟩
      · intro heq
        rw [heq, List.mem_singleton] at hmem
        exact hother hd (by decide) hmem
      · intro heq
        rw [heq] at hmem
        have hdot : d = TextChar.ofChar '.' := by simpa using hmem
        exact hother hd (by decide) hdot
      · intro hcolon
        simp only [List.mem_append] at hcolon
        rcases hcolon with (hcolon | hcolon) | hcolon
        · exact hold.2.2.2 (by simp [hcolon])
        · exact hother (hpart' _ hcolon) (by decide) rfl
        · exact hold.2.2.2 (by simp [hcolon])

end Tables

structure ExternalPath (value : Text) (requireTableSuffix : Bool) : Prop where
  nonempty : value ≠ []
  bounded : value.length ≤ maxExternalPathLength
  no_backslash : '\\' ∉ value
  segments : ∀ part ∈ value.splitOn '/', part ≠ [] ∧ part ≠ ['.'] ∧ part ≠ ['.', '.'] ∧ part.all isExternalPathCharacter = true
  suffix : requireTableSuffix = true → tableSuffix.isSuffixOf (value.map Char.toLower) = true

theorem validateExternalSegment_eq_ok {part : Text} : validateExternalSegment part = .ok () ↔
    part ≠ [] ∧ part ≠ ['.'] ∧ part ≠ ['.', '.'] ∧ part.all isExternalPathCharacter = true := by
  constructor
  · intro h
    obtain ⟨_, hdots, h⟩ := bind_eq_ok.mp h
    obtain ⟨_, -, hchars⟩ := bind_eq_ok.mp h
    have hdots' := not_or.mp (refuseIf_eq_ok.mp hdots)
    have hchars' := not_or.mp (refuseIf_eq_ok.mp hchars)
    exact ⟨hchars'.1, hdots'.1, hdots'.2, Bool.of_not_eq_false hchars'.2⟩
  · intro h
    obtain ⟨hne, hdot, hdots, hchars⟩ := h
    have hcolon : ':' ∉ part := fun hmem => absurd (List.all_eq_true.mp hchars ':' hmem) (by decide)
    simp [validateExternalSegment, refuseIf, hne, hdot, hdots, hchars, hcolon]

namespace ExternalPath
variable {value path : Text} {requireTableSuffix : Bool}

theorem character (h : ExternalPath value requireTableSuffix) {c : Char} (hc : c ∈ value) :
    c = '/' ∨ isExternalPathCharacter c = true := by
  by_cases hslash : c = '/'
  · exact Or.inl hslash
  · have hsplit : ∃ part ∈ value.splitOn '/', c ∈ part := exists_mem_splitOnP hc (by simpa using hslash)
    obtain ⟨part, hpart, hin⟩ := hsplit
    exact Or.inr (List.all_eq_true.mp (h.segments part hpart).2.2.2 c hin)

theorem head (h : ExternalPath value requireTableSuffix) : value.head? ≠ some '/' := by
  intro hhead
  obtain ⟨rest, rfl⟩ := List.head?_eq_some_iff.mp hhead
  have hfirst : [] ∈ ('/' :: rest).splitOn '/' := by
    rw [List.splitOn_cons_eq_if_modifyHead, if_pos (by decide)]
    exact List.mem_cons_self
  exact (h.segments [] hfirst).1 rfl

end ExternalPath

theorem validateExternalMetadataPath_eq_ok {value path : Text} {requireTableSuffix : Bool} :
    validateExternalMetadataPath value requireTableSuffix = .ok path ↔ path = value ∧ ExternalPath value requireTableSuffix := by
  constructor
  · intro h
    obtain ⟨_, hbounds, h⟩ := bind_eq_ok.mp h
    obtain ⟨_, -, h⟩ := bind_eq_ok.mp h
    obtain ⟨_, -, h⟩ := bind_eq_ok.mp h
    obtain ⟨_, -, h⟩ := bind_eq_ok.mp h
    obtain ⟨_, hbackslash, h⟩ := bind_eq_ok.mp h
    obtain ⟨_, hsegments, h⟩ := bind_eq_ok.mp h
    obtain ⟨_, hsuffix, h⟩ := bind_eq_ok.mp h
    have hbounds' := not_or.mp (refuseIf_eq_ok.mp hbounds)
    have hsuffix' := not_and.mp (refuseIf_eq_ok.mp hsuffix)
    exact ⟨(Except.ok.inj h).symm, hbounds'.1, not_lt.mp hbounds'.2, refuseIf_eq_ok.mp hbackslash,
      fun part hpart => validateExternalSegment_eq_ok.mp (forM_eq_ok_iff.mp hsegments part hpart),
      fun hrequired => Bool.of_not_eq_false (hsuffix' hrequired)⟩
  · intro h
    obtain ⟨rfl, h⟩ := h
    have hdrive : startsWithDrive path = false := by
      by_contra hdrive
      have hcolon : ':' ∈ path := by
        unfold startsWithDrive at hdrive
        split at hdrive
        · simp
        · exact absurd rfl hdrive
      rcases h.character hcolon with hslash | hchar
      · exact absurd hslash (by decide)
      · exact absurd hchar (by decide)
    have hfront : ¬ (['\\', '\\'].isPrefixOf path = true ∨ ['/', '/'].isPrefixOf path = true) := by
      intro hfront
      rcases hfront with hback | hslash
      · obtain ⟨rest, hrest⟩ := List.isPrefixOf_iff_prefix.mp hback
        exact h.no_backslash (hrest ▸ by simp)
      · obtain ⟨rest, hrest⟩ := List.isPrefixOf_iff_prefix.mp hslash
        exact h.head (hrest ▸ rfl)
    have hbounds : ¬ (path = [] ∨ maxExternalPathLength < path.length) := not_or.mpr ⟨h.nonempty, not_lt.mpr h.bounded⟩
    have hsegments : (path.splitOn '/').forM validateExternalSegment = .ok () :=
      forM_eq_ok_iff.mpr fun part hpart => validateExternalSegment_eq_ok.mpr (h.segments part hpart)
    have hsuffix : ¬ (requireTableSuffix = true ∧ tableSuffix.isSuffixOf (path.map Char.toLower) = false) := by
      rw [not_and, Bool.not_eq_false]
      exact h.suffix
    simp only [validateExternalMetadataPath, refuseIf, if_neg hbounds, if_neg h.head, hdrive, if_neg hfront,
      if_neg h.no_backslash, hsegments, if_neg hsuffix, ok_bind, Bool.false_eq_true, if_false]
    rfl

theorem pathOrEmpty_char (v : Json) : pathOrEmpty v = jsonTextOrEmpty v := by cases v <;> rfl

theorem memberTable_external (v : Json) : memberTable true v = validateExternalMetadataPath (jsonTextOrEmpty v) true := by
  rw [memberTable, if_pos rfl, pathOrEmpty_char]
  cases hpath : validateExternalMetadataPath (jsonTextOrEmpty v) true with
  | error e => rfl
  | ok path => rw [(validateExternalMetadataPath_eq_ok.mp hpath).1]; rfl

theorem not_whitespace_of_toLower {c d : Char} (h : c.toLower = d) (hd : isWhitespace d = false) : isWhitespace c = false := by
  by_contra hblank
  rw [Bool.not_eq_false] at hblank
  have hself : c.toLower = c := by
    apply toLower_eq_self
    simp only [isWhitespace, TextChar.codePoint_char, Bool.or_eq_true, Bool.and_eq_true, decide_eq_true_eq,
      beq_iff_eq] at hblank
    omega
  rw [hself] at h
  rw [h, hd] at hblank
  cases hblank

section Normalized
variable {value path : Text} (h : ExternalPath value true) (hn : TablePathAccepted value path)
include h

theorem ExternalPath.suffix_characters : ∃ front a b c d, value = front ++ [a, b, c, d] ∧
    [a, b, c, d].map Char.toLower = tableSuffix ∧ isWhitespace a = false ∧ isWhitespace d = false := by
  obtain ⟨front, hfront⟩ := List.isSuffixOf_iff_suffix.mp (h.suffix rfl)
  obtain ⟨front', tail, rfl, -, htail⟩ := List.map_eq_append_iff.mp hfront.symm
  have hlength : tail.length = 4 := by simpa [tableSuffix] using congrArg List.length htail
  match tail, hlength with
  | [a, b, c, d], _ =>
    have hchars : a.toLower = '.' ∧ b.toLower = 'd' ∧ c.toLower = 'b' ∧ d.toLower = 'f' := by
      simpa [tableSuffix] using htail
    exact ⟨front', a, b, c, d, rfl, htail, not_whitespace_of_toLower hchars.1 (by decide),
      not_whitespace_of_toLower hchars.2.2.2 (by decide)⟩

theorem ExternalPath.strip_eq : ∃ front a b c d, strip value = front ++ [a, b, c, d] ∧
    [a, b, c, d].map Char.toLower = tableSuffix ∧ isWhitespace d = false ∧
      value = value.takeWhile isWhitespace ++ strip value := by
  obtain ⟨front, a, b, c, d, hvalue, hlower, ha, hd⟩ := h.suffix_characters
  have hfront : value.dropWhile isWhitespace = front.dropWhile isWhitespace ++ [a, b, c, d] := by
    rw [hvalue, List.dropWhile_append]
    split_ifs with hempty
    · rw [List.isEmpty_iff.mp hempty, List.dropWhile_cons_of_neg (by simp [ha])]
      rfl
    · rfl
  have hstrip : strip value = value.dropWhile isWhitespace := by
    have hback : (value.dropWhile isWhitespace).rdropWhile isWhitespace = value.dropWhile isWhitespace := by
      have hconcat : value.dropWhile isWhitespace = (front.dropWhile isWhitespace ++ [a, b, c]) ++ [d] := by simp [hfront]
      rw [hconcat]
      exact List.rdropWhile_concat_neg _ _ d (by simp [hd])
    exact hback
  exact ⟨_, a, b, c, d, hstrip.trans hfront, hlower, hd, by rw [hstrip, List.takeWhile_append_dropWhile]⟩

theorem ExternalPath.mem_of_mem_strip {c : Char} (hc : c ∈ strip value) : c ∈ value := by
  obtain ⟨_, _, _, _, _, -, -, -, hvalue⟩ := h.strip_eq
  rw [hvalue]
  exact List.mem_append_right _ hc

theorem ExternalPath.splitOn_strip : (strip value).splitOnP isPathSeparator = (strip value).splitOn '/' := by
  apply splitOnP_congr
  intro c hc
  have hne : c ≠ '\\' := fun heq => h.no_backslash (heq ▸ h.mem_of_mem_strip hc)
  simp [isPathSeparator, hne]

include hn

/-- Normalization takes away leading blanks and nothing else. -/
theorem ExternalPath.normalized_eq : path = strip value := by
  obtain ⟨_, _, _, _, _, -, -, -, hvalue⟩ := h.strip_eq
  have hsplit : value.splitOn '/' = ((strip value).splitOn '/').modifyHead (value.takeWhile isWhitespace ++ ·) := by
    have hfront : ∀ c ∈ value.takeWhile isWhitespace, (c == '/') = false := by
      intro c hc
      have hblank := List.mem_takeWhile_imp hc
      simpa using fun heq : c = '/' => absurd (heq ▸ hblank) (by decide)
    have happend : (value.takeWhile isWhitespace ++ strip value).splitOn '/' = _ := splitOnP_append_of_clean hfront
    rwa [← hvalue] at happend
  obtain ⟨first, rest, hfirst⟩ := List.exists_cons_of_ne_nil (List.splitOn_ne_nil '/' (strip value))
  have hnonempty : ∀ part ∈ (strip value).splitOn '/', part ≠ [] := by
    intro part hpart
    rw [hfirst] at hpart
    rcases List.mem_cons.mp hpart with rfl | hpart
    · intro hnil
      apply hn.relative
      rw [h.splitOn_strip, hfirst, hnil]
      rfl
    · refine (h.segments part ?_).1
      rw [hsplit, hfirst]
      exact List.mem_cons_of_mem _ hpart
  have hsegments : tableSegments value = (strip value).splitOn '/' := by
    rw [tableSegments, segmentsOf, h.splitOn_strip]
    exact List.filter_eq_self.mpr fun part hpart => by simpa using hnonempty part hpart
  rw [hn.joined, hsegments, TextChar.ofChar_char, List.intercalate_splitOn]

theorem ExternalPath.normalized : endsBlank path = false ∧ ExternalPath path true := by
  have hpath := h.normalized_eq hn
  obtain ⟨front, a, b, c, d, hstrip, hlower, hd, -⟩ := h.strip_eq
  have hmem : ∀ c ∈ path, c ∈ value := fun c hc => h.mem_of_mem_strip (hpath ▸ hc)
  have hsplit : path.splitOn '/' = tableSegments value := by
    rw [hpath, ← h.splitOn_strip, ← hpath, hn.splitOnP_path]
  constructor
  · rw [hpath, hstrip, endsBlank]
    simp [hd]
  refine ⟨hpath ▸ hn.present, hn.length_le.trans h.bounded, fun hback => h.no_backslash (hmem _ hback), ?_, fun _ => ?_⟩
  · intro part hpart
    have hchars : ∀ c ∈ part, isExternalPathCharacter c = true := by
      intro c hc
      have hin := forall_of_mem_splitOnP hpart c hc
      rcases h.character (hmem c hin.1) with rfl | hchar
      · exact absurd hin.2 (by decide)
      · exact hchar
    have hinside := hn.inside part (hsplit ▸ hpart)
    exact ⟨(TablePathAccepted.clean (hsplit ▸ hpart)).1, hinside.1, hinside.2.1, List.all_eq_true.mpr hchars⟩
  · rw [hpath, hstrip, List.map_append, hlower]
    exact List.isSuffixOf_iff_suffix.mpr (List.suffix_append _ _)

end Normalized

end DbfAnonymizer.Relationships
