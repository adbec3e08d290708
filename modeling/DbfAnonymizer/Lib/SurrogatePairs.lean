import Mathlib.Data.List.Chain
import DbfAnonymizer.Lib.JsonText

/-! What quotations tell of texts of code points: a high surrogate in front of a low one is quoted as the code point
beyond the basic plane that the two stand for. -/
namespace DbfAnonymizer.Lib.CodePoint
open Json

/-- The code units that UTF-16 has for a code point. -/
def units (c : CodePoint) : List ℕ :=
  if c.val < 0x10000 then [c.val] else [0xd800 + (c.val - 0x10000) / 1024, 0xdc00 + (c.val - 0x10000) % 1024]

theorem units_basic {c : CodePoint} (h : c.val < 0x10000) : units c = [c.val] := if_pos h

theorem units_supplementary {c : CodePoint} (h : 0x10000 ≤ c.val) :
    units c = [0xd800 + (c.val - 0x10000) / 1024, 0xdc00 + (c.val - 0x10000) % 1024] := if_neg (not_lt.mpr h)

theorem units_lt {c : CodePoint} {u : ℕ} (h : u ∈ units c) : u < 0x10000 := by
  have hc := c.isLt
  unfold units at h
  split_ifs at h with hbasic
  · rw [List.mem_singleton] at h
    omega
  · simp only [List.mem_cons, List.not_mem_nil, or_false] at h
    omega

def unitText (u : ℕ) : List Char :=
  if h : u.isValidChar then escapeChar (Char.ofNatAux u h) else '\\' :: 'u' :: hex4 u

theorem unitText_surrogate {u : ℕ} (h : 0xd800 ≤ u ∧ u < 0xe000) : unitText u = '\\' :: 'u' :: hex4 u := by
  apply dif_neg
  simp only [Nat.isValidChar]
  omega

theorem toNat_ofNatAux {n : ℕ} (h : n.isValidChar) : (Char.ofNatAux n h).toNat = n := rfl

theorem escapeChar_supplementary {d : Char} (h : 0x10000 ≤ d.toNat) :
    escapeChar d = '\\' :: 'u' :: hex4 (0xd800 + (d.toNat - 0x10000) / 1024) ++
      '\\' :: 'u' :: hex4 (0xdc00 + (d.toNat - 0x10000) % 1024) := by
  have hne : ∀ e : Char, e.toNat < 0x10000 → d ≠ e := by
    intro e he heq
    rw [heq] at h
    omega
  unfold escapeChar
  rw [if_neg (hne '"' (by decide)), if_neg (hne '\\' (by decide)), if_neg (hne '\n' (by decide)), if_neg (hne '\r' (by decide)),
    if_neg (hne '\t' (by decide)), if_neg (hne '\x0c' (by decide)), if_neg (hne '\x08' (by decide)), if_neg (by omega),
    if_neg (by omega)]

theorem escape_of_scalar? {c : CodePoint} {d : Char} (h : CodePoint.scalar? c = some d) : escape c = escapeChar d := by
  have hscalar : TextChar.scalar? c = some d := h
  rw [escape, hscalar]

theorem escape_of_none {c : CodePoint} (h : CodePoint.scalar? c = none) : escape c = '\\' :: 'u' :: hex4 c.val := by
  have hscalar : TextChar.scalar? c = none := h
  rw [escape, hscalar]
  rfl

theorem escape_eq (c : CodePoint) : escape c = (units c).flatMap unitText := by
  have hlt := c.isLt
  by_cases hbasic : c.val < 0x10000
  · rw [units_basic hbasic, List.flatMap_singleton]
    by_cases hvalid : c.val.isValidChar
    · rw [escape_of_scalar? (dif_pos hvalid), unitText, dif_pos hvalid]
    · rw [escape_of_none (dif_neg hvalid), unitText, dif_neg hvalid]
  · have hvalid : c.val.isValidChar := by
      simp only [Nat.isValidChar]
      omega
    rw [units_supplementary (not_lt.mp hbasic), List.flatMap_cons, List.flatMap_singleton, unitText_surrogate (by omega),
      unitText_surrogate (by omega)]
    rw [escape_of_scalar? (dif_pos hvalid)]
    exact escapeChar_supplementary (not_lt.mp hbasic)

def readUnit : List Char → Option (ℕ × List Char)
  | [] => none
  | c :: rest =>
    if c = '\\' then
      match rest with
      | 'u' :: rest => hexValue4 rest
      | rest => (unescape rest).map fun p => (p.1.toNat, p.2)
    else some (c.toNat, rest)

theorem readUnit_unitText {u : ℕ} (h : u < 0x10000) (rest : List Char) : readUnit (unitText u ++ rest) = some (u, rest) := by
  by_cases hvalid : u.isValidChar
  · rw [unitText, dif_pos hvalid]
    have hu := toNat_ofNatAux hvalid
    generalize Char.ofNatAux u hvalid = c at hu
    rw [← hu] at h ⊢
    unfold escapeChar
    dsimp only
    split_ifs with hquote hslash hn hr ht hf hb hplain
    · rw [hquote]
      rfl
    · rw [hslash]
      rfl
    · rw [hn]
      rfl
    · rw [hr]
      rfl
    · rw [ht]
      rfl
    · rw [hf]
      rfl
    · rw [hb]
      rfl
    · exact if_neg hslash
    · exact hexValue4_hex4 h rest
  · rw [unitText, dif_neg hvalid]
    exact hexValue4_hex4 h rest

theorem unitText_ne_quote (u : ℕ) (rest rest' : List Char) : unitText u ++ rest ≠ '"' :: rest' := by
  have hslash : ∀ tail : List Char, '\\' :: tail ++ rest ≠ '"' :: rest' := by
    intro tail heq
    cases heq
  by_cases hvalid : u.isValidChar
  · rw [unitText, dif_pos hvalid]
    generalize Char.ofNatAux u hvalid = c
    unfold escapeChar
    dsimp only
    split_ifs with hquote
    all_goals first
      | exact hslash _
      | intro heq; exact hquote (List.cons.inj heq).1
  · rw [unitText, dif_neg hvalid]
    exact hslash _

theorem units_of_quoted {us us' : List ℕ} (h : ∀ u ∈ us, u < 0x10000) (h' : ∀ u ∈ us', u < 0x10000) {rest rest' : List Char}
    (heq : us.flatMap unitText ++ '"' :: rest = us'.flatMap unitText ++ '"' :: rest') : us = us' ∧ rest = rest' := by
  induction us generalizing us' with
  | nil =>
    cases us' with
    | nil => exact ⟨rfl, (List.cons.inj heq).2⟩
    | cons u' us' =>
      rw [List.flatMap_cons, List.append_assoc] at heq
      exact absurd heq.symm (unitText_ne_quote u' _ _)
  | cons u us ih =>
    cases us' with
    | nil =>
      rw [List.flatMap_cons, List.append_assoc] at heq
      exact absurd heq (unitText_ne_quote u _ _)
    | cons u' us' =>
      rw [List.flatMap_cons, List.flatMap_cons, List.append_assoc, List.append_assoc] at heq
      have hread := readUnit_unitText (h u List.mem_cons_self) (us.flatMap unitText ++ '"' :: rest)
      rw [heq, readUnit_unitText (h' u' List.mem_cons_self)] at hread
      obtain ⟨hu, htail⟩ := Prod.mk.inj (Option.some.inj hread)
      have hrest := ih (fun v hv => h v (List.mem_cons_of_mem _ hv)) (fun v hv => h' v (List.mem_cons_of_mem _ hv)) htail.symm
      exact ⟨by rw [hu, hrest.1], hrest.2⟩

theorem units_of_quote {s s' : List CodePoint} {rest rest' : List Char} (h : quote s ++ rest = quote s' ++ rest') :
    s.flatMap units = s'.flatMap units ∧ rest = rest' := by
  have htext : ∀ t : List CodePoint, ∀ tail, quote t ++ tail = '"' :: ((t.flatMap units).flatMap unitText ++ '"' :: tail) := by
    intro t tail
    rw [List.flatMap_assoc, ← funext escape_eq]
    simp [quote]
  rw [htext, htext] at h
  have hlt : ∀ t : List CodePoint, ∀ u ∈ t.flatMap units, u < 0x10000 := by
    intro t u hu
    obtain ⟨c, -, hc⟩ := List.mem_flatMap.mp hu
    exact units_lt hc
  exact units_of_quoted (hlt s) (hlt s') (List.cons.inj h).2

/-- No high surrogate stands directly in front of a low one. -/
def Unpaired (s : List CodePoint) : Prop := s.IsChain fun c d => ¬ (c.isHigh ∧ d.isLow)

/-- The text is unpaired, and nothing in it is beyond the basic plane. -/
def Basic (s : List CodePoint) : Prop := Unpaired s ∧ ∀ c ∈ s, c.val < 0x10000

/-- Where the units of an unpaired text are those of a code point beyond the basic plane, it has that code point. -/
theorem cons_of_units {c : CodePoint} {s s' : List CodePoint} (hc : 0x10000 ≤ c.val) (hs' : Unpaired s')
    (h : (c :: s).flatMap units = s'.flatMap units) : ∃ t, s' = c :: t ∧ s.flatMap units = t.flatMap units := by
  have hlt := c.isLt
  rw [List.flatMap_cons, units_supplementary hc] at h
  cases s' with
  | nil => cases h
  | cons d t =>
    rw [List.flatMap_cons] at h
    by_cases hd : d.val < 0x10000
    · simp only [units_basic hd, List.cons_append, List.nil_append] at h
      obtain ⟨hhigh, htail⟩ := List.cons.inj h
      cases t with
      | nil => cases htail
      | cons e t =>
        rw [List.flatMap_cons] at htail
        have hpair : ¬ (d.isHigh ∧ e.isLow) := (List.isChain_cons_cons.mp hs').1
        by_cases he : e.val < 0x10000
        · rw [units_basic he] at htail
          have hlow := (List.cons.inj htail).1
          refine absurd ⟨?_, ?_⟩ hpair
          · unfold CodePoint.isHigh
            omega
          · unfold CodePoint.isLow
            omega
        · rw [units_supplementary (not_lt.mp he)] at htail
          have hlow := (List.cons.inj htail).1
          have hlt' := e.isLt
          omega
    · have hlt' := d.isLt
      rw [units_supplementary (not_lt.mp hd)] at h
      obtain ⟨hhigh, htail⟩ := List.cons.inj h
      obtain ⟨hlow, hrest⟩ := List.cons.inj htail
      have hsame : d = c := Fin.ext (by omega)
      exact ⟨t, by rw [hsame], hrest⟩

theorem eq_of_units {s s' : List CodePoint} (hs : Unpaired s) (hs' : Unpaired s')
    (h : s.flatMap units = s'.flatMap units) : s = s' := by
  induction s generalizing s' with
  | nil =>
    cases s' with
    | nil => rfl
    | cons d t =>
      rw [List.flatMap_cons] at h
      unfold units at h
      split_ifs at h
      · cases h
      · cases h
  | cons c s ih =>
    have htail : Unpaired s := List.IsChain.tail hs
    by_cases hc : 0x10000 ≤ c.val
    · obtain ⟨t, rfl, hrest⟩ := cons_of_units hc hs' h
      have hrest' : Unpaired t := List.IsChain.tail hs'
      rw [ih htail hrest' hrest]
    · cases s' with
      | nil =>
        rw [List.flatMap_cons, units_basic (not_le.mp hc)] at h
        cases h
      | cons d t =>
        by_cases hd : 0x10000 ≤ d.val
        · obtain ⟨_, heq, -⟩ := cons_of_units hd hs h.symm
          rw [(List.cons.inj heq).1] at hc
          exact absurd hd hc
        · rw [List.flatMap_cons, List.flatMap_cons, units_basic (not_le.mp hc), units_basic (not_le.mp hd)] at h
          obtain ⟨hhead, hrest⟩ := List.cons.inj h
          have hrest' : Unpaired t := List.IsChain.tail hs'
          rw [Fin.ext hhead, ih htail hrest' hrest]

theorem quotedApart_unpaired : QuotedApart Unpaired Unpaired := by
  intro s s' rest rest' hs hs' h
  obtain ⟨hunits, hrest⟩ := units_of_quote h
  exact ⟨eq_of_units hs hs' hunits, hrest⟩

theorem not_isHigh_ofChar (c : Char) : ¬ (ofChar c).isHigh := by
  have hvalid : c.toNat.isValidChar := c.valid
  simp only [Nat.isValidChar] at hvalid
  show ¬ (0xd800 ≤ c.toNat ∧ c.toNat < 0xdc00)
  omega

theorem unpaired_ofPlain (s : List Char) : Unpaired (TextChar.ofPlain s) := by
  show (s.map ofChar).IsChain _
  rw [List.isChain_map]
  exact (List.pairwise_of_forall fun c d hpair => not_isHigh_ofChar c hpair.1).isChain

def join (high low : CodePoint) (h : high.isHigh ∧ low.isLow) : CodePoint :=
  ⟨0x10000 + (high.val - 0xd800) * 1024 + (low.val - 0xdc00), by
    unfold CodePoint.isHigh CodePoint.isLow at h
    omega⟩

theorem le_join {high low : CodePoint} (h : high.isHigh ∧ low.isLow) : 0x10000 ≤ (join high low h).val := by
  show 0x10000 ≤ 0x10000 + (high.val - 0xd800) * 1024 + (low.val - 0xdc00)
  omega

theorem units_join {high low : CodePoint} (h : high.isHigh ∧ low.isLow) : units (join high low h) = [high.val, low.val] := by
  rw [units_supplementary (le_join h)]
  show [0xd800 + (0x10000 + (high.val - 0xd800) * 1024 + (low.val - 0xdc00) - 0x10000) / 1024,
    0xdc00 + (0x10000 + (high.val - 0xd800) * 1024 + (low.val - 0xdc00) - 0x10000) % 1024] = _
  unfold CodePoint.isHigh CodePoint.isLow at h
  have hhigh : 0xd800 + (0x10000 + (high.val - 0xd800) * 1024 + (low.val - 0xdc00) - 0x10000) / 1024 = high.val := by omega
  have hlow : 0xdc00 + (0x10000 + (high.val - 0xd800) * 1024 + (low.val - 0xdc00) - 0x10000) % 1024 = low.val := by omega
  rw [hhigh, hlow]

theorem units_pair {high low : CodePoint} (h : high.isHigh ∧ low.isLow) :
    [high, low].flatMap units = units (join high low h) := by
  have hhigh : high.val < 0x10000 := h.1.2.trans (by decide)
  have hlow : low.val < 0x10000 := h.2.2.trans (by decide)
  rw [units_join, List.flatMap_cons, List.flatMap_singleton, units_basic hhigh, units_basic hlow]
  rfl

theorem le_of_mem_pair {high low c : CodePoint} (h : high.isHigh ∧ low.isLow) (hc : c ∈ [high, low]) : 0xd800 ≤ c.val := by
  simp only [List.mem_cons, List.not_mem_nil, or_false] at hc
  rcases hc with rfl | rfl
  · exact h.1.1
  · exact le_trans (by decide) h.2.1

/-- What is beyond the basic plane is a pair of surrogates put together. -/
theorem exists_pair {c : CodePoint} (hc : 0x10000 ≤ c.val) :
    ∃ high low, ∃ h : high.isHigh ∧ low.isLow, join high low h = c := by
  have hlt := c.isLt
  have hhigh : ∃ high : CodePoint, high.val = 0xd800 + (c.val - 0x10000) / 1024 := ⟨⟨_, by omega⟩, rfl⟩
  have hlow : ∃ low : CodePoint, low.val = 0xdc00 + (c.val - 0x10000) % 1024 := ⟨⟨_, by omega⟩, rfl⟩
  obtain ⟨high, hhigh⟩ := hhigh
  obtain ⟨low, hlow⟩ := hlow
  have hpair : high.isHigh ∧ low.isLow := by
    unfold CodePoint.isHigh CodePoint.isLow
    omega
  refine ⟨high, low, hpair, Fin.ext ?_⟩
  show 0x10000 + (high.val - 0xd800) * 1024 + (low.val - 0xdc00) = c.val
  omega

theorem quote_congr {s s' : List CodePoint} (h : s.flatMap units = s'.flatMap units) : quote s = quote s' := by
  have hescaped : ∀ t : List CodePoint, t.flatMap escape = (t.flatMap units).flatMap unitText := by
    intro t
    rw [List.flatMap_assoc, ← funext escape_eq]
  rw [quote, quote, hescaped, hescaped, h]

/-- The text with every pair of surrogates put together. -/
def joined : List CodePoint → List CodePoint
  | c :: d :: rest => if h : c.isHigh ∧ d.isLow then join c d h :: joined rest else c :: joined (d :: rest)
  | s => s

theorem units_joined (s : List CodePoint) : (joined s).flatMap units = s.flatMap units := by
  fun_induction joined s with
  | case1 c d rest h ih =>
    rw [List.flatMap_cons, ih, ← units_pair h, ← List.flatMap_append]
    rfl
  | case2 c d rest h ih => rw [List.flatMap_cons, ih, List.flatMap_cons (x := c)]
  | case3 s h => rfl

theorem head?_joined {s : List CodePoint} {c : CodePoint} (h : (joined s).head? = some c) :
    s.head? = some c ∨ 0x10000 ≤ c.val := by
  fun_induction joined s with
  | case1 d e rest hpair =>
    obtain rfl := Option.some.inj h
    exact Or.inr (le_join hpair)
  | case2 d e rest hpair => exact Or.inl h
  | case3 s hs => exact Or.inl h

theorem unpaired_joined (s : List CodePoint) : Unpaired (joined s) := by
  fun_induction joined s with
  | case1 c d rest h ih =>
    apply List.isChain_cons.mpr
    refine ⟨fun e _ hpair => ?_, ih⟩
    have hle := le_join h
    have hhigh := hpair.1.2
    omega
  | case2 c d rest h ih =>
    apply List.isChain_cons.mpr
    refine ⟨fun e he hpair => ?_, ih⟩
    rcases head?_joined he with hhead | hle
    · obtain rfl := Option.some.inj hhead
      exact h hpair
    · have hlow := hpair.2.2
      omega
  | case3 s h =>
    match s, h with
    | [], _ => exact List.isChain_nil
    | [c], _ => exact List.isChain_singleton c
    | c :: d :: rest, h => exact absurd rfl (h c d rest)

theorem joined_eq_self {s : List CodePoint} (h : ∀ c ∈ joined s, c.val < 0x10000) : joined s = s := by
  fun_induction joined s with
  | case1 c d rest hpair ih =>
    have hle := le_join hpair
    have hlt := h _ List.mem_cons_self
    omega
  | case2 c d rest hpair ih => rw [ih fun e he => h e (List.mem_cons_of_mem _ he)]
  | case3 s hs => rfl

/-- A text that is not basic can be spelled otherwise at one place, where it has surrogates or what is beyond the basic
plane. -/
theorem exists_respelling {s : List CodePoint} (h : ¬ Basic s) : ∃ front part part' back, s = front ++ part ++ back ∧
    part ≠ part' ∧ part.flatMap units = part'.flatMap units ∧ part ≠ [] ∧ part' ≠ [] ∧
      (∀ c ∈ part, 0xd800 ≤ c.val) ∧ ∀ c ∈ part', 0xd800 ≤ c.val := by
  by_cases hbasic : ∀ c ∈ s, c.val < 0x10000
  · have hpaired : ¬ Unpaired s := fun hunpaired => h ⟨hunpaired, hbasic⟩
    unfold Unpaired at hpaired
    rw [List.isChain_iff_forall_rel_of_append_cons_cons] at hpaired
    push Not at hpaired
    obtain ⟨c, d, front, back, rfl, hpair⟩ := hpaired
    have hle : ∀ e ∈ [join c d hpair], 0xd800 ≤ e.val := by
      intro e he
      rw [List.mem_singleton] at he
      exact le_trans (by decide) (he ▸ le_join hpair)
    exact ⟨front, [c, d], [join c d hpair], back, by simp, by simp, by rw [List.flatMap_singleton, units_pair], by simp,
      by simp, fun _ => le_of_mem_pair hpair, hle⟩
  · push Not at hbasic
    obtain ⟨c, hmem, hc⟩ := hbasic
    obtain ⟨front, back, rfl⟩ := List.append_of_mem hmem
    obtain ⟨high, low, hpair, rfl⟩ := exists_pair hc
    have hle : ∀ e ∈ [join high low hpair], 0xd800 ≤ e.val := by
      intro e he
      rw [List.mem_singleton] at he
      exact le_trans (by decide) (he ▸ hc)
    exact ⟨front, [join high low hpair], [high, low], back, by simp, by simp, by rw [List.flatMap_singleton, units_pair],
      by simp, by simp, hle, fun _ => le_of_mem_pair hpair⟩

end DbfAnonymizer.Lib.CodePoint
