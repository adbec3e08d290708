import Mathlib.Tactic.IntervalCases
import DbfAnonymizer.Lib.Json

/-! The parser reads back what the printer wrote. -/
namespace DbfAnonymizer.Lib.Json

theorem hexValue_hexDigit (n : ℕ) : hexValue (hexDigit n) = some (n % 16) := by
  have hlt : n % 16 < 16 := Nat.mod_lt n (by omega)
  have hall : ∀ d < 16, hexValue (Nat.digitChar d) = some d := by decide
  exact hall _ hlt

theorem hexValue4_hex4 {n : ℕ} (h : n < 65536) (rest : List Char) :
    hexValue4 (hex4 n ++ rest) = some (n, rest) := by
  have hsum : n / 4096 % 16 * 4096 + n / 256 % 16 * 256 + n / 16 % 16 * 16 + n % 16 = n := by omega
  simp [hex4, hexValue4, hexValue_hexDigit, hsum]

theorem unescapeUnicode_basic {c : Char} (h : c.toNat < 65536) (rest : List Char) :
    unescapeUnicode (hex4 c.toNat ++ rest) = some (c, rest) := by
  have hvalid : ¬ (55296 ≤ c.toNat ∧ c.toNat < 57344) := by
    have hscalar : c.toNat.isValidChar := c.valid
    simp only [Nat.isValidChar] at hscalar
    omega
  have hhigh : ¬ (55296 ≤ c.toNat ∧ c.toNat < 56320) := by omega
  have hlow : ¬ (56320 ≤ c.toNat ∧ c.toNat < 57344) := by omega
  unfold unescapeUnicode
  rw [hexValue4_hex4 h]
  simp [hhigh, hlow, Char.ofNat_toNat]

theorem unescapeUnicode_surrogates {c : Char} {high low : ℕ} (hhigh : 55296 ≤ high ∧ high < 56320)
    (hlow : 56320 ≤ low ∧ low < 57344) (hback : 65536 + (high - 55296) * 1024 + (low - 56320) = c.toNat)
    (rest : List Char) :
    unescapeUnicode (hex4 high ++ ('\\' :: 'u' :: hex4 low ++ rest)) = some (c, rest) := by
  have hfirst := hexValue4_hex4 (show high < 65536 by omega) ('\\' :: 'u' :: hex4 low ++ rest)
  have hsecond := hexValue4_hex4 (show low < 65536 by omega) rest
  unfold unescapeUnicode
  rw [hfirst]
  simp only [Option.bind_eq_bind, Option.bind_some]
  rw [if_pos hhigh]
  simp only [List.cons_append, after, if_true, Option.bind_some, hsecond]
  rw [if_pos hlow, hback, Char.ofNat_toNat]

theorem parseString_escape {n : ℕ} {c : Char} (escaped : List Char) {rest : List Char}
    (h : unescape (escaped ++ rest) = some (c, rest)) :
    parseString (n + 1) ('\\' :: escaped ++ rest) = (parseString n rest).map fun p => (c :: p.1, p.2) := by
  rw [List.cons_append, parseString, if_neg (by decide), if_pos rfl, h]
  simp only [Option.bind_eq_bind, Option.bind_some]
  cases parseString n rest with
  | none => rfl
  | some p => rfl

theorem parseString_surrogates {n : ℕ} {c : Char} {high low : ℕ} (hhigh : 55296 ≤ high ∧ high < 56320)
    (hlow : 56320 ≤ low ∧ low < 57344) (hback : 65536 + (high - 55296) * 1024 + (low - 56320) = c.toNat)
    (rest : List Char) :
    parseString (n + 1) ('\\' :: 'u' :: hex4 high ++ '\\' :: 'u' :: hex4 low ++ rest) =
      (parseString n rest).map fun p => (c :: p.1, p.2) := by
  apply parseString_escape ('u' :: hex4 high ++ '\\' :: 'u' :: hex4 low)
  rw [List.append_assoc]
  exact unescapeUnicode_surrogates hhigh hlow hback rest

theorem parseString_escapeChar (n : ℕ) (c : Char) (rest : List Char) :
    parseString (n + 1) (escapeChar c ++ rest) = (parseString n rest).map fun p => (c :: p.1, p.2) := by
  unfold escapeChar
  dsimp only
  split_ifs with hquote hslash hn hr ht hf hb hplain hbasic
  · rw [hquote]
    exact parseString_escape ['"'] rfl
  · rw [hslash]
    exact parseString_escape ['\\'] rfl
  · rw [hn]
    exact parseString_escape ['n'] rfl
  · rw [hr]
    exact parseString_escape ['r'] rfl
  · rw [ht]
    exact parseString_escape ['t'] rfl
  · rw [hf]
    exact parseString_escape ['f'] rfl
  · rw [hb]
    exact parseString_escape ['b'] rfl
  · rw [List.singleton_append, parseString, if_neg hquote, if_neg hslash, if_neg (by omega)]
    cases parseString n rest with
    | none => rfl
    | some p => rfl
  · exact parseString_escape ('u' :: hex4 c.toNat) (unescapeUnicode_basic hbasic rest)
  · have hlt := CodePoint.toNat_lt c
    have hbasic : 65536 ≤ c.toNat := by omega
    clear hquote hslash hn hr ht hf hb hplain
    generalize hhigh : 55296 + (c.toNat - 65536) / 1024 = high
    generalize hlow : 56320 + (c.toNat - 65536) % 1024 = low
    apply parseString_surrogates
    · omega
    · omega
    · omega

theorem parseString_flatMap {n : ℕ} {s rest : List Char} (h : s.length < n) :
    parseString n (s.flatMap escapeChar ++ '"' :: rest) = some (s, rest) := by
  induction s generalizing n with
  | nil =>
    cases n with
    | zero => cases h
    | succ n => rfl
  | cons c s ih =>
    cases n with
    | zero => cases h
    | succ n =>
      rw [List.flatMap_cons, List.append_assoc, parseString_escapeChar, ih (Nat.lt_of_succ_lt_succ h)]
      rfl

theorem length_le_flatMap_escapeChar (s : List Char) : s.length ≤ (s.flatMap escapeChar).length := by
  induction s with
  | nil => exact Nat.le_refl _
  | cons c s ih =>
    have hc : 1 ≤ (escapeChar c).length := by
      unfold escapeChar
      dsimp only
      split_ifs <;> simp
    rw [List.flatMap_cons, List.length_append, List.length_cons]
    omega

theorem parseString_quote (s rest : List Char) :
    parseString ((s.flatMap escapeChar ++ '"' :: rest).length + 1) (s.flatMap escapeChar ++ '"' :: rest) =
      some (s, rest) := by
  apply parseString_flatMap
  have hlength := length_le_flatMap_escapeChar s
  rw [List.length_append]
  omega

/-- What may follow a value inside a text: the end, a comma or a closing bracket. -/
def Ended (rest : List Char) : Prop := ∀ c ∈ rest.head?, c = ',' ∨ c = ']' ∨ c = '}'

theorem ended_nil : Ended [] := by
  intro c hc
  cases hc

theorem ended_dumpsItems {χ : Type} [TextChar χ] (vs : List (Json χ)) (rest : List Char) : Ended (dumpsItems vs ++ rest) := by
  cases vs with
  | nil => simp [Ended, dumpsItems]
  | cons v vs => simp [Ended, dumpsItems]

theorem ended_dumpsPairs {χ : Type} [TextChar χ] (pairs : List (List Char × Json χ)) (rest : List Char) :
    Ended (dumpsPairs pairs ++ rest) := by
  cases pairs with
  | nil => simp [Ended, dumpsPairs]
  | cons p pairs => simp [Ended, dumpsPairs]

theorem Ended.eq_nil_or_cons {rest : List Char} (h : Ended rest) :
    rest = [] ∨ ∃ c tail, rest = c :: tail ∧ (c = ',' ∨ c = ']' ∨ c = '}') := by
  cases rest with
  | nil => exact .inl rfl
  | cons c tail => exact .inr ⟨c, tail, rfl, h c rfl⟩

theorem head_toDigits {n : ℕ} (h : 0 < n) : ∃ d ds, Nat.toDigits 10 n = d :: ds ∧ d ≠ '0' := by
  induction n using Nat.strong_induction_on with
  | _ n ih =>
    by_cases hlt : n < 10
    · rw [Nat.toDigits_of_lt_base hlt]
      refine ⟨_, _, rfl, ?_⟩
      interval_cases n <;> decide
    · obtain ⟨d, ds, hdigits, hd⟩ := ih (n / 10) (by omega) (by omega)
      refine ⟨d, ds ++ Nat.toDigits 10 (n % 10), ?_, hd⟩
      rw [Nat.toDigits_of_base_le (by omega) (by omega), hdigits, Nat.toDigits_of_lt_base (Nat.mod_lt n (by omega))]
      rfl

theorem parseMagnitude_toDigits (n : ℕ) {rest : List Char} (h : Ended rest) :
    parseMagnitude (Nat.toDigits 10 n ++ rest) = some (Nat.toDigits 10 n, rest) := by
  have hstop : rest.takeWhile Char.isDigit = [] ∧ rest.dropWhile Char.isDigit = rest := by
    rcases h.eq_nil_or_cons with hnil | ⟨c, tail, hrest, hc⟩
    · rw [hnil]
      exact ⟨rfl, rfl⟩
    · rw [hrest]
      rcases hc with hc | hc | hc <;> (rw [hc]; exact ⟨rfl, rfl⟩)
  rcases Nat.eq_zero_or_pos n with hzero | hpos
  · rw [hzero, Nat.toDigits_zero]
    rfl
  · obtain ⟨d, ds, hdigits, hd⟩ := head_toDigits hpos
    have hall : ∀ c ∈ d :: ds, c.isDigit = true := by
      intro c hc
      exact Nat.isDigit_of_mem_toDigits (b := 10) (n := n) (by omega) (by omega) (hdigits ▸ hc)
    have hrun : ∀ c ∈ ds, c.isDigit = true := fun c hc => hall c (List.mem_cons_of_mem d hc)
    rw [hdigits, List.cons_append, parseMagnitude, if_neg hd, if_pos (hall d (List.mem_cons_self ..)),
      List.takeWhile_append_of_pos hrun, List.dropWhile_append_of_pos hrun, hstop.1, hstop.2, List.append_nil]

theorem parseNumber_intText (value : ℤ) {rest : List Char} (h : Ended rest) :
    parseNumber (intText value ++ rest) = some (.int value, rest) := by
  have hmagnitude := parseMagnitude_toDigits value.natAbs h
  have hplain : parseFraction rest = ([], rest) ∧ parseExponent rest = ([], rest) := by
    rcases h.eq_nil_or_cons with hnil | ⟨c, tail, hrest, hc⟩
    · rw [hnil]
      exact ⟨rfl, rfl⟩
    · rw [hrest]
      rcases hc with hc | hc | hc <;> (rw [hc]; exact ⟨rfl, rfl⟩)
  by_cases hneg : value < 0
  · rw [intText, if_pos hneg, List.cons_append, parseNumber]
    simp only [List.head?_cons, if_true, List.tail_cons, hmagnitude, Option.bind_eq_bind, Option.bind_some, hplain.1,
      hplain.2, and_self, Nat.ofDigitChars_ten_toDigits]
    have hvalue : -(value.natAbs : ℤ) = value := by omega
    rw [hvalue]
  · have hhead : (Nat.toDigits 10 value.natAbs ++ rest).head? ≠ some '-' := by
      intro hminus
      have hmem : '-' ∈ Nat.toDigits 10 value.natAbs := by
        cases hdigits : Nat.toDigits 10 value.natAbs with
        | nil => exact absurd hdigits Nat.toDigits_ne_nil
        | cons d ds =>
          rw [hdigits, List.cons_append, List.head?_cons, Option.some.injEq] at hminus
          rw [hminus]
          exact List.mem_cons_self ..
      have hdigit := Nat.isDigit_of_mem_toDigits (b := 10) (n := value.natAbs) (by omega) (by omega) hmem
      exact absurd hdigit (by decide)
    rw [intText, if_neg hneg, parseNumber]
    simp only [hhead, if_false, hmagnitude, Option.bind_eq_bind, Option.bind_some, hplain.1, hplain.2, and_self,
      if_true, Nat.ofDigitChars_ten_toDigits]
    have hvalue : (value.natAbs : ℤ) = value := by omega
    rw [hvalue]

theorem intText_cases (value : ℤ) : ∃ d ds, d.isDigit = true ∧ (intText value = d :: ds ∨ intText value = '-' :: d :: ds) := by
  cases hdigits : Nat.toDigits 10 value.natAbs with
  | nil => exact absurd hdigits Nat.toDigits_ne_nil
  | cons d ds =>
    have hd := Nat.isDigit_of_mem_toDigits (b := 10) (n := value.natAbs) (c := d) (by omega) (by omega) (by simp [hdigits])
    refine ⟨d, ds, hd, ?_⟩
    unfold intText
    split_ifs
    · right
      rw [hdigits]
    · left
      exact hdigits

theorem parseAtom_intText (value : ℤ) {rest : List Char} (h : Ended rest) :
    parseAtom (intText value ++ rest) = some (.int value, rest) := by
  have hnone : (literals.findSome? fun p => (after p.1 (intText value ++ rest)).map fun r => (p.2, r)) = none := by
    obtain ⟨d, ds, hd, htext⟩ := intText_cases value
    have hne : ∀ c : Char, c.isDigit = false → c ≠ d := by
      intro c hc heq
      rw [heq, hd] at hc
      cases hc
    have hn := hne 'n' (by decide)
    have ht := hne 't' (by decide)
    have hf := hne 'f' (by decide)
    have hN := hne 'N' (by decide)
    have hI := hne 'I' (by decide)
    have hminus := hne '-' (by decide)
    rcases htext with htext | htext
    · simp [literals, htext, after, hn, ht, hf, hN, hI, hminus]
    · simp [literals, htext, after, hI]
  unfold parseAtom
  rw [hnone]
  exact parseNumber_intText value h

section Parser
variable {ε : Type} {syntaxError : ε} {hook : List (List Char × Json) → Except ε Json}

mutual
/-- The values the hook keeps as they are, with no number that is a literal. -/
def Kept (hook : List (List Char × Json) → Except ε Json) : Json → Prop
  | .float _ => False
  | .arr items => KeptItems hook items
  | .obj pairs => hook pairs = .ok (.obj pairs) ∧ KeptPairs hook pairs
  | _ => True

def KeptItems (hook : List (List Char × Json) → Except ε Json) : List Json → Prop
  | [] => True
  | v :: vs => Kept hook v ∧ KeptItems hook vs

def KeptPairs (hook : List (List Char × Json) → Except ε Json) : List (List Char × Json) → Prop
  | [] => True
  | (_, v) :: pairs => Kept hook v ∧ KeptPairs hook pairs
end

theorem keptItems_iff {items : List Json} : KeptItems hook items ↔ ∀ v ∈ items, Kept hook v := by
  induction items with
  | nil => simp [KeptItems]
  | cons v vs ih => simp [KeptItems, ih]

theorem keptPairs_iff {pairs : List (List Char × Json)} : KeptPairs hook pairs ↔ ∀ p ∈ pairs, Kept hook p.2 := by
  induction pairs with
  | nil => simp [KeptPairs]
  | cons p pairs ih => simp [KeptPairs, ih]

theorem dumps_head (v : Json) (h : Kept hook v) :
    ∃ c tail, dumps v = c :: tail ∧ isBlank c = false ∧ c ≠ ']' ∧ c ≠ '}' := by
  cases v with
  | null => exact ⟨_, _, rfl, by decide, by decide, by decide⟩
  | bool value => cases value <;> exact ⟨_, _, rfl, by decide, by decide, by decide⟩
  | int value =>
    obtain ⟨d, ds, hd, htext⟩ := intText_cases value
    have hne : ∀ c : Char, c.isDigit = false → d ≠ c := by
      intro c hc heq
      rw [← heq, hd] at hc
      cases hc
    rcases htext with htext | htext
    · refine ⟨d, ds, htext, ?_, hne _ (by decide), hne _ (by decide)⟩
      simp [isBlank, hne ' ' (by decide), hne '\t' (by decide), hne '\n' (by decide), hne '\r' (by decide)]
    · exact ⟨_, _, htext, by decide, by decide, by decide⟩
  | float literal => exact absurd h (by simp [Kept])
  | str value => exact ⟨_, _, rfl, by decide, by decide, by decide⟩
  | arr items => cases items <;> exact ⟨_, _, rfl, by decide, by decide, by decide⟩
  | obj pairs => cases pairs <;> exact ⟨_, _, rfl, by decide, by decide, by decide⟩

theorem skipBlanks_dumps {v : Json} (h : Kept hook v) (rest : List Char) :
    skipBlanks (dumps v ++ rest) = dumps v ++ rest := by
  obtain ⟨c, tail, htext, hblank, -, -⟩ := dumps_head v h
  rw [htext, List.cons_append, skipBlanks, List.dropWhile_cons_of_neg (by simp [hblank])]

theorem skipBlanks_ended {rest : List Char} (h : Ended rest) : skipBlanks rest = rest := by
  rcases h.eq_nil_or_cons with hnil | ⟨c, tail, hrest, hc⟩
  · rw [hnil]
    rfl
  · rw [hrest]
    rcases hc with hc | hc | hc <;> (rw [hc]; rfl)

theorem parseKey_quote (syntaxError : ε) (key : List Char) {v : Json} (h : Kept hook v) (rest : List Char) :
    parseKey syntaxError (quote key ++ ':' :: dumps v ++ rest) = .ok (key, dumps v ++ rest) := by
  have hquote := parseString_quote key (':' :: dumps v ++ rest)
  have htext : quote key ++ ':' :: dumps v ++ rest =
      '"' :: (key.flatMap escapeChar ++ '"' :: (':' :: dumps v ++ rest)) := by
    simp [quote]
  have hblank := skipBlanks_dumps h rest
  rw [htext, parseKey, hquote]
  change Except.ok (key, skipBlanks (dumps v ++ rest)) = _
  rw [hblank]

mutual
/-- Enough fuel to read the value back. -/
def depth : Json → ℕ
  | .arr items => 1 + depthItems items
  | .obj pairs => 1 + depthPairs pairs
  | _ => 1

def depthItems : List Json → ℕ
  | [] => 1
  | v :: vs => 1 + depth v + depthItems vs

def depthPairs : List (List Char × Json) → ℕ
  | [] => 1
  | (_, v) :: pairs => 1 + depth v + depthPairs pairs
end

theorem parseValue_atom {n : ℕ} {c : Char} {tail : List Char} (hquote : c ≠ '"') (hitems : c ≠ '[') (hpairs : c ≠ '{') :
    parseValue syntaxError hook (n + 1) (c :: tail) = orSyntax syntaxError (parseAtom (c :: tail)) := by
  rw [parseValue]
  · rintro _ ⟨⟩
    exact hquote rfl
  · rintro _ ⟨⟩
    exact hitems rfl
  · rintro _ ⟨⟩
    exact hpairs rfl

theorem parseValue_items {n : ℕ} {v : Json} (h : Kept hook v) (rest : List Char) :
    parseValue syntaxError hook (n + 1) ('[' :: (dumps v ++ rest)) = (do
      let (v, rest) ← parseValue syntaxError hook n (dumps v ++ rest)
      let (vs, rest) ← parseItems syntaxError hook n (skipBlanks rest)
      .ok (.arr (v :: vs), rest)) := by
  obtain ⟨c, tail, htext, -, hclose, -⟩ := dumps_head v h
  have hblank := skipBlanks_dumps h rest
  rw [parseValue, hblank]
  split
  · next heq =>
    rw [htext, List.cons_append, List.cons.injEq] at heq
    exact absurd heq.1 hclose
  · rfl

theorem parseValue_pairs {n : ℕ} {key : List Char} {v : Json} (h : Kept hook v) (rest : List Char) :
    parseValue syntaxError hook (n + 1) ('{' :: (quote key ++ ':' :: dumps v ++ rest)) = (do
      let (v, rest) ← parseValue syntaxError hook n (dumps v ++ rest)
      let (pairs, rest) ← parsePairs syntaxError hook n (skipBlanks rest)
      let value ← hook ((key, v) :: pairs)
      .ok (value, rest)) := by
  have hkey := parseKey_quote syntaxError key h rest
  have hblank : skipBlanks (quote key ++ ':' :: dumps v ++ rest) = quote key ++ ':' :: dumps v ++ rest := rfl
  rw [parseValue, hblank]
  split
  · next heq =>
    have hhead : '"' = '}' := (List.cons.inj heq).1
    cases hhead
  · rw [hkey]
    rfl

mutual
theorem parseValue_dumps (v : Json) (h : Kept hook v) {n : ℕ} (hn : depth v ≤ n) {rest : List Char}
    (hrest : Ended rest) : parseValue syntaxError hook n (dumps v ++ rest) = .ok (v, rest) := by
  cases n with
  | zero => cases v <;> simp [depth] at hn
  | succ n =>
    cases v with
    | null => rfl
    | bool value => cases value <;> rfl
    | int value =>
      have hatom := parseAtom_intText value hrest
      obtain ⟨d, ds, hd, htext⟩ := intText_cases value
      have hne : ∀ c : Char, c.isDigit = false → d ≠ c := by
        intro c hc heq
        rw [← heq, hd] at hc
        cases hc
      change parseValue syntaxError hook (n + 1) (intText value ++ rest) = _
      have hvalue : parseValue syntaxError hook (n + 1) (intText value ++ rest) =
          orSyntax syntaxError (parseAtom (intText value ++ rest)) := by
        rcases htext with htext | htext
        · rw [htext, List.cons_append,
            parseValue_atom (hne _ (by decide)) (hne _ (by decide)) (hne _ (by decide))]
        · rw [htext, List.cons_append, parseValue_atom (by decide) (by decide) (by decide)]
      rw [hvalue, hatom]
      rfl
    | float literal => exact absurd h (by simp [Kept])
    | str value =>
      have hquote := parseString_quote value rest
      have htext : dumps (.str value) ++ rest = '"' :: (value.flatMap escapeChar ++ '"' :: rest) := by
        simp [dumps, quote]
      rw [htext, parseValue, hquote]
      rfl
    | arr items =>
      cases items with
      | nil => rfl
      | cons first vs =>
        have hkept : Kept hook first ∧ KeptItems hook vs := by simpa [Kept, KeptItems] using h
        have hdepth : depth first + depthItems vs ≤ n := by
          simp only [depth, depthItems] at hn
          omega
        have hfirst := parseValue_dumps first hkept.1 (n := n) (by omega) (ended_dumpsItems vs rest)
        have hvs := parseItems_dumps vs hkept.2 (n := n) (by omega) rest
        have htext : dumps (.arr (first :: vs)) ++ rest = '[' :: (dumps first ++ (dumpsItems vs ++ rest)) := by
          simp [dumps]
        rw [htext, parseValue_items hkept.1, hfirst, ok_bind]
        dsimp only
        rw [skipBlanks_ended (ended_dumpsItems vs rest), hvs]
        rfl
    | obj pairs =>
      cases pairs with
      | nil =>
        have hhook : hook [] = .ok (.obj []) := by
          have hkept := h
          rw [Kept] at hkept
          exact hkept.1
        change (do let value ← hook []; Except.ok (value, rest)) = _
        rw [hhook]
        rfl
      | cons p pairs =>
        have hhook : hook (p :: pairs) = .ok (.obj (p :: pairs)) ∧ Kept hook p.2 ∧ KeptPairs hook pairs := by
          simpa [Kept, KeptPairs] using h
        have hdepth : depth p.2 + depthPairs pairs ≤ n := by
          simp only [depth, depthPairs] at hn
          omega
        have hfirst := parseValue_dumps p.2 hhook.2.1 (n := n) (by omega) (ended_dumpsPairs pairs rest)
        have hpairs := parsePairs_dumps pairs hhook.2.2 (n := n) (by omega) rest
        have htext : dumps (.obj (p :: pairs)) ++ rest =
            '{' :: (quote p.1 ++ ':' :: dumps p.2 ++ (dumpsPairs pairs ++ rest)) := by
          simp [dumps]
        rw [htext, parseValue_pairs hhook.2.1, hfirst, ok_bind]
        dsimp only
        rw [skipBlanks_ended (ended_dumpsPairs pairs rest), hpairs, ok_bind]
        dsimp only
        rw [hhook.1]
        rfl

theorem parseItems_dumps (items : List Json) (h : KeptItems hook items) {n : ℕ} (hn : depthItems items ≤ n)
    (rest : List Char) : parseItems syntaxError hook n (dumpsItems items ++ rest) = .ok (items, rest) := by
  cases n with
  | zero => cases items <;> simp [depthItems] at hn
  | succ n =>
    cases items with
    | nil => rfl
    | cons first vs =>
      have hkept : Kept hook first ∧ KeptItems hook vs := by simpa [KeptItems] using h
      have hdepth : depth first + depthItems vs ≤ n := by
        simp only [depthItems] at hn
        omega
      have hfirst := parseValue_dumps first hkept.1 (n := n) (by omega) (ended_dumpsItems vs rest)
      have hvs := parseItems_dumps vs hkept.2 (n := n) (by omega) rest
      have htext : dumpsItems (first :: vs) ++ rest = ',' :: (dumps first ++ (dumpsItems vs ++ rest)) := by
        simp [dumpsItems]
      rw [htext, parseItems, skipBlanks_dumps hkept.1, hfirst, ok_bind]
      dsimp only
      rw [skipBlanks_ended (ended_dumpsItems vs rest), hvs]
      rfl

theorem parsePairs_dumps (pairs : List (List Char × Json)) (h : KeptPairs hook pairs) {n : ℕ}
    (hn : depthPairs pairs ≤ n) (rest : List Char) :
    parsePairs syntaxError hook n (dumpsPairs pairs ++ rest) = .ok (pairs, rest) := by
  cases n with
  | zero => cases pairs <;> simp [depthPairs] at hn
  | succ n =>
    cases pairs with
    | nil => rfl
    | cons p pairs =>
      have hkept : Kept hook p.2 ∧ KeptPairs hook pairs := by simpa [KeptPairs] using h
      have hdepth : depth p.2 + depthPairs pairs ≤ n := by
        simp only [depthPairs] at hn
        omega
      have hfirst := parseValue_dumps p.2 hkept.1 (n := n) (by omega) (ended_dumpsPairs pairs rest)
      have hpairs := parsePairs_dumps pairs hkept.2 (n := n) (by omega) rest
      have hkey := parseKey_quote syntaxError p.1 hkept.1 (dumpsPairs pairs ++ rest)
      have htext : dumpsPairs (p :: pairs) ++ rest =
          ',' :: (quote p.1 ++ ':' :: dumps p.2 ++ (dumpsPairs pairs ++ rest)) := by
        simp [dumpsPairs]
      have hblank : skipBlanks (quote p.1 ++ ':' :: dumps p.2 ++ (dumpsPairs pairs ++ rest)) =
          quote p.1 ++ ':' :: dumps p.2 ++ (dumpsPairs pairs ++ rest) := rfl
      rw [htext, parsePairs, hblank, hkey, ok_bind]
      dsimp only
      rw [hfirst, ok_bind]
      dsimp only
      rw [skipBlanks_ended (ended_dumpsPairs pairs rest), hpairs]
      rfl
end

mutual
theorem depth_le_length (v : Json) (h : Kept hook v) : depth v ≤ 2 * (dumps v).length := by
  cases v with
  | null => simp [depth, dumps]
  | bool value => cases value <;> simp [depth, dumps]
  | int value =>
    obtain ⟨d, ds, -, htext⟩ := intText_cases value
    rcases htext with htext | htext <;> (simp [depth, dumps, htext]; omega)
  | float literal => exact absurd h (by simp [Kept])
  | str value => simp [depth, dumps, quote]; omega
  | arr items =>
    cases items with
    | nil => simp [depth, depthItems, dumps]
    | cons first vs =>
      have hkept : Kept hook first ∧ KeptItems hook vs := by simpa [Kept, KeptItems] using h
      have hfirst := depth_le_length first hkept.1
      have hvs := depthItems_le_length vs hkept.2
      simp only [depth, depthItems, dumps, List.length_cons, List.length_append]
      omega
  | obj pairs =>
    cases pairs with
    | nil => simp [depth, depthPairs, dumps]
    | cons p pairs =>
      have hkept : Kept hook p.2 ∧ KeptPairs hook pairs := by
        have hboth : hook (p :: pairs) = .ok (.obj (p :: pairs)) ∧ Kept hook p.2 ∧ KeptPairs hook pairs := by
          simpa [Kept, KeptPairs] using h
        exact hboth.2
      have hfirst := depth_le_length p.2 hkept.1
      have hpairs := depthPairs_le_length pairs hkept.2
      simp only [depth, depthPairs, dumps, List.length_cons, List.length_append]
      omega

theorem depthItems_le_length (items : List Json) (h : KeptItems hook items) :
    depthItems items ≤ 2 * (dumpsItems items).length := by
  cases items with
  | nil => simp [depthItems, dumpsItems]
  | cons first vs =>
    have hkept : Kept hook first ∧ KeptItems hook vs := by simpa [KeptItems] using h
    have hfirst := depth_le_length first hkept.1
    have hvs := depthItems_le_length vs hkept.2
    simp only [depthItems, dumpsItems, List.length_cons, List.length_append]
    omega

theorem depthPairs_le_length (pairs : List (List Char × Json)) (h : KeptPairs hook pairs) :
    depthPairs pairs ≤ 2 * (dumpsPairs pairs).length := by
  cases pairs with
  | nil => simp [depthPairs, dumpsPairs]
  | cons p pairs =>
    have hkept : Kept hook p.2 ∧ KeptPairs hook pairs := by simpa [KeptPairs] using h
    have hfirst := depth_le_length p.2 hkept.1
    have hpairs := depthPairs_le_length pairs hkept.2
    simp only [depthPairs, dumpsPairs, List.length_cons, List.length_append]
    omega
end

/-- The text of a value the hook keeps reads back as that value. -/
theorem loads_dumps {v : Json} (h : Kept hook v) : loads syntaxError hook (dumps v) = .ok v := by
  have hdepth := depth_le_length v h
  have hblank := skipBlanks_dumps h []
  have hvalue : parseValue syntaxError hook (2 * (dumps v).length + 2) (dumps v ++ []) = .ok (v, []) :=
    parseValue_dumps v h (by omega) ended_nil
  rw [List.append_nil] at hblank hvalue
  rw [loads, hblank, hvalue]
  rfl

end Parser
end DbfAnonymizer.Lib.Json
