import DbfAnonymizer.Lib.JsonRoundTrip

/-! The compact text of a value is ASCII, and it tells the value as far as the quotations of its texts tell them. -/
namespace DbfAnonymizer.Lib.Json
variable {χ : Type} {T T' : List χ → Prop}

mutual
/-- No number is a literal, and every text is one of `T`. -/
def Written (T : List χ → Prop) : Json χ → Prop
  | .float _ => False
  | .str s => T s
  | .arr items => WrittenItems T items
  | .obj pairs => WrittenPairs T pairs
  | _ => True

def WrittenItems (T : List χ → Prop) : List (Json χ) → Prop
  | [] => True
  | v :: vs => Written T v ∧ WrittenItems T vs

def WrittenPairs (T : List χ → Prop) : List (List Char × Json χ) → Prop
  | [] => True
  | (_, v) :: pairs => Written T v ∧ WrittenPairs T pairs
end

theorem writtenItems_iff {items : List (Json χ)} : WrittenItems T items ↔ ∀ v ∈ items, Written T v := by
  induction items with
  | nil => simp [WrittenItems]
  | cons v vs ih => simp [WrittenItems, ih]

theorem writtenPairs_iff {pairs : List (List Char × Json χ)} : WrittenPairs T pairs ↔ ∀ p ∈ pairs, Written T p.2 := by
  induction pairs with
  | nil => simp [WrittenPairs]
  | cons p pairs ih => simp [WrittenPairs, ih]

section Kept
variable {ε : Type} {hook : List (List Char × Json) → Except ε Json}

mutual
theorem written_of_kept (v : Json) (h : Kept hook v) : Written (fun _ => True) v := by
  cases v with
  | float literal => exact absurd h (by simp [Kept])
  | arr items => exact writtenItems_of_kept items (by simpa [Kept] using h)
  | obj pairs =>
    have hboth : hook pairs = .ok (.obj pairs) ∧ KeptPairs hook pairs := by simpa [Kept] using h
    exact writtenPairs_of_kept pairs hboth.2
  | _ => trivial

theorem writtenItems_of_kept (items : List Json) (h : KeptItems hook items) : WrittenItems (fun _ => True) items := by
  cases items with
  | nil => trivial
  | cons v vs =>
    have hboth : Kept hook v ∧ KeptItems hook vs := by simpa [KeptItems] using h
    exact ⟨written_of_kept v hboth.1, writtenItems_of_kept vs hboth.2⟩

theorem writtenPairs_of_kept (pairs : List (List Char × Json)) (h : KeptPairs hook pairs) :
    WrittenPairs (fun _ => True) pairs := by
  cases pairs with
  | nil => trivial
  | cons p pairs =>
    have hboth : Kept hook p.2 ∧ KeptPairs hook pairs := by simpa [KeptPairs] using h
    exact ⟨written_of_kept p.2 hboth.1, writtenPairs_of_kept pairs hboth.2⟩
end

end Kept

variable [TextChar χ]

def AsciiText (s : List Char) : Prop := ∀ c ∈ s, c.toNat < 128

theorem asciiText_nil : AsciiText [] := fun _ h => absurd h List.not_mem_nil

theorem asciiText_cons {c : Char} {s : List Char} : AsciiText (c :: s) ↔ c.toNat < 128 ∧ AsciiText s :=
  List.forall_mem_cons

theorem asciiText_append {s t : List Char} : AsciiText (s ++ t) ↔ AsciiText s ∧ AsciiText t :=
  List.forall_mem_append

theorem asciiText_hex4 (n : ℕ) : AsciiText (hex4 n) := by
  have hdigit : ∀ m < 16, (Nat.digitChar m).toNat < 128 := by decide
  intro c hc
  simp only [hex4, List.mem_cons, List.not_mem_nil, or_false] at hc
  rcases hc with rfl | rfl | rfl | rfl <;> exact hdigit _ (Nat.mod_lt _ (by omega))

theorem asciiText_unicode (n : ℕ) : AsciiText ('\\' :: 'u' :: hex4 n) :=
  asciiText_cons.mpr ⟨by decide, asciiText_cons.mpr ⟨by decide, asciiText_hex4 n⟩⟩

theorem asciiText_escapeChar (c : Char) : AsciiText (escapeChar c) := by
  have hpair : ∀ d : Char, d.toNat < 128 → AsciiText ['\\', d] := by
    intro d hd
    exact asciiText_cons.mpr ⟨by decide, asciiText_cons.mpr ⟨hd, asciiText_nil⟩⟩
  unfold escapeChar
  split_ifs
  all_goals first
    | exact hpair _ (by decide)
    | exact asciiText_unicode _
    | exact asciiText_append.mpr ⟨asciiText_unicode _, asciiText_unicode _⟩
    | exact asciiText_cons.mpr ⟨by omega, asciiText_nil⟩

theorem asciiText_escape (c : χ) : AsciiText (escape c) := by
  unfold escape
  split
  · exact asciiText_escapeChar _
  · exact asciiText_unicode _

theorem asciiText_quote (s : List χ) : AsciiText (quote s) := by
  have hbody : AsciiText (s.flatMap escape) := by
    intro c hc
    obtain ⟨d, -, hd⟩ := List.mem_flatMap.mp hc
    exact asciiText_escape d c hd
  unfold quote
  exact asciiText_append.mpr ⟨asciiText_cons.mpr ⟨by decide, hbody⟩, asciiText_cons.mpr ⟨by decide, asciiText_nil⟩⟩

theorem asciiText_intText (value : ℤ) : AsciiText (intText value) := by
  have hdigits : AsciiText (Nat.toDigits 10 value.natAbs) := by
    intro c hc
    have hdigit := Nat.isDigit_of_mem_toDigits (by omega) (by omega) hc
    rw [Char.isDigit, Bool.and_eq_true, decide_eq_true_eq, decide_eq_true_eq, UInt32.le_iff_toNat_le] at hdigit
    have hle : c.toNat ≤ 57 := hdigit.2
    omega
  unfold intText
  split_ifs
  · exact asciiText_cons.mpr ⟨by decide, hdigits⟩
  · exact hdigits

mutual
theorem asciiText_dumps (v : Json χ) (h : Written T v) : AsciiText (dumps v) := by
  cases v with
  | null => simp [dumps, AsciiText]
  | bool value => cases value <;> simp [dumps, AsciiText]
  | int value => exact asciiText_intText value
  | float literal => exact absurd h (by simp [Written])
  | str value => exact asciiText_quote value
  | arr items =>
    cases items with
    | nil => simp [dumps, AsciiText]
    | cons first vs =>
      have hwritten : Written T first ∧ WrittenItems T vs := by simpa [Written, WrittenItems] using h
      have hfirst := asciiText_dumps first hwritten.1
      have hvs := asciiText_dumpsItems vs hwritten.2
      exact asciiText_append.mpr ⟨asciiText_cons.mpr ⟨by decide, hfirst⟩, hvs⟩
  | obj pairs =>
    cases pairs with
    | nil => simp [dumps, AsciiText]
    | cons p pairs =>
      have hwritten : Written T p.2 ∧ WrittenPairs T pairs := by simpa [Written, WrittenPairs] using h
      have hfirst := asciiText_dumps p.2 hwritten.1
      have hpairs := asciiText_dumpsPairs pairs hwritten.2
      have hvalue : AsciiText (':' :: dumps p.2 ++ dumpsPairs pairs) :=
        asciiText_append.mpr ⟨asciiText_cons.mpr ⟨by decide, hfirst⟩, hpairs⟩
      have hkey : AsciiText ('{' :: quote p.1) := asciiText_cons.mpr ⟨by decide, asciiText_quote p.1⟩
      have hall := asciiText_append.mpr ⟨hkey, hvalue⟩
      simpa [dumps] using hall

theorem asciiText_dumpsItems (items : List (Json χ)) (h : WrittenItems T items) : AsciiText (dumpsItems items) := by
  cases items with
  | nil => simp [dumpsItems, AsciiText]
  | cons first vs =>
    have hwritten : Written T first ∧ WrittenItems T vs := by simpa [WrittenItems] using h
    have hfirst := asciiText_dumps first hwritten.1
    have hvs := asciiText_dumpsItems vs hwritten.2
    exact asciiText_append.mpr ⟨asciiText_cons.mpr ⟨by decide, hfirst⟩, hvs⟩

theorem asciiText_dumpsPairs (pairs : List (List Char × Json χ)) (h : WrittenPairs T pairs) :
    AsciiText (dumpsPairs pairs) := by
  cases pairs with
  | nil => simp [dumpsPairs, AsciiText]
  | cons p pairs =>
    have hwritten : Written T p.2 ∧ WrittenPairs T pairs := by simpa [WrittenPairs] using h
    have hfirst := asciiText_dumps p.2 hwritten.1
    have hpairs := asciiText_dumpsPairs pairs hwritten.2
    have hvalue : AsciiText (':' :: dumps p.2 ++ dumpsPairs pairs) :=
      asciiText_append.mpr ⟨asciiText_cons.mpr ⟨by decide, hfirst⟩, hpairs⟩
    have hkey : AsciiText (',' :: quote p.1) := asciiText_cons.mpr ⟨by decide, asciiText_quote p.1⟩
    have hall := asciiText_append.mpr ⟨hkey, hvalue⟩
    simpa [dumpsPairs] using hall
end

/-- A key's quotation can be told from whatever follows it. -/
theorem quote_append_inj {s s' rest rest' : List Char} (h : quote s ++ rest = quote s' ++ rest') : s = s' ∧ rest = rest' := by
  have hread := parseString_quote s rest
  have hread' := parseString_quote s' rest'
  have htext : s.flatMap escapeChar ++ '"' :: rest = s'.flatMap escapeChar ++ '"' :: rest' := by simpa [quote] using h
  rw [htext, hread'] at hread
  simpa using hread.symm

/-- What kind of value a text starts: all numbers are of one kind. -/
def leadOf (c : Char) : Char := if c.isDigit ∨ c = '-' then '0' else c

def lead : Json χ → Char
  | .null => 'n'
  | .bool true => 't'
  | .bool false => 'f'
  | .int _ => '0'
  | .float _ => '0'
  | .str _ => '"'
  | .arr _ => '['
  | .obj _ => '{'

theorem lead_dumps {v : Json χ} (h : Written T v) : ∃ c tail, dumps v = c :: tail ∧ leadOf c = lead v := by
  cases v with
  | null => exact ⟨_, _, rfl, rfl⟩
  | bool value => cases value <;> exact ⟨_, _, rfl, rfl⟩
  | int value =>
    obtain ⟨d, ds, hd, htext⟩ := intText_cases value
    rcases htext with htext | htext
    · exact ⟨d, ds, htext, if_pos (Or.inl hd)⟩
    · exact ⟨_, _, htext, rfl⟩
  | float literal => exact absurd h (by simp [Written])
  | str value => exact ⟨_, _, rfl, rfl⟩
  | arr items => cases items <;> exact ⟨_, _, rfl, rfl⟩
  | obj pairs => cases pairs <;> exact ⟨_, _, rfl, rfl⟩

theorem lead_eq {v w : Json χ} (hv : Written T v) (hw : Written T' w) {rest rest' : List Char}
    (h : dumps v ++ rest = dumps w ++ rest') : lead v = lead w := by
  obtain ⟨c, tail, htext, hc⟩ := lead_dumps hv
  obtain ⟨c', tail', htext', hc'⟩ := lead_dumps hw
  rw [htext, htext'] at h
  rw [← hc, ← hc', (List.cons.inj h).1]

theorem dumps_ne_cons {v : Json χ} (hv : Written T v) {c : Char} (hc : c = ']' ∨ c = '}') (rest rest' : List Char) :
    dumps v ++ rest ≠ c :: rest' := by
  intro h
  obtain ⟨c', tail, htext, hlead⟩ := lead_dumps hv
  rw [htext, List.cons_append, List.cons.injEq] at h
  rw [h.1] at hlead
  have hself : leadOf c = c := by rcases hc with rfl | rfl <;> rfl
  rw [hself] at hlead
  rw [hlead] at hc
  cases v with
  | bool value => cases value <;> simp [lead] at hc
  | _ => simp [lead] at hc

/-- The quotation of a text of `T` is told from that of a text of `T'`, whatever follows them. -/
def QuotedApart (T T' : List χ → Prop) : Prop := ∀ {s s' : List χ} {rest rest' : List Char}, T s → T' s' →
  quote s ++ rest = quote s' ++ rest' → s = s' ∧ rest = rest'

mutual
/-- Of two texts of values, each with what may follow one, the values and what follows are the same. -/
theorem dumps_append_inj (hquote : QuotedApart T T') (v : Json χ) (hv : Written T v) {w : Json χ} (hw : Written T' w)
    {rest rest' : List Char} (hrest : Ended rest) (hrest' : Ended rest') (h : dumps v ++ rest = dumps w ++ rest') :
    v = w ∧ rest = rest' := by
  have hlead := lead_eq hv hw h
  cases v with
  | null =>
    cases w with
    | null => exact ⟨rfl, List.append_cancel_left h⟩
    | bool value => cases value <;> simp [lead] at hlead
    | _ => simp [lead] at hlead
  | bool value =>
    cases w with
    | bool value' =>
      cases value <;> cases value' <;> first
        | exact ⟨rfl, List.append_cancel_left h⟩
        | simp [lead] at hlead
    | _ => cases value <;> simp [lead] at hlead
  | int value =>
    cases w with
    | int value' =>
      have hread := parseAtom_intText value hrest
      have hread' := parseAtom_intText value' hrest'
      have htext : intText value ++ rest = intText value' ++ rest' := h
      rw [htext, hread'] at hread
      simpa using hread.symm
    | float literal => exact absurd hw (by simp [Written])
    | bool value => cases value <;> simp [lead] at hlead
    | _ => simp [lead] at hlead
  | float literal => exact absurd hv (by simp [Written])
  | str s =>
    cases w with
    | str s' =>
      obtain ⟨hs, htail⟩ := hquote hv hw h
      exact ⟨by rw [hs], htail⟩
    | bool value => cases value <;> simp [lead] at hlead
    | _ => simp [lead] at hlead
  | arr items =>
    cases w with
    | arr items' =>
      cases items with
      | nil =>
        cases items' with
        | nil => exact ⟨rfl, List.append_cancel_left h⟩
        | cons first' vs' =>
          have hwritten' : Written T' first' ∧ WrittenItems T' vs' := by simpa [Written, WrittenItems] using hw
          have htext : ']' :: rest = dumps first' ++ (dumpsItems vs' ++ rest') := by simpa [dumps] using h
          exact absurd htext.symm (dumps_ne_cons hwritten'.1 (.inl rfl) _ _)
      | cons first vs =>
        have hwritten : Written T first ∧ WrittenItems T vs := by simpa [Written, WrittenItems] using hv
        cases items' with
        | nil =>
          have htext : dumps first ++ (dumpsItems vs ++ rest) = ']' :: rest' := by simpa [dumps] using h
          exact absurd htext (dumps_ne_cons hwritten.1 (.inl rfl) _ _)
        | cons first' vs' =>
          have hwritten' : Written T' first' ∧ WrittenItems T' vs' := by simpa [Written, WrittenItems] using hw
          have htext : dumps first ++ (dumpsItems vs ++ rest) = dumps first' ++ (dumpsItems vs' ++ rest') := by
            simpa [dumps] using h
          obtain ⟨hfirst, htail⟩ := dumps_append_inj hquote first hwritten.1 hwritten'.1 (ended_dumpsItems vs rest)
            (ended_dumpsItems vs' rest') htext
          obtain ⟨hvs, hend⟩ := dumpsItems_append_inj hquote vs hwritten.2 hwritten'.2 htail
          exact ⟨by rw [hfirst, hvs], hend⟩
    | bool value => cases value <;> simp [lead] at hlead
    | _ => simp [lead] at hlead
  | obj pairs =>
    cases w with
    | obj pairs' =>
      cases pairs with
      | nil =>
        cases pairs' with
        | nil => exact ⟨rfl, List.append_cancel_left h⟩
        | cons p' pairs' => exact absurd h (by simp [dumps, quote])
      | cons p pairs =>
        have hwritten : Written T p.2 ∧ WrittenPairs T pairs := by simpa [Written, WrittenPairs] using hv
        cases pairs' with
        | nil => exact absurd h (by simp [dumps, quote])
        | cons p' pairs' =>
          have hwritten' : Written T' p'.2 ∧ WrittenPairs T' pairs' := by simpa [Written, WrittenPairs] using hw
          have htext : quote p.1 ++ (':' :: (dumps p.2 ++ (dumpsPairs pairs ++ rest))) =
              quote p'.1 ++ (':' :: (dumps p'.2 ++ (dumpsPairs pairs' ++ rest'))) := by simpa [dumps] using h
          obtain ⟨hkey, hvalue⟩ := quote_append_inj htext
          obtain ⟨hfirst, htail⟩ := dumps_append_inj hquote p.2 hwritten.1 hwritten'.1 (ended_dumpsPairs pairs rest)
            (ended_dumpsPairs pairs' rest') (List.cons.inj hvalue).2
          obtain ⟨hpairs, hend⟩ := dumpsPairs_append_inj hquote pairs hwritten.2 hwritten'.2 htail
          exact ⟨by rw [Prod.ext hkey hfirst, hpairs], hend⟩
    | bool value => cases value <;> simp [lead] at hlead
    | _ => simp [lead] at hlead

theorem dumpsItems_append_inj (hquote : QuotedApart T T') (vs : List (Json χ)) (hvs : WrittenItems T vs)
    {ws : List (Json χ)} (hws : WrittenItems T' ws) {rest rest' : List Char}
    (h : dumpsItems vs ++ rest = dumpsItems ws ++ rest') : vs = ws ∧ rest = rest' := by
  cases vs with
  | nil =>
    cases ws with
    | nil => exact ⟨rfl, List.append_cancel_left h⟩
    | cons w ws => exact absurd h (by simp [dumpsItems])
  | cons v vs =>
    cases ws with
    | nil => exact absurd h (by simp [dumpsItems])
    | cons w ws =>
      have hwritten : Written T v ∧ WrittenItems T vs := by simpa [WrittenItems] using hvs
      have hwritten' : Written T' w ∧ WrittenItems T' ws := by simpa [WrittenItems] using hws
      have htext : dumps v ++ (dumpsItems vs ++ rest) = dumps w ++ (dumpsItems ws ++ rest') := by simpa [dumpsItems] using h
      obtain ⟨hfirst, htail⟩ := dumps_append_inj hquote v hwritten.1 hwritten'.1 (ended_dumpsItems vs rest)
        (ended_dumpsItems ws rest') htext
      obtain ⟨hrest, hend⟩ := dumpsItems_append_inj hquote vs hwritten.2 hwritten'.2 htail
      exact ⟨by rw [hfirst, hrest], hend⟩

theorem dumpsPairs_append_inj (hquote : QuotedApart T T') (pairs : List (List Char × Json χ)) (hpairs : WrittenPairs T pairs)
    {pairs' : List (List Char × Json χ)} (hpairs' : WrittenPairs T' pairs') {rest rest' : List Char}
    (h : dumpsPairs pairs ++ rest = dumpsPairs pairs' ++ rest') : pairs = pairs' ∧ rest = rest' := by
  cases pairs with
  | nil =>
    cases pairs' with
    | nil => exact ⟨rfl, List.append_cancel_left h⟩
    | cons p' pairs' => exact absurd h (by simp [dumpsPairs])
  | cons p pairs =>
    cases pairs' with
    | nil => exact absurd h (by simp [dumpsPairs])
    | cons p' pairs' =>
      have hwritten : Written T p.2 ∧ WrittenPairs T pairs := by simpa [WrittenPairs] using hpairs
      have hwritten' : Written T' p'.2 ∧ WrittenPairs T' pairs' := by simpa [WrittenPairs] using hpairs'
      have htext : quote p.1 ++ (':' :: (dumps p.2 ++ (dumpsPairs pairs ++ rest))) =
          quote p'.1 ++ (':' :: (dumps p'.2 ++ (dumpsPairs pairs' ++ rest'))) := by simpa [dumpsPairs] using h
      obtain ⟨hkey, hvalue⟩ := quote_append_inj htext
      obtain ⟨hfirst, htail⟩ := dumps_append_inj hquote p.2 hwritten.1 hwritten'.1 (ended_dumpsPairs pairs rest)
        (ended_dumpsPairs pairs' rest') (List.cons.inj hvalue).2
      obtain ⟨hrest, hend⟩ := dumpsPairs_append_inj hquote pairs hwritten.2 hwritten'.2 htail
      exact ⟨by rw [Prod.ext hkey hfirst, hrest], hend⟩
end

theorem dumps_inj (hquote : QuotedApart T T') {v w : Json χ} (hv : Written T v) (hw : Written T' w)
    (h : dumps v = dumps w) : v = w := by
  have htext : dumps v ++ [] = dumps w ++ [] := by rw [h]
  exact (dumps_append_inj hquote v hv hw ended_nil ended_nil htext).1

theorem dumpsItems_congr {items items' : List (Json χ)} (h : List.Forall₂ (fun v w => dumps v = dumps w) items items') :
    dumpsItems items = dumpsItems items' := by
  induction h with
  | nil => rfl
  | cons hfirst _ ih => rw [dumpsItems, dumpsItems, hfirst, ih]

theorem dumps_arr_congr {items items' : List (Json χ)} (h : List.Forall₂ (fun v w => dumps v = dumps w) items items') :
    dumps (.arr items) = dumps (.arr items') := by
  cases h with
  | nil => rfl
  | cons hfirst hrest => rw [dumps, dumps, hfirst, dumpsItems_congr hrest]

theorem dumpsPairs_congr {pairs pairs' : List (List Char × Json χ)}
    (h : List.Forall₂ (fun p p' => p.1 = p'.1 ∧ dumps p.2 = dumps p'.2) pairs pairs') : dumpsPairs pairs = dumpsPairs pairs' := by
  induction h with
  | nil => rfl
  | cons hfirst _ ih => rw [dumpsPairs, dumpsPairs, hfirst.1, hfirst.2, ih]

theorem dumps_obj_congr {pairs pairs' : List (List Char × Json χ)}
    (h : List.Forall₂ (fun p p' => p.1 = p'.1 ∧ dumps p.2 = dumps p'.2) pairs pairs') :
    dumps (.obj pairs) = dumps (.obj pairs') := by
  cases h with
  | nil => rfl
  | cons hfirst hrest => rw [dumps, dumps, hfirst.1, hfirst.2, dumpsPairs_congr hrest]

end DbfAnonymizer.Lib.Json
