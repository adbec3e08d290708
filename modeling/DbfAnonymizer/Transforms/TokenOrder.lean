import DbfAnonymizer.Transforms.TokenIndex

/-! The numbering of the whole token space: its two directions are inverse, and it counts in shortlex order. -/
namespace DbfAnonymizer.Transforms

section Block
variable {alphabet : Text}

theorem exists_length_of_lt_tokenSpace {maxWidth base index : ℕ} (h : index < tokenSpace maxWidth base) :
    ∃ length, 0 < length ∧ length ≤ maxWidth ∧ tokenSpace (length - 1) base ≤ index ∧ index < tokenSpace length base := by
  induction maxWidth with
  | zero => exact absurd h (Nat.not_lt_zero index)
  | succ w ih =>
    by_cases hbelow : index < tokenSpace w base
    · obtain ⟨length, hpos, hle, hlow, hhigh⟩ := ih hbelow
      exact ⟨length, hpos, by omega, hlow, hhigh⟩
    · exact ⟨w + 1, by omega, le_rfl, Nat.le_of_not_lt hbelow, h⟩

theorem tokenAt_block (hbase : 0 < alphabet.length) {index length maxWidth : ℕ} (hpos : 0 < length) (hle : length ≤ maxWidth)
    (hlow : tokenSpace (length - 1) alphabet.length ≤ index) (hhigh : index < tokenSpace length alphabet.length) :
    tokenAt index maxWidth alphabet =
      .ok (tokenDigits alphabet hbase length (index - tokenSpace (length - 1) alphabet.length) []) := by
  have hspace : index < tokenSpace maxWidth alphabet.length :=
    hhigh.trans_le (tokenSpace_mono alphabet.length hle)
  have hrange : (0 : ℤ) ≤ index ∧ (index : ℤ) < tokenSpace maxWidth alphabet.length :=
    ⟨Int.natCast_nonneg _, by exact_mod_cast hspace⟩
  rw [tokenAt, dif_pos hbase, if_pos hrange, Int.toNat_natCast]
  exact tokenAt_go hbase maxWidth 0 (by omega) hpos hlow hhigh

theorem isSafeToken_iff {token : Text} : isSafeToken token alphabet = true ↔ token ≠ [] ∧ ∀ c ∈ token, c ∈ alphabet := by
  simp [isSafeToken]

theorem length_pos_of_isSafeToken {token : Text} (h : isSafeToken token alphabet = true) : 0 < token.length :=
  List.length_pos_iff.mpr (isSafeToken_iff.mp h).1

theorem base_pos_of_isSafeToken {token : Text} (h : isSafeToken token alphabet = true) : 0 < alphabet.length := by
  obtain ⟨c, hc⟩ := List.exists_mem_of_ne_nil token (isSafeToken_iff.mp h).1
  exact List.length_pos_of_mem ((isSafeToken_iff.mp h).2 c hc)

theorem tokenSpace_pred_add {length : ℕ} (h : 0 < length) (base : ℕ) :
    tokenSpace (length - 1) base + base ^ length = tokenSpace length base := by
  obtain ⟨below, rfl⟩ := Nat.exists_eq_add_of_lt h
  simp [tokenSpace]

theorem tokenIndex_block {token : Text} (h : isSafeToken token alphabet = true) :
    tokenIndex token alphabet = .ok (tokenSpace (token.length - 1) alphabet.length + tokenOffset alphabet token) ∧
      tokenSpace (token.length - 1) alphabet.length + tokenOffset alphabet token <
        tokenSpace token.length alphabet.length := by
  have hoffset : tokenOffset alphabet token < alphabet.length ^ token.length :=
    tokenOffset_lt (isSafeToken_iff.mp h).2
  have hblock := tokenSpace_pred_add (length_pos_of_isSafeToken h) alphabet.length
  exact ⟨if_pos h, by omega⟩

end Block

section Inverse
variable {alphabet : Text}

theorem tokenIndex_tokenAt (hnodup : alphabet.Nodup) (hbase : 0 < alphabet.length) {index maxWidth : ℕ}
    (h : index < tokenSpace maxWidth alphabet.length) :
    ∃ token, tokenAt index maxWidth alphabet = .ok token ∧ isSafeToken token alphabet = true ∧
      token.length ≤ maxWidth ∧ tokenIndex token alphabet = .ok index := by
  obtain ⟨length, hpos, hle, hlow, hhigh⟩ := exists_length_of_lt_tokenSpace h
  have hblock := tokenSpace_pred_add hpos alphabet.length
  let token := tokenDigits alphabet hbase length (index - tokenSpace (length - 1) alphabet.length) []
  have hlength : token.length = length := length_tokenDigits _ _ _
  have hmem : ∀ c ∈ token, c ∈ alphabet := mem_alphabet_of_mem_tokenDigits (by simp)
  have hne : token ≠ [] := List.ne_nil_of_length_pos (by omega)
  have hsafe : isSafeToken token alphabet = true := isSafeToken_iff.mpr ⟨hne, hmem⟩
  have hoffset : tokenOffset alphabet token = index - tokenSpace (length - 1) alphabet.length :=
    tokenOffset_tokenDigits hnodup (by omega)
  have hindex : tokenIndex token alphabet = .ok index := by
    rw [(tokenIndex_block hsafe).1, hlength, hoffset, Nat.add_sub_cancel' hlow]
  exact ⟨token, tokenAt_block hbase hpos hle hlow hhigh, hsafe, by omega, hindex⟩

theorem tokenAt_tokenIndex {token : Text} (hsafe : isSafeToken token alphabet = true) {maxWidth : ℕ}
    (hle : token.length ≤ maxWidth) :
    ∃ index, tokenIndex token alphabet = .ok index ∧ index < tokenSpace maxWidth alphabet.length ∧
      tokenAt index maxWidth alphabet = .ok token := by
  have hbase := base_pos_of_isSafeToken hsafe
  obtain ⟨hindex, hhigh⟩ := tokenIndex_block hsafe
  have hat := tokenAt_block hbase (length_pos_of_isSafeToken hsafe) hle (Nat.le_add_right _ _) hhigh
  have hdigits := tokenDigits_tokenOffset hbase (isSafeToken_iff.mp hsafe).2 []
  rw [Nat.add_sub_cancel_left, hdigits, List.append_nil] at hat
  exact ⟨_, hindex, hhigh.trans_le (tokenSpace_mono alphabet.length hle), hat⟩

end Inverse

section Order
variable {alphabet : Text}

/-- Character by character, in the order of the alphabet. -/
def alphabetLT (alphabet : Text) : Text → Text → Prop := List.Lex fun c d => alphabet.idxOf c < alphabet.idxOf d

theorem foldl_offset (base start : ℕ) (digit : Char → ℕ) (token : Text) :
    token.foldl (fun offset character => offset * base + digit character) start =
      start * base ^ token.length + token.foldl (fun offset character => offset * base + digit character) 0 := by
  induction token using List.reverseRecOn with
  | nil => simp
  | append_singleton token c ih =>
    simp only [List.foldl_append, List.foldl_cons, List.foldl_nil, ih, List.length_append, List.length_singleton]
    ring

theorem tokenOffset_cons (c : Char) (token : Text) :
    tokenOffset alphabet (c :: token) = alphabet.idxOf c * alphabet.length ^ token.length + tokenOffset alphabet token := by
  rw [tokenOffset, List.foldl_cons, foldl_offset, Nat.zero_mul, Nat.zero_add]
  rfl

/-- A smaller first character outweighs all that follows. -/
theorem tokenOffset_cons_lt {c d : Char} {a b : Text} (ha : ∀ e ∈ a, e ∈ alphabet) (hlength : a.length = b.length)
    (h : alphabet.idxOf c < alphabet.idxOf d) : tokenOffset alphabet (c :: a) < tokenOffset alphabet (d :: b) := by
  have hrest : tokenOffset alphabet a < alphabet.length ^ a.length := tokenOffset_lt ha
  rw [tokenOffset_cons, tokenOffset_cons, ← hlength]
  calc alphabet.idxOf c * alphabet.length ^ a.length + tokenOffset alphabet a
      < alphabet.idxOf c * alphabet.length ^ a.length + alphabet.length ^ a.length := Nat.add_lt_add_left hrest _
    _ = (alphabet.idxOf c + 1) * alphabet.length ^ a.length := by ring
    _ ≤ alphabet.idxOf d * alphabet.length ^ a.length := Nat.mul_le_mul_right _ h
    _ ≤ alphabet.idxOf d * alphabet.length ^ a.length + tokenOffset alphabet b := Nat.le_add_right _ _

theorem tokenOffset_lt_iff {a b : Text} (hlength : a.length = b.length) (ha : ∀ c ∈ a, c ∈ alphabet)
    (hb : ∀ c ∈ b, c ∈ alphabet) : tokenOffset alphabet a < tokenOffset alphabet b ↔ alphabetLT alphabet a b := by
  induction a generalizing b with
  | nil =>
    obtain rfl : b = [] := List.length_eq_zero_iff.mp hlength.symm
    simp [alphabetLT]
  | cons c a ih =>
    cases b with
    | nil => cases hlength
    | cons d b =>
      have hrest : a.length = b.length := by simpa using hlength
      obtain ⟨hc, ha'⟩ := List.forall_mem_cons.mp ha
      obtain ⟨hd, hb'⟩ := List.forall_mem_cons.mp hb
      have hsame := ih hrest ha' hb'
      rcases lt_trichotomy (alphabet.idxOf c) (alphabet.idxOf d) with hlt | heq | hgt
      · have hoffset := tokenOffset_cons_lt ha' hrest hlt
        exact iff_of_true hoffset (.rel hlt)
      · obtain rfl : c = d := (List.idxOf_inj hc).mp heq
        rw [tokenOffset_cons, tokenOffset_cons, hrest, Nat.add_lt_add_iff_left, hsame]
        unfold alphabetLT
        rw [List.lex_cons_iff]
      · have hoffset := tokenOffset_cons_lt hb' hrest.symm hgt
        have hlex : ¬ alphabetLT alphabet (c :: a) (d :: b) := by
          intro hlex
          cases hlex with
          | rel h => omega
          | cons h => omega
        exact iff_of_false (by omega) hlex

/-- Indices compare by length first, then in the order of the alphabet. -/
theorem tokenIndex_lt_iff {a b : Text} {i j : ℕ} (ha : tokenIndex a alphabet = .ok i) (hb : tokenIndex b alphabet = .ok j) :
    i < j ↔ a.length < b.length ∨ a.length = b.length ∧ alphabetLT alphabet a b := by
  have hsafe : ∀ {token : Text} {index : ℕ}, tokenIndex token alphabet = .ok index → isSafeToken token alphabet = true := by
    intro token index h
    unfold tokenIndex at h
    split_ifs at h with hsafe
    exact hsafe
  have hsafea := hsafe ha
  have hsafeb := hsafe hb
  obtain ⟨hi, hahigh⟩ := tokenIndex_block hsafea
  obtain ⟨hj, hbhigh⟩ := tokenIndex_block hsafeb
  obtain rfl := Except.ok.inj (ha.symm.trans hi)
  obtain rfl := Except.ok.inj (hb.symm.trans hj)
  have hblock : ∀ {s t : Text}, s.length < t.length →
      tokenSpace s.length alphabet.length ≤ tokenSpace (t.length - 1) alphabet.length :=
    fun {s t} hlt => tokenSpace_mono alphabet.length (by omega)
  rcases lt_trichotomy a.length b.length with hlt | heq | hgt
  · have hle := hblock hlt
    exact iff_of_true (by omega) (Or.inl hlt)
  · rw [heq, Nat.add_lt_add_iff_left,
      tokenOffset_lt_iff heq (isSafeToken_iff.mp hsafea).2 (isSafeToken_iff.mp hsafeb).2]
    simp
  · have hle := hblock hgt
    exact iff_of_false (by omega) (by omega)

end Order

/-- The token space is numbered one to one, in shortlex order, and its size is compared exactly. -/
theorem tokenSpace_numbered {alphabet : Text} (hnodup : alphabet.Nodup) (hne : alphabet ≠ []) :
    (∀ maxWidth index : ℕ, index < tokenSpace maxWidth alphabet.length →
      ∃ token, tokenAt index maxWidth alphabet = .ok token ∧ isSafeToken token alphabet = true ∧
        token.length ≤ maxWidth ∧ tokenIndex token alphabet = .ok index) ∧
    (∀ (maxWidth : ℕ) (token : Text), isSafeToken token alphabet = true → token.length ≤ maxWidth →
      ∃ index, tokenIndex token alphabet = .ok index ∧ index < tokenSpace maxWidth alphabet.length ∧
        tokenAt index maxWidth alphabet = .ok token) ∧
    (∀ (a b : Text) (i j : ℕ), tokenIndex a alphabet = .ok i → tokenIndex b alphabet = .ok j →
      (i < j ↔ a.length < b.length ∨ a.length = b.length ∧ alphabetLT alphabet a b)) ∧
    ∀ (maxWidth : ℕ) (needed : ℤ),
      tokenSpaceAtLeast maxWidth alphabet.length needed = true ↔ needed ≤ tokenSpace maxWidth alphabet.length := by
  have hbase : 0 < alphabet.length := List.length_pos_iff.mpr hne
  refine ⟨?_, ?_, ?_, ?_⟩
  · intro maxWidth index h
    exact tokenIndex_tokenAt hnodup hbase h
  · intro maxWidth token hsafe hle
    exact tokenAt_tokenIndex hsafe hle
  · intro a b i j ha hb
    exact tokenIndex_lt_iff ha hb
  · intro maxWidth needed
    exact tokenSpaceAtLeast_iff maxWidth alphabet.length needed

/-- One character alone numbers its runs by their lengths. -/
theorem tokenSpace_numbered_unary : tokenAt 2 3 ['A'] = .ok ['A', 'A', 'A'] ∧
    ∀ maxWidth index : ℕ, index < tokenSpace maxWidth 1 → ∃ token, tokenAt index maxWidth ['A'] = .ok token ∧
      isSafeToken token ['A'] = true ∧ token.length ≤ maxWidth ∧ tokenIndex token ['A'] = .ok index :=
  ⟨by decide, (tokenSpace_numbered (by decide : ['A'].Nodup) (by decide)).1⟩

end DbfAnonymizer.Transforms
