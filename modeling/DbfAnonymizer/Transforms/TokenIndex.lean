import DbfAnonymizer.Transforms.Tokens

/-! The numbering of the token space: shorter tokens first, then in alphabet order. -/
namespace DbfAnonymizer.Transforms

/-- The digits of a token, read from the left in the base of the alphabet. -/
def tokenOffset (alphabet token : Text) : ℕ :=
  token.foldl (fun offset character => offset * alphabet.length + alphabet.idxOf character) 0

def tokenIndex (token alphabet : Text) : Except Raised ℕ :=
  if isSafeToken token alphabet then
    .ok (tokenSpace (token.length - 1) alphabet.length + tokenOffset alphabet token)
  else .error (.valueError "token must be a non-empty string over the alphabet")

/-- The last `count` digits of an offset, in front of the digits already split off. -/
def tokenDigits (alphabet : Text) (hbase : 0 < alphabet.length) : ℕ → ℕ → Text → Text
  | 0, _, digits => digits
  | count + 1, offset, digits =>
    tokenDigits alphabet hbase count (offset / alphabet.length)
      (alphabet.get ⟨offset % alphabet.length, Nat.mod_lt _ hbase⟩ :: digits)

def tokenAt (index : ℤ) (maxWidth : ℕ) (alphabet : Text) : Except Raised Text :=
  if hbase : 0 < alphabet.length then
    if 0 ≤ index ∧ index < tokenSpace maxWidth alphabet.length then go hbase index.toNat maxWidth 1 0 1
    else .error (.valueError "token index is outside the admissible token space")
  else .error (.valueError "alphabet must not be empty")
where
  go (hbase : 0 < alphabet.length) (index : ℕ) : ℕ → ℕ → ℕ → ℕ → Except Raised Text
    | 0, _, _, _ => .error (.valueError "token index is outside the admissible token space")
    | width + 1, length, cumulative, term =>
      let term := term * alphabet.length
      if index < cumulative + term then .ok (tokenDigits alphabet hbase length (index - cumulative) [])
      else go hbase index width (length + 1) (cumulative + term) term

section Digits
variable {alphabet : Text} {hbase : 0 < alphabet.length}

theorem length_tokenDigits (count offset : ℕ) (digits : Text) :
    (tokenDigits alphabet hbase count offset digits).length = count + digits.length := by
  induction count generalizing offset digits with
  | zero => simp [tokenDigits]
  | succ count ih =>
    rw [tokenDigits, ih, List.length_cons]
    omega

theorem mem_alphabet_of_mem_tokenDigits {count offset : ℕ} {digits : Text} (h : ∀ c ∈ digits, c ∈ alphabet) :
    ∀ c ∈ tokenDigits alphabet hbase count offset digits, c ∈ alphabet := by
  induction count generalizing offset digits with
  | zero => exact h
  | succ count ih => exact ih (List.forall_mem_cons.mpr ⟨List.get_mem _ _, h⟩)

theorem foldl_tokenDigits (hnodup : alphabet.Nodup) (count offset start : ℕ) (digits : Text) :
    (tokenDigits alphabet hbase count offset digits).foldl
        (fun offset character => offset * alphabet.length + alphabet.idxOf character) start =
      digits.foldl (fun offset character => offset * alphabet.length + alphabet.idxOf character)
        (start * alphabet.length ^ count + offset % alphabet.length ^ count) := by
  induction count generalizing offset digits with
  | zero => simp [tokenDigits, Nat.mod_one]
  | succ count ih =>
    have hdigit : alphabet.idxOf (alphabet.get ⟨offset % alphabet.length, Nat.mod_lt _ hbase⟩) =
        offset % alphabet.length := by
      rw [List.get_eq_getElem, hnodup.idxOf_getElem]
    rw [tokenDigits, ih, List.foldl_cons, hdigit, pow_succ', Nat.mod_mul]
    congr 1
    ring

theorem tokenOffset_tokenDigits (hnodup : alphabet.Nodup) {count offset : ℕ} (h : offset < alphabet.length ^ count) :
    tokenOffset alphabet (tokenDigits alphabet hbase count offset []) = offset := by
  rw [tokenOffset, foldl_tokenDigits hnodup, List.foldl_nil, Nat.mod_eq_of_lt h, Nat.zero_mul, Nat.zero_add]

theorem tokenOffset_append_singleton (token : Text) (c : Char) :
    tokenOffset alphabet (token ++ [c]) = tokenOffset alphabet token * alphabet.length + alphabet.idxOf c := by
  simp [tokenOffset]

theorem tokenOffset_lt {token : Text} (h : ∀ c ∈ token, c ∈ alphabet) :
    tokenOffset alphabet token < alphabet.length ^ token.length := by
  induction token using List.reverseRecOn with
  | nil => simp [tokenOffset]
  | append_singleton token c ih =>
    have hrest := ih fun d hd => h d (by simp [hd])
    have hc : alphabet.idxOf c < alphabet.length := List.idxOf_lt_length_of_mem (h c (by simp))
    rw [tokenOffset_append_singleton, List.length_append, List.length_singleton, pow_succ]
    calc tokenOffset alphabet token * alphabet.length + alphabet.idxOf c
        < tokenOffset alphabet token * alphabet.length + alphabet.length := Nat.add_lt_add_left hc _
      _ = (tokenOffset alphabet token + 1) * alphabet.length := by ring
      _ ≤ alphabet.length ^ token.length * alphabet.length := Nat.mul_le_mul_right _ hrest

theorem tokenDigits_tokenOffset (hbase : 0 < alphabet.length) {token : Text} (h : ∀ c ∈ token, c ∈ alphabet) (digits : Text) :
    tokenDigits alphabet hbase token.length (tokenOffset alphabet token) digits = token ++ digits := by
  induction token using List.reverseRecOn generalizing digits with
  | nil => rfl
  | append_singleton token c ih =>
    have hc : alphabet.idxOf c < alphabet.length := List.idxOf_lt_length_of_mem (h c (by simp))
    have hdiv : (tokenOffset alphabet token * alphabet.length + alphabet.idxOf c) / alphabet.length =
        tokenOffset alphabet token := by
      rw [Nat.mul_comm, Nat.mul_add_div hbase, Nat.div_eq_of_lt hc, Nat.add_zero]
    have hmod : (tokenOffset alphabet token * alphabet.length + alphabet.idxOf c) % alphabet.length =
        alphabet.idxOf c := by
      rw [Nat.mul_add_mod_self_right, Nat.mod_eq_of_lt hc]
    rw [tokenOffset_append_singleton, List.length_append, List.length_singleton, tokenDigits]
    simp only [hdiv, hmod]
    rw [ih fun d hd => h d (by simp [hd])]
    simp

end Digits

section Class
variable {alphabet : Text}

theorem tokenAt_go (hbase : 0 < alphabet.length) {index length : ℕ} (width done : ℕ) (hle : length ≤ done + width)
    (hdone : done < length) (hlow : tokenSpace (length - 1) alphabet.length ≤ index)
    (hhigh : index < tokenSpace length alphabet.length) :
    tokenAt.go alphabet hbase index width (done + 1) (tokenSpace done alphabet.length) (alphabet.length ^ done) =
      .ok (tokenDigits alphabet hbase length (index - tokenSpace (length - 1) alphabet.length) []) := by
  induction width generalizing done with
  | zero => omega
  | succ width ih =>
    have hspace : tokenSpace done alphabet.length + alphabet.length ^ done * alphabet.length =
        tokenSpace (done + 1) alphabet.length := by rw [tokenSpace, pow_succ]
    rw [tokenAt.go]
    simp only [hspace]
    by_cases hlast : done + 1 = length
    · subst hlast
      rw [if_pos hhigh]
      rfl
    · have hmono := tokenSpace_mono alphabet.length (show done + 1 ≤ length - 1 by omega)
      rw [if_neg (by simp only at hmono; omega), ← pow_succ]
      exact ih (done + 1) (by omega) (by omega)

/-- The tokens of one length take the indices right above those of the shorter ones. -/
theorem tokenAt_class (hnodup : alphabet.Nodup) {length : ℕ} (hlength : 0 < length) {index : ℤ}
    (hlow : (tokenSpace (length - 1) alphabet.length : ℤ) ≤ index)
    (hhigh : index < tokenSpace (length - 1) alphabet.length + (alphabet.length : ℤ) ^ length) :
    ∃ token : Text, tokenAt index length alphabet = .ok token ∧ token.length = length ∧
      isSafeToken token alphabet = true ∧ tokenIndex token alphabet = .ok index.toNat := by
  obtain ⟨n, rfl⟩ := Int.eq_ofNat_of_zero_le ((Int.natCast_nonneg _).trans hlow)
  obtain ⟨below, rfl⟩ : ∃ below, length = below + 1 := ⟨length - 1, by omega⟩
  rw [Nat.add_sub_cancel] at hlow hhigh
  have hlow' : tokenSpace below alphabet.length ≤ n := by exact_mod_cast hlow
  have hhigh' : n < tokenSpace below alphabet.length + alphabet.length ^ (below + 1) := by exact_mod_cast hhigh
  have hbase : 0 < alphabet.length := by
    by_contra hzero
    rw [Nat.eq_zero_of_not_pos hzero, zero_pow (Nat.succ_ne_zero below)] at hhigh'
    rw [Nat.eq_zero_of_not_pos hzero] at hlow'
    omega
  have hoffset : n - tokenSpace below alphabet.length < alphabet.length ^ (below + 1) := by omega
  have hall : ∀ c ∈ tokenDigits alphabet hbase (below + 1) (n - tokenSpace below alphabet.length) [], c ∈ alphabet :=
    mem_alphabet_of_mem_tokenDigits (by simp)
  have hlen : (tokenDigits alphabet hbase (below + 1) (n - tokenSpace below alphabet.length) []).length =
      below + 1 := length_tokenDigits _ _ _
  have hsafe : isSafeToken (tokenDigits alphabet hbase (below + 1) (n - tokenSpace below alphabet.length) [])
      alphabet = true := by
    simp only [isSafeToken, Bool.and_eq_true, Bool.not_eq_true', List.isEmpty_eq_false_iff, List.all_eq_true,
      decide_eq_true_eq]
    exact ⟨List.ne_nil_of_length_pos (by omega), hall⟩
  refine ⟨_, ?_, hlen, hsafe, ?_⟩
  · have hspace : ((n : ℕ) : ℤ) < tokenSpace (below + 1) alphabet.length := by
      rw [tokenSpace]
      exact_mod_cast hhigh'
    rw [tokenAt, dif_pos hbase, if_pos ⟨by omega, hspace⟩]
    exact tokenAt_go hbase (below + 1) 0 (by omega) (by omega) hlow' hhigh'
  · rw [tokenIndex, if_pos hsafe, hlen, tokenOffset_tokenDigits hnodup hoffset, Nat.add_sub_cancel,
      Int.toNat_natCast, Nat.add_sub_cancel' hlow']

theorem tokenIndex_class {token : Text} (hsafe : isSafeToken token alphabet = true) :
    ∃ index, tokenIndex token alphabet = .ok index ∧ tokenSpace (token.length - 1) alphabet.length ≤ index ∧
      index < tokenSpace (token.length - 1) alphabet.length + alphabet.length ^ token.length := by
  refine ⟨_, if_pos hsafe, Nat.le_add_right _ _, Nat.add_lt_add_left (tokenOffset_lt ?_) _⟩
  simp only [isSafeToken, Bool.and_eq_true, List.all_eq_true, decide_eq_true_eq] at hsafe
  exact hsafe.2

theorem tokenIndex_injective {a b : Text} (hlength : a.length = b.length) {index : ℕ}
    (ha : tokenIndex a alphabet = .ok index) (hb : tokenIndex b alphabet = .ok index) : a = b := by
  unfold tokenIndex at ha hb
  split_ifs at ha hb with hsafea hsafeb
  simp only [isSafeToken, Bool.and_eq_true, Bool.not_eq_true', List.isEmpty_eq_false_iff, List.all_eq_true,
    decide_eq_true_eq] at hsafea hsafeb
  have hoffset : tokenOffset alphabet a = tokenOffset alphabet b := by
    have hindex := (Except.ok.inj ha).trans (Except.ok.inj hb).symm
    rw [hlength] at hindex
    exact Nat.add_left_cancel hindex
  have hbase : 0 < alphabet.length := by
    obtain ⟨c, hc⟩ := List.exists_mem_of_ne_nil a hsafea.1
    exact List.length_pos_of_mem (hsafea.2 c hc)
  have hsplit := tokenDigits_tokenOffset hbase hsafea.2 []
  rw [hoffset, hlength, tokenDigits_tokenOffset hbase hsafeb.2] at hsplit
  simpa using hsplit.symm

end Class
end DbfAnonymizer.Transforms
