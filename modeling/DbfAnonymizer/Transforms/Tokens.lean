import DbfAnonymizer.Lib.NestedPools
import DbfAnonymizer.Transforms.Text

/-! The finite token spaces over an alphabet, as sets. -/
namespace DbfAnonymizer.Transforms
open Lib

def tokensOfLength (alphabet : Text) : ℕ → List Text
  | 0 => [[]]
  | length + 1 => alphabet.flatMap fun c => (tokensOfLength alphabet length).map (c :: ·)

theorem mem_tokensOfLength {alphabet : Text} {length : ℕ} {token : Text} :
    token ∈ tokensOfLength alphabet length ↔ token.length = length ∧ ∀ c ∈ token, c ∈ alphabet := by
  induction length generalizing token with
  | zero =>
    rw [tokensOfLength, List.mem_singleton, List.length_eq_zero_iff]
    constructor
    · rintro rfl
      simp
    · exact And.left
  | succ length ih =>
    simp only [tokensOfLength, List.mem_flatMap, List.mem_map]
    constructor
    · rintro ⟨c, hc, rest, hrest, rfl⟩
      obtain ⟨hlength, hall⟩ := ih.mp hrest
      exact ⟨by simp [hlength], List.forall_mem_cons.mpr ⟨hc, hall⟩⟩
    · rintro ⟨hlength, hall⟩
      cases token with
      | nil => cases hlength
      | cons c rest =>
        obtain ⟨hc, hrest⟩ := List.forall_mem_cons.mp hall
        exact ⟨c, hc, rest, ih.mpr ⟨by simpa using hlength, hrest⟩, rfl⟩

theorem length_tokensOfLength (alphabet : Text) (length : ℕ) :
    (tokensOfLength alphabet length).length = alphabet.length ^ length := by
  induction length with
  | zero => rfl
  | succ length ih => simp [tokensOfLength, ih, pow_succ, Nat.mul_comm]

theorem nodup_tokensOfLength {alphabet : Text} (h : alphabet.Nodup) (length : ℕ) :
    (tokensOfLength alphabet length).Nodup := by
  induction length with
  | zero => simp [tokensOfLength]
  | succ length ih =>
    rw [tokensOfLength, List.nodup_flatMap]
    refine ⟨fun c _ => ih.map fun a b hab => by simpa using hab, h.imp ?_⟩
    intro a b hab
    simp only [Function.onFun, List.disjoint_left, List.mem_map]
    rintro _ ⟨x, -, rfl⟩ ⟨y, -, heq⟩
    exact hab (List.cons.inj heq).1.symm

def tokenPool (alphabet : Text) (maxWidth : ℕ) : Finset Text :=
  ((List.range maxWidth).flatMap fun n => tokensOfLength alphabet (n + 1)).toFinset

theorem mem_tokenPool {alphabet : Text} {maxWidth : ℕ} {token : Text} :
    token ∈ tokenPool alphabet maxWidth ↔ isSafeToken token alphabet = true ∧ token.length ≤ maxWidth := by
  simp only [tokenPool, List.mem_toFinset, List.mem_flatMap, List.mem_range, mem_tokensOfLength, isSafeToken,
    Bool.and_eq_true, Bool.not_eq_true', List.isEmpty_eq_false_iff, List.all_eq_true, decide_eq_true_eq]
  constructor
  · rintro ⟨n, hn, hlength, hall⟩
    refine ⟨⟨?_, hall⟩, by omega⟩
    rintro rfl
    simp at hlength
  · rintro ⟨⟨hne, hall⟩, hle⟩
    have hpos := List.length_pos_iff.mpr hne
    exact ⟨token.length - 1, by omega, by omega, hall⟩

theorem card_tokenPool {alphabet : Text} (h : alphabet.Nodup) (maxWidth : ℕ) :
    (tokenPool alphabet maxWidth).card = tokenSpace maxWidth alphabet.length := by
  have hnodup : ((List.range maxWidth).flatMap fun n => tokensOfLength alphabet (n + 1)).Nodup := by
    rw [List.nodup_flatMap]
    refine ⟨fun n _ => nodup_tokensOfLength h _, List.nodup_range.imp ?_⟩
    intro a b hab
    simp only [Function.onFun, List.disjoint_left, mem_tokensOfLength]
    rintro token ⟨ha, -⟩ ⟨hb, -⟩
    omega
  rw [tokenPool, List.toFinset_card_of_nodup hnodup, List.length_flatMap]
  clear hnodup
  induction maxWidth with
  | zero => rfl
  | succ w ih => rw [List.range_succ, List.map_append, List.sum_append, ih]; simp [length_tokensOfLength, tokenSpace]

theorem tokenPool_mono (alphabet : Text) : Monotone (tokenPool alphabet) := by
  intro v w hvw token htoken
  rw [mem_tokenPool] at htoken ⊢
  exact ⟨htoken.1, htoken.2.trans hvw⟩

theorem tokenPool_zero (alphabet : Text) : tokenPool alphabet 0 = ∅ := rfl

theorem tokenPool_grows {alphabet : Text} (hnodup : alphabet.Nodup) (hbase : 2 ≤ alphabet.length) (w : ℕ) :
    (tokenPool alphabet w).card + 2 ≤ (tokenPool alphabet (w + 1)).card := by
  rw [card_tokenPool hnodup, card_tokenPool hnodup, tokenSpace]
  have hpow : alphabet.length ≤ alphabet.length ^ (w + 1) := Nat.le_self_pow (Nat.succ_ne_zero w) _
  omega

/-- The token spaces over two characters or more are nested pools. -/
def tokenPools (alphabet : Text) (hnodup : alphabet.Nodup) (hbase : 2 ≤ alphabet.length) : NestedPools Text where
  pool := tokenPool alphabet
  mono := tokenPool_mono alphabet
  zero := tokenPool_zero alphabet
  grows := tokenPool_grows hnodup hbase

end DbfAnonymizer.Transforms
