import DbfAnonymizer.Lib.GapWalk
import DbfAnonymizer.Lib.Outcome
import DbfAnonymizer.Transforms.TokenIndex

/-! The free tokens of one length class, found by walking past the indices of the blocked ones. -/
namespace DbfAnonymizer.Transforms
open Lib

def freeInClass (alphabet : Text) (length : ℕ) (blocked : List Text) : Finset Text :=
  (tokensOfLength alphabet length).toFinset.filter (· ∉ blocked)

theorem isSafeToken_of_mem_tokensOfLength {alphabet token : Text} {length : ℕ} (hlength : 0 < length)
    (h : token ∈ tokensOfLength alphabet length) : isSafeToken token alphabet = true := by
  obtain ⟨hlen, hall⟩ := mem_tokensOfLength.mp h
  have hne : token ≠ [] := List.ne_nil_of_length_pos (by omega)
  simpa [isSafeToken, hne] using hall

theorem mem_tokensOfLength_of_isSafeToken {alphabet token : Text} (h : isSafeToken token alphabet = true) :
    token ∈ tokensOfLength alphabet token.length := by
  simp only [isSafeToken, Bool.and_eq_true, List.all_eq_true, decide_eq_true_eq] at h
  exact mem_tokensOfLength.mpr ⟨rfl, h.2⟩

theorem mem_freeInClass {alphabet token : Text} {length : ℕ} {blocked : List Text} :
    token ∈ freeInClass alphabet length blocked ↔ token ∈ tokensOfLength alphabet length ∧ token ∉ blocked := by
  simp [freeInClass]

theorem card_freeInClass {alphabet : Text} (hnodup : alphabet.Nodup) {length : ℕ} {blocked : List Text}
    (h : ∀ token ∈ blocked, token ∈ tokensOfLength alphabet length) :
    (freeInClass alphabet length blocked).card + blocked.dedup.length = alphabet.length ^ length := by
  have hsub : blocked.toFinset ⊆ (tokensOfLength alphabet length).toFinset := by
    intro token htoken
    exact List.mem_toFinset.mpr (h token (List.mem_toFinset.mp htoken))
  have heq : freeInClass alphabet length blocked = (tokensOfLength alphabet length).toFinset \ blocked.toFinset := by
    ext token
    simp [mem_freeInClass]
  have hcard := Finset.card_sdiff_add_card_eq_card hsub
  rw [heq, ← List.card_toFinset, hcard, List.toFinset_card_of_nodup (nodup_tokensOfLength hnodup length),
    length_tokensOfLength]

section Walk
variable {alphabet : Text} {length : ℕ} {blocked : List Text} {indices : List ℕ}

theorem exists_indices (hlength : 0 < length) (h : ∀ token ∈ blocked, token ∈ tokensOfLength alphabet length) :
    ∃ indices : List ℕ, blocked.mapM (tokenIndex · alphabet) = .ok indices := by
  have hindex : ∀ token ∈ blocked, tokenIndex token alphabet =
      .ok (tokenSpace (token.length - 1) alphabet.length + tokenOffset alphabet token) := by
    intro token htoken
    exact if_pos (isSafeToken_of_mem_tokensOfLength hlength (h token htoken))
  exact ⟨_, mapM_eq_ok_map hindex⟩

theorem mem_indices (hrun : blocked.mapM (tokenIndex · alphabet) = .ok indices) {index : ℕ} :
    index ∈ indices ↔ ∃ token ∈ blocked, tokenIndex token alphabet = .ok index := by
  constructor
  · exact exists_of_mem_mapM_ok hrun
  · rintro ⟨token, htoken, hindex⟩
    obtain ⟨found, hfound, hsame⟩ := exists_of_mapM_ok hrun htoken
    rw [hindex] at hsame
    exact Except.ok.inj hsame ▸ hfound

theorem index_bounds (hlength : 0 < length) (h : ∀ token ∈ blocked, token ∈ tokensOfLength alphabet length)
    (hrun : blocked.mapM (tokenIndex · alphabet) = .ok indices) {index : ℕ} (hindex : index ∈ indices) :
    tokenSpace (length - 1) alphabet.length ≤ index ∧
      index < tokenSpace (length - 1) alphabet.length + alphabet.length ^ length := by
  obtain ⟨token, htoken, hfound⟩ := (mem_indices hrun).mp hindex
  have hmem := h token htoken
  obtain ⟨found, hsame, hlow, hhigh⟩ := tokenIndex_class (isSafeToken_of_mem_tokensOfLength hlength hmem)
  rw [hfound] at hsame
  rw [Except.ok.inj hsame, ← (mem_tokensOfLength.mp hmem).1]
  exact ⟨hlow, hhigh⟩

theorem length_dedup_indices (h : ∀ token ∈ blocked, token ∈ tokensOfLength alphabet length)
    (hrun : blocked.mapM (tokenIndex · alphabet) = .ok indices) :
    indices.dedup.length = blocked.dedup.length := by
  rw [← List.card_toFinset, ← List.card_toFinset]
  have hinvert : ∀ token ∈ blocked, ∃ index ∈ indices, tokenIndex token alphabet = .ok index :=
    fun token htoken => exists_of_mapM_ok hrun htoken
  choose! indexOf hmem hindex using hinvert
  have himage : indices.toFinset = blocked.toFinset.image indexOf := by
    ext index
    simp only [List.mem_toFinset, Finset.mem_image, mem_indices hrun]
    constructor
    · rintro ⟨token, htoken, hfound⟩
      exact ⟨token, htoken, Except.ok.inj ((hindex token htoken).symm.trans hfound)⟩
    · rintro ⟨token, htoken, rfl⟩
      exact ⟨token, htoken, hindex token htoken⟩
  rw [himage, Finset.card_image_of_injOn]
  intro a ha b hb hab
  have ha' : a ∈ blocked := List.mem_toFinset.mp (Finset.mem_coe.mp ha)
  have hb' : b ∈ blocked := List.mem_toFinset.mp (Finset.mem_coe.mp hb)
  have hlen : a.length = b.length :=
    (mem_tokensOfLength.mp (h a ha')).1.trans (mem_tokensOfLength.mp (h b hb')).1.symm
  exact tokenIndex_injective hlen (hindex a ha') (hab ▸ hindex b hb')

/-- A walk over the blocked indices of a class ends on one of its free tokens. -/
theorem gapWalk_class (hnodup : alphabet.Nodup) (hlength : 0 < length)
    (h : ∀ token ∈ blocked, token ∈ tokensOfLength alphabet length)
    (hrun : blocked.mapM (tokenIndex · alphabet) = .ok indices) {j : ℕ}
    (hj : (j : ℤ) < (freeInClass alphabet length blocked).card) :
    ∃ token, tokenAt (gapWalk (tokenSpace (length - 1) alphabet.length - 1) j
        ((indices.dedup.insertionSort (· ≤ ·)).map Nat.cast)) length alphabet = .ok token ∧
      token ∈ freeInClass alphabet length blocked := by
  let low : ℤ := tokenSpace (length - 1) alphabet.length
  let walk : List ℤ := (indices.dedup.insertionSort (· ≤ ·)).map Nat.cast
  have hperm : (indices.dedup.insertionSort (· ≤ ·)).Perm indices.dedup := List.perm_insertionSort _ _
  have hsorted : walk.Pairwise (· < ·) := by
    have hle := List.pairwise_insertionSort (· ≤ ·) indices.dedup
    have hne : (indices.dedup.insertionSort (· ≤ ·)).Nodup := hperm.nodup_iff.mpr (List.nodup_dedup _)
    have hlt := (hle.and hne).imp fun hab => lt_of_le_of_ne hab.1 hab.2
    exact hlt.map _ fun a b hab => Int.ofNat_lt.mpr hab
  have hmem : ∀ x, x ∈ walk ↔ ∃ index ∈ indices, (index : ℤ) = x := by
    intro x
    simp only [walk, List.mem_map, hperm.mem_iff, List.mem_dedup]
  have hbounds : ∀ x ∈ walk, low - 1 < x ∧ x < low + (alphabet.length : ℤ) ^ length := by
    intro x hx
    obtain ⟨index, hindex, rfl⟩ := (hmem x).mp hx
    obtain ⟨hlow, hhigh⟩ := index_bounds hlength h hrun hindex
    have hhigh' : (index : ℤ) < low + (alphabet.length : ℤ) ^ length := by
      simp only [low]
      exact_mod_cast hhigh
    exact ⟨by simp only [low]; omega, hhigh'⟩
  have hcount : (walk.length : ℤ) + (freeInClass alphabet length blocked).card = (alphabet.length : ℤ) ^ length := by
    have hcard := card_freeInClass hnodup h
    rw [← length_dedup_indices h hrun] at hcard
    have hwalk : walk.length = indices.dedup.length := by rw [List.length_map, hperm.length_eq]
    rw [hwalk, ← Nat.cast_add, Nat.add_comm, hcard]
    exact Nat.cast_pow _ _
  have hpow : (0 : ℤ) < (alphabet.length : ℤ) ^ length := by omega
  have hfree : ((freeBetween (low - 1) (low + (alphabet.length : ℤ) ^ length) walk).card : ℤ) =
      (freeInClass alphabet length blocked).card := by
    have hnd : walk.Nodup := hsorted.imp fun hab => ne_of_lt hab
    rw [card_freeBetween hnd hbounds (by omega)]
    omega
  obtain ⟨hlow, hnot, -⟩ := gapWalk_spec (j := (j : ℤ)) hsorted (fun b hb => (hbounds b hb).1) (by omega)
  have hhigh := gapWalk_lt (t := low + (alphabet.length : ℤ) ^ length) (j := (j : ℤ)) hsorted
    (fun b hb => (hbounds b hb).1) (by omega) (hfree ▸ hj)
  obtain ⟨token, htoken, hlen, hsafe, hindex⟩ := tokenAt_class hnodup hlength (by omega) hhigh
  refine ⟨token, htoken, mem_freeInClass.mpr ⟨hlen ▸ mem_tokensOfLength_of_isSafeToken hsafe, ?_⟩⟩
  intro hblocked
  refine hnot ((hmem _).mpr ⟨_, (mem_indices hrun).mpr ⟨token, hblocked, hindex⟩, ?_⟩)
  exact Int.toNat_of_nonneg (by omega)

end Walk
end DbfAnonymizer.Transforms
