import Mathlib
import DbfAnonymizer.Errors

/-! The text-domain kernels: the safe alphabet, the finite token space and the strictest width. -/
namespace DbfAnonymizer.Transforms

/-- The live codec registry: strict encoding of a text under an encoding name, where it exists. -/
abbrev Codecs := Text → Text → Option (List UInt8)

def safeTextAlphabet : Text :=
  ['A', 'B', 'C', 'D', 'E', 'F', 'G', 'H', 'I', 'J', 'K', 'L', 'M', 'N', 'O', 'P', 'Q', 'R', 'S', 'T', 'U',
    'V', 'W', 'X', 'Y', 'Z', '0', '1', '2', '3', '4', '5', '6', '7', '8', '9']

/-- The safe characters that take exactly one byte under every participating encoding. -/
def candidateAlphabet (codecs : Codecs) (participatingEncodings : List Text) : Text :=
  safeTextAlphabet.filter fun character =>
    participatingEncodings.all fun encoding => (codecs encoding [character]).any (·.length == 1)

def reducedStrictest (previous : Option ℕ) (width : ℕ) : ℕ :=
  match previous with
  | none => width
  | some previous => min previous width

/-- The number of tokens of length `1..maxWidth` over `base` characters. -/
def tokenSpace (maxWidth base : ℕ) : ℕ :=
  match maxWidth with
  | 0 => 0
  | w + 1 => tokenSpace w base + base ^ (w + 1)

/-- Streams the geometric terms and stops as soon as `needed` is reached. -/
def tokenSpaceAtLeast (maxWidth base : ℕ) (needed : ℤ) : Bool :=
  if maxWidth < 1 ∨ base < 1 then needed ≤ 0 else go maxWidth 0 1
where
  go : ℕ → ℤ → ℤ → Bool
    | 0, _, _ => false
    | width + 1, total, term =>
      let term := term * base
      let total := total + term
      if total ≥ needed then true else go width total term

def isSafeToken (candidate alphabet : Text) : Bool :=
  !candidate.isEmpty && candidate.all (· ∈ alphabet)

theorem tokenSpace_mono (base : ℕ) : Monotone fun w => tokenSpace w base :=
  monotone_nat_of_le_succ fun _ => Nat.le_add_right _ _

theorem tokenSpaceAtLeast_go (base : ℕ) (needed : ℤ) (width done : ℕ)
    (hdone : (tokenSpace done base : ℤ) < needed) :
    tokenSpaceAtLeast.go base needed width (tokenSpace done base) ((base : ℤ) ^ done) =
      decide (needed ≤ tokenSpace (done + width) base) := by
  induction width generalizing done with
  | zero =>
    rw [tokenSpaceAtLeast.go, Nat.add_zero, decide_eq_false (by omega)]
  | succ width ih =>
    have hterm : (base : ℤ) ^ done * base = (base : ℤ) ^ (done + 1) := (pow_succ _ _).symm
    have htotal : (tokenSpace done base : ℤ) + (base : ℤ) ^ (done + 1) = tokenSpace (done + 1) base := by
      simp [tokenSpace]
    simp only [tokenSpaceAtLeast.go, hterm, htotal]
    split_ifs with h
    · have hmono : tokenSpace (done + 1) base ≤ tokenSpace (done + (width + 1)) base :=
        tokenSpace_mono base (by omega)
      rw [decide_eq_true (by omega)]
    · rw [ih (done + 1) (by omega), show done + 1 + width = done + (width + 1) by omega]

theorem tokenSpaceAtLeast_iff (maxWidth base : ℕ) (needed : ℤ) :
    tokenSpaceAtLeast maxWidth base needed = true ↔ needed ≤ tokenSpace maxWidth base := by
  unfold tokenSpaceAtLeast
  split_ifs with h
  · have hzero : tokenSpace maxWidth base = 0 := by
      rcases h with h | h
      · obtain rfl : maxWidth = 0 := by omega
        rfl
      · obtain rfl : base = 0 := by omega
        induction maxWidth with
        | zero => rfl
        | succ w ih => simp [tokenSpace, ih]
    simp [hzero]
  · by_cases hpos : needed ≤ 0
    · obtain ⟨w, rfl⟩ : ∃ w, maxWidth = w + 1 := ⟨maxWidth - 1, by omega⟩
      have hterm : needed ≤ 0 + 1 * (base : ℤ) := by omega
      simp only [tokenSpaceAtLeast.go, ge_iff_le, hterm, if_true, true_iff]
      omega
    · have hgo := tokenSpaceAtLeast_go base needed maxWidth 0 (by simp [tokenSpace]; omega)
      rw [Nat.zero_add, pow_zero] at hgo
      have hzero : (tokenSpace 0 base : ℤ) = 0 := rfl
      rw [hzero] at hgo
      rw [hgo, decide_eq_true_iff]

end DbfAnonymizer.Transforms
