import Mathlib.Algebra.Order.Ring.Int
import DbfAnonymizer.Errors

namespace DbfAnonymizer

/-- The operating system's random source: what its `k`-th call returns under a bound. -/
structure Csprng where
  next : ℕ → ℕ → ℕ
  next_lt : ∀ k bound, 0 < bound → next k bound < bound

instance : Inhabited Csprng := ⟨⟨fun _ _ => 0, fun _ _ h => h⟩⟩

/-- `secrets.randbelow`: the next draw, or the refusal of an empty range. -/
def Csprng.randbelow (rng : Csprng) (draws : ℕ) (bound : ℤ) : Except Raised ℕ :=
  if 0 < bound then .ok (rng.next draws bound.toNat) else .error (.valueError "Upper bound must be positive.")

theorem Csprng.exists_randbelow (rng : Csprng) (draws : ℕ) {bound : ℤ} (h : 0 < bound) :
    ∃ draw : ℕ, rng.randbelow draws bound = .ok draw ∧ (draw : ℤ) < bound := by
  refine ⟨_, if_pos h, ?_⟩
  have hlt := rng.next_lt draws bound.toNat (by omega)
  omega

end DbfAnonymizer
