import Mathlib.Algebra.Order.Ring.Int
import Mathlib.Data.List.Dedup
import Mathlib.Data.Finset.Card
import Mathlib.Tactic.SplitIfs
import Mathlib.Tactic.IntervalCases
import DbfAnonymizer.Errors

/-! Declared numeric key domains: canonical integer texts, member ranges and the bijection kernel. -/
namespace DbfAnonymizer.Transforms

def integerKeyOriginalLow : ℤ := -(2 ^ 31)
def integerKeyOriginalHigh : ℤ := 2 ^ 31 - 1
def integerKeyWritableLow : ℤ := integerKeyOriginalLow + 1
def integerKeyWritableHigh : ℤ := integerKeyOriginalHigh - 1
def numericKeyMaxWidth : ℕ := 20

/-- The decimal text of an integer: no plus sign, no leading zero. -/
def canonicalIntegerText (value : ℤ) : Text :=
  if value < 0 then '-' :: Nat.toDigits 10 value.natAbs else Nat.toDigits 10 value.natAbs

def isCanonicalMagnitude : Text → Bool
  | [] => false
  | d :: ds => d.isDigit && d != '0' && ds.all Char.isDigit

def isCanonicalInteger : Text → Bool
  | ['0'] => true
  | '-' :: ds => isCanonicalMagnitude ds
  | ds => isCanonicalMagnitude ds

def parseCanonicalIntegerText (text : Text) : Except Raised ℤ :=
  if isCanonicalInteger text then
    match text with
    | '-' :: ds => .ok (-(Nat.ofDigitChars 10 ds 0 : ℤ))
    | ds => .ok (Nat.ofDigitChars 10 ds 0 : ℤ)
  else .error (.valueError "value is not a canonical integer representation")

theorem isCanonicalMagnitude_toDigits {n : ℕ} (h : 0 < n) :
    isCanonicalMagnitude (Nat.toDigits 10 n) = true := by
  induction n using Nat.strong_induction_on with
  | _ n ih =>
    by_cases hlt : n < 10
    · rw [Nat.toDigits_of_lt_base hlt]
      interval_cases n <;> decide
    · have hdiv := ih (n / 10) (by omega) (by omega)
      rw [Nat.toDigits_of_base_le (by omega) (by omega)]
      cases hd : Nat.toDigits 10 (n / 10) with
      | nil => exact absurd hd Nat.toDigits_ne_nil
      | cons d ds =>
        have hlast : (n % 10).digitChar.isDigit = true :=
          Nat.isDigit_of_mem_toDigits (b := 10) (n := n % 10) (by omega) (by omega)
            (by rw [Nat.toDigits_of_lt_base (Nat.mod_lt n (by omega))]; simp)
        simp only [hd, isCanonicalMagnitude, Bool.and_eq_true] at hdiv
        simp [isCanonicalMagnitude, hdiv.1.1, hdiv.2, hlast, hdiv.1.2]

theorem head_toDigits_ne_minus {n : ℕ} {ds : Text} : Nat.toDigits 10 n ≠ '-' :: ds := by
  intro h
  have := Nat.isDigit_of_mem_toDigits (b := 10) (n := n) (c := '-') (by omega) (by omega) (by simp [h])
  exact absurd this (by decide)

theorem parse_canonicalIntegerText (value : ℤ) :
    parseCanonicalIntegerText (canonicalIntegerText value) = .ok value := by
  unfold canonicalIntegerText
  split_ifs with hneg
  · have hmag := isCanonicalMagnitude_toDigits (n := value.natAbs) (by omega)
    have hcan : isCanonicalInteger ('-' :: Nat.toDigits 10 value.natAbs) = true := hmag
    simp only [parseCanonicalIntegerText, hcan, if_true, Nat.ofDigitChars_ten_toDigits]
    congr 1
    omega
  · by_cases hz : value = 0
    · subst hz; decide
    · have hmag := isCanonicalMagnitude_toDigits (n := value.natAbs) (by omega)
      have hcan : isCanonicalInteger (Nat.toDigits 10 value.natAbs) = true := by
        unfold isCanonicalInteger
        split
        · rfl
        · next h => exact absurd h head_toDigits_ne_minus
        · exact hmag
      simp only [parseCanonicalIntegerText, hcan, if_true]
      split
      · next h => exact absurd h head_toDigits_ne_minus
      · rw [Nat.ofDigitChars_ten_toDigits]
        congr 1
        omega

theorem canonicalIntegerText_injective : Function.Injective canonicalIntegerText := by
  intro a b h
  have ha := parse_canonicalIntegerText a
  rw [h, parse_canonicalIntegerText b] at ha
  exact (Except.ok.inj ha).symm

structure NumericKeyMemberRange where
  originalLow : ℤ
  originalHigh : ℤ
  pseudonymLow : ℤ
  pseudonymHigh : ℤ
  readableLow : Option ℤ
  readableHigh : Option ℤ
  deriving DecidableEq, Repr

namespace NumericKeyMemberRange

def pseudonymRange (m : NumericKeyMemberRange) : ℤ × ℤ := (m.pseudonymLow, m.pseudonymHigh)

def readableRange (m : NumericKeyMemberRange) : ℤ × ℤ :=
  (m.readableLow.getD m.originalLow, m.readableHigh.getD m.originalHigh)

def containsOriginal (m : NumericKeyMemberRange) (value : ℤ) : Bool :=
  m.originalLow ≤ value ∧ value ≤ m.originalHigh

def containsReadable (m : NumericKeyMemberRange) (value : ℤ) : Bool :=
  m.readableRange.1 ≤ value ∧ value ≤ m.readableRange.2

end NumericKeyMemberRange

def integralNumericRange (width : ℤ) : Except Raised (ℤ × ℤ) :=
  if 1 ≤ width ∧ width ≤ numericKeyMaxWidth then
    .ok (-(10 ^ (width - 1).toNat - 1), 10 ^ width.toNat - 1)
  else .error (.valueError "integral numeric key width must be between 1 and 20")

def intersectRanges (ranges : List (ℤ × ℤ)) : Option (ℤ × ℤ) :=
  match (ranges.map Prod.fst).max?, (ranges.map Prod.snd).min? with
  | some low, some high => if low > high then none else some (low, high)
  | _, _ => none

/-- An Integer member reads every signed 32-bit value but can rewrite neither extreme. -/
def integerMember : NumericKeyMemberRange where
  originalLow := integerKeyWritableLow
  originalHigh := integerKeyWritableHigh
  pseudonymLow := integerKeyWritableLow
  pseudonymHigh := integerKeyWritableHigh
  readableLow := some integerKeyOriginalLow
  readableHigh := some integerKeyOriginalHigh

def integralNumericMember (width : ℤ) : Except Raised NumericKeyMemberRange := do
  let (low, high) ← integralNumericRange width
  return ⟨low, high, low, high, some low, some high⟩

inductive MemberVerdict
  | reversible | recoveryUnwritable | outOfMemberRange
  deriving DecidableEq, Repr

def classifyMemberOriginal (member : NumericKeyMemberRange) (value : ℤ) : MemberVerdict :=
  if member.containsOriginal value then .reversible
  else if member.containsReadable value then .recoveryUnwritable
  else .outOfMemberRange

structure NumericKeyDomain where
  pseudonymLow : ℤ
  pseudonymHigh : ℤ
  members : List NumericKeyMemberRange
  deriving DecidableEq, Repr

namespace NumericKeyDomain

def size (d : NumericKeyDomain) : ℤ := d.pseudonymHigh - d.pseudonymLow + 1

def containsPseudonym (d : NumericKeyDomain) (value : ℤ) : Bool :=
  d.pseudonymLow ≤ value ∧ value ≤ d.pseudonymHigh

@[simp] theorem containsPseudonym_iff {d : NumericKeyDomain} {value : ℤ} :
    d.containsPseudonym value = true ↔ d.pseudonymLow ≤ value ∧ value ≤ d.pseudonymHigh := by
  simp [containsPseudonym]

end NumericKeyDomain

def numericKeyDomainFor (members : List NumericKeyMemberRange) : Except Raised NumericKeyDomain :=
  if members.isEmpty then .error (.valueError "a numeric key domain requires at least one member range")
  else match intersectRanges (members.map NumericKeyMemberRange.pseudonymRange) with
    | none => .error
        (.valueError "the participating member ranges have no common representable value")
    | some (low, high) => .ok ⟨low, high, members⟩

/-- The exact feasibility kernel: enough free tokens, and a second one for a free own value. -/
def planNumericBijection (domain : NumericKeyDomain) (unpersistedOriginals occupiedPseudonyms : List ℤ) :
    Except Raised Bool :=
  let blocked := (occupiedPseudonyms.filter domain.containsPseudonym).dedup
  let distinct := unpersistedOriginals.dedup
  if distinct.length ≠ unpersistedOriginals.length then
    .error (.valueError "unpersisted originals must be distinct")
  else
    let free := domain.size - blocked.length
    if free < distinct.length then .ok false
    else .ok (distinct.all fun value =>
      1 ≤ if domain.containsPseudonym value ∧ value ∉ blocked then free - 1 else free)

end DbfAnonymizer.Transforms
