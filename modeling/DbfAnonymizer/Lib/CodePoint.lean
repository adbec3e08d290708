import Mathlib.Data.Fin.Basic
import Mathlib.Data.Nat.Init

/-! Texts of characters, and texts of code points, among which there may be surrogates. -/
namespace DbfAnonymizer.Lib

/-- What texts are made of. In the plain form of a text the replacement character stands for
whatever is not a character. -/
class TextChar (χ : Type) where
  ofChar : Char → χ
  codePoint : χ → ℕ
  scalar? : χ → Option Char
  ofPlain : List Char → List χ
  plain : List χ → List Char
  codePoint_ofChar : ∀ c, codePoint (ofChar c) = c.toNat
  plain_ofPlain : ∀ s, plain (ofPlain s) = s

namespace TextChar
variable {χ : Type} [TextChar χ]

attribute [simp] codePoint_ofChar plain_ofPlain

theorem ofPlain_injective : Function.Injective (ofPlain : List Char → List χ) := by
  intro s s' h
  have hplain : plain (ofPlain s : List χ) = s := plain_ofPlain s
  rw [← hplain, h, plain_ofPlain]

@[simp] theorem ofPlain_inj {s s' : List Char} : (ofPlain s : List χ) = ofPlain s' ↔ s = s' := ofPlain_injective.eq_iff

end TextChar

@[default_instance] instance : TextChar Char where
  ofChar c := c
  codePoint := Char.toNat
  scalar? := some
  ofPlain s := s
  plain s := s
  codePoint_ofChar := fun _ => rfl
  plain_ofPlain := fun _ => rfl

namespace TextChar

@[simp] theorem ofChar_char (c : Char) : (ofChar c : Char) = c := rfl

@[simp] theorem codePoint_char (c : Char) : codePoint c = c.toNat := rfl

@[simp] theorem ofPlain_char (s : List Char) : (ofPlain s : List Char) = s := rfl

@[simp] theorem plain_char (s : List Char) : plain s = s := rfl

end TextChar

abbrev CodePoint := Fin 0x110000

namespace CodePoint

theorem toNat_lt (c : Char) : c.toNat < 0x110000 := by
  have hvalid : c.toNat.isValidChar := c.valid
  simp only [Nat.isValidChar] at hvalid
  omega

def ofChar (c : Char) : CodePoint := ⟨c.toNat, toNat_lt c⟩

def scalar? (c : CodePoint) : Option Char := if h : c.val.isValidChar then some (Char.ofNatAux c.val h) else none

@[simp] theorem scalar?_ofChar (c : Char) : scalar? (ofChar c) = some c := by
  have hvalid : (ofChar c).val.isValidChar := c.valid
  rw [scalar?, dif_pos hvalid]
  rfl

def isHigh (c : CodePoint) : Prop := 0xd800 ≤ c.val ∧ c.val < 0xdc00

def isLow (c : CodePoint) : Prop := 0xdc00 ≤ c.val ∧ c.val < 0xe000

instance (c : CodePoint) : Decidable c.isHigh := by
  unfold isHigh
  infer_instance

instance (c : CodePoint) : Decidable c.isLow := by
  unfold isLow
  infer_instance

end CodePoint

instance : TextChar CodePoint where
  ofChar := CodePoint.ofChar
  codePoint c := c.val
  scalar? := CodePoint.scalar?
  ofPlain s := s.map CodePoint.ofChar
  plain s := s.map fun c => (CodePoint.scalar? c).getD '\ufffd'
  codePoint_ofChar := fun _ => rfl
  plain_ofPlain := by
    intro s
    rw [List.map_map]
    exact (List.map_congr_left fun c _ => by simp).trans s.map_id

end DbfAnonymizer.Lib
