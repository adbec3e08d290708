import DbfAnonymizer.Engine.Evidence
import DbfAnonymizer.Lib.Framing

/-! The canonical identity of a composite key tells every two keys apart. -/
namespace DbfAnonymizer.Engine
open Transforms Lib

theorem utf8Bytes_injective : Function.Injective utf8Bytes := by
  intro a b h
  refine String.ofList_injective (String.toByteArray_inj.mp ?_)
  have hbytes := congrArg List.toByteArray h
  simpa [utf8Bytes, List.utf8Encode] using hbytes

def isIntegerChar (c : Char) : Prop := c.isDigit = true ∨ c = '-'

theorem isIntegerChar_of_mem {n : ℤ} {c : Char} (hc : c ∈ canonicalIntegerText n) : isIntegerChar c := by
  unfold canonicalIntegerText at hc
  split_ifs at hc
  · rcases List.mem_cons.mp hc with rfl | hc
    · exact Or.inr rfl
    · exact Or.inl (Nat.isDigit_of_mem_toDigits (by omega) (by omega) hc)
  · exact Or.inl (Nat.isDigit_of_mem_toDigits (by omega) (by omega) hc)

/-- The bytes of such characters: below the separators `:` and `|`, and not zero. -/
def isIntegerByte (b : UInt8) : Prop := 45 ≤ b ∧ b ≤ 57

theorem toNat_isIntegerChar {c : Char} (hc : isIntegerChar c) : 45 ≤ c.toNat ∧ c.toNat ≤ 57 := by
  rcases hc with hd | rfl
  · simp only [Char.isDigit, Bool.and_eq_true, decide_eq_true_eq] at hd
    obtain ⟨h1, h2⟩ := hd
    have h3 : (48 : ℕ) ≤ c.val.toNat := h1
    have h4 : c.val.toNat ≤ 57 := h2
    exact ⟨by unfold Char.toNat; omega, by unfold Char.toNat; omega⟩
  · decide

theorem isIntegerByte_of_mem {n : ℤ} {b : UInt8} (hb : b ∈ asciiBytes (canonicalIntegerText n)) :
    isIntegerByte b := by
  obtain ⟨c, hc, rfl⟩ := List.mem_map.mp hb
  obtain ⟨h1, h2⟩ := toNat_isIntegerChar (isIntegerChar_of_mem hc)
  have hnat : (UInt8.ofNat c.toNat).toNat = c.toNat := by
    rw [UInt8.toNat_ofNat']
    exact Nat.mod_eq_of_lt (by omega)
  unfold isIntegerByte
  rw [UInt8.le_iff_toNat_le, UInt8.le_iff_toNat_le, hnat]
  exact ⟨h1, h2⟩

theorem asciiBytes_inj {as bs : Text} (has : ∀ a ∈ as, a.toNat < 128) (hbs : ∀ b ∈ bs, b.toNat < 128)
    (h : asciiBytes as = asciiBytes bs) : as = bs := by
  induction as generalizing bs with
  | nil => exact (List.map_eq_nil_iff.mp h.symm).symm
  | cons a as ih =>
    cases bs with
    | nil => cases h
    | cons b bs =>
      obtain ⟨hhead, htail⟩ := List.cons.inj h
      have ha := has a List.mem_cons_self
      have hb := hbs b List.mem_cons_self
      have hnat := congrArg UInt8.toNat hhead
      rw [UInt8.toNat_ofNat', UInt8.toNat_ofNat', Nat.mod_eq_of_lt (by omega), Nat.mod_eq_of_lt (by omega)] at hnat
      rw [Char.toNat_inj.mp hnat, ih (fun c hc => has c (List.mem_cons_of_mem a hc))
        (fun c hc => hbs c (List.mem_cons_of_mem b hc)) htail]

theorem asciiBytes_canonicalIntegerText_injective :
    Function.Injective fun n : ℤ => asciiBytes (canonicalIntegerText n) := by
  have hascii : ∀ n : ℤ, ∀ c ∈ canonicalIntegerText n, c.toNat < 128 := by
    intro n c hc
    have hrange := toNat_isIntegerChar (isIntegerChar_of_mem hc)
    omega
  intro m n h
  exact canonicalIntegerText_injective (asciiBytes_inj (hascii m) (hascii n) h)

theorem decimal_append_inj {m n : ℤ} {s : UInt8} {xs ys : List UInt8} (hs : ¬ isIntegerByte s)
    (h : asciiBytes (canonicalIntegerText m) ++ s :: xs = asciiBytes (canonicalIntegerText n) ++ s :: ys) :
    m = n ∧ xs = ys := by
  obtain ⟨hdigits, hrest⟩ := append_inj_of_stop (p := isIntegerByte) (fun _ => isIntegerByte_of_mem)
    (fun _ => isIntegerByte_of_mem) (by simpa using hs) (by simpa using hs) h
  exact ⟨asciiBytes_canonicalIntegerText_injective hdigits, (List.cons.inj hrest).2⟩

theorem identity_text (value : Text) : (KeyComponent.text value).identity =
    84 :: (asciiBytes (canonicalIntegerText (utf8Bytes value).length) ++ 58 :: utf8Bytes value) := by
  simp [KeyComponent.identity, asciiBytes]

theorem identity_int (value : ℤ) : (KeyComponent.int value).identity =
    78 :: (asciiBytes (canonicalIntegerText (canonicalIntegerText value).length) ++
      124 :: asciiBytes (canonicalIntegerText value)) := by
  simp [KeyComponent.identity, asciiBytes]

/-- One component's bytes determine the component and where it ends. -/
theorem identity_prefixFree : PrefixFree (fun _ => True) fun c : KeyComponent => 0 :: c.identity := by
  intro a b _ _ xs ys h
  have h : a.identity ++ xs = b.identity ++ ys := (List.cons.inj h).2
  cases a with
  | text s =>
    cases b with
    | text t =>
      rw [identity_text, identity_text, List.cons_append, List.cons_append, List.append_assoc,
        List.append_assoc] at h
      obtain ⟨hlen, hrest⟩ := decimal_append_inj (by unfold isIntegerByte; decide) (List.cons.inj h).2
      obtain ⟨hbytes, hxy⟩ := List.append_inj hrest (by exact_mod_cast hlen)
      exact ⟨congrArg _ (utf8Bytes_injective hbytes), hxy⟩
    | int n =>
      rw [identity_text, identity_int] at h
      exact absurd (List.cons.inj h).1 (by decide)
  | int m =>
    cases b with
    | text t =>
      rw [identity_text, identity_int] at h
      exact absurd (List.cons.inj h).1 (by decide)
    | int n =>
      rw [identity_int, identity_int, List.cons_append, List.cons_append, List.append_assoc,
        List.append_assoc] at h
      obtain ⟨hlen, hrest⟩ := decimal_append_inj (by unfold isIntegerByte; decide) (List.cons.inj h).2
      obtain ⟨hbytes, hxy⟩ := List.append_inj hrest (by simp only [asciiBytes, List.length_map]; exact_mod_cast hlen)
      exact ⟨congrArg _ (asciiBytes_canonicalIntegerText_injective hbytes), hxy⟩

theorem canonicalCompositeIdentity_eq (components : List KeyComponent) :
    canonicalCompositeIdentity components = asciiBytes (canonicalIntegerText components.length) ++
      components.flatMap fun c => 0 :: c.identity := by
  unfold canonicalCompositeIdentity
  generalize asciiBytes (canonicalIntegerText components.length) = head
  induction components generalizing head with
  | nil => simp
  | cons c cs ih =>
    rw [List.map_cons, List.intercalate_cons_cons, ih c.identity, List.flatMap_cons]
    simp

theorem canonicalCompositeIdentity_injective : Function.Injective canonicalCompositeIdentity := by
  intro as bs h
  rw [canonicalCompositeIdentity_eq, canonicalCompositeIdentity_eq] at h
  have hstop : ∀ cs : List KeyComponent, ∀ x ∈ (cs.flatMap fun c => 0 :: c.identity).head?, ¬ isIntegerByte x := by
    intro cs x hx
    cases cs with
    | nil => simp at hx
    | cons c cs =>
      obtain rfl : x = 0 := by simpa [eq_comm] using hx
      unfold isIntegerByte
      decide
  obtain ⟨-, hrest⟩ := append_inj_of_stop (p := isIntegerByte) (fun _ => isIntegerByte_of_mem)
    (fun _ => isIntegerByte_of_mem) (hstop as) (hstop bs) h
  rw [← List.append_nil (as.flatMap _), ← List.append_nil (bs.flatMap _)] at hrest
  have hframes := identity_prefixFree.flatMap_append_inj (fun _ _ => trivial) (fun _ _ => trivial) rfl (by simp) hrest
  exact hframes.1

/-- Two composite keys share an identity only when they are one key. -/
theorem canonicalCompositeIdentity_eq_iff (as bs : List KeyComponent) :
    canonicalCompositeIdentity as = canonicalCompositeIdentity bs ↔ as = bs := by
  constructor
  · intro h
    exact canonicalCompositeIdentity_injective h
  · intro h
    rw [h]

/-- A text that reads like a number is not that number. -/
example : canonicalCompositeIdentity [.text ['7']] ≠ canonicalCompositeIdentity [.int 7] := by decide

end DbfAnonymizer.Engine
