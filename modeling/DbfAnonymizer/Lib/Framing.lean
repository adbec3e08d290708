import Mathlib

/-! Frames that tell where they end, one behind the other. -/
namespace DbfAnonymizer.Lib
variable {α γ β : Type*}

/-- The end of a run of accepted items can be found again in a longer list. -/
theorem append_inj_of_stop {p : β → Prop} {as bs xs ys : List β} (ha : ∀ a ∈ as, p a) (hb : ∀ b ∈ bs, p b)
    (hx : ∀ x ∈ xs.head?, ¬ p x) (hy : ∀ y ∈ ys.head?, ¬ p y) (h : as ++ xs = bs ++ ys) : as = bs ∧ xs = ys := by
  induction as generalizing bs with
  | nil =>
    cases bs with
    | nil => exact ⟨rfl, h⟩
    | cons b bs =>
      rw [List.nil_append] at h
      rw [h] at hx
      exact absurd (hb b (by simp)) (hx b (by simp))
  | cons a as ih =>
    cases bs with
    | nil =>
      rw [List.nil_append] at h
      rw [← h] at hy
      exact absurd (ha a (by simp)) (hy a (by simp))
    | cons b bs =>
      obtain ⟨rfl, hrest⟩ := List.cons.inj h
      obtain ⟨rfl, hxy⟩ := ih (fun c hc => ha c (by simp [hc])) (fun c hc => hb c (by simp [hc])) hrest
      exact ⟨rfl, hxy⟩

/-- No frame of a good item is the beginning of another one. -/
def PrefixFree (good : α → Prop) (frame : α → List β) : Prop :=
  ∀ a b, good a → good b → ∀ xs ys, frame a ++ xs = frame b ++ ys → a = b ∧ xs = ys

namespace PrefixFree
variable {good : α → Prop} {good' : γ → Prop} {frame : α → List β} {frame' : γ → List β}

theorem of_length (width : ℕ) (hlength : ∀ a, (frame a).length = width)
    (hinj : ∀ a b, good a → good b → frame a = frame b → a = b) : PrefixFree good frame := by
  intro a b ha hb xs ys h
  obtain ⟨hframe, hrest⟩ := List.append_inj h ((hlength a).trans (hlength b).symm)
  exact ⟨hinj a b ha hb hframe, hrest⟩

theorem append (h : PrefixFree good frame) (h' : PrefixFree good' frame') :
    PrefixFree (fun item : α × γ => good item.1 ∧ good' item.2) fun item => frame item.1 ++ frame' item.2 := by
  rintro ⟨a, c⟩ ⟨b, d⟩ ⟨ha, hc⟩ ⟨hb, hd⟩ xs ys heq
  rw [List.append_assoc, List.append_assoc] at heq
  obtain ⟨rfl, hrest⟩ := h a b ha hb _ _ heq
  obtain ⟨rfl, hend⟩ := h' c d hc hd _ _ hrest
  exact ⟨rfl, hend⟩

theorem sized {size : ℕ → List β} {good : ℕ → Prop} (h : PrefixFree good size) {payload : α → List β}
    (hinj : Function.Injective payload) :
    PrefixFree (fun a => good (payload a).length) fun a => size (payload a).length ++ payload a := by
  intro a b ha hb xs ys heq
  dsimp only at heq
  rw [List.append_assoc, List.append_assoc] at heq
  obtain ⟨hlength, hrest⟩ := h _ _ ha hb _ _ heq
  obtain ⟨hpayload, hend⟩ := List.append_inj hrest hlength
  exact ⟨hinj hpayload, hend⟩

/-- Frames that are not empty, in front of a trailer of known length, can be read off one by one. -/
theorem flatMap_append_inj (h : PrefixFree good frame) {as bs : List α} (ha : ∀ a ∈ as, good a)
    (hb : ∀ b ∈ bs, good b) {trailer trailer' : List β} (hlength : trailer.length = trailer'.length)
    (hnonempty : ∀ a, 0 < (frame a).length) (heq : as.flatMap frame ++ trailer = bs.flatMap frame ++ trailer') :
    as = bs ∧ trailer = trailer' := by
  induction as generalizing bs with
  | nil =>
    cases bs with
    | nil => exact ⟨rfl, heq⟩
    | cons b bs =>
      have hlong := congrArg List.length heq
      have hb' := hnonempty b
      simp only [List.flatMap_nil, List.flatMap_cons, List.nil_append, List.length_append] at hlong
      omega
  | cons a as ih =>
    cases bs with
    | nil =>
      have hlong := congrArg List.length heq
      have ha' := hnonempty a
      simp only [List.flatMap_nil, List.flatMap_cons, List.nil_append, List.length_append] at hlong
      omega
    | cons b bs =>
      rw [List.flatMap_cons, List.flatMap_cons, List.append_assoc, List.append_assoc] at heq
      obtain ⟨rfl, hrest⟩ := h a b (ha a (by simp)) (hb b (by simp)) _ _ heq
      obtain ⟨rfl, hend⟩ := ih (fun x hx => ha x (by simp [hx])) (fun x hx => hb x (by simp [hx])) hrest
      exact ⟨rfl, hend⟩

end PrefixFree
end DbfAnonymizer.Lib
