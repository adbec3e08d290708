import Mathlib

/-! Walking the gaps between blocked integers to find the free ones in order. -/
namespace DbfAnonymizer.Lib

/-- The `j`-th integer above `previous` that an ascending blocked list leaves free. -/
def gapWalk : ℤ → ℤ → List ℤ → ℤ
  | previous, j, [] => previous + 1 + j
  | previous, j, b :: bs =>
    if j < b - previous - 1 then previous + 1 + j else gapWalk b (j - (b - previous - 1)) bs

/-- The free integers strictly between two bounds. -/
noncomputable def freeBetween (previous t : ℤ) (bs : List ℤ) : Finset ℤ :=
  (Finset.Ioo previous t).filter (· ∉ bs)

@[simp] theorem mem_freeBetween {previous t x : ℤ} {bs : List ℤ} :
    x ∈ freeBetween previous t bs ↔ (previous < x ∧ x < t) ∧ x ∉ bs := by
  simp [freeBetween]

theorem card_freeBetween {previous t : ℤ} {bs : List ℤ} (hn : bs.Nodup)
    (hb : ∀ b ∈ bs, previous < b ∧ b < t) (hpt : previous < t) :
    ((freeBetween previous t bs).card : ℤ) = t - previous - 1 - bs.length := by
  have hsub : bs.toFinset ⊆ Finset.Ioo previous t := by
    intro b hmem
    simpa using hb b (List.mem_toFinset.mp hmem)
  have heq : freeBetween previous t bs = Finset.Ioo previous t \ bs.toFinset := by
    ext x
    simp
  have hcard := Finset.card_sdiff_add_card_eq_card hsub
  rw [← heq, List.toFinset_card_of_nodup hn, Int.card_Ioo] at hcard
  omega

theorem freeBetween_below_head {previous t b : ℤ} {bs : List ℤ} (hs : ∀ c ∈ bs, b < c)
    (ht : t ≤ b) : freeBetween previous t (b :: bs) = Finset.Ioo previous t := by
  ext x
  simp only [mem_freeBetween, List.mem_cons, Finset.mem_Ioo, not_or]
  refine ⟨fun h => h.1, fun h => ⟨h, by omega, fun hx => ?_⟩⟩
  have := hs x hx
  omega

theorem freeBetween_past_head {previous t b : ℤ} {bs : List ℤ} (hs : ∀ c ∈ bs, b < c)
    (hp : previous < b) (ht : b < t) :
    freeBetween previous t (b :: bs) = Finset.Ioo previous b ∪ freeBetween b t bs := by
  ext x
  simp only [mem_freeBetween, List.mem_cons, Finset.mem_Ioo, Finset.mem_union, not_or]
  constructor
  · rintro ⟨⟨h1, h2⟩, h3, h4⟩
    rcases lt_or_gt_of_ne h3 with h | h
    · exact Or.inl ⟨h1, h⟩
    · exact Or.inr ⟨⟨h, h2⟩, h4⟩
  · rintro (⟨h1, h2⟩ | ⟨⟨h1, h2⟩, h3⟩)
    · exact ⟨⟨h1, by omega⟩, by omega, fun hx => by have := hs x hx; omega⟩
    · exact ⟨⟨by omega, h2⟩, by omega, h3⟩

/-- The walk ends on a free integer with exactly `j` free integers before it. -/
theorem gapWalk_spec {previous j : ℤ} {bs : List ℤ} (hs : bs.Pairwise (· < ·))
    (hp : ∀ b ∈ bs, previous < b) (hj : 0 ≤ j) :
    previous < gapWalk previous j bs ∧ gapWalk previous j bs ∉ bs ∧
      ((freeBetween previous (gapWalk previous j bs) bs).card : ℤ) = j := by
  induction bs generalizing previous j with
  | nil =>
    refine ⟨by simp only [gapWalk]; omega, by simp, ?_⟩
    simp only [gapWalk, freeBetween, List.not_mem_nil, not_false_eq_true, Finset.filter_true,
      Int.card_Ioo]
    omega
  | cons b bs ih =>
    obtain ⟨hb, hbs⟩ := List.pairwise_cons.mp hs
    have hpb : previous < b := hp b (by simp)
    by_cases hlt : j < b - previous - 1
    · have hw : gapWalk previous j (b :: bs) = previous + 1 + j := by simp [gapWalk, hlt]
      rw [hw]
      refine ⟨by omega, ?_, ?_⟩
      · simp only [List.mem_cons, not_or]
        exact ⟨by omega, fun hx => by have := hb _ hx; omega⟩
      · rw [freeBetween_below_head hb (by omega), Int.card_Ioo]
        omega
    · have hw : gapWalk previous j (b :: bs) = gapWalk b (j - (b - previous - 1)) bs := by
        simp [gapWalk, hlt]
      obtain ⟨h1, h2, h3⟩ := ih (j := j - (b - previous - 1)) hbs hb (by omega)
      rw [hw]
      refine ⟨by omega, ?_, ?_⟩
      · simp only [List.mem_cons, not_or]
        exact ⟨by omega, h2⟩
      · have hd : Disjoint (Finset.Ioo previous b) (freeBetween b (gapWalk b (j - (b - previous - 1)) bs) bs) := by
          rw [Finset.disjoint_left]
          intro x hx hx'
          simp only [Finset.mem_Ioo, mem_freeBetween] at hx hx'
          omega
        rw [freeBetween_past_head hb hpb h1, Finset.card_union_of_disjoint hd, Nat.cast_add, h3,
          Int.card_Ioo]
        omega

theorem gapWalk_lt {previous j t : ℤ} {bs : List ℤ} (hs : bs.Pairwise (· < ·))
    (hp : ∀ b ∈ bs, previous < b) (hj : 0 ≤ j) (ht : j < (freeBetween previous t bs).card) :
    gapWalk previous j bs < t := by
  obtain ⟨-, -, hcard⟩ := gapWalk_spec hs hp hj
  by_contra hle
  have hsub : freeBetween previous t bs ⊆ freeBetween previous (gapWalk previous j bs) bs := by
    intro x hx
    simp only [mem_freeBetween] at hx ⊢
    exact ⟨⟨hx.1.1, by omega⟩, hx.2⟩
  have := Finset.card_le_card hsub
  omega

theorem gapWalk_injective {previous i j : ℤ} {bs : List ℤ} (hs : bs.Pairwise (· < ·))
    (hp : ∀ b ∈ bs, previous < b) (hi : 0 ≤ i) (hj : 0 ≤ j)
    (h : gapWalk previous i bs = gapWalk previous j bs) : i = j := by
  have h1 := (gapWalk_spec hs hp hi).2.2
  have h2 := (gapWalk_spec hs hp hj).2.2
  rw [h] at h1
  exact h1.symm.trans h2

/-- When fewer than `k` free integers are to be avoided, one of the first `k` walks avoids them. -/
theorem exists_gapWalk_not_mem {previous t : ℤ} {bs : List ℤ} (avoid : List ℤ) {k : ℕ}
    (hs : bs.Pairwise (· < ·)) (hp : ∀ b ∈ bs, previous < b)
    (hk : k ≤ (freeBetween previous t bs).card)
    (ha : ((freeBetween previous t bs).filter (· ∈ avoid)).card < k) :
    ∃ j < k, gapWalk previous (j : ℤ) bs ∉ avoid := by
  by_contra hall
  push Not at hall
  have hmaps : Set.MapsTo (fun j : ℕ => gapWalk previous (j : ℤ) bs) (Finset.range k)
      ((freeBetween previous t bs).filter (· ∈ avoid)) := by
    intro j hj
    have hjk : j < k := Finset.mem_range.mp hj
    obtain ⟨h1, h2, -⟩ := gapWalk_spec (j := (j : ℤ)) hs hp (by omega)
    have h3 : gapWalk previous (j : ℤ) bs < t := gapWalk_lt hs hp (by omega) (by omega)
    simp only [Finset.coe_filter, Set.mem_ofPred_eq, mem_freeBetween]
    exact ⟨⟨⟨h1, h3⟩, h2⟩, hall j hjk⟩
  have hinj : Set.InjOn (fun j : ℕ => gapWalk previous (j : ℤ) bs) (Finset.range k) := by
    intro i _ j _ h
    exact_mod_cast gapWalk_injective hs hp (by omega) (by omega) h
  have := Finset.card_le_card_of_injOn _ hmaps hinj
  simp only [Finset.card_range] at this
  omega

/-- Every index below the number of free integers leads to a free one. -/
def WalksFree (previous t : ℤ) (bs : List ℤ) : Prop :=
  ∀ j : ℤ, 0 ≤ j → j < (freeBetween previous t bs).card → gapWalk previous j bs ∈ freeBetween previous t bs

/-- Whoever stands behind a larger one has no free integer above it. -/
def LateOnesClosed (t : ℤ) (bs : List ℤ) : Prop := bs.Pairwise fun u v => v < u → ∀ x, v < x → x < t → x ∈ bs

section Unsorted
variable {previous t b j : ℤ} {bs : List ℤ}

theorem lt_gapWalk (hp : ∀ c ∈ bs, previous < c) (hj : 0 ≤ j) : previous < gapWalk previous j bs := by
  have hlow : ∀ (bs : List ℤ) (start j : ℤ), previous ≤ start → (∀ c ∈ bs, previous < c) → 0 ≤ j →
      previous < gapWalk start j bs := by
    intro bs
    induction bs with
    | nil =>
      intro start j hstart _ hj
      simp only [gapWalk]
      omega
    | cons b bs ih =>
      intro start j hstart hall hj
      obtain ⟨hb, hbs⟩ := List.forall_mem_cons.mp hall
      simp only [gapWalk]
      split_ifs with hgap
      · omega
      · exact ih b _ hb.le hbs (by omega)
  exact hlow bs previous j le_rfl hp hj

theorem exists_least_late (h : ∃ v ∈ bs, v < b) : ∃ v ∈ bs, v < b ∧ ∀ c ∈ bs, v ≤ c := by
  obtain ⟨v, hv, hvb⟩ := h
  have hne : bs ≠ [] := List.ne_nil_of_mem hv
  obtain ⟨m, hm⟩ := Option.isSome_iff_exists.mp (List.isSome_min?_of_ne_nil hne)
  obtain ⟨hmem, hle⟩ := List.min?_eq_some_iff.mp hm
  exact ⟨m, hmem, lt_of_le_of_lt (hle v hv) hvb, hle⟩

theorem freeBetween_below {v : ℤ} (hle : ∀ c ∈ bs, v ≤ c) : freeBetween previous v bs = Finset.Ioo previous v := by
  ext x
  rw [mem_freeBetween, Finset.mem_Ioo]
  constructor
  · exact And.left
  · intro hx
    refine ⟨hx, fun hmem => ?_⟩
    have := hle x hmem
    omega

theorem card_freeBetween_cons (hs : ∀ c ∈ bs, b < c) (hp : previous < b) (ht : b < t) :
    ((freeBetween previous t (b :: bs)).card : ℤ) = (b - previous - 1) + (freeBetween b t bs).card := by
  have hdisjoint : Disjoint (Finset.Ioo previous b) (freeBetween b t bs) := by
    rw [Finset.disjoint_left]
    intro x hx hx'
    simp only [Finset.mem_Ioo, mem_freeBetween] at hx hx'
    omega
  rw [freeBetween_past_head hs hp ht, Finset.card_union_of_disjoint hdisjoint, Nat.cast_add, Int.card_Ioo]
  omega

theorem walksFree_late (hp : ∀ c ∈ bs, previous < c ∧ c < t) {v : ℤ} (hv : v ∈ bs) (hvb : v < b)
    (hleast : ∀ c ∈ bs, v ≤ c) (h : WalksFree previous t (b :: bs)) : ∀ x, v < x → x < t → x ∈ b :: bs := by
  intro x hvx hxt
  by_contra hx
  have hpv := hp v hv
  have hbelow : ∀ c ∈ b :: bs, v ≤ c := List.forall_mem_cons.mpr ⟨hvb.le, hleast⟩
  have hsub : insert x (Finset.Ioo previous v) ⊆ freeBetween previous t (b :: bs) := by
    intro y hy
    rcases Finset.mem_insert.mp hy with rfl | hy
    · exact mem_freeBetween.mpr ⟨⟨by omega, hxt⟩, hx⟩
    · rw [Finset.mem_Ioo] at hy
      refine mem_freeBetween.mpr ⟨⟨hy.1, by omega⟩, fun hmem => ?_⟩
      have := hbelow y hmem
      omega
  have hcard := Finset.card_le_card hsub
  rw [Finset.card_insert_of_notMem (by rw [Finset.mem_Ioo]; omega), Int.card_Ioo] at hcard
  have hwalk : gapWalk previous (v - previous - 1) (b :: bs) = v := by
    rw [gapWalk, if_pos (by omega)]
    omega
  have hfree := h (v - previous - 1) (by omega) (by omega)
  rw [hwalk] at hfree
  exact (mem_freeBetween.mp hfree).2 (List.mem_cons_of_mem b hv)

theorem lateOnesClosed_of_late {v : ℤ} (hleast : ∀ c ∈ bs, v ≤ c) (hvb : v < b)
    (h : ∀ x, v < x → x < t → x ∈ b :: bs) : LateOnesClosed t (b :: bs) := by
  apply List.pairwise_of_forall_mem_list
  intro u _ w hw _ x hwx hxt
  have hvw : v ≤ w := by
    rcases List.mem_cons.mp hw with rfl | hw
    · exact hvb.le
    · exact hleast w hw
  exact h x (by omega) hxt

theorem lateOnesClosed_cons (hs : ∀ c ∈ bs, b < c) : LateOnesClosed t (b :: bs) ↔ LateOnesClosed t bs := by
  have hsame : ∀ w ∈ bs, ((∀ x, w < x → x < t → x ∈ b :: bs) ↔ ∀ x, w < x → x < t → x ∈ bs) := by
    intro w hw
    have hbw := hs w hw
    constructor
    · intro h x hwx hxt
      rcases List.mem_cons.mp (h x hwx hxt) with rfl | hmem
      · omega
      · exact hmem
    · intro h x hwx hxt
      exact List.mem_cons_of_mem b (h x hwx hxt)
  unfold LateOnesClosed
  rw [List.pairwise_cons]
  constructor
  · intro h
    refine h.2.imp_of_mem fun {u w} _ hw hclosed hlt => ?_
    exact (hsame w hw).mp (hclosed hlt)
  · intro h
    refine ⟨fun w hw hlt => ?_, h.imp_of_mem fun {u w} _ hw hclosed hlt => (hsame w hw).mpr (hclosed hlt)⟩
    have := hs w hw
    omega

/-- A walk over any stream that is exact meets no late integer below a free one. -/
theorem lateOnesClosed_of_walksFree (hn : bs.Nodup) (hp : ∀ c ∈ bs, previous < c ∧ c < t)
    (h : WalksFree previous t bs) : LateOnesClosed t bs := by
  induction bs generalizing previous with
  | nil => exact List.Pairwise.nil
  | cons b bs ih =>
    obtain ⟨hb, hbs⟩ := List.forall_mem_cons.mp hp
    obtain ⟨hnot, hn'⟩ := List.nodup_cons.mp hn
    by_cases hlate : ∃ v ∈ bs, v < b
    · obtain ⟨v, hv, hvb, hleast⟩ := exists_least_late hlate
      exact lateOnesClosed_of_late hleast hvb (walksFree_late hbs hv hvb hleast h)
    · have hs : ∀ c ∈ bs, b < c := by
        intro c hc
        have hne : c ≠ b := fun heq => hnot (heq ▸ hc)
        have hnlt : ¬ c < b := fun hlt => hlate ⟨c, hc, hlt⟩
        omega
      rw [lateOnesClosed_cons hs]
      apply ih hn' (fun c hc => ⟨hs c hc, (hbs c hc).2⟩)
      intro j hj hcard
      have htotal := card_freeBetween_cons hs hb.1 hb.2
      have hwalk : gapWalk previous (j + (b - previous - 1)) (b :: bs) = gapWalk b j bs := by
        rw [gapWalk, if_neg (by omega)]
        congr 1
        omega
      have hfree := h (j + (b - previous - 1)) (by omega) (by omega)
      rw [hwalk, mem_freeBetween] at hfree
      have habove := lt_gapWalk hs hj
      exact mem_freeBetween.mpr ⟨⟨habove, hfree.1.2⟩, fun hmem => hfree.2 (List.mem_cons_of_mem b hmem)⟩

/-- With no free integer above a late one, every walk ends on the free integer of its rank. -/
theorem LateOnesClosed.gapWalk_spec (h : LateOnesClosed t bs) (hn : bs.Nodup) (hp : ∀ c ∈ bs, previous < c ∧ c < t)
    (hj : 0 ≤ j) (hcard : j < (freeBetween previous t bs).card) :
    gapWalk previous j bs ∈ freeBetween previous t bs ∧
      ((freeBetween previous (gapWalk previous j bs) bs).card : ℤ) = j := by
  induction bs generalizing previous j with
  | nil =>
    have hfree : ∀ s : ℤ, freeBetween previous s [] = Finset.Ioo previous s := by
      intro s
      ext x
      simp
    rw [hfree, Int.card_Ioo] at hcard
    simp only [gapWalk, hfree, Finset.mem_Ioo, Int.card_Ioo]
    omega
  | cons b bs ih =>
    obtain ⟨hb, hbs⟩ := List.forall_mem_cons.mp hp
    obtain ⟨hnot, hn'⟩ := List.nodup_cons.mp hn
    by_cases hlate : ∃ v ∈ bs, v < b
    · obtain ⟨v, hv, hvb, hleast⟩ := exists_least_late hlate
      have hclosed := (List.pairwise_cons.mp h).1 v hv hvb
      have hbelow : ∀ c ∈ b :: bs, v ≤ c := List.forall_mem_cons.mpr ⟨hvb.le, hleast⟩
      have hall : freeBetween previous t (b :: bs) = Finset.Ioo previous v := by
        rw [← freeBetween_below hbelow]
        ext x
        simp only [mem_freeBetween]
        have hvt := (hbs v hv).2
        constructor
        · intro hx
          refine ⟨⟨hx.1.1, ?_⟩, hx.2⟩
          rcases lt_trichotomy x v with hlt | rfl | hgt
          · exact hlt
          · exact absurd (List.mem_cons_of_mem b hv) hx.2
          · exact absurd (hclosed x hgt hx.1.2) hx.2
        · intro hx
          exact ⟨⟨hx.1.1, by omega⟩, hx.2⟩
      rw [hall, Int.card_Ioo] at hcard
      have hwalk : gapWalk previous j (b :: bs) = previous + 1 + j := by
        rw [gapWalk, if_pos (by omega)]
      have hprefix : freeBetween previous (previous + 1 + j) (b :: bs) = Finset.Ioo previous (previous + 1 + j) :=
        freeBetween_below fun c hc => by have := hbelow c hc; omega
      rw [hwalk, hall, hprefix, Finset.mem_Ioo, Int.card_Ioo]
      omega
    · have hs : ∀ c ∈ bs, b < c := by
        intro c hc
        have hne : c ≠ b := fun heq => hnot (heq ▸ hc)
        have hnlt : ¬ c < b := fun hlt => hlate ⟨c, hc, hlt⟩
        omega
      have htotal := card_freeBetween_cons hs hb.1 hb.2
      by_cases hgap : j < b - previous - 1
      · have hwalk : gapWalk previous j (b :: bs) = previous + 1 + j := by rw [gapWalk, if_pos hgap]
        have hbelow : ∀ c ∈ b :: bs, b ≤ c := List.forall_mem_cons.mpr ⟨le_rfl, fun c hc => (hs c hc).le⟩
        have hprefix : freeBetween previous (previous + 1 + j) (b :: bs) = Finset.Ioo previous (previous + 1 + j) :=
          freeBetween_below fun c hc => by have := hbelow c hc; omega
        have hfree : previous + 1 + j ∉ b :: bs := by
          intro hmem
          have := hbelow _ hmem
          omega
        rw [hwalk, hprefix, mem_freeBetween, Int.card_Ioo]
        exact ⟨⟨⟨by omega, by omega⟩, hfree⟩, by omega⟩
      · have hwalk : gapWalk previous j (b :: bs) = gapWalk b (j - (b - previous - 1)) bs := by rw [gapWalk, if_neg hgap]
        obtain ⟨hmem, hrank⟩ := ih ((lateOnesClosed_cons hs).mp h) hn' (fun c hc => ⟨hs c hc, (hbs c hc).2⟩)
          (j := j - (b - previous - 1)) (by omega) (by omega)
        have habove := (mem_freeBetween.mp hmem).1.1
        rw [hwalk]
        refine ⟨?_, ?_⟩
        · rw [freeBetween_past_head hs hb.1 hb.2]
          exact Finset.mem_union_right _ hmem
        · rw [card_freeBetween_cons hs hb.1 habove, hrank]
          omega

theorem eq_of_rank {bs' : List ℤ} {x y : ℤ} (hsame : ∀ c, c ∈ bs ↔ c ∈ bs')
    (hx : previous < x ∧ x ∉ bs) (hy : previous < y ∧ y ∉ bs')
    (h : (freeBetween previous x bs).card = (freeBetween previous y bs').card) : x = y := by
  have hcongr : ∀ s, freeBetween previous s bs' = freeBetween previous s bs := by
    intro s
    ext c
    simp only [mem_freeBetween, hsame]
  have hstrict : ∀ {u v : ℤ}, previous < u ∧ u ∉ bs → u < v →
      (freeBetween previous u bs).card < (freeBetween previous v bs).card := by
    intro u v hu huv
    apply Finset.card_lt_card
    rw [Finset.ssubset_iff_of_subset]
    · exact ⟨u, mem_freeBetween.mpr ⟨⟨hu.1, huv⟩, hu.2⟩, by simp⟩
    · intro c hc
      rw [mem_freeBetween] at hc ⊢
      exact ⟨⟨hc.1.1, by omega⟩, hc.2⟩
  have hy' : previous < y ∧ y ∉ bs := ⟨hy.1, fun hmem => hy.2 ((hsame y).mp hmem)⟩
  rw [hcongr] at h
  rcases lt_trichotomy x y with hlt | heq | hgt
  · have := hstrict hx hlt
    omega
  · exact heq
  · have := hstrict hy' hgt
    omega

end Unsorted
end DbfAnonymizer.Lib
