import DbfAnonymizer.Engine.NumericCandidates
import DbfAnonymizer.Lib.Canonical
import DbfAnonymizer.Transforms.FreeTokens
import DbfAnonymizer.Transforms.NumericDomain

/-! The three walks to the `j`-th free token: over a set, over the database's stream, and over one length class. -/
namespace DbfAnonymizer.Engine
open Transforms Lib

/-- `_jth_free_in_class`; the size of the class bounds `j` and does not enter the walk. -/
def jthFreeInClass (classLow _classSize : ℤ) (blocked : List ℤ) (j : ℤ) : ℤ :=
  go (classLow - 1) j (blocked.insertionSort (· ≤ ·))
where
  go (previous remaining : ℤ) : List ℤ → ℤ
    | [] => previous + 1 + remaining
    | index :: rest =>
      let gap := index - previous - 1
      if remaining < gap then previous + 1 + remaining else go index (remaining - gap) rest

theorem jthFreeInClass_eq (classLow classSize : ℤ) (blocked : List ℤ) (j : ℤ) :
    jthFreeInClass classLow classSize blocked j = gapWalk (classLow - 1) j (blocked.insertionSort (· ≤ ·)) := by
  have hgo : ∀ (stream : List ℤ) (previous remaining : ℤ),
      jthFreeInClass.go previous remaining stream = gapWalk previous remaining stream := by
    intro stream
    induction stream with
    | nil =>
      intro previous remaining
      rfl
    | cons index rest ih =>
      intro previous remaining
      simp only [jthFreeInClass.go, gapWalk, ih]
  exact hgo _ _ _

section Kernel
variable {domain : NumericKeyDomain} {blocked : List ℤ} {i j : ℤ}

theorem jthFreeToken_rank (hsize : 0 ≤ domain.size) (hj : 0 ≤ j) (hlt : j < freeTokenCount domain blocked) :
    ∃ token, jthFreeToken domain blocked j = .ok token ∧ token ∈ freeSet domain blocked ∧
      ((freeBetween (domain.pseudonymLow - 1) token ((sortedSet blocked).filter domain.containsPseudonym)).card : ℤ) = j := by
  rw [freeTokenCount_eq hsize] at hlt
  obtain ⟨hget, hfree⟩ := jthFreeToken_eq domain blocked hj hlt
  have hsorted := (pairwise_sortedSet blocked).filter (p := domain.containsPseudonym)
  obtain ⟨-, -, hrank⟩ := gapWalk_spec hsorted (fun _ => mem_filter_sortedSet) hj
  exact ⟨_, hget, hfree, hrank⟩

theorem jthFreeToken_strictMono {s t : ℤ} (hsize : 0 ≤ domain.size) (hi : 0 ≤ i) (hij : i < j)
    (hlt : j < freeTokenCount domain blocked) (hs : jthFreeToken domain blocked i = .ok s)
    (ht : jthFreeToken domain blocked j = .ok t) : s < t := by
  have hlti : i < freeTokenCount domain blocked := by omega
  obtain ⟨s', hs', -, hranks⟩ := jthFreeToken_rank hsize hi hlti
  obtain ⟨t', ht', -, hrankt⟩ := jthFreeToken_rank hsize (hi.trans hij.le) hlt
  obtain rfl := Except.ok.inj (hs.symm.trans hs')
  obtain rfl := Except.ok.inj (ht.symm.trans ht')
  by_contra hle
  have hsub : freeBetween (domain.pseudonymLow - 1) t ((sortedSet blocked).filter domain.containsPseudonym) ⊆
      freeBetween (domain.pseudonymLow - 1) s ((sortedSet blocked).filter domain.containsPseudonym) := by
    intro x hx
    rw [mem_freeBetween] at hx ⊢
    exact ⟨⟨hx.1.1, by omega⟩, hx.2⟩
  have hcard := Finset.card_le_card hsub
  omega

theorem exists_jthFreeToken_eq {t : ℤ} (hsize : 0 ≤ domain.size) (ht : t ∈ freeSet domain blocked) :
    ∃ j, 0 ≤ j ∧ j < freeTokenCount domain blocked ∧ jthFreeToken domain blocked j = .ok t := by
  let stream := (sortedSet blocked).filter domain.containsPseudonym
  have hset := freeBetween_sortedSet domain blocked
  have hmem := ht
  rw [← hset, mem_freeBetween] at hmem
  have hsub : insert t (freeBetween (domain.pseudonymLow - 1) t stream) ⊆ freeSet domain blocked := by
    rw [← hset]
    intro x hx
    rcases Finset.mem_insert.mp hx with rfl | hx
    · exact mem_freeBetween.mpr hmem
    · rw [mem_freeBetween] at hx ⊢
      exact ⟨⟨hx.1.1, by omega⟩, hx.2⟩
  have hcard := Finset.card_le_card hsub
  rw [Finset.card_insert_of_notMem (by simp)] at hcard
  have hlt : ((freeBetween (domain.pseudonymLow - 1) t stream).card : ℤ) < freeTokenCount domain blocked := by
    rw [freeTokenCount_eq hsize]
    omega
  obtain ⟨token, hget, hfree, hrank⟩ := jthFreeToken_rank hsize (Int.natCast_nonneg _) hlt
  rw [← hset, mem_freeBetween] at hfree
  have hsame : token = t := eq_of_rank (fun _ => Iff.rfl) ⟨hfree.1.1, hfree.2⟩ ⟨hmem.1.1, hmem.2⟩ (by exact_mod_cast hrank)
  exact ⟨_, Int.natCast_nonneg _, hlt, hsame ▸ hget⟩

/-- The kernel is the order isomorphism from the indices below the free count onto the free tokens. -/
theorem exists_orderIso_jthFreeToken (hsize : 0 ≤ domain.size) (blocked : List ℤ) :
    ∃ e : Set.Ico (0 : ℤ) (freeTokenCount domain blocked) ≃o
        {v : ℤ // domain.containsPseudonym v = true ∧ v ∉ blocked},
      ∀ j, jthFreeToken domain blocked j.1 = .ok (e j).1 := by
  choose! token htoken hfree _ using fun (j : ℤ) (hj : j ∈ Set.Ico 0 (freeTokenCount domain blocked)) =>
    jthFreeToken_rank hsize hj.1 hj.2
  let tokenAtIndex : Set.Ico (0 : ℤ) (freeTokenCount domain blocked) → {v : ℤ // domain.containsPseudonym v = true ∧ v ∉ blocked} :=
    fun j => ⟨token j, mem_freeSet.mp (hfree j j.2)⟩
  have hmono : StrictMono tokenAtIndex := by
    intro i j hij
    exact jthFreeToken_strictMono hsize i.2.1 hij j.2.2 (htoken i i.2) (htoken j j.2)
  have hsurjective : Function.Surjective tokenAtIndex := by
    intro v
    obtain ⟨j, hj, hlt, hget⟩ := exists_jthFreeToken_eq hsize (mem_freeSet.mpr v.2)
    refine ⟨⟨j, hj, hlt⟩, Subtype.ext ?_⟩
    exact Except.ok.inj ((htoken j ⟨hj, hlt⟩).symm.trans hget)
  exact ⟨hmono.orderIsoOfSurjective tokenAtIndex hsurjective, fun j => htoken j j.2⟩

theorem jthFreeToken_class {classLow classSize : ℤ} (hsize : 0 ≤ classSize) (hnodup : blocked.Nodup)
    (hin : ∀ index ∈ blocked, classLow ≤ index ∧ index < classLow + classSize) (hj : 0 ≤ j)
    (hlt : j < classSize - blocked.length) :
    jthFreeToken ⟨classLow, classLow + classSize - 1, []⟩ blocked j = .ok (jthFreeInClass classLow classSize blocked j) := by
  let D : NumericKeyDomain := ⟨classLow, classLow + classSize - 1, []⟩
  have hdomain : D.size = classSize := by
    simp only [NumericKeyDomain.size, D]
    omega
  have hcontains : ∀ v ∈ blocked, D.containsPseudonym v = true := by
    intro v hv
    have hbounds := hin v hv
    rw [NumericKeyDomain.containsPseudonym_iff]
    simp only [D]
    omega
  have hcount : freeTokenCount D blocked = classSize - blocked.length := by
    rw [freeTokenCount, hdomain, List.filter_eq_self.mpr hcontains, hnodup.dedup]
  have hstream : (sortedSet blocked).filter D.containsPseudonym = blocked.insertionSort (· ≤ ·) := by
    rw [List.filter_eq_self.mpr fun v hv => hcontains v (mem_sortedSet.mp hv), sortedSet, hnodup.dedup]
  have hcard : j < ((freeSet D blocked).card : ℤ) := by
    rw [← freeTokenCount_eq (by omega), hcount]
    exact hlt
  have hget := (jthFreeToken_eq D blocked hj hcard).1
  rw [hstream] at hget
  rw [jthFreeInClass_eq]
  exact hget

end Kernel

/-- The three walks name the same tokens, in order, for every index below the free count. -/
structure WalksAgree (domain : NumericKeyDomain) (mappings : BijectiveTable ℤ ℤ) : Prop where
  kernel : ∀ blocked : List ℤ, ∃ e : Set.Ico (0 : ℤ) (freeTokenCount domain blocked) ≃o
      {v : ℤ // domain.containsPseudonym v = true ∧ v ∉ blocked},
    ∀ j, jthFreeToken domain blocked j.1 = .ok (e j).1
  streaming : ∀ j, 0 ≤ j → j < freeTokenCount domain mappings.values →
    jthFreeToken domain mappings.values j = .ok (streamingJthFreeNumeric domain (numericOccupiedStream mappings) j)
  inClass : ∀ (classLow classSize : ℤ) (blocked : List ℤ), 0 ≤ classSize → blocked.Nodup →
    (∀ index ∈ blocked, classLow ≤ index ∧ index < classLow + classSize) → ∀ j, 0 ≤ j → j < classSize - blocked.length →
      jthFreeToken ⟨classLow, classLow + classSize - 1, []⟩ blocked j = .ok (jthFreeInClass classLow classSize blocked j)

/-- Tokens that saturate to one 64-bit value are in the order of their texts, unless no free token is left above the
lesser one. -/
def SaturatedRowsOrdered (domain : NumericKeyDomain) (mappings : BijectiveTable ℤ ℤ) : Prop :=
  ∀ u ∈ mappings.values, ∀ v ∈ mappings.values, canonicalIntegerText u < canonicalIntegerText v →
    castInteger u = castInteger v → v < u → domain.containsPseudonym u = true → domain.containsPseudonym v = true →
      ∀ x, v < x → domain.containsPseudonym x = true → x ∈ mappings.values

section Streaming
variable {domain : NumericKeyDomain} {mappings : BijectiveTable ℤ ℤ} {v : ℤ}

/-- The occupied tokens of the domain, as the database delivers them. -/
def domainStream (domain : NumericKeyDomain) (mappings : BijectiveTable ℤ ℤ) : List ℤ :=
  (numericOccupiedStream mappings).filter domain.containsPseudonym

theorem mem_domainStream : v ∈ domainStream domain mappings ↔ v ∈ mappings.values ∧ domain.containsPseudonym v = true := by
  rw [domainStream, List.mem_filter, (perm_numericOccupiedStream mappings).mem_iff]

theorem nodup_domainStream (domain : NumericKeyDomain) (mappings : BijectiveTable ℤ ℤ) :
    (domainStream domain mappings).Nodup :=
  ((perm_numericOccupiedStream mappings).nodup_iff.mpr mappings.values_nodup).filter _

theorem castInteger_mono {u v : ℤ} (h : u ≤ v) : castInteger u ≤ castInteger v := by
  unfold castInteger
  omega

theorem lateOnesClosed_domainStream : LateOnesClosed (domain.pseudonymHigh + 1) (domainStream domain mappings) ↔
    SaturatedRowsOrdered domain mappings := by
  have hstable : SaturatedRowsOrdered domain mappings ↔
      (numericOccupiedStream mappings).Pairwise fun u v => castInteger u = castInteger v → v < u →
        domain.containsPseudonym u = true → domain.containsPseudonym v = true →
          ∀ x, v < x → domain.containsPseudonym x = true → x ∈ mappings.values := by
    have hrows : (sortedBy canonicalIntegerText mappings.values).Nodup :=
      (sortedBy_perm canonicalIntegerText mappings.values).nodup_iff.mpr mappings.values_nodup
    apply Iff.trans _ (pairwise_sortedBy_iff castInteger hrows).symm
    exact (pairwise_sortedBy_iff_of_injective canonicalIntegerText canonicalIntegerText_injective
      mappings.values_nodup).symm
  have hsorted : (numericOccupiedStream mappings).Pairwise fun u v => castInteger u ≤ castInteger v :=
    pairwise_sortedBy castInteger (sortedBy canonicalIntegerText mappings.values)
  rw [hstable, LateOnesClosed, domainStream, List.pairwise_filter]
  constructor
  · intro h
    refine h.imp fun {u v} hclosed _ hlt hu hv x hvx hx => ?_
    have hxhigh := (NumericKeyDomain.containsPseudonym_iff.mp hx).2
    exact (mem_domainStream.mp (hclosed hu hv hlt x hvx (by omega))).1
  · intro h
    refine (h.and hsorted).imp fun {u v} hboth hu hv hlt x hvx hxt => ?_
    have heq : castInteger u = castInteger v := le_antisymm hboth.2 (castInteger_mono hlt.le)
    have hvlow := (NumericKeyDomain.containsPseudonym_iff.mp hv).1
    have hx : domain.containsPseudonym x = true := NumericKeyDomain.containsPseudonym_iff.mpr ⟨by omega, by omega⟩
    exact mem_domainStream.mpr ⟨hboth.1 heq hlt hu hv x hvx hx, hx⟩

theorem freeBetween_domainStream (domain : NumericKeyDomain) (mappings : BijectiveTable ℤ ℤ) :
    freeBetween (domain.pseudonymLow - 1) (domain.pseudonymHigh + 1) (domainStream domain mappings) =
      freeSet domain mappings.values := by
  ext x
  rw [mem_freeBetween, mem_domainStream, mem_freeSet, NumericKeyDomain.containsPseudonym_iff]
  constructor
  · intro h
    exact ⟨⟨by omega, by omega⟩, fun hx => h.2 ⟨hx, by omega, by omega⟩⟩
  · intro h
    exact ⟨⟨by omega, by omega⟩, fun hx => h.2 hx.1⟩

/-- The stream's walk is the kernel's for every index exactly when late tokens have nothing free above them. -/
theorem streaming_iff (hsize : 0 ≤ domain.size) :
    (∀ j, 0 ≤ j → j < freeTokenCount domain mappings.values →
      jthFreeToken domain mappings.values j =
        .ok (streamingJthFreeNumeric domain (numericOccupiedStream mappings) j)) ↔
      SaturatedRowsOrdered domain mappings := by
  have hbounds : ∀ c ∈ domainStream domain mappings, domain.pseudonymLow - 1 < c ∧ c < domain.pseudonymHigh + 1 := by
    intro c hc
    have hcontains := NumericKeyDomain.containsPseudonym_iff.mp (mem_domainStream.mp hc).2
    omega
  have hfree := freeBetween_domainStream domain mappings
  have hwalk : ∀ j, streamingJthFreeNumeric domain (numericOccupiedStream mappings) j =
      gapWalk (domain.pseudonymLow - 1) j (domainStream domain mappings) :=
    fun j => streamingJthFreeNumeric_eq domain _ j
  rw [← lateOnesClosed_domainStream]
  constructor
  · intro h
    apply lateOnesClosed_of_walksFree (nodup_domainStream domain mappings) hbounds
    intro j hj hlt
    rw [hfree, ← freeTokenCount_eq hsize] at hlt
    obtain ⟨token, hget, hmem, -⟩ := jthFreeToken_rank hsize hj hlt
    have hsame := Except.ok.inj ((h j hj hlt).symm.trans hget)
    rw [hfree, ← hwalk, hsame]
    exact hmem
  · intro h j hj hlt
    obtain ⟨token, hget, hmem, hrank⟩ := jthFreeToken_rank hsize hj hlt
    have hcard := hlt
    rw [freeTokenCount_eq hsize, ← hfree] at hcard
    obtain ⟨hstream, hranks⟩ := h.gapWalk_spec (nodup_domainStream domain mappings) hbounds hj hcard
    rw [← freeBetween_sortedSet, mem_freeBetween] at hmem
    rw [mem_freeBetween] at hstream
    have hmembers : ∀ c, c ∈ (sortedSet mappings.values).filter domain.containsPseudonym ↔ c ∈ domainStream domain mappings := by
      intro c
      rw [List.mem_filter, mem_sortedSet, mem_domainStream]
    have hsame := eq_of_rank hmembers ⟨hmem.1.1, hmem.2⟩ ⟨hstream.1.1, hstream.2⟩ (by omega)
    rw [hget, hwalk, hsame]

end Streaming

/-- Every part but the stream's holds of every domain; the stream follows where saturated tokens are in order. -/
theorem walksAgree_iff (D : BuiltNumericDomain) (mappings : BijectiveTable ℤ ℤ) :
    WalksAgree D.domain mappings ↔ SaturatedRowsOrdered D.domain mappings := by
  have hsize : 0 ≤ D.domain.size := by
    have := D.ten_le_size
    omega
  rw [← streaming_iff hsize]
  constructor
  · intro h
    exact h.streaming
  · intro h
    exact {
      kernel := exists_orderIso_jthFreeToken hsize
      streaming := h
      inClass := fun _ _ _ hclass hnodup hin j hj hlt => jthFreeToken_class hclass hnodup hin hj hlt }

/-- The keys of an `N(20, 0)` field, half of whose values no 64-bit integer holds. -/
def twentyDigits : BuiltNumericDomain where
  domain := ⟨-(10 ^ 19 - 1), 10 ^ 20 - 1, [⟨-(10 ^ 19 - 1), 10 ^ 20 - 1, -(10 ^ 19 - 1), 10 ^ 20 - 1,
    some (-(10 ^ 19 - 1)), some (10 ^ 20 - 1)⟩]⟩
  members := [⟨-(10 ^ 19 - 1), 10 ^ 20 - 1, -(10 ^ 19 - 1), 10 ^ 20 - 1, some (-(10 ^ 19 - 1)), some (10 ^ 20 - 1)⟩]
  members_supported := by
    intro m hm
    rw [List.mem_singleton.mp hm]
    exact @SupportedMember.integral 20 _ (by decide +kernel)
  built := by decide +kernel

/-- Two pseudonyms beyond the 64-bit range, the lesser one with the greater text. -/
def saturatedRows : BijectiveTable ℤ ℤ where
  rows := [(1, 10 ^ 19 - 1), (2, 10 ^ 19)]
  keys_nodup := by decide
  values_nodup := by decide

/-- The stream's walk stops on an occupied token. -/
theorem not_walksAgree_twentyDigits : ¬ WalksAgree twentyDigits.domain saturatedRows := by
  intro h
  have hwalk := h.streaming (2 * 10 ^ 19 - 2) (by decide +kernel) (by decide +kernel)
  revert hwalk
  decide +kernel

end DbfAnonymizer.Engine
