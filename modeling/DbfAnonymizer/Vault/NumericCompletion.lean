import DbfAnonymizer.Vault.NumericAllocation

/-! The bookkeeping of the numeric key domain, and its candidate search while the rest is feasible. -/
namespace DbfAnonymizer.Vault
open Transforms Lib
open Engine (numericKeyProbeBudget)

namespace NumericKeyDomainMapping
variable {m m' : NumericKeyDomainMapping} {row : ℤ × ℤ} {rows : List (ℤ × ℤ)} {v x c : ℤ}

/-- A persisted row that fits the frozen domain. -/
structure ValidRow (m : NumericKeyDomainMapping) (row : ℤ × ℤ) : Prop where
  original_fits : m.fitsMember row.1 = true
  pseudonym_mem : m.domain.containsPseudonym row.2 = true
  no_fixed_point : row.2 ≠ row.1

theorem loadRow_eq_ok_iff : m.loadRow row = .ok m' ↔ m.ValidRow row ∧ m.recordRow row = m' := by
  unfold loadRow parseOriginal parsePseudonym
  constructor
  · intro h
    obtain ⟨original, ho, h⟩ := bind_eq_ok.mp h
    obtain ⟨_, hfits, ho⟩ := bind_eq_ok.mp ho
    cases ho
    obtain ⟨pseudonym, hp, h⟩ := bind_eq_ok.mp h
    obtain ⟨_, hmem, hp⟩ := bind_eq_ok.mp hp
    cases hp
    obtain ⟨_, hne, h⟩ := bind_eq_ok.mp h
    rw [refuseIf_eq_ok, Bool.not_eq_false] at hfits hmem
    rw [refuseIf_eq_ok] at hne
    exact ⟨⟨hfits, hmem, hne⟩, Except.ok.inj h⟩
  · rintro ⟨⟨hfits, hmem, hne⟩, rfl⟩
    simp [refuseIf, hfits, hmem, hne]

theorem loadRows_eq_ok_iff :
    rows.foldlM loadRow m = .ok m' ↔ (∀ row ∈ rows, m.ValidRow row) ∧ rows.foldl recordRow m = m' := by
  induction rows generalizing m with
  | nil => simp
  | cons row rows ih =>
    have hvalid : ∀ r, (m.recordRow row).ValidRow r ↔ m.ValidRow r :=
      fun r => ⟨fun h => ⟨h.1, h.2, h.3⟩, fun h => ⟨h.1, h.2, h.3⟩⟩
    rw [List.foldlM_cons, bind_eq_ok, List.forall_mem_cons, List.foldl_cons]
    constructor
    · rintro ⟨next, hnext, hrest⟩
      obtain ⟨hrow, rfl⟩ := loadRow_eq_ok_iff.mp hnext
      obtain ⟨hrows, hfold⟩ := ih.mp hrest
      exact ⟨⟨hrow, fun r hr => (hvalid r).mp (hrows r hr)⟩, hfold⟩
    · rintro ⟨⟨hrow, hrows⟩, hfold⟩
      exact ⟨m.recordRow row, loadRow_eq_ok_iff.mpr ⟨hrow, rfl⟩,
        ih.mpr ⟨fun r hr => (hvalid r).mpr (hrows r hr), hfold⟩⟩

theorem foldl_recordRow_frame (rows : List (ℤ × ℤ)) (m : NumericKeyDomainMapping) :
    (rows.foldl recordRow m).domain = m.domain ∧ (rows.foldl recordRow m).domainId = m.domainId ∧
      (rows.foldl recordRow m).originals = m.originals := by
  induction rows generalizing m with
  | nil => exact ⟨rfl, rfl, rfl⟩
  | cons row rows ih => exact ih (m.recordRow row)

theorem mem_used_foldl : v ∈ (rows.foldl recordRow m).used ↔ v ∈ rows.map Prod.snd ∨ v ∈ m.used := by
  induction rows generalizing m with
  | nil => simp
  | cons row rows ih =>
    rw [List.foldl_cons, ih, List.map_cons, List.mem_cons]
    simp only [recordRow, List.mem_insert_iff]
    tauto

theorem mem_persisted_foldl :
    x ∈ (rows.foldl recordRow m).persistedOriginals ↔ x ∈ rows.map Prod.fst ∨ x ∈ m.persistedOriginals := by
  induction rows generalizing m with
  | nil => simp
  | cons row rows ih =>
    rw [List.foldl_cons, ih, List.map_cons, List.mem_cons]
    simp only [recordRow, List.mem_insert_iff]
    tauto

theorem foldl_recordRow_eq_self (h : ∀ row ∈ rows, row.2 ∈ m.used ∧ row.1 ∈ m.persistedOriginals) :
    rows.foldl recordRow m = m := by
  induction rows with
  | nil => rfl
  | cons row rows ih =>
    obtain ⟨hused, hpersisted⟩ := h row (by simp)
    have hrow : m.recordRow row = m := by
      simp only [recordRow, List.insert_of_mem hused, List.insert_of_mem hpersisted]
    rw [List.foldl_cons, hrow]
    exact ih fun r hr => h r (by simp [hr])

section Search
variable {rng : Csprng} {candidateAt : ℤ → Except Raised ℤ} {accept : ℤ → Except Raised Bool} {P Q : ℤ → Prop}

theorem probe_cases (rng : Csprng) (ha : ∀ c, ∃ b, accept c = .ok b ∧ (b = true ↔ P c)) {free : ℤ} (hfree : 0 < free)
    (hc : ∀ j : ℕ, (j : ℤ) < free → ∃ c, candidateAt j = .ok c ∧ Q c) (budget draws : ℕ) :
    (∃ c d, probe rng candidateAt accept free budget draws = .ok (some c, d) ∧ P c ∧ Q c) ∨
      ∃ d, probe rng candidateAt accept free budget draws = .ok (none, d) := by
  induction budget generalizing draws with
  | zero => exact Or.inr ⟨draws, rfl⟩
  | succ budget ih =>
    obtain ⟨draw, hdraw, hlt⟩ := rng.exists_randbelow draws hfree
    obtain ⟨c, hget, hq⟩ := hc draw hlt
    obtain ⟨b, hb, hiff⟩ := ha c
    cases b with
    | true => exact Or.inl ⟨c, draws + 1, by simp [probe, hdraw, hget, hb], hiff.mp rfl, hq⟩
    | false => simpa [probe, hdraw, hget, hb] using ih (draws + 1)

theorem walk_finds (ha : ∀ c, ∃ b, accept c = .ok b ∧ (b = true ↔ P c)) {indices : List ℕ}
    (hc : ∀ j ∈ indices, ∃ c, candidateAt (j : ℕ) = .ok c ∧ Q c)
    (hex : ∃ j ∈ indices, ∃ c, candidateAt (j : ℕ) = .ok c ∧ P c) :
    ∃ c, walk candidateAt accept indices = .ok (some c) ∧ P c ∧ Q c := by
  induction indices with
  | nil => simp at hex
  | cons j rest ih =>
    obtain ⟨c, hget, hq⟩ := hc j (by simp)
    obtain ⟨b, hb, hiff⟩ := ha c
    cases b with
    | true => exact ⟨c, by simp [walk, hget, hb], hiff.mp rfl, hq⟩
    | false =>
      obtain ⟨k, hk, c', hget', hp'⟩ := hex
      have hkrest : k ∈ rest := by
        rcases List.mem_cons.mp hk with rfl | hk
        · rw [hget] at hget'
          cases hget'
          exact absurd (hiff.mpr hp') (by simp)
        · exact hk
      obtain ⟨c'', hwalk, hboth⟩ := ih (fun i hi => hc i (by simp [hi])) ⟨k, hkrest, c', hget', hp'⟩
      exact ⟨c'', by simp [walk, hget, hb, hwalk], hboth⟩

end Search

theorem nodup_sortedSet (values : List ℤ) : (sortedSet values).Nodup :=
  (pairwise_sortedSet values).imp fun h => ne_of_lt h

def unallocated (m : NumericKeyDomainMapping) : List ℤ := m.originals.filter (· ∉ m.persistedOriginals)

theorem toFinset_unallocatedOriginals (m : NumericKeyDomainMapping) (x : ℤ) :
    (m.unallocatedOriginals x).toFinset = m.unallocated.toFinset.erase x := by
  ext v
  simp only [unallocatedOriginals, unallocated, List.mem_toFinset, List.mem_filter, mem_sortedSet,
    decide_eq_true_eq, Finset.mem_erase]
  tauto

theorem freeSet_blockedSelection (m : NumericKeyDomainMapping) (x : ℤ) :
    freeSet m.domain (m.blockedSelection x) = (freeSet m.domain m.used).erase x := by
  ext v
  simp only [mem_freeSet, blockedSelection, mem_sortedSet, List.mem_append, not_or, Finset.mem_erase]
  split_ifs with hx
  · simp only [List.mem_singleton]
    tauto
  · simp only [List.not_mem_nil, not_false_eq_true, and_true]
    constructor
    · rintro ⟨hv, hused⟩
      refine ⟨?_, hv, hused⟩
      rintro rfl
      exact hx hv
    · exact And.right

/-- What committing a candidate leaves to the kernel. -/
theorem kernelFeasible_commit_iff (m : NumericKeyDomainMapping) (x c : ℤ) :
    KernelFeasible m.domain (m.unallocatedOriginals x) (sortedSet m.used ++ [c]) ↔
      0 ≤ m.domain.size ∧ SelfAvoidable ((freeSet m.domain m.used).erase c) (m.unallocated.toFinset.erase x) := by
  have hused : freeSet m.domain (sortedSet m.used) = freeSet m.domain m.used :=
    freeSet_congr fun _ => mem_sortedSet
  rw [KernelFeasible, freeSet_append_singleton, hused, toFinset_unallocatedOriginals]

/-- While the rest is feasible a search always finds a token that keeps it so. -/
theorem selectCandidate_completes (rng : Csprng) (draws : ℕ) (hf : KernelFeasible m.domain m.unallocated m.used)
    (hx : x ∈ m.unallocated) :
    ∃ c d, m.selectCandidate rng draws x = .ok (c, d) ∧ c ∈ (freeSet m.domain m.used).erase x ∧
      SelfAvoidable ((freeSet m.domain m.used).erase c) (m.unallocated.toFinset.erase x) := by
  obtain ⟨hsize, havoid⟩ := hf
  have hxmem : x ∈ m.unallocated.toFinset := List.mem_toFinset.mpr hx
  have hset := freeSet_blockedSelection m x
  have hcount : freeTokenCount m.domain (m.blockedSelection x) = ((freeSet m.domain m.used).erase x).card := by
    rw [freeTokenCount_eq hsize, hset]
  obtain ⟨good, hgood, hgoodRest⟩ := havoid.exists_erase hxmem
  have hpos : 0 < ((freeSet m.domain m.used).erase x).card := Finset.card_pos.mpr ⟨good, hgood⟩
  have haccept : ∀ c, ∃ b, m.residualFeasible (sortedSet m.used) x c = .ok b ∧
      (b = true ↔ SelfAvoidable ((freeSet m.domain m.used).erase c) (m.unallocated.toFinset.erase x)) := by
    intro c
    have hn : (m.unallocatedOriginals x).Nodup := (nodup_sortedSet m.originals).filter _
    obtain ⟨b, hb⟩ := exists_planNumericBijection m.domain hn (sortedSet m.used ++ [c])
    refine ⟨b, hb, ?_⟩
    have hiff := (planNumericBijection_eq_true_iff m.domain hn (sortedSet m.used ++ [c])).trans
      (kernelFeasible_commit_iff m x c)
    rw [hb] at hiff
    simpa [hsize] using hiff
  have hget : ∀ j : ℕ, (j : ℤ) < freeTokenCount m.domain (m.blockedSelection x) →
      ∃ c, jthFreeToken m.domain (m.blockedSelection x) j = .ok c ∧ c ∈ (freeSet m.domain m.used).erase x := by
    intro j hj
    rw [hcount, ← hset] at hj
    obtain ⟨hok, hmem⟩ := jthFreeToken_eq m.domain (m.blockedSelection x) (by omega) hj
    exact ⟨_, hok, hset ▸ hmem⟩
  unfold selectCandidate
  rw [refuseIf_bind_neg (by omega)]
  rcases probe_cases rng haccept (by omega) hget numericKeyProbeBudget draws with
    ⟨c, d, hprobe, hp, hq⟩ | ⟨d, hprobe⟩
  · exact ⟨c, d, by simp [hprobe], hq, hp⟩
  · -- with three free tokens every candidate will do; otherwise the walk sees all of them
    have hreach : ∃ j ∈ List.range (min (freeTokenCount m.domain (m.blockedSelection x))
        (m.originals.length + 2)).toNat, ∃ c, jthFreeToken m.domain (m.blockedSelection x) (j : ℕ) = .ok c ∧
          SelfAvoidable ((freeSet m.domain m.used).erase c) (m.unallocated.toFinset.erase x) := by
      have hbad : ((freeSet m.domain (m.blockedSelection x)).filter fun c => ¬ SelfAvoidable
          ((freeSet m.domain m.used).erase c) (m.unallocated.toFinset.erase x)).card <
          (min (freeTokenCount m.domain (m.blockedSelection x)) (m.originals.length + 2)).toNat := by
        rw [hset, hcount]
        by_cases h3 : 3 ≤ (freeSet m.domain m.used).card
        · rw [Finset.filter_false_of_mem]
          · simp only [Finset.card_empty]
            omega
          · intro c hc
            rw [not_not]
            exact havoid.erase_of_three_le hxmem (Finset.mem_of_mem_erase hc) h3
        · have hle := Finset.card_erase_le (s := freeSet m.domain m.used) (a := x)
          have hlt := Finset.card_lt_card (Finset.filter_ssubset (p := fun c => ¬ SelfAvoidable
            ((freeSet m.domain m.used).erase c) (m.unallocated.toFinset.erase x)).mpr
            ⟨good, hgood, not_not.mpr hgoodRest⟩)
          omega
      obtain ⟨j, hj, c, hok, hp⟩ := exists_jthFreeToken m.domain (m.blockedSelection x)
        (fun c => SelfAvoidable ((freeSet m.domain m.used).erase c) (m.unallocated.toFinset.erase x))
        (by rw [hcount, hset]; omega) hbad
      exact ⟨j, List.mem_range.mpr hj, c, hok, hp⟩
    have hinside : ∀ j ∈ List.range (min (freeTokenCount m.domain (m.blockedSelection x))
        (m.originals.length + 2)).toNat, ∃ c, jthFreeToken m.domain (m.blockedSelection x) (j : ℕ) = .ok c ∧
          c ∈ (freeSet m.domain m.used).erase x := by
      intro j hj
      have := List.mem_range.mp hj
      exact hget j (by omega)
    obtain ⟨c, hwalk, hp, hq⟩ := walk_finds haccept hinside hreach
    exact ⟨c, d, by simp [hprobe, hwalk], hq, hp⟩

end NumericKeyDomainMapping
end DbfAnonymizer.Vault
