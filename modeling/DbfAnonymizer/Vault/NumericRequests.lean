import DbfAnonymizer.Vault.NumericCompletion

/-! Requests to a finalized numeric key domain, in any order and with any draws. -/
namespace DbfAnonymizer.Vault
open Transforms Lib
open Engine (addNumericKeyMapping)

/-- The collection phase: occurrences in the order they are observed. -/
def NumericKeyDomainMapping.collect (m : NumericKeyDomainMapping)
    (occurrences : List (ℤ × NumericKeyMemberRange)) : Except Raised NumericKeyDomainMapping :=
  occurrences.foldlM (fun m occurrence => m.observeOriginal occurrence.1 occurrence.2) m

namespace NumericSession

def table (s : NumericSession) : BijectiveTable ℤ ℤ := s.vault.numericKeyMappings s.mapping.domainId

/-- A finalized session whose bookkeeping mirrors the vault and whose rest is feasible. -/
structure Ready (s : NumericSession) : Prop where
  finalized : s.mapping.finalized = true
  originals_nodup : s.mapping.originals.Nodup
  used_iff : ∀ v, v ∈ s.mapping.used ↔ v ∈ s.table.values
  persisted_iff : ∀ x, x ∈ s.mapping.persistedOriginals ↔ x ∈ s.table.keys
  rows_valid : ∀ row ∈ s.table.rows, s.mapping.ValidRow row
  feasible : KernelFeasible s.mapping.domain s.mapping.unallocated s.mapping.used

/-- A later session of the same finalized domain: nothing collected, no row lost. -/
structure Continues (s s' : NumericSession) : Prop where
  domain_eq : s'.mapping.domain = s.mapping.domain
  domainId_eq : s'.mapping.domainId = s.mapping.domainId
  originals_eq : s'.mapping.originals = s.mapping.originals
  rows_prefix : s.table.rows <+: s'.table.rows

theorem Continues.refl (s : NumericSession) : Continues s s := ⟨rfl, rfl, rfl, List.prefix_refl _⟩

section Sessions
variable {s s' s'' : NumericSession} {rng : Csprng} {x p : ℤ}

theorem Continues.trans (h : Continues s s') (h' : Continues s' s'') : Continues s s'' where
  domain_eq := h'.domain_eq.trans h.domain_eq
  domainId_eq := h'.domainId_eq.trans h.domainId_eq
  originals_eq := h'.originals_eq.trans h.originals_eq
  rows_prefix := h.rows_prefix.trans h'.rows_prefix

theorem Continues.fitsMember (h : Continues s s') (x : ℤ) : s'.mapping.fitsMember x = s.mapping.fitsMember x := by
  unfold NumericKeyDomainMapping.fitsMember
  rw [h.domain_eq]

theorem Continues.valueOf? (h : Continues s s') (hp : s.table.valueOf? x = some p) :
    s'.table.valueOf? x = some p :=
  BijectiveTable.valueOf?_eq_some_iff.mpr (h.rows_prefix.subset (BijectiveTable.valueOf?_eq_some_iff.mp hp))

theorem Ready.syncUsed (h : Ready s) : s.mapping.syncUsed s.vault = .ok s.mapping := by
  refine NumericKeyDomainMapping.loadRows_eq_ok_iff.mpr ⟨h.rows_valid, ?_⟩
  refine NumericKeyDomainMapping.foldl_recordRow_eq_self fun row hrow => ⟨?_, ?_⟩
  · exact (h.used_iff row.2).mpr (BijectiveTable.mem_values.mpr ⟨row.1, hrow⟩)
  · exact (h.persisted_iff row.1).mpr (BijectiveTable.mem_keys.mpr ⟨row.2, hrow⟩)

theorem Ready.reuse (h : Ready s) (hp : s.table.valueOf? x = some p) : s.reuse x p = .ok (p, s) := by
  have hrow := h.rows_valid (x, p) (BijectiveTable.valueOf?_eq_some_iff.mp hp)
  simp [NumericSession.reuse, NumericKeyDomainMapping.parsePseudonym, refuseIf, hrow.pseudonym_mem,
    hrow.no_fixed_point]

def committed (s : NumericSession) (original candidate : ℤ) (rows : BijectiveTable ℤ ℤ) (draws : ℕ) :
    NumericSession where
  mapping := { s.mapping.recordRow (original, candidate) with
    originals := s.mapping.originals.insert original }
  vault := { s.vault with
    numericKeyMappings := Function.update s.vault.numericKeyMappings s.mapping.domainId rows }
  draws

@[simp] theorem table_committed (s : NumericSession) (original candidate : ℤ) (rows : BijectiveTable ℤ ℤ)
    (draws : ℕ) : (s.committed original candidate rows draws).table = rows := by
  simp [table, committed, NumericKeyDomainMapping.recordRow]

theorem Ready.commit (h : Ready s) {c : ℤ} {rows : BijectiveTable ℤ ℤ} (draws : ℕ)
    (hx : x ∈ s.mapping.originals) (hfits : s.mapping.fitsMember x = true)
    (hrows : s.table.insert? x c = some rows) (hc : c ∈ (freeSet s.mapping.domain s.mapping.used).erase x)
    (hrest : SelfAvoidable ((freeSet s.mapping.domain s.mapping.used).erase c)
      (s.mapping.unallocated.toFinset.erase x)) :
    Ready (s.committed x c rows draws) ∧ Continues s (s.committed x c rows draws) := by
  have happend : rows.rows = s.table.rows ++ [(x, c)] := (BijectiveTable.insert?_eq_some_iff.mp hrows).2.2
  have horiginals : (s.committed x c rows draws).mapping.originals = s.mapping.originals :=
    List.insert_of_mem hx
  obtain ⟨hne, hfree⟩ := Finset.mem_erase.mp hc
  refine ⟨⟨h.finalized, horiginals ▸ h.originals_nodup, ?_, ?_, ?_, ?_, ?_⟩, rfl, rfl, horiginals, ?_⟩
  · intro v
    rw [table_committed, BijectiveTable.values_of_insert? hrows, List.mem_append, List.mem_singleton,
      ← h.used_iff v]
    simp [committed, NumericKeyDomainMapping.recordRow, or_comm]
  · intro v
    rw [table_committed, BijectiveTable.keys_of_insert? hrows, List.mem_append, List.mem_singleton,
      ← h.persisted_iff v]
    simp [committed, NumericKeyDomainMapping.recordRow, or_comm]
  · intro row hrow
    rw [table_committed, happend, List.mem_append, List.mem_singleton] at hrow
    rcases hrow with hrow | rfl
    · have hvalid := h.rows_valid row hrow
      exact ⟨hvalid.1, hvalid.2, hvalid.3⟩
    · exact ⟨hfits, (mem_freeSet.mp hfree).1, hne⟩
  · exact h.feasible.1
  · have htokens : freeSet s.mapping.domain (s.committed x c rows draws).mapping.used =
        (freeSet s.mapping.domain s.mapping.used).erase c := by
      rw [← freeSet_append_singleton]
      refine freeSet_congr fun v => ?_
      simp [committed, NumericKeyDomainMapping.recordRow, or_comm]
    have hneed : (s.committed x c rows draws).mapping.unallocated.toFinset =
        s.mapping.unallocated.toFinset.erase x := by
      ext v
      simp only [NumericKeyDomainMapping.unallocated, horiginals, List.mem_toFinset, List.mem_filter,
        decide_eq_true_eq, Finset.mem_erase]
      simp only [committed, NumericKeyDomainMapping.recordRow, List.mem_insert_iff, not_or]
      tauto
    rw [hneed]
    exact htokens ▸ hrest
  · rw [table_committed, happend]
    exact List.prefix_append _ _

theorem Ready.allocate (h : Ready s) (rng : Csprng) (hx : x ∈ s.mapping.originals)
    (hfits : s.mapping.fitsMember x = true) (hnone : s.table.valueOf? x = none) :
    ∃ p s', s.allocate rng x = .ok (p, s') ∧ Ready s' ∧ Continues s s' ∧ s'.table.valueOf? x = some p := by
  have hkey : x ∉ s.table.keys := BijectiveTable.valueOf?_eq_none_iff.mp hnone
  have hneed : x ∈ s.mapping.unallocated :=
    List.mem_filter.mpr ⟨hx, by simpa [h.persisted_iff x] using hkey⟩
  obtain ⟨c, d, hselect, hc, hrest⟩ :=
    NumericKeyDomainMapping.selectCandidate_completes rng s.draws h.feasible hneed
  have hvalue : c ∉ s.table.values := by
    rw [← h.used_iff c]
    exact (mem_freeSet.mp (Finset.mem_of_mem_erase hc)).2
  obtain ⟨rows, hrows⟩ := BijectiveTable.exists_insert? hkey hvalue
  obtain ⟨hready, hcontinues⟩ := h.commit d hx hfits hrows hc hrest
  have hlookup : s.vault.numericPseudonym s.mapping.domainId x = none := hnone
  have hadd : addNumericKeyMapping (s.vault.numericKeyMappings s.mapping.domainId) x c = .ok rows := by
    have hinsert : (s.vault.numericKeyMappings s.mapping.domainId).insert? x c = some rows := hrows
    simp only [addNumericKeyMapping, hinsert]
  refine ⟨c, s.committed x c rows d, ?_, hready, hcontinues, ?_⟩
  · simp only [NumericSession.allocate, h.syncUsed, ok_bind, hlookup, hselect, hadd, pure_eq_ok, committed]
  · rw [table_committed, BijectiveTable.valueOf?_eq_some_iff, (BijectiveTable.insert?_eq_some_iff.mp hrows).2.2]
    simp

/-- A request for an observed original that fits a member always succeeds. -/
theorem Ready.pseudonymFor (h : Ready s) (rng : Csprng) (hx : x ∈ s.mapping.originals)
    (hfits : s.mapping.fitsMember x = true) :
    ∃ p s', s.pseudonymFor rng x = .ok (p, s') ∧ Ready s' ∧ Continues s s' ∧ s'.table.valueOf? x = some p := by
  unfold NumericSession.pseudonymFor
  rw [refuseIf_bind_neg (by simp [h.finalized]), refuseIf_bind_neg (by simp [hfits]),
    refuseIf_bind_neg (not_not.mpr hx)]
  cases hv : s.table.valueOf? x with
  | some p =>
    have hlookup : s.vault.numericPseudonym s.mapping.domainId x = some p := hv
    simp only [hlookup]
    exact ⟨p, s, h.reuse hv, h, .refl s, hv⟩
  | none =>
    have hlookup : s.vault.numericPseudonym s.mapping.domainId x = none := hv
    simp only [hlookup]
    exact h.allocate rng hx hfits hv

theorem Ready.pseudonymFor_refuses (h : Ready s) (rng : Csprng) (hfits : s.mapping.fitsMember x = false) :
    s.pseudonymFor rng x =
      .error (numericFailure .mappingConstraintInfeasible "NUMERIC_KEY_RANGE_INFEASIBLE") := by
  unfold NumericSession.pseudonymFor
  rw [refuseIf_bind_neg (by simp [h.finalized]), refuseIf_bind_pos hfits]

theorem Ready.originalFor (h : Ready s) (hp : s.table.valueOf? x = some p) : s.originalFor p = .ok (some x) := by
  have hrow := h.rows_valid (x, p) (BijectiveTable.valueOf?_eq_some_iff.mp hp)
  have hback : s.vault.numericOriginal s.mapping.domainId p = some x := BijectiveTable.keyOf?_of_valueOf? hp
  simp [NumericSession.originalFor, hback, NumericKeyDomainMapping.parseOriginal, refuseIf, hrow.original_fits,
    Except.map]

/-- What a request's answer says about the session it leaves, and about every later one. -/
def Answered (s : NumericSession) (x : ℤ) (answer : Except Raised ℤ) : Prop :=
  if s.mapping.fitsMember x = true then ∃ p, answer = .ok p ∧ s.table.valueOf? x = some p
  else answer = .error (numericFailure .mappingConstraintInfeasible "NUMERIC_KEY_RANGE_INFEASIBLE")

theorem Answered.continues {answer : Except Raised ℤ} (h : Answered s x answer) (hc : Continues s s') :
    Answered s' x answer := by
  unfold Answered at h ⊢
  rw [hc.fitsMember]
  split_ifs at h ⊢ with hfits
  · obtain ⟨p, rfl, hp⟩ := h
    exact ⟨p, rfl, hc.valueOf? hp⟩
  · exact h

theorem Ready.serve (h : Ready s) (rng : Csprng) (hx : x ∈ s.mapping.originals) :
    Ready (s.serve rng x).2 ∧ Continues s (s.serve rng x).2 ∧ Answered (s.serve rng x).2 x (s.serve rng x).1 := by
  unfold NumericSession.serve Answered
  cases hfits : s.mapping.fitsMember x with
  | true =>
    obtain ⟨p, s', he, hready, hcontinues, hp⟩ := h.pseudonymFor rng hx hfits
    simp only [he, hcontinues.fitsMember, hfits, if_true]
    exact ⟨hready, hcontinues, p, rfl, hp⟩
  | false =>
    simp only [h.pseudonymFor_refuses rng hfits, hfits, Bool.false_eq_true, if_false]
    exact ⟨h, .refl s, trivial⟩

theorem Ready.serveAll (h : Ready s) (rng : Csprng) {requests : List ℤ}
    (hobserved : ∀ x ∈ requests, x ∈ s.mapping.originals) :
    Ready (s.serveAll rng requests).2 ∧ Continues s (s.serveAll rng requests).2 ∧
      (s.serveAll rng requests).1.map Prod.fst = requests ∧
      ∀ entry ∈ (s.serveAll rng requests).1, Answered (s.serveAll rng requests).2 entry.1 entry.2 := by
  induction requests generalizing s with
  | nil => exact ⟨h, .refl s, rfl, by simp [NumericSession.serveAll]⟩
  | cons x rest ih =>
    obtain ⟨hready, hcontinues, hanswer⟩ := h.serve rng (hobserved x (by simp))
    obtain ⟨hready', hcontinues', hmap, hanswers⟩ := ih hready fun y hy => by
      rw [hcontinues.originals_eq]
      exact hobserved y (by simp [hy])
    refine ⟨hready', hcontinues.trans hcontinues', by simp [NumericSession.serveAll, hmap], ?_⟩
    intro entry hentry
    simp only [NumericSession.serveAll, List.mem_cons] at hentry ⊢
    rcases hentry with rfl | hentry
    · exact hanswer.continues hcontinues'
    · exact hanswers entry hentry

end Sessions

section Start
variable {domainId : Text} {domain : NumericKeyDomain} {occurrences : List (ℤ × NumericKeyMemberRange)}
  {m : NumericKeyDomainMapping} {s : NumericSession}

theorem collect_new (h : (NumericKeyDomainMapping.new domainId domain).collect occurrences = .ok m) :
    m.domainId = domainId ∧ m.domain = domain ∧ m.used = [] ∧ m.persistedOriginals = [] ∧
      m.originals.Nodup ∧ ∀ x, x ∈ m.originals ↔ x ∈ occurrences.map Prod.fst := by
  refine foldlM_induction [] (fun done (m : NumericKeyDomainMapping) => m.domainId = domainId ∧
    m.domain = domain ∧ m.used = [] ∧ m.persistedOriginals = [] ∧ m.originals.Nodup ∧
      ∀ x, x ∈ m.originals ↔ x ∈ done.map Prod.fst) ?_ ⟨rfl, rfl, rfl, rfl, List.nodup_nil, fun _ => Iff.rfl⟩ h
  rintro done occurrence m m' ⟨hid, hdomain, hused, hpersisted, hnodup, hmem⟩ hstep
  obtain ⟨-, -, hstep⟩ := bind_eq_ok.mp hstep
  split at hstep
  · cases hstep
  · cases hstep
  · cases hstep
    refine ⟨hid, hdomain, hused, hpersisted, hnodup.insert, fun x => ?_⟩
    rw [List.mem_insert_iff, hmem, List.map_append, List.mem_append, or_comm]
    simp

theorem numericKeyMappings_ensureDomain (m : NumericKeyDomainMapping) (vault : VaultState) :
    (m.ensureDomain vault).numericKeyMappings = vault.numericKeyMappings := by
  unfold NumericKeyDomainMapping.ensureDomain
  split_ifs <;> rfl

theorem finalize_eq_ok {s' : NumericSession} (h : s.finalize = .ok s') :
    ∃ loaded : NumericKeyDomainMapping, s.table.rows.foldl NumericKeyDomainMapping.recordRow s.mapping = loaded ∧
      (∀ row ∈ s.table.rows, s.mapping.ValidRow row) ∧
      KernelFeasible loaded.domain loaded.unallocated loaded.used ∧
      s' = ⟨{ loaded with finalized := true }, s.mapping.ensureDomain s.vault, s.draws⟩ := by
  unfold NumericSession.finalize at h
  obtain ⟨-, -, h⟩ := bind_eq_ok.mp h
  obtain ⟨-, -, h⟩ := bind_eq_ok.mp h
  obtain ⟨loaded, hload, h⟩ := bind_eq_ok.mp h
  obtain ⟨feasible, hplan, h⟩ := bind_eq_ok.mp h
  rw [NumericKeyDomainMapping.loadAndValidatePersisted, numericKeyMappings_ensureDomain] at hload
  obtain ⟨hvalid, hfold⟩ := NumericKeyDomainMapping.loadRows_eq_ok_iff.mp hload
  cases feasible with
  | false => simp at h
  | true =>
    have hn : ((sortedSet loaded.originals).filter (· ∉ loaded.persistedOriginals)).Nodup :=
      (NumericKeyDomainMapping.nodup_sortedSet _).filter _
    obtain ⟨hsize, havoid⟩ := (planNumericBijection_eq_true_iff _ hn _).mp hplan
    refine ⟨loaded, hfold, hvalid, ⟨hsize, ?_⟩, ?_⟩
    · have hneed : ((sortedSet loaded.originals).filter (· ∉ loaded.persistedOriginals)).toFinset =
          loaded.unallocated.toFinset := by
        ext v
        simp only [NumericKeyDomainMapping.unallocated, List.mem_toFinset, List.mem_filter, mem_sortedSet]
      rwa [freeSet_congr fun _ => mem_sortedSet, hneed] at havoid
    · simpa using h.symm

theorem finalize_ready (hcollect : (NumericKeyDomainMapping.new domainId domain).collect occurrences = .ok m)
    {vault : VaultState} {draws : ℕ} (h : NumericSession.finalize ⟨m, vault, draws⟩ = .ok s) :
    Ready s ∧ s.mapping.domain = domain ∧ s.table = vault.numericKeyMappings domainId ∧
      s.mapping.originals = m.originals := by
  obtain ⟨hid, hdomain, hused, hpersisted, hnodup, -⟩ := collect_new hcollect
  obtain ⟨loaded, hloaded, hvalid, hfeasible, rfl⟩ := finalize_eq_ok h
  have hrows : (NumericSession.table ⟨m, vault, draws⟩) = vault.numericKeyMappings domainId := by
    rw [table, hid]
  rw [hrows] at hloaded hvalid
  obtain ⟨hd, hi, ho⟩ := NumericKeyDomainMapping.foldl_recordRow_frame (vault.numericKeyMappings domainId).rows m
  rw [hloaded] at hd hi ho
  have htable : NumericSession.table ⟨{ loaded with finalized := true }, m.ensureDomain vault, draws⟩ =
      vault.numericKeyMappings domainId := by
    rw [table, numericKeyMappings_ensureDomain]
    exact congrArg _ (hi.trans hid)
  refine ⟨⟨rfl, ?_, ?_, ?_, ?_, hfeasible⟩, hd.trans hdomain, htable, ho⟩
  · rw [show loaded.originals = m.originals from ho]
    exact hnodup
  · intro v
    rw [htable, show v ∈ loaded.used ↔ _ from hloaded ▸ NumericKeyDomainMapping.mem_used_foldl, hused]
    simp [BijectiveTable.values]
  · intro x
    rw [htable, show x ∈ loaded.persistedOriginals ↔ _ from
      hloaded ▸ NumericKeyDomainMapping.mem_persisted_foldl, hpersisted]
    simp [BijectiveTable.keys]
  · intro row hrow
    rw [htable] at hrow
    obtain ⟨h1, h2, h3⟩ := hvalid row hrow
    refine ⟨?_, ?_, h3⟩
    · rw [NumericKeyDomainMapping.fitsMember] at h1 ⊢
      exact hd.symm ▸ h1
    · exact hd.symm ▸ h2

end Start

/-- What a run of requests owes to the rows the finalization found. -/
structure RequestsCompleted (domain : NumericKeyDomain) (earlier : BijectiveTable ℤ ℤ) (requests : List ℤ)
    (answers : List (ℤ × Except Raised ℤ)) (s : NumericSession) : Prop where
  requests_eq : answers.map Prod.fst = requests
  answered : ∀ x answer, (x, answer) ∈ answers → domain.members.any (·.containsOriginal x) = true →
    ∃ p, answer = .ok p ∧ domain.containsPseudonym p = true ∧ p ≠ x ∧ s.originalFor p = .ok (some x)
  refused : ∀ x answer, (x, answer) ∈ answers → domain.members.any (·.containsOriginal x) = false →
    answer = .error (numericFailure .mappingConstraintInfeasible "NUMERIC_KEY_RANGE_INFEASIBLE")
  repeated : ∀ x answer answer', (x, answer) ∈ answers → (x, answer') ∈ answers → answer = answer'
  injective : ∀ x y p, (x, .ok p) ∈ answers → (y, .ok p) ∈ answers → x = y
  keeps_rows : earlier.rows <+: s.table.rows

/-- After a successful finalization every order of requests for observed originals completes. -/
theorem numericRequests_complete (domainId : Text) (domain : NumericKeyDomain)
    (occurrences : List (ℤ × NumericKeyMemberRange)) {m : NumericKeyDomainMapping}
    (hcollect : (NumericKeyDomainMapping.new domainId domain).collect occurrences = .ok m) (vault : VaultState)
    (draws : ℕ) {s : NumericSession} (hfinalize : NumericSession.finalize ⟨m, vault, draws⟩ = .ok s)
    (rng : Csprng) (requests : List ℤ) (hobserved : ∀ x ∈ requests, x ∈ occurrences.map Prod.fst) :
    RequestsCompleted domain (vault.numericKeyMappings domainId) requests (s.serveAll rng requests).1
      (s.serveAll rng requests).2 := by
  obtain ⟨hready, hdomain, htable, horiginals⟩ := finalize_ready hcollect hfinalize
  obtain ⟨-, -, -, -, -, hmem⟩ := collect_new hcollect
  obtain ⟨hready', hcontinues, hmap, hanswers⟩ := hready.serveAll rng fun x hx => by
    rw [horiginals, hmem]
    exact hobserved x hx
  have hfits : ∀ x, (s.serveAll rng requests).2.mapping.fitsMember x =
      domain.members.any (·.containsOriginal x) := by
    intro x
    rw [hcontinues.fitsMember, NumericKeyDomainMapping.fitsMember, hdomain]
  have hserved : ∀ x answer, (x, answer) ∈ (s.serveAll rng requests).1 →
      domain.members.any (·.containsOriginal x) = true →
      ∃ p, answer = .ok p ∧ (s.serveAll rng requests).2.table.valueOf? x = some p := by
    intro x answer hentry hx
    have h := hanswers (x, answer) hentry
    rw [Answered, if_pos ((hfits x).trans hx)] at h
    exact h
  have hrefused : ∀ x answer, (x, answer) ∈ (s.serveAll rng requests).1 →
      domain.members.any (·.containsOriginal x) = false →
      answer = .error (numericFailure .mappingConstraintInfeasible "NUMERIC_KEY_RANGE_INFEASIBLE") := by
    intro x answer hentry hx
    have h := hanswers (x, answer) hentry
    rwa [Answered, if_neg (by simp [hfits x, hx])] at h
  constructor
  case requests_eq => exact hmap
  case answered =>
    intro x answer hentry hx
    obtain ⟨p, rfl, hp⟩ := hserved x answer hentry hx
    have hvalid := hready'.rows_valid (x, p) (BijectiveTable.valueOf?_eq_some_iff.mp hp)
    refine ⟨p, rfl, ?_, hvalid.no_fixed_point, hready'.originalFor hp⟩
    have hin := hvalid.pseudonym_mem
    rwa [hcontinues.domain_eq, hdomain] at hin
  case refused => exact hrefused
  case repeated =>
    intro x answer answer' hentry hentry'
    cases hx : domain.members.any (·.containsOriginal x) with
    | true =>
      obtain ⟨p, rfl, hp⟩ := hserved x answer hentry hx
      obtain ⟨p', rfl, hp'⟩ := hserved x answer' hentry' hx
      rw [hp] at hp'
      cases hp'
      rfl
    | false => rw [hrefused x answer hentry hx, hrefused x answer' hentry' hx]
  case injective =>
    intro x y p hentry hentry'
    have hlook : ∀ z, (z, Except.ok p) ∈ (s.serveAll rng requests).1 →
        (s.serveAll rng requests).2.table.keyOf? p = some z := by
      intro z hz
      cases hx : domain.members.any (·.containsOriginal z) with
      | true =>
        obtain ⟨p', he, hp'⟩ := hserved z _ hz hx
        cases he
        exact BijectiveTable.keyOf?_of_valueOf? hp'
      | false => cases hrefused z _ hz hx
    exact Option.some.inj ((hlook x hentry).symm.trans (hlook y hentry'))
  case keeps_rows => exact htable ▸ hcontinues.rows_prefix

section Cases

def threeTokenMember : NumericKeyMemberRange := ⟨1, 3, 1, 3, none, none⟩
def threeTokenDomain : NumericKeyDomain := ⟨1, 3, [threeTokenMember]⟩

/-- Three originals that are themselves the only three tokens. -/
def threeTokenOccurrences : List (ℤ × NumericKeyMemberRange) :=
  [(1, threeTokenMember), (2, threeTokenMember), (3, threeTokenMember)]

theorem threeTokens_complete : ∃ m s,
    (NumericKeyDomainMapping.new ['d'] threeTokenDomain).collect threeTokenOccurrences = .ok m ∧
      finalize ⟨m, .empty, 0⟩ = .ok s ∧
      RequestsCompleted threeTokenDomain .empty [1, 2, 3, 1] (s.serveAll default [1, 2, 3, 1]).1
        (s.serveAll default [1, 2, 3, 1]).2 := by
  refine ⟨_, _, rfl, rfl, ?_⟩
  exact numericRequests_complete ['d'] threeTokenDomain threeTokenOccurrences rfl .empty 0 rfl default _ (by decide)

def tenDigitDomain : NumericKeyDomain := ⟨0, 9, [⟨0, 9, 0, 9, some 0, some 9⟩]⟩

/-- An original observed under a member the domain does not have: the finalization succeeds, and
every request for the original is refused. -/
theorem strayMember_refused : ∃ m s,
    (NumericKeyDomainMapping.new ['d'] tenDigitDomain).collect [(100, integerMember)] = .ok m ∧
      finalize ⟨m, .empty, 0⟩ = .ok s ∧ 100 ∈ s.mapping.originals ∧
      ∀ rng, s.pseudonymFor rng 100 =
        .error (numericFailure .mappingConstraintInfeasible "NUMERIC_KEY_RANGE_INFEASIBLE") :=
  ⟨_, _, rfl, rfl, by decide, fun _ => rfl⟩

end Cases
end NumericSession
end DbfAnonymizer.Vault
