import DbfAnonymizer.Vault.WriterLease

/-! Exclusion of writers: one invariant of every interleaving of units, lease changes and failing control statements. -/
namespace DbfAnonymizer.Vault

theorem Connection.active_setActive_false {k : Connection} {unit other : ℕ} :
    (k.setActive unit false).active other = true ↔ other ≠ unit ∧ k.active other = true := by
  unfold Connection.active Connection.setActive
  rw [beq_iff_eq, beq_iff_eq, List.getElem?_set]
  split_ifs with h
  · simp [h]
  · simp [h]
  · have hne : other ≠ unit := fun heq => h heq.symm
    simp [hne]

theorem Connection.active_setActive_true {k : Connection} {unit other : ℕ}
    (h : (k.setActive unit true).active other = true) : other = unit ∨ k.active other = true := by
  unfold Connection.active Connection.setActive at *
  rw [beq_iff_eq, List.getElem?_set] at h
  rw [beq_iff_eq]
  split_ifs at h with heq
  · exact .inl heq.symm
  · exact .inr h

theorem Connection.active_append {k : Connection} {current : Option ℕ} {unit : ℕ}
    (h : ({ k with units := k.units ++ [false], current := current } : Connection).active unit = true) :
    k.active unit = true := by
  unfold Connection.active at *
  rw [beq_iff_eq, List.getElem?_append] at h
  rw [beq_iff_eq]
  split_ifs at h with hlt
  · exact h
  · have hmem : true ∈ [false] := List.mem_of_getElem? h
    simp at hmem

/-- The unit ran under its own connection's lease, and on a poisoned connection it wrote nothing. -/
structure UnitCommit.Sound {ι μ : Type} (bearer : Text → ι) (guarded : Prop) (r : UnitCommit ι μ) : Prop where
  owned : ∃ token, r.token = some token ∧ bearer token = r.connection ∧ r.owners ≠ [] ∧
    ∀ owner ∈ r.owners, owner = some token
  quiet : guarded → r.poisoned = true → r.mutations = []

namespace Writers
variable {ι μ : Type} {bearer : Text → ι} {guarded : Prop} {s : Writers ι μ} {c : ι}
  {k : Connection} {outcome : UnitOutcome}

/-- No open handle is inside an authorized unit. -/
def Idle (s : Writers ι μ) : Prop :=
  ∀ c unit, (s.connection c).connected = true → (s.connection c).active unit ≠ true

/-- The lease and the writes of an open unit. -/
structure UnitSound (guarded : Prop) (s : Writers ι μ) (c : ι) : Prop where
  owned : ∃ token, (s.connection c).writerToken = some token ∧ s.authority.ownerToken = some token ∧
    ∀ owner ∈ s.witnessed, owner = some token
  quiet : guarded → (s.connection c).poisoned = true → s.pending = []

/-- What every interleaving keeps; `guarded` stands for a run without unchecked writes. -/
structure Invariant (bearer : Text → ι) (guarded : Prop) (s : Writers ι μ) : Prop where
  unit_locked : ∀ c unit, (s.connection c).connected = true → (s.connection c).active unit = true →
    s.lock = some c
  unit_unique : ∀ c unit other, (s.connection c).connected = true → (s.connection c).active unit = true →
    (s.connection c).active other = true → other = unit
  lock_connected : ∀ c, s.lock = some c → (s.connection c).connected = true
  unit_sound : ∀ c, s.InUnit c → s.UnitSound guarded c
  token_bearer : ∀ c token, (s.connection c).writerToken = some token → bearer token = c
  ticks_lt : s.ticks.Pairwise (· < ·)
  ticks_le : ∀ tick ∈ s.ticks, tick ≤ s.authority.acquireTick
  commits_sound : ∀ r ∈ s.commits, r.Sound bearer guarded

theorem Invariant.idle (h : s.Invariant bearer guarded) (hlock : s.lock = none) : s.Idle := by
  intro c unit hconnected hactive
  have hheld := h.unit_locked c unit hconnected hactive
  rw [hlock] at hheld
  cases hheld

theorem Invariant.not_inUnit (h : s.Invariant bearer guarded) (hidle : s.Idle) : ¬ s.InUnit c := by
  intro hin
  obtain ⟨hlock, unit, hactive⟩ := hin
  exact hidle c unit (h.lock_connected c hlock) hactive

/-- Outside of units only the lease rows and the log matter. -/
theorem Invariant.of_idle (hidle : s.Idle) (hlock : ∀ c, s.lock = some c → (s.connection c).connected = true)
    (htoken : ∀ c token, (s.connection c).writerToken = some token → bearer token = c)
    (hlt : s.ticks.Pairwise (· < ·)) (hle : ∀ tick ∈ s.ticks, tick ≤ s.authority.acquireTick)
    (hcommits : ∀ r ∈ s.commits, r.Sound bearer guarded) : s.Invariant bearer guarded where
  unit_locked c unit hconnected hactive := absurd hactive (hidle c unit hconnected)
  unit_unique c unit _ hconnected hactive _ := absurd hactive (hidle c unit hconnected)
  lock_connected := hlock
  unit_sound c hin := by
    obtain ⟨hheld, unit, hactive⟩ := hin
    exact absurd hactive (hidle c unit (hlock c hheld))
  token_bearer := htoken
  ticks_lt := hlt
  ticks_le := hle
  commits_sound := hcommits

theorem lock_none_of_canBegin (hbegin : s.canBegin c outcome = true) : s.lock = none := by
  simp only [canBegin, Bool.and_eq_true, Option.isNone_iff_eq_none] at hbegin
  exact hbegin.2

theorem connected_of_canBegin (hbegin : s.canBegin c outcome = true) : (s.connection c).connected = true := by
  simp only [canBegin, Bool.and_eq_true] at hbegin
  exact hbegin.1.2

theorem Invariant.relock (h : s.Invariant bearer guarded) (hidle : s.Idle) (lock : Option ι) (pending : List μ)
    (hlock : ∀ c, lock = some c → (s.connection c).connected = true) :
    ({ s with lock := lock, pending := pending } : Writers ι μ).Invariant bearer guarded :=
  .of_idle hidle hlock h.token_bearer h.ticks_lt h.ticks_le h.commits_sound

theorem Invariant.mutate (h : s.Invariant bearer guarded) {method : StoreMethod} {mutation : μ}
    (hguard : guarded → ¬ s.UncheckedWrite (.mutate c method mutation)) :
    (s.mutate c method mutation).Invariant bearer guarded := by
  unfold Writers.mutate
  dsimp only
  split_ifs with hwrites
  · simp only [Bool.and_eq_true, Bool.or_eq_true, Bool.not_eq_true'] at hwrites
    have hactive : ∃ unit, (s.connection c).active unit = true := by
      have hcurrent := hwrites.1.1
      rw [Connection.currentActive, Option.any_eq_true] at hcurrent
      obtain ⟨unit, -, hunit⟩ := hcurrent
      exact ⟨unit, hunit⟩
    obtain ⟨unit, hunit⟩ := hactive
    have hlock := h.unit_locked c unit hwrites.2 hunit
    refine ⟨h.unit_locked, h.unit_unique, h.lock_connected, ?_, h.token_bearer, h.ticks_lt, h.ticks_le,
      h.commits_sound⟩
    intro d hin
    have hsound := h.unit_sound d hin
    have hd : c = d := Option.some.inj (hlock.symm.trans hin.1)
    refine ⟨hsound.owned, ?_⟩
    intro hguarded hpoisoned
    rw [← hd] at hpoisoned
    have huntrusted : (s.connection c).trusted = false := by
      change (s.connection c).poisoned = true at hpoisoned
      simp [Connection.trusted, hpoisoned]
    rw [huntrusted] at hwrites
    have hraw : method.internal = false := by simpa using hwrites.1.2
    exact absurd ⟨hpoisoned, hwrites.1.1, hwrites.2, hraw⟩ (hguard hguarded)
  · exact h

theorem Invariant.commit_sound (h : s.Invariant bearer guarded) (hwitnessed : s.InUnit c → s.witnessed ≠ [])
    (hin : s.InUnit c) :
    (⟨c, (s.connection c).writerToken, (s.connection c).poisoned, s.witnessed, s.pending⟩ :
      UnitCommit ι μ).Sound bearer guarded := by
  have hsound := h.unit_sound c hin
  obtain ⟨token, htoken, -, howners⟩ := hsound.owned
  exact ⟨⟨token, htoken, h.token_bearer c token htoken, hwitnessed hin, howners⟩, hsound.quiet⟩

theorem Invariant.commitPending (h : s.Invariant bearer guarded) (hidle : s.Idle)
    (hrecord : (⟨c, (s.connection c).writerToken, (s.connection c).poisoned, s.witnessed, s.pending⟩ :
      UnitCommit ι μ).Sound bearer guarded) :
    (s.commitPending c).Invariant bearer guarded := by
  apply Invariant.of_idle
  · exact hidle
  · intro d hd
    cases hd
  · exact h.token_bearer
  · exact h.ticks_lt
  · exact h.ticks_le
  · intro r hr
    rcases List.mem_append.mp hr with hold | hnew
    · exact h.commits_sound r hold
    · rw [List.mem_singleton.mp hnew]
      exact hrecord

theorem Invariant.holds (h : s.Invariant bearer guarded) (hin : s.InUnit c) : s.Holds c := by
  obtain ⟨token, htoken, howner, -⟩ := (h.unit_sound c hin).owned
  exact ⟨token, howner, htoken⟩

theorem Invariant.holder_unique (h : s.Invariant bearer guarded) {d : ι} (hc : s.Holds c) (hd : s.Holds d) : c = d := by
  obtain ⟨token, howner, hbound⟩ := hc
  obtain ⟨other, howner', hbound'⟩ := hd
  have htoken : token = other := Option.some.inj (howner.symm.trans howner')
  have hfirst := h.token_bearer c token hbound
  have hsecond := h.token_bearer d other hbound'
  rw [← hfirst, ← hsecond, htoken]

/-- The invariant between two steps, with the owners seen since an open unit began. -/
structure Between (bearer : Text → ι) (guarded : Prop) (s : Writers ι μ) : Prop where
  invariant : s.Invariant bearer guarded
  witnessed : ∀ c, s.InUnit c → s.witnessed ≠ []

theorem between_opened (authority : WriterAuthority) (readOnly : ι → Bool) :
    (opened authority readOnly : Writers ι μ).Between bearer guarded := by
  have hidle : (opened authority readOnly : Writers ι μ).Idle := by
    intro c unit _ hactive
    simp [opened, Connection.fresh, Connection.active] at hactive
  constructor
  · apply Invariant.of_idle hidle
    all_goals simp [opened, Connection.fresh]
  · intro c hin
    cases hin.1

variable [DecidableEq ι]

theorem connection_withConnection (d : ι) :
    (s.withConnection c k).connection d = if d = c then k else s.connection d := by
  unfold withConnection
  exact Function.update_apply _ _ _ _

@[simp] theorem connection_withConnection_self : (s.withConnection c k).connection c = k := by
  simp [withConnection]

theorem Idle.withConnection (hidle : s.Idle) (hconnected : k.connected = true → (s.connection c).connected = true)
    (hactive : ∀ unit, k.active unit = true → (s.connection c).active unit = true) :
    (s.withConnection c k).Idle := by
  intro d unit hopen hunit
  rw [connection_withConnection] at hopen hunit
  split_ifs at hopen hunit with hd
  · exact hidle c unit (hconnected hopen) (hactive unit hunit)
  · exact hidle d unit hopen hunit

theorem Invariant.withConnection (h : s.Invariant bearer guarded)
    (hconnected : k.connected = (s.connection c).connected)
    (htoken : k.writerToken = (s.connection c).writerToken)
    (hactive : ∀ unit, k.active unit = true → (s.connection c).active unit = true)
    (hpoisoned : s.InUnit c → k.poisoned = true → (s.connection c).poisoned = true) :
    (s.withConnection c k).Invariant bearer guarded := by
  have hconnection := connection_withConnection (s := s) (c := c) (k := k)
  have hopen : ∀ d, ((s.withConnection c k).connection d).connected = (s.connection d).connected := by
    intro d
    rw [hconnection]
    split_ifs with hd
    · rw [hd, hconnected]
    · rfl
  have hbound : ∀ d, ((s.withConnection c k).connection d).writerToken = (s.connection d).writerToken := by
    intro d
    rw [hconnection]
    split_ifs with hd
    · rw [hd, htoken]
    · rfl
  have hunit : ∀ d unit, ((s.withConnection c k).connection d).active unit = true →
      (s.connection d).active unit = true := by
    intro d unit hd
    rw [hconnection] at hd
    split_ifs at hd with heq
    · exact heq ▸ hactive unit hd
    · exact hd
  constructor
  case unit_locked =>
    intro d unit hd hu
    exact h.unit_locked d unit (hopen d ▸ hd) (hunit d unit hu)
  case unit_unique =>
    intro d unit other hd hu ho
    exact h.unit_unique d unit other (hopen d ▸ hd) (hunit d unit hu) (hunit d other ho)
  case lock_connected =>
    intro d hd
    rw [hopen]
    exact h.lock_connected d hd
  case unit_sound =>
    intro d hin
    obtain ⟨hlock, unit, hu⟩ := hin
    have hin : s.InUnit d := ⟨hlock, unit, hunit d unit hu⟩
    have hsound := h.unit_sound d hin
    constructor
    · rw [hbound]
      exact hsound.owned
    · intro hguarded hp
      apply hsound.quiet hguarded
      rw [hconnection] at hp
      split_ifs at hp with heq
      · exact heq ▸ hpoisoned (heq ▸ hin) hp
      · exact hp
  case token_bearer =>
    intro d token hd
    exact h.token_bearer d token (hbound d ▸ hd)
  case ticks_lt => exact h.ticks_lt
  case ticks_le => exact h.ticks_le
  case commits_sound => exact h.commits_sound

theorem Invariant.poison (h : s.Invariant bearer guarded) (hout : ¬ s.InUnit c) :
    (s.poison c).Invariant bearer guarded := by
  apply h.withConnection
  · rfl
  · rfl
  · exact fun _ hactive => hactive
  · exact fun hin => absurd hin hout

theorem Invariant.forget (h : s.Invariant bearer guarded) :
    (s.withConnection c { s.connection c with current := none }).Invariant bearer guarded := by
  apply h.withConnection
  · rfl
  · rfl
  · exact fun _ hactive => hactive
  · exact fun _ hpoisoned => hpoisoned

theorem Idle.poison (hidle : s.Idle) : (s.poison c).Idle :=
  hidle.withConnection (fun hconnected => hconnected) fun _ hactive => hactive

theorem Idle.forget (hidle : s.Idle) : (s.withConnection c { s.connection c with current := none }).Idle :=
  hidle.withConnection (fun hconnected => hconnected) fun _ hactive => hactive

theorem Invariant.rollback (h : s.Invariant bearer guarded) (hidle : s.Idle)
    (hconnected : (s.connection c).connected = true) (result : RollbackEnd) :
    (s.rollback c result).Invariant bearer guarded ∧ (s.rollback c result).Idle := by
  have hreleased := h.relock hidle none [] (by simp)
  have hkept := h.relock hidle (some c) s.pending (by
    intro d hd
    rw [← Option.some.inj hd]
    exact hconnected)
  cases result with
  | done => exact ⟨hreleased, hidle⟩
  | failed stillOpen =>
    cases stillOpen with
    | false => exact ⟨hreleased.poison (hreleased.not_inUnit hidle), Idle.poison hidle⟩
    | true => exact ⟨hkept.poison (hkept.not_inUnit hidle), Idle.poison hidle⟩

theorem idle_exit (h : s.Invariant bearer guarded) {unit : ℕ} (hconnected : (s.connection c).connected = true)
    (hactive : (s.connection c).active unit = true) :
    (s.withConnection c ((s.connection c).setActive unit false)).Idle := by
  intro d other hd hother
  rw [connection_withConnection] at hd hother
  split_ifs at hd hother with heq
  · have hboth := Connection.active_setActive_false.mp hother
    exact hboth.1 (h.unit_unique c unit other hconnected hactive hboth.2)
  · have hlock := h.unit_locked c unit hconnected hactive
    rw [h.unit_locked d other hd hother] at hlock
    exact heq (Option.some.inj hlock)

theorem Invariant.setActive_false (h : s.Invariant bearer guarded) (c : ι) (unit : ℕ) :
    (s.withConnection c ((s.connection c).setActive unit false)).Invariant bearer guarded := by
  apply h.withConnection
  · rfl
  · rfl
  · exact fun _ hactive => (Connection.active_setActive_false.mp hactive).2
  · exact fun _ hpoisoned => hpoisoned

theorem Invariant.transaction (h : s.Invariant bearer guarded) : (s.transaction c).Invariant bearer guarded := by
  unfold Writers.transaction
  dsimp only
  split_ifs
  · apply h.withConnection
    · rfl
    · rfl
    · exact fun _ hactive => Connection.active_append hactive
    · exact fun _ hpoisoned => hpoisoned
  · exact h

theorem Invariant.enter (h : s.Invariant bearer guarded) {unit : ℕ} :
    (s.enter c unit outcome).Invariant bearer guarded := by
  unfold Writers.enter
  dsimp only
  split_ifs with hbegin hverify
  · rw [Bool.and_eq_true] at hbegin hverify
    have hidle := h.idle (lock_none_of_canBegin hbegin.2)
    have hconnected := connected_of_canBegin hbegin.2
    have hopen : ∀ d other, ((s.withConnection c ((s.connection c).setActive unit true)).connection d).connected = true →
        ((s.withConnection c ((s.connection c).setActive unit true)).connection d).active other = true →
        d = c ∧ other = unit := by
      intro d other hd hother
      rw [connection_withConnection] at hd hother
      split_ifs at hd hother with heq
      · rcases Connection.active_setActive_true hother with hunit | hunit
        · exact ⟨heq, hunit⟩
        · exact absurd hunit (hidle c other hconnected)
      · exact absurd hother (hidle d other hd)
    constructor
    case unit_locked =>
      intro d other hd hother
      rw [(hopen d other hd hother).1]
    case unit_unique =>
      intro d first second hd hfirst hsecond
      rw [(hopen d first hd hfirst).2, (hopen d second hd hsecond).2]
    case lock_connected =>
      intro d hd
      rw [← Option.some.inj hd]
      exact (congrArg Connection.connected connection_withConnection_self).trans hconnected
    case unit_sound =>
      intro d hin
      rw [← Option.some.inj hin.1]
      constructor
      · have howner := hverify.2
        simp only [verifyWriterOwnership, Bool.and_eq_true, Option.isSome_iff_exists, beq_iff_eq] at howner
        obtain ⟨token, htoken⟩ := howner.1
        have hheld : (s.connection c).writerToken = some token := howner.2 ▸ htoken
        have hkept := (congrArg Connection.writerToken
          (connection_withConnection_self (s := s) (c := c) (k := (s.connection c).setActive unit true))).trans hheld
        exact ⟨token, hkept, htoken, by simp⟩
      · exact fun _ _ => rfl
    case token_bearer =>
      intro d token hd
      change ((s.withConnection c _).connection d).writerToken = some token at hd
      rw [connection_withConnection] at hd
      split_ifs at hd with heq
      · exact heq ▸ h.token_bearer c token hd
      · exact h.token_bearer d token hd
    case ticks_lt => exact h.ticks_lt
    case ticks_le => exact h.ticks_le
    case commits_sound => exact h.commits_sound
  · rw [Bool.and_eq_true] at hbegin
    exact (h.rollback (h.idle (lock_none_of_canBegin hbegin.2)) (connected_of_canBegin hbegin.2) _).1
  · exact h

theorem Invariant.exit (h : s.Invariant bearer guarded) {unit : ℕ} {raised : Bool}
    (hwitnessed : s.InUnit c → s.witnessed ≠ []) :
    (s.exit c unit raised outcome).Invariant bearer guarded := by
  have hleft := h.setActive_false c unit
  unfold Writers.exit
  dsimp only
  by_cases hactive : (s.connection c).active unit = true
  · rw [if_pos hactive]
    by_cases hconnected : (s.connection c).connected = true
    · rw [if_pos hconnected]
      have hidle := idle_exit h hconnected hactive
      have hback := hleft.rollback hidle (c := c) (by simpa [Connection.setActive] using hconnected) outcome.rollback
      have hrecord := h.commit_sound hwitnessed ⟨h.unit_locked c unit hconnected hactive, unit, hactive⟩
      have hcommit := hleft.commitPending (c := c) hidle (by
        rw [connection_withConnection_self]
        exact hrecord)
      cases raised with
      | true => exact hback.1
      | false =>
        cases outcome.commit with
        | done => exact hcommit
        | failed durable =>
          cases durable with
          | true => exact hcommit.poison (hcommit.not_inUnit hidle)
          | false => exact hback.1.poison (hback.1.not_inUnit hback.2)
    · rw [if_neg hconnected]
      apply hleft.poison
      intro hin
      have hopen := hleft.lock_connected c hin.1
      rw [connection_withConnection_self] at hopen
      exact hconnected hopen
  · rw [if_neg hactive]
    exact h

theorem Invariant.systemTransaction (h : s.Invariant bearer guarded) {updates : Bool} {authority : WriterAuthority}
    {bind : Writers ι μ → Writers ι μ} (hle : s.authority.acquireTick ≤ authority.acquireTick)
    (hbind : ∀ s' : Writers ι μ, s'.Invariant bearer guarded → s'.Idle → s'.authority = authority →
      s'.ticks = s.ticks → (bind s').Invariant bearer guarded) :
    (s.systemTransaction c outcome updates authority bind).Invariant bearer guarded := by
  have hforgot := h.forget (c := c)
  unfold Writers.systemTransaction
  dsimp only
  split_ifs with hbegin hupdates
  · have hidle : (s.withConnection c { s.connection c with current := none }).Idle :=
      (h.idle (lock_none_of_canBegin hbegin)).forget
    have hback := hforgot.rollback hidle (c := c) (by simpa using connected_of_canBegin hbegin) outcome.rollback
    have htaken : ({ s.withConnection c { s.connection c with current := none } with
        authority := authority } : Writers ι μ).Invariant bearer guarded := by
      apply Invariant.of_idle
      · exact hidle
      · exact hforgot.lock_connected
      · exact hforgot.token_bearer
      · exact hforgot.ticks_lt
      · exact fun tick htick => (h.ticks_le tick htick).trans hle
      · exact hforgot.commits_sound
    cases outcome.commit with
    | done => exact hbind _ htaken hidle rfl rfl
    | failed durable =>
      cases durable with
      | true => exact htaken.poison (htaken.not_inUnit hidle)
      | false => exact hback.1.poison (hback.1.not_inUnit hback.2)
  · have hidle := (h.idle (lock_none_of_canBegin hbegin)).forget (c := c)
    exact (hforgot.rollback hidle (by simpa using connected_of_canBegin hbegin) _).1
  · exact hforgot

theorem Invariant.bind (h : s.Invariant bearer guarded) (hidle : s.Idle) (writerToken : Option Text)
    (hbearer : ∀ token, writerToken = some token → bearer token = c) :
    (s.withConnection c { s.connection c with writerToken := writerToken }).Invariant bearer guarded := by
  have hconnection := connection_withConnection (s := s) (c := c)
    (k := { s.connection c with writerToken := writerToken })
  apply Invariant.of_idle
  · exact hidle.withConnection (fun hconnected => hconnected) fun _ hactive => hactive
  · intro d hd
    have hopen := h.lock_connected d hd
    rw [hconnection]
    split_ifs with heq
    · exact heq ▸ hopen
    · exact hopen
  · intro d token hd
    rw [hconnection] at hd
    split_ifs at hd with heq
    · exact heq ▸ hbearer token hd
    · exact h.token_bearer d token hd
  · exact h.ticks_lt
  · exact h.ticks_le
  · exact h.commits_sound

theorem Invariant.acquire (h : s.Invariant bearer guarded) {ownerToken : Text} (hbearer : bearer ownerToken = c) :
    (s.acquire c ownerToken outcome).Invariant bearer guarded := by
  unfold Writers.acquire
  dsimp only
  split_ifs
  · apply h.systemTransaction
    · exact Nat.le_succ _
    · intro s' h' hidle hauthority hticks
      have hbound := h'.bind hidle (c := c) (some ownerToken) (by
        intro token htoken
        rw [← Option.some.inj htoken]
        exact hbearer)
      have hbelow : ∀ tick ∈ s'.ticks, tick ≤ s.authority.acquireTick := by
        rw [hticks]
        exact h.ticks_le
      apply Invariant.of_idle
      · exact hidle.withConnection (fun hconnected => hconnected) fun _ hactive => hactive
      · exact hbound.lock_connected
      · exact hbound.token_bearer
      · apply List.pairwise_append.mpr
        refine ⟨h'.ticks_lt, List.pairwise_singleton _ _, ?_⟩
        intro tick htick next hnext
        rw [List.mem_singleton.mp hnext]
        exact Nat.lt_succ_of_le (hbelow tick htick)
      · intro tick htick
        change tick ≤ s'.authority.acquireTick
        rw [hauthority]
        rcases List.mem_append.mp htick with hold | hnew
        · exact Nat.le_succ_of_le (hbelow tick hold)
        · exact (List.mem_singleton.mp hnew).le
      · exact hbound.commits_sound
  · exact h

theorem Invariant.release (h : s.Invariant bearer guarded) {ownerToken : Text} :
    (s.release c ownerToken outcome).Invariant bearer guarded := by
  have hforgot := h.forget (c := c)
  unfold Writers.release
  dsimp only
  split_ifs with _ _ hfails
  · apply hforgot.poison
    intro hin
    have hlock : s.lock = some c := hin.1
    simp [hlock] at hfails
  · exact hforgot
  · apply h.systemTransaction
    · exact le_rfl
    · intro s' h' hidle _ _
      apply h'.bind hidle
      intro token htoken
      split_ifs at htoken
      exact h'.token_bearer c token htoken
  · exact h

theorem Invariant.disconnect (h : s.Invariant bearer guarded) (hconnected : k.connected = false)
    (htoken : k.writerToken = (s.connection c).writerToken) :
    ({ s.withConnection c k with lock := if s.lock = some c then none else s.lock } : Writers ι μ).Invariant
      bearer guarded := by
  have hconnection := connection_withConnection (s := s) (c := c) (k := k)
  have hopen : ∀ d, ((s.withConnection c k).connection d).connected = true → d ≠ c := by
    intro d hd heq
    rw [hconnection, if_pos heq, hconnected] at hd
    cases hd
  have hkept : ∀ d, d ≠ c → (s.withConnection c k).connection d = s.connection d := by
    intro d hd
    rw [hconnection, if_neg hd]
  have hlock : ∀ d, (if s.lock = some c then none else s.lock) = some d → d ≠ c ∧ s.lock = some d := by
    intro d hd
    split_ifs at hd with heq
    exact ⟨fun hdc => heq (hdc ▸ hd), hd⟩
  constructor
  case unit_locked =>
    intro d unit hd hunit
    have hne := hopen d hd
    rw [hkept d hne] at hd hunit
    have hheld := h.unit_locked d unit hd hunit
    have hfree : s.lock ≠ some c := fun hc => hne (Option.some.inj (hheld.symm.trans hc))
    exact (if_neg hfree).trans hheld
  case unit_unique =>
    intro d unit other hd hunit hsecond
    have hne := hopen d hd
    rw [hkept d hne] at hd hunit hsecond
    exact h.unit_unique d unit other hd hunit hsecond
  case lock_connected =>
    intro d hd
    have hheld := hlock d hd
    rw [hkept d hheld.1]
    exact h.lock_connected d hheld.2
  case unit_sound =>
    intro d hin
    have hheld := hlock d hin.1
    have hunits := hin.2
    rw [hkept d hheld.1] at hunits
    have hsound := h.unit_sound d ⟨hheld.2, hunits⟩
    constructor
    · rw [hkept d hheld.1]
      exact hsound.owned
    · rw [hkept d hheld.1]
      exact hsound.quiet
  case token_bearer =>
    intro d token hd
    rw [hconnection] at hd
    split_ifs at hd with heq
    · rw [htoken] at hd
      exact heq ▸ h.token_bearer c token hd
    · exact h.token_bearer d token hd
  case ticks_lt => exact h.ticks_lt
  case ticks_le => exact h.ticks_le
  case commits_sound => exact h.commits_sound

theorem Invariant.close (h : s.Invariant bearer guarded) {released : Bool} :
    (s.close c released).Invariant bearer guarded := by
  have hclosed : (s.withConnection c { s.connection c with closed := true }).Invariant bearer guarded := by
    apply h.withConnection
    · rfl
    · rfl
    · exact fun _ hactive => hactive
    · exact fun _ hpoisoned => hpoisoned
  unfold Writers.close
  dsimp only
  by_cases hfirst : (s.connection c).closed = true
  · rw [if_pos hfirst]
    exact h
  · rw [if_neg hfirst]
    cases released with
    | true => exact h.disconnect rfl rfl
    | false => exact hclosed

/-- The token of an acquisition belongs to the connection that acquires. -/
def BearsOwn (bearer : Text → ι) : WriterEvent ι μ → Prop
  | .acquire c ownerToken _ => bearer ownerToken = c
  | _ => True

theorem Between.step (h : s.Between bearer guarded) {e : WriterEvent ι μ} (hbearer : BearsOwn bearer e)
    (hguard : guarded → ¬ s.UncheckedWrite e) : (s.step e).Invariant bearer guarded := by
  cases e with
  | transaction c => exact h.invariant.transaction
  | enter c unit outcome => exact h.invariant.enter
  | mutate c method mutation => exact h.invariant.mutate hguard
  | exit c unit raised outcome => exact h.invariant.exit (h.witnessed c)
  | acquire c ownerToken outcome => exact h.invariant.acquire hbearer
  | release c ownerToken outcome => exact h.invariant.release
  | close c released => exact h.invariant.close

theorem Between.advance (h : s.Between bearer guarded) {e : WriterEvent ι μ} (hbearer : BearsOwn bearer e)
    (hguard : guarded → ¬ s.UncheckedWrite e) : (s.advance e).Between bearer guarded := by
  have hstep := h.step hbearer hguard
  constructor
  · constructor
    case unit_sound =>
      intro c hin
      have hsound := hstep.unit_sound c hin
      obtain ⟨token, htoken, howner, howners⟩ := hsound.owned
      constructor
      · refine ⟨token, htoken, howner, ?_⟩
        intro owner hmem
        rcases List.mem_append.mp hmem with hold | hnew
        · exact howners owner hold
        · rw [List.mem_singleton.mp hnew]
          exact howner
      · exact hsound.quiet
    case unit_locked => exact hstep.unit_locked
    case unit_unique => exact hstep.unit_unique
    case lock_connected => exact hstep.lock_connected
    case token_bearer => exact hstep.token_bearer
    case ticks_lt => exact hstep.ticks_lt
    case ticks_le => exact hstep.ticks_le
    case commits_sound => exact hstep.commits_sound
  · intro c _
    simp [Writers.advance]

theorem Between.run (h : s.Between bearer guarded) {events : List (WriterEvent ι μ)}
    (hbearer : ∀ e ∈ events, BearsOwn bearer e) (hguarded : guarded → s.GuardedRun events) :
    (s.run events).Between bearer guarded := by
  induction events generalizing s with
  | nil => exact h
  | cons e events ih =>
    apply ih
    · exact h.advance (hbearer e (by simp)) fun hg => (hguarded hg).1
    · exact fun e he => hbearer e (List.mem_cons_of_mem _ he)
    · exact fun hg => (hguarded hg).2

/-- One holder, units only under the lease, rising ticks; and a poisoned connection makes nothing durable in a run
without unchecked writes. -/
theorem run_exclusive (bearer : Text → ι) (authority : WriterAuthority) (readOnly : ι → Bool)
    (events : List (WriterEvent ι μ)) (hbearer : ∀ e ∈ events, BearsOwn bearer e) :
    let start : Writers ι μ := opened authority readOnly
    let s := start.run events
    (∀ c d, s.Holds c → s.Holds d → c = d) ∧ (∀ c, s.InUnit c → s.Holds c) ∧
      (∀ r ∈ s.commits, ∃ token, r.token = some token ∧ bearer token = r.connection ∧ r.owners ≠ [] ∧
        ∀ owner ∈ r.owners, owner = some token) ∧
      s.ticks.Pairwise (· < ·) ∧
      (start.GuardedRun events → ∀ r ∈ s.commits, r.poisoned = true → r.mutations = []) := by
  intro start s
  have hstart : start.Between bearer (start.GuardedRun events) := between_opened authority readOnly
  have hrun := (hstart.run hbearer fun hguarded => hguarded).invariant
  refine ⟨?_, ?_, ?_, hrun.ticks_lt, ?_⟩
  · intro c d hc hd
    exact hrun.holder_unique hc hd
  · intro c hin
    exact hrun.holds hin
  · intro r hr
    exact (hrun.commits_sound r hr).owned
  · intro hguarded r hr hpoisoned
    exact (hrun.commits_sound r hr).quiet hguarded hpoisoned

def handover : List (WriterEvent Bool ℕ) :=
  [.acquire false ['a'] .sound, .acquire true ['b'] .sound, .transaction false, .enter false 0 .sound,
    .mutate false .registerTable 7, .exit false 0 false .sound, .release false ['a'] .sound,
    .acquire true ['b'] .sound]

theorem handover_exclusive :
    let s : Writers Bool ℕ := (opened ⟨none, 0⟩ fun _ => false).run handover
    s.ticks = [1, 2] ∧ s.commits.map (·.mutations) = [[7]] ∧ (∀ c d, s.Holds c → s.Holds d → c = d) ∧
      ∀ r ∈ s.commits, r.poisoned = true → r.mutations = [] := by
  have h := run_exclusive (fun token => token == ['b']) ⟨none, 0⟩ (fun _ => false) handover (by
    simp [handover, BearsOwn])
  refine ⟨by decide, by decide, h.1, h.2.2.2.2 ?_⟩
  simp only [handover, GuardedRun, UncheckedWrite]
  decide

/-- A unit is entered again after its commit failed. -/
def reenteredUnit : List (WriterEvent Unit ℕ) :=
  [.acquire () ['a'] .sound, .transaction (), .enter () 0 .sound,
    .exit () 0 false { UnitOutcome.sound with commit := .failed false },
    .enter () 0 .sound, .mutate () .registerTable 7, .exit () 0 false .sound]

/-- The poisoned connection registers a table all the same. -/
theorem reenteredUnit_commits :
    let s : Writers Unit ℕ := (opened ⟨none, 0⟩ fun _ => false).run reenteredUnit
    (∀ e ∈ reenteredUnit, BearsOwn (fun _ => ()) e) ∧
      ∃ r ∈ s.commits, r.poisoned = true ∧ r.mutations = [7] := by
  have hcommits : ((opened ⟨none, 0⟩ fun _ => false).run reenteredUnit : Writers Unit ℕ).commits =
      [⟨(), some ['a'], true, [some ['a'], some ['a']], [7]⟩] := by decide
  refine ⟨by simp [reenteredUnit, BearsOwn], ⟨(), some ['a'], true, [some ['a'], some ['a']], [7]⟩, ?_, rfl, rfl⟩
  rw [hcommits]
  exact List.mem_singleton_self _

end Writers
end DbfAnonymizer.Vault
