import DbfAnonymizer.Lib.Outcome
import Mathlib.Algebra.BigOperators.Group.List.Basic
import Mathlib.Data.Set.List
import Mathlib.Logic.Relation
import Mathlib.Order.WellFounded

/-! Jobs that are run in batches: workers that share a stop flag, and a coordinator that accepts one result after the
other once its batch is done. -/
namespace DbfAnonymizer.Lib
universe u
variable {ι σ ε α : Type u}

/-- What a worker does with a job, one step after the other, and what is raised around it: `interrupts` between the
steps of the coordinator, `acceptRaises` while it accepts a result. The size counts down. -/
structure WorkerMachine (ι σ ε α : Type u) where
  init : ι → σ
  next : σ → σ ⊕ Except ε α
  size : σ → ℕ
  size_lt : ∀ s s', next s = .inl s' → size s' < size s
  isCancellation : ε → Bool
  own : ∀ s e, next s = .inr (.error e) → isCancellation e = false
  cancelled : ε
  cancelled_eq : isCancellation cancelled = true
  cleanupFailure : ε
  cleanupFailure_eq : isCancellation cleanupFailure = false
  notRetained : ε
  interrupts : ε → Prop
  acceptRaises : ε → Prop

/-- What has become of a submitted job. A failing worker has set the stop flag and not yet raised. -/
inductive JobState (σ ε α : Type u)
  | pending
  | running (s : σ)
  | failing (e : ε)
  | done (outcome : Except ε α)
  | dropped

/-- Where the coordinator is. A cause is what interrupted it; pending results are still to be accepted. -/
inductive Phase (ε α : Type u)
  | submitting
  | waiting
  | stopping (cause : Option ε)
  | accepting (pending : List α)
  | returned
  | raised (e : ε)

structure Pool (ι σ ε α : Type u) where
  results : List α
  jobs : List ι
  slots : List (ι × JobState σ ε α)
  stop : Bool
  phase : Phase ε α

namespace WorkerMachine

/-- What a worker comes to when nothing stops it. -/
def run (M : WorkerMachine ι σ ε α) (s : σ) : Except ε α :=
  match _h : M.next s with
  | .inl s' => M.run s'
  | .inr outcome => outcome
termination_by M.size s
decreasing_by exact M.size_lt s s' _h

variable (M : WorkerMachine ι σ ε α)

def outcome (job : ι) : Except ε α := M.run (M.init job)

theorem run_inl {s s' : σ} (h : M.next s = .inl s') : M.run s = M.run s' := by
  rw [run]
  split
  · next other hother => rw [Sum.inl.inj (hother.symm.trans h)]
  · next outcome houtcome => rw [houtcome] at h; cases h

theorem run_inr {s : σ} {outcome : Except ε α} (h : M.next s = .inr outcome) : M.run s = outcome := by
  rw [run]
  split
  · next other hother => rw [hother] at h; cases h
  · next other hother => rw [Sum.inr.inj (hother.symm.trans h)]

theorem isCancellation_run {s : σ} {e : ε} (h : M.run s = .error e) : M.isCancellation e = false := by
  induction hsize : M.size s using Nat.strong_induction_on generalizing s with
  | _ n ih =>
    cases hnext : M.next s with
    | inl s' =>
      rw [M.run_inl hnext] at h
      exact ih (M.size s') (hsize ▸ M.size_lt s s' hnext) h rfl
    | inr outcome =>
      rw [M.run_inr hnext] at h
      exact M.own s e (h ▸ hnext)

end WorkerMachine

/-- One step of one worker, with the stop flag before and after it. Only a stopping coordinator drops a job. -/
inductive JobStep (M : WorkerMachine ι σ ε α) (stopping : Bool) (job : ι) :
    Bool → JobState σ ε α → Bool → JobState σ ε α → Prop
  | start (stop : Bool) : JobStep M stopping job stop .pending stop (.running (M.init job))
  | advance (stop : Bool) {s s' : σ} (h : M.next s = .inl s') : JobStep M stopping job stop (.running s) stop (.running s')
  | finish (stop : Bool) {s : σ} {a : α} (h : M.next s = .inr (.ok a)) :
      JobStep M stopping job stop (.running s) stop (.done (.ok a))
  | fail (stop : Bool) {s : σ} {e : ε} (h : M.next s = .inr (.error e)) :
      JobStep M stopping job stop (.running s) true (.failing e)
  | checkpoint {s : σ} : JobStep M stopping job true (.running s) true (.failing M.cancelled)
  | raise (stop : Bool) {e : ε} : JobStep M stopping job stop (.failing e) stop (.done (.error e))
  | cleanup (stop : Bool) {e : ε} : JobStep M stopping job stop (.failing e) stop (.done (.error M.cleanupFailure))
  | drop (stop : Bool) (h : stopping = true) : JobStep M stopping job stop .pending stop .dropped

def JobState.failure? : JobState σ ε α → Option ε
  | .done (.error e) => some e
  | _ => none

def JobState.result? : JobState σ ε α → Option α
  | .done (.ok a) => some a
  | _ => none

def JobState.settled : JobState σ ε α → Bool
  | .done _ | .dropped => true
  | _ => false

/-- The first failure in the order of submission that is no cancellation, else the first failure. -/
def primaryFailure (M : WorkerMachine ι σ ε α) (slots : List (ι × JobState σ ε α)) : ε :=
  let failures := slots.filterMap fun slot => slot.2.failure?
  ((failures.find? fun e => !M.isCancellation e).or failures.head?).getD M.notRetained

def Phase.isStopping : Phase ε α → Bool
  | .stopping _ => true
  | _ => false

def Phase.isOpen : Phase ε α → Bool
  | .waiting | .stopping _ => true
  | _ => false

namespace Pool

/-- Nothing is submitted yet. -/
def start (jobs : List ι) : Pool ι σ ε α := ⟨[], jobs, [], false, .submitting⟩

/-- One step of the coordinator or of one worker. An acceptance can fail before or after its result is taken. -/
inductive Step (M : WorkerMachine ι σ ε α) (workers : ℕ) : Pool ι σ ε α → Pool ι σ ε α → Prop
  | submit (p : Pool ι σ ε α) (hphase : p.phase = .submitting) (hjobs : p.jobs ≠ []) :
      Step M workers p { p with
        jobs := p.jobs.drop workers
        slots := (p.jobs.take workers).map (·, .pending)
        phase := .waiting }
  | finish (p : Pool ι σ ε α) (hphase : p.phase = .submitting) (hjobs : p.jobs = []) :
      Step M workers p { p with phase := .returned }
  | refuse (p : Pool ι σ ε α) {e : ε} (hphase : p.phase = .submitting) (hjobs : p.jobs ≠ []) (he : M.interrupts e) :
      Step M workers p { p with phase := .raised e }
  | work (p : Pool ι σ ε α) {before after : List (ι × JobState σ ε α)} {job : ι} {f f' : JobState σ ε α} {stop : Bool}
      (hphase : p.phase.isOpen = true) (hslots : p.slots = before ++ (job, f) :: after)
      (hjob : JobStep M p.phase.isStopping job p.stop f stop f') :
      Step M workers p { p with slots := before ++ (job, f') :: after, stop := stop }
  | observe (p : Pool ι σ ε α) (hphase : p.phase = .waiting) (hfailed : ∃ slot ∈ p.slots, slot.2.failure? ≠ none) :
      Step M workers p { p with stop := true, phase := .stopping none }
  | interrupt (p : Pool ι σ ε α) {e : ε} (hphase : p.phase = .waiting) (he : M.interrupts e) :
      Step M workers p { p with stop := true, phase := .stopping (some e) }
  | raise (p : Pool ι σ ε α) {cause : Option ε} (hphase : p.phase = .stopping cause)
      (hsettled : ∀ slot ∈ p.slots, slot.2.settled = true) :
      Step M workers p { p with phase := .raised (cause.getD (primaryFailure M p.slots)) }
  | collect (p : Pool ι σ ε α) {results : List α} (hphase : p.phase = .waiting)
      (hresults : p.slots.map (fun slot => slot.2.result?) = results.map some) :
      Step M workers p { p with phase := .accepting results }
  | accept (p : Pool ι σ ε α) {a : α} {pending : List α} (hphase : p.phase = .accepting (a :: pending)) :
      Step M workers p { p with results := p.results ++ [a], phase := .accepting pending }
  | acceptFails (p : Pool ι σ ε α) {a : α} {pending : List α} {e : ε} (taken : Bool)
      (hphase : p.phase = .accepting (a :: pending)) (he : M.acceptRaises e) :
      Step M workers p { p with results := if taken then p.results ++ [a] else p.results, phase := .raised e }
  | close (p : Pool ι σ ε α) (hphase : p.phase = .accepting []) :
      Step M workers p { p with slots := [], phase := .submitting }

def Reaches (M : WorkerMachine ι σ ε α) (workers : ℕ) : Pool ι σ ε α → Pool ι σ ε α → Prop :=
  Relation.ReflTransGen (Step M workers)

def Ended (p : Pool ι σ ε α) : Prop := p.phase = .returned ∨ ∃ e, p.phase = .raised e

/-- What can be raised for a job: its own failure, or the failure to clean up after it. -/
def FailsWith (M : WorkerMachine ι σ ε α) (job : ι) (e : ε) : Prop :=
  ∃ e₀, M.outcome job = .error e₀ ∧ (e = e₀ ∨ e = M.cleanupFailure)

/-- A job that has failed by itself. -/
def Struck (M : WorkerMachine ι σ ε α) (slot : ι × JobState σ ε α) : Prop :=
  (∃ e, M.outcome slot.1 = .error e ∧ slot.2 = .failing e) ∨ ∃ e, FailsWith M slot.1 e ∧ slot.2 = .done (.error e)

/-- What a slot may hold. -/
def SlotSound (M : WorkerMachine ι σ ε α) (stop stopping : Bool) (slot : ι × JobState σ ε α) : Prop :=
  match slot.2 with
  | .pending => True
  | .running s => M.run s = M.outcome slot.1
  | .failing e => stop = true ∧ (M.outcome slot.1 = .error e ∨ e = M.cancelled)
  | .done (.ok a) => M.outcome slot.1 = .ok a
  | .done (.error e) => stop = true ∧ (M.outcome slot.1 = .error e ∨ e = M.cancelled ∨ e = M.cleanupFailure)
  | .dropped => stopping = true

/-- The jobs with their results. -/
def Yields (M : WorkerMachine ι σ ε α) (jobs : List ι) (results : List α) : Prop :=
  List.Forall₂ (fun job a => M.outcome job = .ok a) jobs results

/-- The jobs of a number of whole batches, and the next batch. -/
def batchesBefore (workers : ℕ) (all : List ι) (k : ℕ) : List ι := all.take (k * workers)

def batchAt (workers : ℕ) (all : List ι) (k : ℕ) : List ι := (all.drop (k * workers)).take workers

/-- Behind whole batches, one batch is with the workers and the others wait. -/
structure InBatch (workers : ℕ) (all : List ι) (k : ℕ) (p : Pool ι σ ε α) : Prop where
  slots_eq : p.slots.map Prod.fst = batchAt workers all k
  jobs_eq : p.jobs = all.drop ((k + 1) * workers)

/-- A batch of which nothing is accepted yet. -/
def Open (M : WorkerMachine ι σ ε α) (workers : ℕ) (all : List ι) (p : Pool ι σ ε α) : Prop :=
  (∃ k, InBatch workers all k p ∧ Yields M (batchesBefore workers all k) p.results) ∧
    ∀ slot ∈ p.slots, SlotSound M p.stop p.phase.isStopping slot

/-- What a pool that raises has accepted: whole batches, and where an acceptance has failed a front of the next batch,
all of whose jobs have results. -/
def RaisedSound (M : WorkerMachine ι σ ε α) (workers : ℕ) (all : List ι) (results : List α) (e : ε) : Prop :=
  ∃ k, (Yields M (batchesBefore workers all k) results ∧
      (M.interrupts e ∨ ∃ job ∈ batchAt workers all k, FailsWith M job e)) ∨
    M.acceptRaises e ∧ ∃ front back pending, batchAt workers all k = front ++ back ∧
      Yields M (batchesBefore workers all k ++ front) results ∧ Yields M back pending

/-- The account of the jobs in each phase. -/
def Sound (M : WorkerMachine ι σ ε α) (workers : ℕ) (all : List ι) (p : Pool ι σ ε α) : Prop :=
  match p.phase with
  | .submitting => p.stop = false ∧ ∃ k, p.jobs = all.drop (k * workers) ∧ Yields M (batchesBefore workers all k) p.results
  | .waiting => Open M workers all p ∧ (p.stop = true → ∃ slot ∈ p.slots, Struck M slot)
  | .stopping none => Open M workers all p ∧ p.stop = true ∧ ∃ slot ∈ p.slots, Struck M slot
  | .stopping (some e) => Open M workers all p ∧ p.stop = true ∧ M.interrupts e
  | .accepting pending => p.stop = false ∧ ∃ k front back, InBatch workers all k p ∧ batchAt workers all k = front ++ back ∧
      Yields M (batchesBefore workers all k ++ front) p.results ∧ Yields M back pending
  | .returned => Yields M all p.results
  | .raised e => RaisedSound M workers all p.results e

section Steps
variable {M : WorkerMachine ι σ ε α} {workers : ℕ} {all : List ι} {job : ι} {f f' : JobState σ ε α}
  {stopping stopping' stop stop' : Bool} {slot : ι × JobState σ ε α} {slots : List (ι × JobState σ ε α)}
  {p q : Pool ι σ ε α}

theorem SlotSound.mono (h : SlotSound M stop stopping slot) (hstop : stop = true → stop' = true)
    (hstopping : stopping = true → stopping' = true) : SlotSound M stop' stopping' slot := by
  unfold SlotSound at h ⊢
  split at h
  · trivial
  · exact h
  · exact ⟨hstop h.1, h.2⟩
  · exact h
  · exact ⟨hstop h.1, h.2⟩
  · exact hstopping h

theorem stop_mono (h : JobStep M stopping job stop f stop' f') (hstop : stop = true) : stop' = true := by
  cases h with
  | fail => rfl
  | checkpoint => rfl
  | _ => exact hstop

theorem slotSound_step (h : JobStep M stopping job stop f stop' f') (hslot : SlotSound M stop stopping (job, f)) :
    SlotSound M stop' stopping (job, f') := by
  cases h with
  | start => exact rfl
  | advance _ hnext => exact (M.run_inl hnext).symm.trans hslot
  | finish _ hnext => exact hslot.symm.trans (M.run_inr hnext)
  | fail _ hnext => exact ⟨rfl, Or.inl (hslot.symm.trans (M.run_inr hnext))⟩
  | checkpoint => exact ⟨rfl, Or.inr rfl⟩
  | raise => exact ⟨hslot.1, hslot.2.imp_right Or.inl⟩
  | cleanup => exact ⟨hslot.1, Or.inr (Or.inr rfl)⟩
  | drop _ hstopping => exact hstopping

theorem struck_step (h : JobStep M stopping job stop f stop' f') (hstruck : Struck M (job, f)) : Struck M (job, f') := by
  rcases hstruck with ⟨e, he, hf⟩ | ⟨e, he, hf⟩
  · dsimp only at hf
    subst hf
    cases h with
    | raise => exact Or.inr ⟨e, ⟨e, he, Or.inl rfl⟩, rfl⟩
    | cleanup => exact Or.inr ⟨M.cleanupFailure, ⟨e, he, Or.inr rfl⟩, rfl⟩
  · dsimp only at hf
    subst hf
    cases h

theorem struck_of_stop (h : JobStep M stopping job stop f stop' f') (hslot : SlotSound M stop stopping (job, f))
    (hstop' : stop' = true) : stop = true ∨ Struck M (job, f') := by
  cases h with
  | fail _ hnext => exact Or.inr (Or.inl ⟨_, hslot.symm.trans (M.run_inr hnext), rfl⟩)
  | checkpoint => exact Or.inl rfl
  | _ => exact Or.inl hstop'

theorem not_isCancellation_failsWith {e : ε} (h : FailsWith M job e) : M.isCancellation e = false := by
  obtain ⟨e₀, he₀, rfl | rfl⟩ := h
  · exact M.isCancellation_run he₀
  · exact M.cleanupFailure_eq

theorem failure?_eq_some {e : ε} : f.failure? = some e ↔ f = .done (.error e) := by
  unfold JobState.failure?
  split <;> simp_all

theorem result?_eq_some {a : α} : f.result? = some a ↔ f = .done (.ok a) := by
  unfold JobState.result?
  split <;> simp_all

/-- Where every job is settled and one has failed by itself, what is raised has come from a job. -/
theorem failsWith_primaryFailure (hslots : ∀ slot ∈ slots, SlotSound M stop stopping slot)
    (hsettled : ∀ slot ∈ slots, slot.2.settled = true) (hstruck : ∃ slot ∈ slots, Struck M slot) :
    ∃ slot ∈ slots, FailsWith M slot.1 (primaryFailure M slots) := by
  obtain ⟨t, ht, hstruck⟩ := hstruck
  obtain ⟨e', hfails, hdone⟩ : ∃ e, FailsWith M t.1 e ∧ t.2 = .done (.error e) := by
    rcases hstruck with ⟨e, -, hfailing⟩ | hdone
    · have hopen := hsettled t ht
      rw [hfailing] at hopen
      cases hopen
    · exact hdone
  let failures := slots.filterMap fun slot => slot.2.failure?
  have hmem : e' ∈ failures := List.mem_filterMap.mpr ⟨t, ht, failure?_eq_some.mpr hdone⟩
  have hkind : M.isCancellation e' = false := not_isCancellation_failsWith hfails
  cases hfound : failures.find? fun e => !M.isCancellation e with
  | none =>
    have hall := List.find?_eq_none.mp hfound e' hmem
    rw [hkind] at hall
    exact absurd rfl hall
  | some e =>
    have hprimary : primaryFailure M slots = e := by
      unfold primaryFailure
      show ((failures.find? fun e => !M.isCancellation e).or failures.head?).getD M.notRetained = e
      rw [hfound]
      rfl
    have hgenuine : M.isCancellation e = false := by simpa using List.find?_some hfound
    obtain ⟨s, hs, hfailure⟩ := List.mem_filterMap.mp (List.mem_of_find?_eq_some hfound)
    have hslot := hslots s hs
    unfold SlotSound at hslot
    rw [failure?_eq_some.mp hfailure] at hslot
    rw [hprimary]
    rcases hslot.2 with hown | hcancelled | hcleanup
    · exact ⟨s, hs, e, hown, Or.inl rfl⟩
    · rw [hcancelled, M.cancelled_eq] at hgenuine
      cases hgenuine
    · obtain ⟨e₀, he₀, -⟩ := hfails
      exact ⟨t, ht, e₀, he₀, Or.inr hcleanup⟩

theorem forall₂_results {results : List α} (hslots : ∀ slot ∈ slots, SlotSound M stop stopping slot)
    (hresults : slots.map (fun slot => slot.2.result?) = results.map some) :
    List.Forall₂ (fun job a => M.outcome job = .ok a) (slots.map Prod.fst) results := by
  rw [← List.forall₂_eq_eq_eq, List.forall₂_map_left_iff, List.forall₂_map_right_iff] at hresults
  rw [List.forall₂_map_left_iff]
  induction hresults with
  | nil => exact .nil
  | cons hhead _ ih =>
    obtain ⟨hslot, hrest⟩ := List.forall_mem_cons.mp hslots
    unfold SlotSound at hslot
    rw [result?_eq_some.mp hhead] at hslot
    exact .cons hslot (ih hrest)

theorem not_struck_of_results {results : List α} (hresults : slots.map (fun slot => slot.2.result?) = results.map some)
    (hslot : slot ∈ slots) : ¬ Struck M slot := by
  have hsome : slot.2.result? ∈ results.map some := hresults ▸ List.mem_map_of_mem hslot
  obtain ⟨a, -, ha⟩ := List.mem_map.mp hsome
  have hdone := result?_eq_some.mp ha.symm
  intro hstruck
  rcases hstruck with ⟨e, -, hf⟩ | ⟨e, -, hf⟩
  · rw [hdone] at hf
    cases hf
  · rw [hdone] at hf
    cases hf

theorem sound_start (all : List ι) : Sound M workers all (start all) := by
  refine ⟨rfl, 0, ?_, ?_⟩
  · rw [Nat.zero_mul]
    rfl
  · rw [batchesBefore, Nat.zero_mul]
    exact .nil

theorem batchesBefore_succ (all : List ι) (k : ℕ) :
    batchesBefore workers all (k + 1) = batchesBefore workers all k ++ batchAt workers all k := by
  rw [batchesBefore, Nat.succ_mul, List.take_add]
  rfl

theorem Sound.submit (h : Sound M workers all p) (hphase : p.phase = .submitting) :
    Sound M workers all { p with
      jobs := p.jobs.drop workers
      slots := (p.jobs.take workers).map (·, .pending)
      phase := .waiting } := by
  rw [Sound, hphase] at h
  obtain ⟨hstop, k, hjobs, hresults⟩ := h
  refine ⟨⟨⟨k, ⟨?_, ?_⟩, hresults⟩, ?_⟩, ?_⟩
  · dsimp only
    rw [List.map_map, Function.comp_def, List.map_id', hjobs]
    rfl
  · dsimp only
    rw [hjobs, List.drop_drop, Nat.succ_mul]
  · intro slot hslot
    obtain ⟨job, -, rfl⟩ := List.mem_map.mp hslot
    trivial
  · intro hraised
    rw [hstop] at hraised
    cases hraised

theorem Sound.finish (h : Sound M workers all p) (hphase : p.phase = .submitting) (hjobs : p.jobs = []) :
    Sound M workers all { p with phase := .returned } := by
  rw [Sound, hphase] at h
  obtain ⟨-, k, hrest, hresults⟩ := h
  rw [hjobs, eq_comm, List.drop_eq_nil_iff] at hrest
  rw [batchesBefore, List.take_of_length_le hrest] at hresults
  exact hresults

theorem Sound.refuse {e : ε} (h : Sound M workers all p) (hphase : p.phase = .submitting) (he : M.interrupts e) :
    Sound M workers all { p with phase := .raised e } := by
  rw [Sound, hphase] at h
  obtain ⟨-, k, -, hresults⟩ := h
  exact ⟨k, Or.inl ⟨hresults, Or.inl he⟩⟩

theorem InBatch.work {k : ℕ} {before after : List (ι × JobState σ ε α)} (h : InBatch workers all k p)
    (hslots : p.slots = before ++ (job, f) :: after) :
    InBatch workers all k { p with slots := before ++ (job, f') :: after, stop := stop' } where
  slots_eq := by
    rw [← h.slots_eq, hslots]
    simp
  jobs_eq := h.jobs_eq

theorem Open.work {before after : List (ι × JobState σ ε α)} (h : Open M workers all p)
    (hslots : p.slots = before ++ (job, f) :: after) (hjob : JobStep M p.phase.isStopping job p.stop f stop' f') :
    Open M workers all { p with slots := before ++ (job, f') :: after, stop := stop' } := by
  obtain ⟨⟨k, hbatch, hresults⟩, hsound⟩ := h
  refine ⟨⟨k, hbatch.work hslots, hresults⟩, ?_⟩
  rw [hslots] at hsound
  intro slot hslot
  dsimp only at hslot ⊢
  rw [List.mem_append, List.mem_cons] at hslot
  rcases hslot with hslot | rfl | hslot
  · exact (hsound _ (by simp [hslot])).mono (stop_mono hjob) id
  · exact slotSound_step hjob (hsound _ (by simp))
  · exact (hsound _ (by simp [hslot])).mono (stop_mono hjob) id

theorem exists_struck_work {before after : List (ι × JobState σ ε α)} (hslots : p.slots = before ++ (job, f) :: after)
    (hjob : JobStep M p.phase.isStopping job p.stop f stop' f') (h : ∃ slot ∈ p.slots, Struck M slot) :
    ∃ slot ∈ before ++ (job, f') :: after, Struck M slot := by
  obtain ⟨slot, hslot, hstruck⟩ := h
  rw [hslots, List.mem_append, List.mem_cons] at hslot
  rcases hslot with hslot | rfl | hslot
  · exact ⟨slot, by simp [hslot], hstruck⟩
  · exact ⟨(job, f'), by simp, struck_step hjob hstruck⟩
  · exact ⟨slot, by simp [hslot], hstruck⟩

theorem Sound.work {before after : List (ι × JobState σ ε α)} (h : Sound M workers all p)
    (hopen : p.phase.isOpen = true) (hslots : p.slots = before ++ (job, f) :: after)
    (hjob : JobStep M p.phase.isStopping job p.stop f stop' f') :
    Sound M workers all { p with slots := before ++ (job, f') :: after, stop := stop' } := by
  have hkept := exists_struck_work hslots hjob
  unfold Sound at h ⊢
  dsimp only
  split at h
  · next hphase =>
    rw [hphase] at hopen
    cases hopen
  · obtain ⟨hbatch, hflag⟩ := h
    refine ⟨hbatch.work hslots hjob, ?_⟩
    intro hstop
    have hold : SlotSound M p.stop p.phase.isStopping (job, f) := hbatch.2 _ (by simp [hslots])
    rcases struck_of_stop hjob hold hstop with hstop | hstruck
    · exact hkept (hflag hstop)
    · exact ⟨(job, f'), by simp, hstruck⟩
  · exact ⟨h.1.work hslots hjob, stop_mono hjob h.2.1, hkept h.2.2⟩
  · exact ⟨h.1.work hslots hjob, stop_mono hjob h.2.1, h.2.2⟩
  · next hphase =>
    rw [hphase] at hopen
    cases hopen
  · next hphase =>
    rw [hphase] at hopen
    cases hopen
  · next hphase =>
    rw [hphase] at hopen
    cases hopen

theorem Open.raiseFlag {phase : Phase ε α} (h : Open M workers all p) (hwaiting : p.phase = .waiting) :
    Open M workers all { p with stop := true, phase } := by
  obtain ⟨⟨k, hbatch, hresults⟩, hsound⟩ := h
  refine ⟨⟨k, ⟨hbatch.slots_eq, hbatch.jobs_eq⟩, hresults⟩, ?_⟩
  intro slot hslot
  have hold := hsound slot hslot
  rw [hwaiting] at hold
  exact hold.mono (fun _ => rfl) fun hstopping => nomatch hstopping

theorem Sound.observe (h : Sound M workers all p) (hphase : p.phase = .waiting)
    (hfailed : ∃ slot ∈ p.slots, slot.2.failure? ≠ none) :
    Sound M workers all { p with stop := true, phase := .stopping none } := by
  rw [Sound, hphase] at h
  obtain ⟨hbatch, hflag⟩ := h
  refine ⟨hbatch.raiseFlag hphase, rfl, ?_⟩
  obtain ⟨slot, hslot, hfailure⟩ := hfailed
  obtain ⟨e, he⟩ := Option.ne_none_iff_exists'.mp hfailure
  have hsound := hbatch.2 slot hslot
  unfold SlotSound at hsound
  rw [failure?_eq_some.mp he] at hsound
  exact hflag hsound.1

theorem Sound.interrupt {e : ε} (h : Sound M workers all p) (hphase : p.phase = .waiting) (he : M.interrupts e) :
    Sound M workers all { p with stop := true, phase := .stopping (some e) } := by
  rw [Sound, hphase] at h
  exact ⟨h.1.raiseFlag hphase, rfl, he⟩

theorem Sound.raise {cause : Option ε} (h : Sound M workers all p) (hphase : p.phase = .stopping cause)
    (hsettled : ∀ slot ∈ p.slots, slot.2.settled = true) :
    Sound M workers all { p with phase := .raised (cause.getD (primaryFailure M p.slots)) } := by
  cases cause with
  | none =>
    rw [Sound, hphase] at h
    obtain ⟨⟨⟨k, hbatch, hresults⟩, hsound⟩, -, hstruck⟩ := h
    obtain ⟨slot, hslot, hfails⟩ := failsWith_primaryFailure hsound hsettled hstruck
    refine ⟨k, Or.inl ⟨hresults, Or.inr ⟨slot.1, ?_, hfails⟩⟩⟩
    rw [← hbatch.slots_eq]
    exact List.mem_map_of_mem hslot
  | some e =>
    rw [Sound, hphase] at h
    obtain ⟨⟨⟨k, -, hresults⟩, -⟩, -, he⟩ := h
    exact ⟨k, Or.inl ⟨hresults, Or.inl he⟩⟩

theorem Sound.collect {results : List α} (h : Sound M workers all p) (hphase : p.phase = .waiting)
    (hresults : p.slots.map (fun slot => slot.2.result?) = results.map some) :
    Sound M workers all { p with phase := .accepting results } := by
  rw [Sound, hphase] at h
  obtain ⟨⟨⟨k, hbatch, haccepted⟩, hsound⟩, hflag⟩ := h
  have hpending : Yields M (batchAt workers all k) results := hbatch.slots_eq ▸ forall₂_results hsound hresults
  refine ⟨?_, k, [], batchAt workers all k, ⟨hbatch.slots_eq, hbatch.jobs_eq⟩, rfl, ?_, hpending⟩
  · cases hstop : p.stop with
    | false => rfl
    | true =>
      obtain ⟨slot, hslot, hstruck⟩ := hflag hstop
      exact absurd hstruck (not_struck_of_results hresults hslot)
  · rw [List.append_nil]
    exact haccepted

theorem Yields.accept {accepted front back : List ι} {results pending : List α} {a : α}
    (haccepted : Yields M (accepted ++ front) results) (hpending : Yields M back (a :: pending)) :
    ∃ job rest, back = job :: rest ∧ Yields M (accepted ++ (front ++ [job])) (results ++ [a]) ∧ Yields M rest pending := by
  cases hpending with
  | @cons job _ rest _ hfirst hrest =>
    refine ⟨job, rest, rfl, ?_, hrest⟩
    rw [← List.append_assoc]
    exact List.rel_append haccepted (.cons hfirst .nil)

theorem Sound.accept {a : α} {pending : List α} (h : Sound M workers all p)
    (hphase : p.phase = .accepting (a :: pending)) :
    Sound M workers all { p with results := p.results ++ [a], phase := .accepting pending } := by
  rw [Sound, hphase] at h
  obtain ⟨hstop, k, front, back, hbatch, hsplit, haccepted, hpending⟩ := h
  obtain ⟨job, rest, rfl, hnext, hrest⟩ := haccepted.accept hpending
  refine ⟨hstop, k, front ++ [job], rest, ⟨hbatch.slots_eq, hbatch.jobs_eq⟩, ?_, hnext, hrest⟩
  rw [hsplit, List.append_assoc]
  rfl

theorem Sound.acceptFails {a : α} {pending : List α} {e : ε} (taken : Bool) (h : Sound M workers all p)
    (hphase : p.phase = .accepting (a :: pending)) (he : M.acceptRaises e) :
    Sound M workers all { p with results := if taken then p.results ++ [a] else p.results, phase := .raised e } := by
  rw [Sound, hphase] at h
  obtain ⟨-, k, front, back, -, hsplit, haccepted, hpending⟩ := h
  cases taken with
  | false => exact ⟨k, Or.inr ⟨he, front, back, _, hsplit, haccepted, hpending⟩⟩
  | true =>
    obtain ⟨job, rest, rfl, hnext, hrest⟩ := haccepted.accept hpending
    refine ⟨k, Or.inr ⟨he, front ++ [job], rest, pending, ?_, hnext, hrest⟩⟩
    rw [hsplit, List.append_assoc]
    rfl

theorem Sound.close (h : Sound M workers all p) (hphase : p.phase = .accepting []) :
    Sound M workers all { p with slots := [], phase := .submitting } := by
  rw [Sound, hphase] at h
  obtain ⟨hstop, k, front, back, hbatch, hsplit, haccepted, hpending⟩ := h
  cases hpending
  rw [List.append_nil] at hsplit
  refine ⟨hstop, k + 1, hbatch.jobs_eq, ?_⟩
  rw [batchesBefore_succ, hsplit]
  exact haccepted

/-- Every step keeps the account of the jobs. -/
theorem Sound.step (h : Sound M workers all p) (hstep : Step M workers p q) : Sound M workers all q := by
  cases hstep with
  | submit hphase => exact h.submit hphase
  | finish hphase hjobs => exact h.finish hphase hjobs
  | refuse hphase _ he => exact h.refuse hphase he
  | work hopen hslots hjob => exact h.work hopen hslots hjob
  | observe hphase hfailed => exact h.observe hphase hfailed
  | interrupt hphase he => exact h.interrupt hphase he
  | raise hphase hsettled => exact h.raise hphase hsettled
  | collect hphase hresults => exact h.collect hphase hresults
  | accept hphase => exact h.accept hphase
  | acceptFails taken hphase he => exact h.acceptFails taken hphase he
  | close hphase => exact h.close hphase

theorem Sound.reaches (h : Sound M workers all p) (hrun : Reaches M workers p q) : Sound M workers all q := by
  induction hrun with
  | refl => exact h
  | tail _ hstep ih => exact ih.step hstep

theorem results_of_returned (hrun : Reaches M workers (start all) p) (hphase : p.phase = .returned) :
    Yields M all p.results := by
  have h := (sound_start all).reaches hrun
  rw [Sound, hphase] at h
  exact h

theorem sound_of_raised {e : ε} (hrun : Reaches M workers (start all) p) (hphase : p.phase = .raised e) :
    RaisedSound M workers all p.results e := by
  have h := (sound_start all).reaches hrun
  rw [Sound, hphase] at h
  exact h

theorem mem_of_mem_batchAt {k : ℕ} (h : job ∈ batchAt workers all k) : job ∈ all :=
  List.mem_of_mem_drop (List.mem_of_mem_take h)

/-- Without interruptions and with acceptances that do not raise, a pool ends by returning where every job has a
result. -/
theorem returned_of_outcomes (hquiet : ∀ e, ¬ M.interrupts e) (haccepts : ∀ e, ¬ M.acceptRaises e)
    (hall : ∀ job ∈ all, ∃ a, M.outcome job = .ok a) (hrun : Reaches M workers (start all) p) (hended : Ended p) :
    p.phase = .returned := by
  rcases hended with hphase | ⟨e, hphase⟩
  · exact hphase
  · obtain ⟨k, ⟨-, hraised⟩ | ⟨hraises, -⟩⟩ := sound_of_raised hrun hphase
    · rcases hraised with hinterrupt | ⟨job, hjob, e₀, he₀, -⟩
      · exact absurd hinterrupt (hquiet e)
      · obtain ⟨a, ha⟩ := hall job (mem_of_mem_batchAt hjob)
        rw [he₀] at ha
        cases ha
    · exact absurd hraises (haccepts e)

theorem exists_jobStep (h : f.settled = false) : ∃ stop' f', JobStep M stopping job stop f stop' f' := by
  cases f with
  | pending => exact ⟨_, _, .start stop⟩
  | running s =>
    cases hnext : M.next s with
    | inl s' => exact ⟨_, _, .advance stop hnext⟩
    | inr outcome =>
      cases outcome with
      | ok a => exact ⟨_, _, .finish stop hnext⟩
      | error e => exact ⟨_, _, .fail stop hnext⟩
  | failing e => exact ⟨_, _, .raise stop⟩
  | done outcome => cases h
  | dropped => cases h

theorem exists_work (hopen : p.phase.isOpen = true) (hslot : slot ∈ p.slots) (h : slot.2.settled = false) :
    ∃ q, Step M workers p q := by
  obtain ⟨before, after, hslots⟩ := List.append_of_mem hslot
  obtain ⟨stop', f', hjob⟩ : ∃ stop' f', JobStep M p.phase.isStopping slot.1 p.stop slot.2 stop' f' := exists_jobStep h
  exact ⟨_, .work p hopen hslots hjob⟩

theorem exists_step_waiting (h : Sound M workers all p) (hphase : p.phase = .waiting) : ∃ q, Step M workers p q := by
  rw [Sound, hphase] at h
  obtain ⟨⟨-, hslots⟩, -⟩ := h
  rw [hphase] at hslots
  by_cases hfailed : ∃ slot ∈ p.slots, slot.2.failure? ≠ none
  · exact ⟨_, .observe p hphase hfailed⟩
  · by_cases hsettled : ∃ slot ∈ p.slots, slot.2.settled = false
    · obtain ⟨slot, hslot, hopen⟩ := hsettled
      exact exists_work (by rw [hphase]; rfl) hslot hopen
    · have hdone : ∀ slot ∈ p.slots, ∃ a, slot.2.result? = some a := by
        intro slot hslot
        have hsound := hslots slot hslot
        have hunfailed : slot.2.failure? = none := not_not.mp fun hne => hfailed ⟨slot, hslot, hne⟩
        have hclosed : slot.2.settled ≠ false := fun hopen => hsettled ⟨slot, hslot, hopen⟩
        unfold SlotSound at hsound
        split at hsound
        all_goals simp_all [JobState.result?, JobState.failure?, JobState.settled, Phase.isStopping]
      have hrange : p.slots.map (fun slot => slot.2.result?) ∈ Set.range (List.map (some : α → Option α)) := by
        rw [Set.range_list_map]
        intro result hresult
        obtain ⟨slot, hslot, rfl⟩ := List.mem_map.mp hresult
        obtain ⟨a, ha⟩ := hdone slot hslot
        exact ⟨a, ha.symm⟩
      obtain ⟨results, hresults⟩ := hrange
      exact ⟨_, .collect p hphase hresults.symm⟩

theorem exists_step (hrun : Reaches M workers (start all) p) (hended : ¬ Ended p) : ∃ q, Step M workers p q := by
  cases hphase : p.phase with
  | submitting =>
    by_cases hjobs : p.jobs = []
    · exact ⟨_, .finish p hphase hjobs⟩
    · exact ⟨_, .submit p hphase hjobs⟩
  | waiting => exact exists_step_waiting ((sound_start all).reaches hrun) hphase
  | stopping cause =>
    by_cases hsettled : ∃ slot ∈ p.slots, slot.2.settled = false
    · obtain ⟨slot, hslot, hopen⟩ := hsettled
      exact exists_work (by rw [hphase]; rfl) hslot hopen
    · refine ⟨_, .raise p hphase ?_⟩
      intro slot hslot
      exact Bool.of_not_eq_false fun hopen => hsettled ⟨slot, hslot, hopen⟩
  | accepting pending =>
    cases pending with
    | nil => exact ⟨_, .close p hphase⟩
    | cons a pending => exact ⟨_, .accept p hphase⟩
  | returned => exact absurd (Or.inl hphase) hended
  | raised e => exact absurd (Or.inr ⟨e, hphase⟩) hended

def jobWeight (M : WorkerMachine ι σ ε α) (job : ι) : JobState σ ε α → ℕ
  | .pending => M.size (M.init job) + 4
  | .running s => M.size s + 3
  | .failing _ => 2
  | .done _ | .dropped => 1

def slotsWeight (M : WorkerMachine ι σ ε α) (slots : List (ι × JobState σ ε α)) : ℕ :=
  (slots.map fun slot => jobWeight M slot.1 slot.2).sum

def phaseWeight (M : WorkerMachine ι σ ε α) (slots : List (ι × JobState σ ε α)) : Phase ε α → ℕ
  | .submitting => 1
  | .waiting => slotsWeight M slots + 3
  | .stopping _ => slotsWeight M slots + 2
  | .accepting pending => pending.length + 2
  | .returned | .raised _ => 0

/-- What is left to be done, which every step lessens. -/
def weight (M : WorkerMachine ι σ ε α) (p : Pool ι σ ε α) : ℕ :=
  (p.jobs.map fun job => M.size (M.init job) + 8).sum + phaseWeight M p.slots p.phase

theorem jobWeight_lt (h : JobStep M stopping job stop f stop' f') : jobWeight M job f' < jobWeight M job f := by
  cases h with
  | advance _ hnext =>
    have := M.size_lt _ _ hnext
    simp only [jobWeight]
    omega
  | _ => simp only [jobWeight]; omega

theorem slotsWeight_lt (before after : List (ι × JobState σ ε α)) (h : JobStep M stopping job stop f stop' f') :
    slotsWeight M (before ++ (job, f') :: after) < slotsWeight M (before ++ (job, f) :: after) := by
  have := jobWeight_lt h
  simp only [slotsWeight, List.map_append, List.map_cons, List.sum_append, List.sum_cons]
  omega

theorem slotsWeight_pending (jobs : List ι) :
    slotsWeight M (jobs.map (·, (.pending : JobState σ ε α))) + jobs.length * 4 =
      (jobs.map fun job => M.size (M.init job) + 8).sum := by
  induction jobs with
  | nil => rfl
  | cons job jobs ih =>
    simp only [slotsWeight, List.map_cons, List.sum_cons, List.length_cons, jobWeight] at ih ⊢
    omega

theorem slotsWeight_done {results : List α} (h : slots.map (fun slot => slot.2.result?) = results.map some) :
    slotsWeight M slots = results.length := by
  induction slots generalizing results with
  | nil =>
    rw [List.map_nil, eq_comm, List.map_eq_nil_iff] at h
    rw [h]
    rfl
  | cons slot slots ih =>
    cases results with
    | nil => simp at h
    | cons a results =>
      rw [List.map_cons, List.map_cons, List.cons.injEq] at h
      have hrest := ih h.2
      simp only [slotsWeight, List.map_cons, List.sum_cons, List.length_cons, result?_eq_some.mp h.1, jobWeight] at hrest ⊢
      omega

theorem weight_lt (hworkers : 0 < workers) (h : Step M workers p q) : weight M q < weight M p := by
  cases h with
  | submit hphase hjobs =>
    have hsplit : (p.jobs.map fun job => M.size (M.init job) + 8).sum =
        ((p.jobs.take workers).map fun job => M.size (M.init job) + 8).sum +
          ((p.jobs.drop workers).map fun job => M.size (M.init job) + 8).sum := by
      rw [← List.sum_append, ← List.map_append, List.take_append_drop]
    have hpos : 0 < (p.jobs.take workers).length := by
      rw [List.length_take]
      exact Nat.lt_min.mpr ⟨hworkers, List.length_pos_iff.mpr hjobs⟩
    have htaken := slotsWeight_pending (M := M) (p.jobs.take workers)
    simp only [weight, phaseWeight, hphase]
    omega
  | finish hphase => simp [weight, phaseWeight, hphase]
  | refuse hphase => simp [weight, phaseWeight, hphase]
  | @work before after job f f' stop hopen hslots hjob =>
    have hless := slotsWeight_lt before after hjob
    rw [← hslots] at hless
    unfold weight
    dsimp only
    cases hphase : p.phase with
    | waiting => simpa [phaseWeight] using hless
    | stopping cause => simpa [phaseWeight] using hless
    | _ =>
      rw [hphase] at hopen
      cases hopen
  | observe hphase => simp [weight, phaseWeight, hphase]
  | interrupt hphase => simp [weight, phaseWeight, hphase]
  | raise hphase => simp [weight, phaseWeight, hphase]
  | collect hphase hresults => simp [weight, phaseWeight, hphase, slotsWeight_done hresults]
  | accept hphase => simp [weight, phaseWeight, hphase]
  | acceptFails taken hphase => simp [weight, phaseWeight, hphase]
  | close hphase => simp [weight, phaseWeight, hphase]

theorem wellFounded_step (hworkers : 0 < workers) : WellFounded fun q p : Pool ι σ ε α => Step M workers p q :=
  Subrelation.wf (fun h => weight_lt hworkers h) (measure (weight M)).wf

end Steps
end Pool
end DbfAnonymizer.Lib
