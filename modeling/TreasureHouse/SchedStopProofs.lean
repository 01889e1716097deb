import TreasureHouse.SchedProofs

/-! # Stopping a scheduler — `sched_run_entry`, `main_loop` and `sched_wakeup`

    The scheduler thread, one call of `sched_wakeup` and any number of calls of
    `sched_sched` interleave.  What several threads touch without the lock,
    that is `sched->status`, is read and written in steps of its own; a section
    under the lock that does not touch it is one step, taken when the lock is
    free.  `pthread_cond_wait` may return without a signal.  As in `CoSched`,
    `co_nums` has no bound.

    `sched_run_entry` stores SCHED_RUNNING without the lock.  `StartsFirst`
    says that it does so before the stop request; `stop_kept` says that then
    the request is never lost, and that otherwise it always is. -/

namespace SchedStop

open LabelledRun CoSched

/-- Where the scheduler thread is: about to store SCHED_RUNNING, at the test of
    the outer loop, at `lock_obj`, at the test of the inner loop, at the test of
    `status` in it, at `pthread_cond_wait`, asleep there, signalled and in need
    of the lock, at `pick_one_co`, at the timers and the event loop, in a
    coroutine, or back from `main_loop`. -/
inductive MainPc where
  | entry
  | test
  | locking
  | checkNums
  | checkStatus
  | condWait
  | waiting
  | woken
  | picking
  | idle
  | inCo (co : Nat)
  | returned
  deriving DecidableEq

/-- How far `sched_wakeup` is. -/
inductive WakerPc where
  | before
  | locked
  | stored
  | signalled
  | done
  deriving DecidableEq

/-- Who holds `sched->lock` across steps. -/
inductive Owner where
  | main
  | waker
  deriving DecidableEq

/-- The fields of `struct sched` that these threads share, and the threads. -/
structure State where
  status : SchedStatus
  coNums : Int
  coReadyQueue : List Nat
  coQueue : List Nat
  lock : Option Owner
  main : MainPc
  waker : WakerPc
  deriving DecidableEq

/-- What the scheduler thread does next: its next statement, a timer callback
    that resumes a coroutine, or how the running coroutine leaves. -/
inductive MainAct where
  | next
  | resume (co : Nat)
  | yield
  | sleep
  | finish
  deriving DecidableEq

inductive Act where
  | main (act : MainAct)
  | spurious
  | submit (co : Nat)
  | wakeup
  deriving DecidableEq

/-- After `sched_create`, with the thread not yet in `sched_run_entry`. -/
def schedCreate : State where
  status := .created
  coNums := 0
  coReadyQueue := []
  coQueue := []
  lock := none
  main := .entry
  waker := .before

/-- `pthread_cond_signal(&sched->cond)`: nobody else waits. -/
def condSignal (s : State) : State :=
  if s.main = .waiting then { s with main := .woken } else s

/-- `lock_obj`, by a thread that keeps the lock. -/
def lockObj (s : State) (owner : Owner) : Option State :=
  if s.lock = none then some { s with lock := some owner } else none

/-- A section under the lock that is one step. -/
def locked (s : State) (body : State) : Option State :=
  if s.lock = none then some body else none

/-- The next statement of `sched_run_entry` and `main_loop`. -/
def mainNext (s : State) : Option State :=
  match s.main with
  | .entry => some { s with status := .running, main := .test }
  | .test =>
      if s.status = .running then some { s with main := .locking }
      else some { s with main := .returned }
  | .locking => lockObj { s with main := .checkNums } .main
  | .checkNums =>
      if s.coNums = 0 then some { s with main := .checkStatus }
      else some { s with lock := none, main := .picking }
  | .checkStatus =>
      if s.status ≠ .running then some { s with lock := none, main := .returned }
      else some { s with main := .condWait }
  | .condWait => some { s with lock := none, main := .waiting }
  | .waiting => none
  | .woken => lockObj { s with main := .checkNums } .main
  | .picking =>
      match s.coReadyQueue with
      | [] => locked s { s with main := .idle }
      | co :: queue => locked s { s with coReadyQueue := queue, main := .inCo co }
  | .idle => some { s with main := .test }
  | .inCo _ => none
  | .returned => none

/-- How the running coroutine leaves. -/
def leave (s : State) (f : Nat → State) : Option State :=
  match s.main with
  | .inCo co => locked s { f co with main := .test }
  | _ => none

/-- `sched_sched`. -/
def schedSched (s : State) (co : Nat) : Option State :=
  let s' := if s.coNums = 0 then condSignal s else s
  locked s { s' with
    coReadyQueue := coQueueAppend s.coReadyQueue co
    coNums := s.coNums + 1 }

/-- `sched_wakeup`. -/
def schedWakeup (s : State) : Option State :=
  match s.waker with
  | .before => lockObj { s with waker := .locked } .waker
  | .locked => some { s with status := .stopped, waker := .stored }
  | .stored => some { condSignal s with waker := .signalled }
  | .signalled => some { s with lock := none, waker := .done }
  | .done => none

def step (s : State) : Act → Option State
  | .main .next => mainNext s
  | .main (.resume co) =>
      if s.main = .idle ∧ co ∈ s.coQueue then
        some { s with
          coQueue := s.coQueue.erase co
          coReadyQueue := coQueueAppend s.coReadyQueue co }
      else none
  | .main .yield => leave s fun co =>
      { s with coReadyQueue := coQueueAppend s.coReadyQueue co }
  | .main .sleep => leave s fun co => { s with coQueue := coQueueAppend s.coQueue co }
  | .main .finish => leave s fun _ => { s with coNums := s.coNums - 1 }
  | .spurious => if s.main = .waiting then some { s with main := .woken } else none
  | .submit co => schedSched s co
  | .wakeup => schedWakeup s

/-- The stop request is made. -/
def WakerPc.past : WakerPc → Bool
  | .before => false
  | .locked => false
  | _ => true

/-- What a completed `sched_wakeup` owes. -/
def StopKept (s : State) : Prop :=
  s.waker = .done → s.status = .stopped ∧ ¬ (s.main = .waiting ∧ s.coNums = 0)

/-- `sched_run_entry` stores SCHED_RUNNING before the stop request, if it does
    so now. -/
def StartsFirst (s : State) (act : Act) : Prop :=
  act = .main .next → s.main = .entry → s.status ≠ .stopped

instance (s : State) (act : Act) : Decidable (StartsFirst s act) :=
  inferInstanceAs (Decidable (_ → _))

-- ── What a step can do ───────────────────────────────────────────────────────

/-- The scheduler thread holds the lock. -/
def MainPc.holds : MainPc → Bool
  | .checkNums => true
  | .checkStatus => true
  | .condWait => true
  | _ => false

/-- The scheduler thread has started, does not hold the lock and is not asleep
    in `pthread_cond_wait`. -/
def MainPc.free : MainPc → Bool
  | .entry => false
  | .waiting => false
  | pc => !pc.holds

section Cases

variable {s s' body : State} {act : Act}

theorem locked_cases (h : locked s body = some s') : s.lock = none ∧ s' = body := by
  rw [locked, Option.ite_none_right_eq_some] at h
  exact ⟨h.1, (Option.some.inj h.2).symm⟩

theorem lockObj_cases {owner : Owner} (h : lockObj s owner = some s') :
    s.lock = none ∧ s' = { s with lock := some owner } := by
  rw [lockObj, Option.ite_none_right_eq_some] at h
  exact ⟨h.1, (Option.some.inj h.2).symm⟩

theorem leave_cases {f : Nat → State} (h : leave s f = some s') :
    ∃ co, s.main = .inCo co ∧ s.lock = none ∧ s' = { f co with main := .test } := by
  rw [leave] at h
  split at h
  · rename_i co hm
    exact ⟨co, hm, locked_cases h⟩
  · cases h

/-- A signal wakes the scheduler thread if it waits, and does nothing else. -/
theorem condSignal_cases (s : State) :
    (s.main ≠ .waiting ∧ condSignal s = s) ∨ condSignal s = { s with main := .woken } := by
  by_cases hw : s.main = .waiting
  · exact Or.inr (if_pos hw)
  · exact Or.inl ⟨hw, if_neg hw⟩

/-- The store of SCHED_RUNNING, taking the lock, the two tests under it, going
    to sleep, and everything else. -/
theorem mainNext_cases (h : mainNext s = some s') :
    (s.main = .entry ∧ s' = { s with status := .running, main := .test })
    ∨ (s.lock = none ∧ s' = { s with lock := some .main, main := .checkNums })
    ∨ (s.main = .checkNums ∧ s.coNums = 0 ∧ s' = { s with main := .checkStatus })
    ∨ (s.main = .checkStatus ∧ s.status = .running ∧ s' = { s with main := .condWait })
    ∨ (s.main = .condWait ∧ s' = { s with lock := none, main := .waiting })
    ∨ (s'.status = s.status ∧ s'.waker = s.waker ∧ s'.main.free = true
        ∧ (s'.lock = s.lock ∨ s.main.holds = true ∧ s'.lock = none)) := by
  cases hm : s.main with
  | entry =>
      simp only [mainNext, hm, Option.some.injEq] at h
      exact Or.inl ⟨rfl, h.symm⟩
  | test =>
      simp only [mainNext, hm] at h
      by_cases hst : s.status = .running
      · rw [if_pos hst] at h
        cases h
        exact Or.inr (Or.inr (Or.inr (Or.inr (Or.inr ⟨rfl, rfl, rfl, Or.inl rfl⟩))))
      · rw [if_neg hst] at h
        cases h
        exact Or.inr (Or.inr (Or.inr (Or.inr (Or.inr ⟨rfl, rfl, rfl, Or.inl rfl⟩))))
  | locking | woken =>
      simp only [mainNext, hm] at h
      obtain ⟨hlock, h⟩ := lockObj_cases h
      exact Or.inr (Or.inl ⟨hlock, h⟩)
  | checkNums =>
      simp only [mainNext, hm] at h
      by_cases hn : s.coNums = 0
      · rw [if_pos hn] at h
        exact Or.inr (Or.inr (Or.inl ⟨rfl, hn, (Option.some.inj h).symm⟩))
      · rw [if_neg hn] at h
        cases h
        exact Or.inr (Or.inr (Or.inr (Or.inr (Or.inr ⟨rfl, rfl, rfl, Or.inr ⟨rfl, rfl⟩⟩))))
  | checkStatus =>
      simp only [mainNext, hm] at h
      by_cases hst : s.status = .running
      · rw [if_neg (not_not.mpr hst)] at h
        exact Or.inr (Or.inr (Or.inr (Or.inl ⟨rfl, hst, (Option.some.inj h).symm⟩)))
      · rw [if_pos hst] at h
        cases h
        exact Or.inr (Or.inr (Or.inr (Or.inr (Or.inr ⟨rfl, rfl, rfl, Or.inr ⟨rfl, rfl⟩⟩))))
  | condWait =>
      simp only [mainNext, hm, Option.some.injEq] at h
      exact Or.inr (Or.inr (Or.inr (Or.inr (Or.inl ⟨rfl, h.symm⟩))))
  | picking =>
      simp only [mainNext, hm] at h
      split at h
      · obtain ⟨-, rfl⟩ := locked_cases h
        exact Or.inr (Or.inr (Or.inr (Or.inr (Or.inr ⟨rfl, rfl, rfl, Or.inl rfl⟩))))
      · obtain ⟨-, rfl⟩ := locked_cases h
        exact Or.inr (Or.inr (Or.inr (Or.inr (Or.inr ⟨rfl, rfl, rfl, Or.inl rfl⟩))))
  | idle =>
      simp only [mainNext, hm] at h
      cases h
      exact Or.inr (Or.inr (Or.inr (Or.inr (Or.inr ⟨rfl, rfl, rfl, Or.inl rfl⟩))))
  | waiting | inCo co | returned =>
      simp only [mainNext, hm] at h
      cases h

/-- Any other step but the waker's leaves `status` and the lock alone, and the
    scheduler thread where it is or free. -/
theorem step_cases (h : step s act = some s') :
    (act = .main .next ∧ mainNext s = some s')
    ∨ (act = .wakeup ∧ schedWakeup s = some s')
    ∨ (act ≠ .main .next ∧ s'.status = s.status ∧ s'.waker = s.waker ∧ s'.lock = s.lock
        ∧ (s'.main = s.main ∨ s'.main.free = true)) := by
  cases act with
  | main act =>
      cases act with
      | next => exact Or.inl ⟨rfl, h⟩
      | resume co =>
          rw [step, Option.ite_none_right_eq_some] at h
          obtain ⟨-, h⟩ := h
          cases h
          exact Or.inr (Or.inr ⟨(fun he => nomatch he), rfl, rfl, rfl, Or.inl rfl⟩)
      | yield | sleep | finish =>
          obtain ⟨co, -, -, rfl⟩ := leave_cases h
          exact Or.inr (Or.inr ⟨(fun he => nomatch he), rfl, rfl, rfl, Or.inr rfl⟩)
  | spurious =>
      rw [step, Option.ite_none_right_eq_some] at h
      obtain ⟨-, h⟩ := h
      cases h
      exact Or.inr (Or.inr ⟨(fun he => nomatch he), rfl, rfl, rfl, Or.inr rfl⟩)
  | submit co =>
      obtain ⟨-, rfl⟩ := locked_cases h
      refine Or.inr (Or.inr ⟨(fun he => nomatch he), ?_⟩)
      by_cases hn : s.coNums = 0
      · rw [if_pos hn]
        obtain ⟨-, hsig⟩ | hsig := condSignal_cases s
        · rw [hsig]
          exact ⟨rfl, rfl, rfl, Or.inl rfl⟩
        · rw [hsig]
          exact ⟨rfl, rfl, rfl, Or.inr rfl⟩
      · rw [if_neg hn]
        exact ⟨rfl, rfl, rfl, Or.inl rfl⟩
  | wakeup => exact Or.inr (Or.inl ⟨rfl, h⟩)

/-- The four steps of `sched_wakeup`. -/
theorem schedWakeup_cases (h : schedWakeup s = some s') :
    (s.waker = .before ∧ s.lock = none ∧ s' = { s with lock := some .waker, waker := .locked })
    ∨ (s.waker = .locked ∧ s' = { s with status := .stopped, waker := .stored })
    ∨ (s.waker = .stored ∧ s' = { condSignal s with waker := .signalled })
    ∨ (s.waker = .signalled ∧ s' = { s with lock := none, waker := .done }) := by
  cases hw : s.waker with
  | before =>
      simp only [schedWakeup, hw] at h
      obtain ⟨hlock, h⟩ := lockObj_cases h
      exact Or.inl ⟨rfl, hlock, h⟩
  | locked =>
      simp only [schedWakeup, hw, Option.some.injEq] at h
      exact Or.inr (Or.inl ⟨rfl, h.symm⟩)
  | stored =>
      simp only [schedWakeup, hw, Option.some.injEq] at h
      exact Or.inr (Or.inr (Or.inl ⟨rfl, h.symm⟩))
  | signalled =>
      simp only [schedWakeup, hw, Option.some.injEq] at h
      exact Or.inr (Or.inr (Or.inr ⟨rfl, h.symm⟩))
  | done =>
      simp only [schedWakeup, hw] at h
      cases h

end Cases

-- ── The invariant ────────────────────────────────────────────────────────────

/-- `sched_wakeup` holds the lock. -/
def WakerPc.holds : WakerPc → Bool
  | .before => false
  | .done => false
  | _ => true

/-- The lock excludes, and from the stop request on `status` is SCHED_STOPPED,
    nobody is about to wait, and after the signal nobody waits. -/
structure StopInv (s : State) : Prop where
  main_holds : s.main.holds = true → s.lock = some .main
  waker_holds : s.waker.holds = true → s.lock = some .waker
  stopped : s.waker.past = true ↔ s.status = .stopped
  deciding : s.main = .condWait → s.waker = .before
  signalled : s.waker = .signalled ∨ s.waker = .done → s.main ≠ .waiting

theorem stopInv_create : StopInv schedCreate where
  main_holds := fun h => nomatch h
  waker_holds := fun h => nomatch h
  stopped := iff_of_false (fun h => nomatch h) (fun h => nomatch h)
  deciding := fun h => nomatch h
  signalled := fun h => by
    rcases h with h | h
    · cases h
    · cases h

theorem MainPc.free_holds {pc : MainPc} (h : pc.free = true) : pc.holds = false := by
  cases pc with
  | checkNums | checkStatus | condWait => cases h
  | _ => rfl

theorem MainPc.free_ne {pc : MainPc} (h : pc.free = true) : pc ≠ .waiting ∧ pc ≠ .condWait := by
  constructor
  · rintro rfl
    cases h
  · rintro rfl
    cases h

section Steps

variable {s s' : State} {act : Act}

/-- The lock has one holder. -/
theorem StopInv.excl (h : StopInv s) (hm : s.main.holds = true) : s.waker.holds = false := by
  by_contra hw
  have hlock := h.main_holds hm
  rw [h.waker_holds (Bool.not_eq_false _ ▸ hw)] at hlock
  cases hlock

theorem StopInv.not_holds (h : StopInv s) (hw : s.waker.holds = true) : s.main.holds = false := by
  by_contra hm
  have hexcl := h.excl (Bool.not_eq_false _ ▸ hm)
  rw [hw] at hexcl
  cases hexcl

/-- A thread that could take the lock finds nobody holding it. -/
theorem StopInv.lock_none (h : StopInv s) (hl : s.lock = none) :
    s.main.holds = false ∧ s.waker.holds = false := by
  constructor
  · by_contra hm
    have hlock := h.main_holds (Bool.not_eq_false _ ▸ hm)
    rw [hl] at hlock
    cases hlock
  · by_contra hw
    have hlock := h.waker_holds (Bool.not_eq_false _ ▸ hw)
    rw [hl] at hlock
    cases hlock

theorem condWait_holds {pc : MainPc} (h : pc = .condWait) : pc.holds = true := by
  rw [h]
  rfl

/-- **WAKEUP** -/
theorem stopInv_wakeup (h : StopInv s) (hs : schedWakeup s = some s') : StopInv s' := by
  obtain ⟨hw, hlock, rfl⟩ | ⟨hw, rfl⟩ | ⟨hw, rfl⟩ | ⟨hw, rfl⟩ := schedWakeup_cases hs
  · have hm := (h.lock_none hlock).1
    have hst := h.stopped
    rw [hw] at hst
    exact {
      main_holds := fun hh => absurd (hm.symm.trans hh) Bool.false_ne_true
      waker_holds := fun _ => rfl
      stopped := hst
      deciding := fun hc => absurd (hm.symm.trans (condWait_holds hc)) Bool.false_ne_true
      signalled := fun hd => by
        rcases hd with hd | hd
        · cases hd
        · cases hd }
  · have hm := h.not_holds (by rw [hw]; rfl)
    exact {
      main_holds := fun hh => absurd (hm.symm.trans hh) Bool.false_ne_true
      waker_holds := fun _ => h.waker_holds (by rw [hw]; rfl)
      stopped := iff_of_true rfl rfl
      deciding := fun hc => absurd (hm.symm.trans (condWait_holds hc)) Bool.false_ne_true
      signalled := fun hd => by
        rcases hd with hd | hd
        · cases hd
        · cases hd }
  · have hm := h.not_holds (by rw [hw]; rfl)
    have hlock := h.waker_holds (by rw [hw]; rfl)
    have hst := h.stopped.mp (by rw [hw]; rfl)
    obtain ⟨hne, hsig⟩ | hsig := condSignal_cases s
    · rw [hsig]
      exact {
        main_holds := h.main_holds
        waker_holds := fun _ => hlock
        stopped := iff_of_true rfl hst
        deciding := fun hc => absurd (hm.symm.trans (condWait_holds hc)) Bool.false_ne_true
        signalled := fun _ => hne }
    · rw [hsig]
      exact {
        main_holds := fun hh => nomatch hh
        waker_holds := fun _ => hlock
        stopped := iff_of_true rfl hst
        deciding := fun hc => nomatch hc
        signalled := fun _ hc => nomatch hc }
  · have hm := h.not_holds (by rw [hw]; rfl)
    exact {
      main_holds := fun hh => absurd (hm.symm.trans hh) Bool.false_ne_true
      waker_holds := fun hh => nomatch hh
      stopped := iff_of_true rfl (h.stopped.mp (by rw [hw]; rfl))
      deciding := fun hc => absurd (hm.symm.trans (condWait_holds hc)) Bool.false_ne_true
      signalled := fun _ => h.signalled (Or.inl hw) }

/-- **MAIN**: the store of SCHED_RUNNING is the one step that needs the
    condition. -/
theorem stopInv_main (h : StopInv s) (hg : StartsFirst s (.main .next))
    (hs : mainNext s = some s') : StopInv s' := by
  obtain ⟨hm, rfl⟩ | ⟨hlock, rfl⟩ | ⟨hm, -, rfl⟩ | ⟨hm, hst, rfl⟩ | ⟨hm, rfl⟩ |
    ⟨hst, hw, hfree, hlock⟩ := mainNext_cases hs
  · have hpast : ¬ s.waker.past = true := fun hp => hg rfl hm (h.stopped.mp hp)
    exact {
      main_holds := fun hh => nomatch hh
      waker_holds := h.waker_holds
      stopped := iff_of_false hpast fun hst => nomatch hst
      deciding := fun hc => nomatch hc
      signalled := fun _ hc => nomatch hc }
  · have hwk := (h.lock_none hlock).2
    exact {
      main_holds := fun _ => rfl
      waker_holds := fun hh => absurd (hwk.symm.trans hh) Bool.false_ne_true
      stopped := h.stopped
      deciding := fun hc => nomatch hc
      signalled := fun _ hc => nomatch hc }
  · exact {
      main_holds := fun _ => h.main_holds (by rw [hm]; rfl)
      waker_holds := h.waker_holds
      stopped := h.stopped
      deciding := fun hc => nomatch hc
      signalled := fun _ hc => nomatch hc }
  · -- `status` was SCHED_RUNNING and the lock keeps the waker out
    have hmh : s.main.holds = true := by rw [hm]; rfl
    have hbefore : s.waker = .before := by
      have hnot : ¬ s.waker.past = true := by
        rw [h.stopped, hst]
        exact fun he => nomatch he
      have hexcl := h.excl hmh
      cases hw : s.waker with
      | before => rfl
      | locked =>
          rw [hw] at hexcl
          cases hexcl
      | stored | signalled | done =>
          rw [hw] at hnot
          exact absurd rfl hnot
    exact {
      main_holds := fun _ => h.main_holds hmh
      waker_holds := h.waker_holds
      stopped := h.stopped
      deciding := fun _ => hbefore
      signalled := fun _ hc => nomatch hc }
  · have hbefore := h.deciding hm
    exact {
      main_holds := fun hh => nomatch hh
      waker_holds := fun hh => by
        rw [hbefore] at hh
        cases hh
      stopped := h.stopped
      deciding := fun hc => nomatch hc
      signalled := fun hd => by
        rw [hbefore] at hd
        rcases hd with hd | hd
        · cases hd
        · cases hd }
  · exact {
      main_holds := fun hh => absurd ((MainPc.free_holds hfree).symm.trans hh) Bool.false_ne_true
      waker_holds := by
        rw [hw]
        intro hh
        rcases hlock with hlock | ⟨hmh, -⟩
        · rw [hlock]
          exact h.waker_holds hh
        · exact absurd ((h.excl hmh).symm.trans hh) Bool.false_ne_true
      stopped := by rw [hw, hst, h.stopped]
      deciding := fun hc => absurd hc (MainPc.free_ne hfree).2
      signalled := fun _ => (MainPc.free_ne hfree).1 }

theorem stopInv_step (h : StopInv s) (hg : StartsFirst s act) (hs : step s act = some s') :
    StopInv s' := by
  obtain ⟨rfl, hs⟩ | ⟨rfl, hs⟩ | ⟨-, hst, hw, hlock, hm⟩ := step_cases hs
  · exact stopInv_main h hg hs
  · exact stopInv_wakeup h hs
  · have hholds : s'.main.holds = true → s'.main = s.main := fun hh =>
      hm.resolve_right fun hfree =>
        absurd ((MainPc.free_holds hfree).symm.trans hh) Bool.false_ne_true
    exact {
      main_holds := fun hh => by
        rw [hlock]
        exact h.main_holds (hholds hh ▸ hh)
      waker_holds := by
        rw [hw, hlock]
        exact h.waker_holds
      stopped := by rw [hw, hst, h.stopped]
      deciding := fun hc => by
        rw [hw]
        exact h.deciding (hholds (condWait_holds hc) ▸ hc)
      signalled := by
        rw [hw]
        intro hd
        rcases hm with hm | hfree
        · rw [hm]
          exact h.signalled hd
        · exact (MainPc.free_ne hfree).1 }

end Steps

theorem StopInv.kept {s : State} (h : StopInv s) : StopKept s := fun hd =>
  ⟨h.stopped.mp (by rw [hd]; rfl), fun hw => h.signalled (Or.inr hd) hw.1⟩

-- ── A lost request ───────────────────────────────────────────────────────────

/-- The stop request was made and is lost. -/
structure Lost (s : State) : Prop where
  past : s.waker.past = true
  status : s.status = .running
  started : s.main ≠ .entry

/-- Nothing brings a lost request back. -/
theorem lost_step {s s' : State} {act : Act} (h : Lost s) (hs : step s act = some s') :
    Lost s' := by
  have hpast := h.past
  obtain ⟨rfl, hs⟩ | ⟨rfl, hs⟩ | ⟨-, hst, hw, -, hm⟩ := step_cases hs
  · obtain ⟨hm, rfl⟩ | ⟨hlock, rfl⟩ | ⟨hm, -, rfl⟩ | ⟨hm, hst, rfl⟩ | ⟨hm, rfl⟩ |
      ⟨hst, hw, hfree, hlock⟩ := mainNext_cases hs
    · exact absurd hm h.started
    · exact ⟨h.past, h.status, fun hm => nomatch hm⟩
    · exact ⟨h.past, h.status, fun hm => nomatch hm⟩
    · exact ⟨h.past, h.status, fun hm => nomatch hm⟩
    · exact ⟨h.past, h.status, fun hm => nomatch hm⟩
    · refine ⟨by rw [hw]; exact h.past, hst.trans h.status, ?_⟩
      intro he
      rw [he] at hfree
      cases hfree
  · obtain ⟨hw, -, -⟩ | ⟨hw, -⟩ | ⟨hw, rfl⟩ | ⟨hw, rfl⟩ := schedWakeup_cases hs
    · rw [hw] at hpast
      cases hpast
    · rw [hw] at hpast
      cases hpast
    · obtain ⟨-, hsig⟩ | hsig := condSignal_cases s
      · rw [hsig]
        exact ⟨rfl, h.status, h.started⟩
      · rw [hsig]
        exact ⟨rfl, h.status, fun hm => nomatch hm⟩
    · exact ⟨rfl, h.status, h.started⟩
  · refine ⟨by rw [hw]; exact h.past, hst.trans h.status, ?_⟩
    rcases hm with hm | hfree
    · rw [hm]
      exact h.started
    · intro he
      rw [he] at hfree
      cases hfree

/-- **STOP REQUESTS ARE KEPT** in every run in which `sched_run_entry` stores
    SCHED_RUNNING before the request, and are lost in every other one. -/
theorem stop_kept :
    ∀ s, Reach (fun s => s = schedCreate) (guarded StartsFirst (fires step)) s →
      StopKept s ∧ ∀ act s', step s act = some s' → ¬ StartsFirst s act →
        ∀ t, Reach (fun t => t = s') (fires step) t → t.waker = .done → ¬ StopKept t := by
  intro s hr
  have h : StopInv s := by
    refine Reach.guarded_invariant (I := StopInv) ?_ ?_ s hr
    · rintro s rfl
      exact stopInv_create
    · exact fun s act s' _ hI hg hs => stopInv_step hI hg hs
  refine ⟨h.kept, ?_⟩
  intro act s' hs hlate t ht hdone hkept
  simp only [StartsFirst, Classical.not_imp, not_not] at hlate
  obtain ⟨rfl, hm, hst⟩ := hlate
  have hs' : s' = { s with status := .running, main := .test } := by
    have hn : mainNext s = some s' := hs
    simp only [mainNext, hm, Option.some.injEq] at hn
    exact hn.symm
  have hlost : Lost t := by
    refine Reach.invariant (I := Lost) ?_ ?_ t ht
    · rintro t rfl
      rw [hs']
      exact ⟨h.stopped.mpr hst, rfl, fun hm => nomatch hm⟩
    · exact fun t act t' _ hI hs => lost_step hI hs
  have hstopped := (hkept hdone).1
  rw [hlost.status] at hstopped
  cases hstopped

/-- One coroutine is submitted and run, then the scheduler is stopped. -/
theorem stop_kept_one : ∃ s, StopKept s ∧ s.waker = .done ∧ s.main = .returned := by
  have hinit : Reach (fun s => s = schedCreate)
      (fires (checked (fun s act => decide (StartsFirst s act)) step)) schedCreate :=
    Reach.start rfl
  obtain ⟨s, hs, htest⟩ := Reach.exists_of_runList
    [.main .next, .main .next, .main .next, .main .next, .main .next, .main .next, .submit 1,
      .main .next, .main .next, .main .next, .main .finish, .main .next, .main .next, .main .next,
      .main .next, .main .next, .wakeup, .wakeup, .wakeup, .wakeup, .main .next, .main .next,
      .main .next]
    (fun (s : State) => decide (s.waker = .done ∧ s.main = .returned)) hinit (by decide +kernel)
  have hr := Reach.guarded_of_checked (fun s act h => of_decide_eq_true h) s hs
  exact ⟨s, (stop_kept s hr).1, of_decide_eq_true htest⟩

/-- The request is made before the scheduler thread starts: it starts, finds no
    coroutine and waits for a signal that has been given. -/
theorem stop_lost : ¬ ∀ s, Reach (fun s => s = schedCreate) (fires step) s → StopKept s := by
  intro hall
  have hinit : Reach (fun s => s = schedCreate) (fires step) schedCreate := Reach.start rfl
  obtain ⟨s, hs, htest⟩ := Reach.exists_of_runList
    [.wakeup, .wakeup, .wakeup, .wakeup, .main .next, .main .next, .main .next, .main .next,
      .main .next, .main .next]
    (fun (s : State) => decide (s.waker = .done ∧ s.main = .waiting ∧ s.coNums = 0)) hinit
    (by decide +kernel)
  obtain ⟨hdone, hw, hn⟩ := of_decide_eq_true htest
  exact (hall s hs hdone).2 ⟨hw, hn⟩

end SchedStop
