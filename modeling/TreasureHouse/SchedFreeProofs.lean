import TreasureHouse.SchedStopProofs

/-! # `sched_exit` and the end of `sched_wakeup`

    `sched_wakeup` stores SCHED_STOPPED, signals and unlocks; the scheduler
    thread reads `status` at the head of `main_loop` without the lock, and when
    it leaves the loop `sched_exit` frees the scheduler.  So the thread may free
    the structure whose lock the waker holds.

    `wakeup_frees_iff` says where the thread has to be for that when
    SCHED_STOPPED is stored: at the head of the loop or in the event loop.
    Everywhere else it needs the lock before it gets back to the head. -/

namespace SchedFree

open LabelledRun SchedStop
open CoSched (SchedStatus)

/-- A scheduler, and whether `sched_exit` has freed it. -/
structure State where
  sched : SchedStop.State
  freed : Bool

/-- A step of one of the threads, or `sched_exit`. -/
inductive Act where
  | thread (act : SchedStop.Act)
  | exit

/-- A step on a scheduler that is freed has no result. -/
def step (s : State) : Act → Option State
  | .thread act =>
      if s.freed then none
      else (SchedStop.step s.sched act).map fun sched => { s with sched := sched }
  | .exit =>
      if s.sched.main = .returned ∧ s.freed = false then some { s with freed := true } else none

/-- The scheduler is gone, and `sched_wakeup` has yet to signal or to unlock. -/
def UseAfterFree (s : State) : Prop := s.freed = true ∧ s.sched.waker.holds = true

-- ── Before the request ───────────────────────────────────────────────────────

section Before

variable {s s' : SchedStop.State} {act : SchedStop.Act}

/-- A request that is made stays made. -/
theorem past_step (hpast : s.waker.past = true) (hs : SchedStop.step s act = some s') :
    s'.waker.past = true := by
  obtain ⟨-, hs⟩ | ⟨-, hs⟩ | ⟨-, -, hw, -, -⟩ := step_cases hs
  · obtain ⟨-, rfl⟩ | ⟨-, rfl⟩ | ⟨-, -, rfl⟩ | ⟨-, -, rfl⟩ | ⟨-, rfl⟩ | ⟨-, hw, -, -⟩ :=
      mainNext_cases hs
    · exact hpast
    · exact hpast
    · exact hpast
    · exact hpast
    · exact hpast
    · rw [hw]
      exact hpast
  · obtain ⟨hw, -, -⟩ | ⟨hw, -⟩ | ⟨-, rfl⟩ | ⟨-, rfl⟩ := schedWakeup_cases hs
    · rw [hw] at hpast
      cases hpast
    · rw [hw] at hpast
      cases hpast
    · rfl
    · rfl
  · rw [hw]
    exact hpast

/-- A thread that has started runs. -/
structure Running (s : SchedStop.State) : Prop where
  status : s.main ≠ .entry → s.status = .running
  not_returned : s.main ≠ .returned

theorem Running.mainNext (h : Running s) (hs : mainNext s = some s') : Running s' := by
  cases hm : s.main with
  | entry =>
      simp only [SchedStop.mainNext, hm, Option.some.injEq] at hs
      subst hs
      exact ⟨fun _ => rfl, by simp⟩
  | returned => exact absurd hm h.not_returned
  | waiting | inCo co =>
      simp only [SchedStop.mainNext, hm] at hs
      cases hs
  | test =>
      have hst := h.status (by simp [hm])
      simp only [SchedStop.mainNext, hm, if_pos hst, Option.some.injEq] at hs
      subst hs
      exact ⟨fun _ => hst, by simp⟩
  | checkStatus =>
      have hst := h.status (by simp [hm])
      simp only [SchedStop.mainNext, hm, if_neg (not_not.mpr hst), Option.some.injEq] at hs
      subst hs
      exact ⟨fun _ => hst, by simp⟩
  | locking | woken =>
      have hst := h.status (by simp [hm])
      simp only [SchedStop.mainNext, hm] at hs
      obtain ⟨-, rfl⟩ := lockObj_cases hs
      exact ⟨fun _ => hst, by simp⟩
  | checkNums =>
      have hst := h.status (by simp [hm])
      simp only [SchedStop.mainNext, hm] at hs
      split at hs
      · cases hs
        exact ⟨fun _ => hst, by simp⟩
      · cases hs
        exact ⟨fun _ => hst, by simp⟩
  | condWait | idle =>
      have hst := h.status (by simp [hm])
      simp only [SchedStop.mainNext, hm, Option.some.injEq] at hs
      subst hs
      exact ⟨fun _ => hst, by simp⟩
  | picking =>
      have hst := h.status (by simp [hm])
      simp only [SchedStop.mainNext, hm] at hs
      split at hs
      · obtain ⟨-, rfl⟩ := locked_cases hs
        exact ⟨fun _ => hst, by simp⟩
      · obtain ⟨-, rfl⟩ := locked_cases hs
        exact ⟨fun _ => hst, by simp⟩

/-- A signal leaves a thread that runs running. -/
theorem Running.condSignal (h : Running s) : Running (condSignal s) := by
  rw [SchedStop.condSignal]
  by_cases hw : s.main = .waiting
  · rw [if_pos hw]
    exact ⟨fun _ => h.status (by simp [hw]), by simp⟩
  · rw [if_neg hw]
    exact h

/-- No other step lets the thread leave the loop, or changes `status` but for
    the request. -/
theorem Running.step (h : Running s) (hs : SchedStop.step s act = some s') :
    s'.waker.past = true ∨ Running s' := by
  have keep : ∀ t : SchedStop.State, t.status = s.status → s.main ≠ .entry →
      t.main ≠ .returned → Running t :=
    fun t ht hne hret => ⟨fun _ => ht.trans (h.status hne), hret⟩
  cases act with
  | main act =>
      cases act with
      | next => exact Or.inr (h.mainNext hs)
      | resume co =>
          rw [SchedStop.step, Option.ite_none_right_eq_some] at hs
          obtain ⟨-, hs⟩ := hs
          cases hs
          exact Or.inr ⟨h.status, h.not_returned⟩
      | yield | sleep | finish =>
          obtain ⟨co, hm, -, rfl⟩ := leave_cases hs
          refine Or.inr (keep _ rfl ?_ (by simp))
          simp [hm]
  | spurious =>
      rw [SchedStop.step, Option.ite_none_right_eq_some] at hs
      obtain ⟨hm, hs⟩ := hs
      cases hs
      refine Or.inr (keep _ rfl ?_ (by simp))
      simp [hm]
  | submit co =>
      obtain ⟨-, rfl⟩ := locked_cases hs
      by_cases hn : s.coNums = 0
      · rw [if_pos hn]
        exact Or.inr ⟨h.condSignal.status, h.condSignal.not_returned⟩
      · rw [if_neg hn]
        exact Or.inr ⟨h.status, h.not_returned⟩
  | wakeup =>
      obtain ⟨-, -, rfl⟩ | ⟨-, rfl⟩ | ⟨-, rfl⟩ | ⟨-, rfl⟩ := schedWakeup_cases hs
      · exact Or.inr ⟨h.status, h.not_returned⟩
      · exact Or.inl rfl
      · exact Or.inl rfl
      · exact Or.inl rfl

/-- Until the request every run starts first, so the lock excludes. -/
theorem inv_before : ∀ s, Reach (fun s => s = schedCreate) (fires SchedStop.step) s →
    s.waker.past = true ∨ StopInv s ∧ Running s := by
  refine Reach.invariant ?_ ?_
  · rintro s rfl
    exact Or.inr ⟨stopInv_create, fun he => absurd rfl he, by simp [schedCreate]⟩
  · intro s act s' _ h hs
    by_cases hpast : s.waker.past = true
    · exact Or.inl (past_step hpast hs)
    · obtain ⟨hinv, hrun⟩ := h.resolve_left hpast
      have hfirst : StartsFirst s act := fun _ _ hst => hpast (hinv.stopped.mpr hst)
      exact (hrun.step hs).imp_right fun hrun' => ⟨stopInv_step hinv hfirst hs, hrun'⟩

end Before

-- ── While the waker holds the lock ───────────────────────────────────────────

/-- The thread is where it needs the lock before it can leave `main_loop`, and
    the waker has it. -/
structure Blocked (s : SchedStop.State) : Prop where
  lock : s.lock = some .waker
  past : s.waker.past = true
  main : s.main.holds = false
  not_idle : s.main ≠ .idle
  not_returned : s.main ≠ .returned
  test : s.main = .test → s.status = .running

/-- The scheduler is not freed while the waker needs it. -/
structure FreeInv (s : State) : Prop where
  past : s.sched.waker.past = true
  blocked : s.sched.waker.holds = true → Blocked s.sched ∧ s.freed = false

section Steps

variable {s s' : SchedStop.State} {act : SchedStop.Act}

/-- The thread can start and take the first test, and needs the lock for all
    else. -/
theorem Blocked.mainNext (h : Blocked s) (hs : mainNext s = some s') : Blocked s' := by
  have hlock : s.lock ≠ none := by
    simp [h.lock]
  cases hm : s.main with
  | entry =>
      simp only [SchedStop.mainNext, hm, Option.some.injEq] at hs
      subst hs
      exact { h with
        main := rfl
        not_idle := by simp
        not_returned := by simp
        test := fun _ => rfl }
  | test =>
      simp only [SchedStop.mainNext, hm, if_pos (h.test hm), Option.some.injEq] at hs
      subst hs
      exact { h with
        main := rfl
        not_idle := by simp
        not_returned := by simp
        test := by simp }
  | locking | woken =>
      simp only [SchedStop.mainNext, hm] at hs
      exact absurd (lockObj_cases hs).1 hlock
  | checkNums | checkStatus | condWait =>
      have hmain := h.main
      rw [hm] at hmain
      cases hmain
  | picking =>
      simp only [SchedStop.mainNext, hm] at hs
      split at hs
      · exact absurd (locked_cases hs).1 hlock
      · exact absurd (locked_cases hs).1 hlock
  | idle => exact absurd hm h.not_idle
  | waiting | inCo co | returned =>
      simp only [SchedStop.mainNext, hm] at hs
      cases hs

/-- A thread that is woken needs the lock. -/
theorem Blocked.wake (h : Blocked s) : Blocked { s with main := .woken } :=
  { h with
    main := rfl
    not_idle := by simp
    not_returned := by simp
    test := by simp }

theorem Blocked.condSignal (h : Blocked s) : Blocked (condSignal s) := by
  obtain ⟨-, hsig⟩ | hsig := condSignal_cases s
  · rw [hsig]
    exact h
  · rw [hsig]
    exact h.wake

/-- **STEP LEMMA**: nobody gets the thread past the lock before the waker
    unlocks. -/
theorem Blocked.step (h : Blocked s) (hs : SchedStop.step s act = some s') :
    s'.waker.holds = true → Blocked s' := by
  have hlock : s.lock ≠ none := by
    simp [h.lock]
  cases act with
  | main act =>
      cases act with
      | next => exact fun _ => h.mainNext hs
      | resume co =>
          rw [SchedStop.step, Option.ite_none_right_eq_some] at hs
          exact absurd hs.1.1 h.not_idle
      | yield | sleep | finish =>
          obtain ⟨co, -, hnone, -⟩ := leave_cases hs
          exact absurd hnone hlock
  | spurious =>
      rw [SchedStop.step, Option.ite_none_right_eq_some] at hs
      obtain ⟨-, hs⟩ := hs
      cases hs
      exact fun _ => h.wake
  | submit co => exact absurd (locked_cases hs).1 hlock
  | wakeup =>
      have hpast := h.past
      obtain ⟨-, hnone, -⟩ | ⟨hw, -⟩ | ⟨-, rfl⟩ | ⟨-, rfl⟩ := schedWakeup_cases hs
      · exact absurd hnone hlock
      · rw [hw] at hpast
        cases hpast
      · exact fun _ => { h.condSignal with past := rfl }
      · exact fun hw => absurd hw Bool.false_ne_true

theorem freeInv_step {t t' : State} {act : Act} (h : FreeInv t) (hs : step t act = some t') :
    FreeInv t' := by
  cases act with
  | thread act =>
      rw [step, Option.ite_none_left_eq_some] at hs
      obtain ⟨hfreed, hs⟩ := hs
      obtain ⟨sched, hsched, rfl⟩ := Option.map_eq_some_iff.mp hs
      refine ⟨past_step h.past hsched, ?_⟩
      intro hw
      have hbefore : t.sched.waker.holds = true := by
        -- the waker that holds the lock now held it before
        obtain ⟨-, hm⟩ | ⟨-, hk⟩ | ⟨-, -, hk, -, -⟩ := step_cases hsched
        · obtain ⟨-, rfl⟩ | ⟨-, rfl⟩ | ⟨-, -, rfl⟩ | ⟨-, -, rfl⟩ | ⟨-, rfl⟩ | ⟨-, hk, -, -⟩ :=
            mainNext_cases hm
          · exact hw
          · exact hw
          · exact hw
          · exact hw
          · exact hw
          · exact hk ▸ hw
        · have hpast := h.past
          obtain ⟨hk, -, -⟩ | ⟨hk, -⟩ | ⟨hk, -⟩ | ⟨hk, -⟩ := schedWakeup_cases hk
          · rw [hk] at hpast
            cases hpast
          · rw [hk]
            rfl
          · rw [hk]
            rfl
          · rw [hk]
            rfl
        · exact hk ▸ hw
      exact ⟨(h.blocked hbefore).1.step hsched hw, Bool.not_eq_true _ ▸ hfreed⟩
  | exit =>
      rw [step, Option.ite_none_right_eq_some] at hs
      obtain ⟨⟨hret, -⟩, hs⟩ := hs
      cases hs
      exact ⟨h.past, fun hw => absurd hret (h.blocked hw).1.not_returned⟩

end Steps

-- ── Freed too early ──────────────────────────────────────────────────────────

section Early

variable {s s' : SchedStop.State}

/-- From the head of the loop the thread frees the scheduler at once. -/
theorem frees_of_test (hm : s.main = .test) (hst : s.status = .stopped)
    (hw : s.waker.holds = true) :
    ∃ t, Reach (fun t => t = ⟨s, false⟩) (fires step) t ∧ UseAfterFree t := by
  have hback : mainNext s = some { s with main := .returned } := by
    simp only [mainNext, hm, hst]
    rfl
  have hout : step ⟨s, false⟩ (.thread (.main .next))
      = some ⟨{ s with main := .returned }, false⟩ := by
    rw [step, if_neg Bool.false_ne_true, SchedStop.step, hback]
    rfl
  have hexit : step ⟨{ s with main := .returned }, false⟩ .exit
      = some ⟨{ s with main := .returned }, true⟩ := by
    rw [step, if_pos ⟨rfl, rfl⟩]
  have hstart : Reach (fun t => t = ⟨s, false⟩) (fires step) ⟨s, false⟩ := Reach.start rfl
  exact ⟨_, (hstart.next hout).next hexit, rfl, hw⟩

/-- From the event loop it comes back to the head first. -/
theorem frees_of_idle (hm : s.main = .idle) (hst : s.status = .stopped)
    (hw : s.waker.holds = true) :
    ∃ t, Reach (fun t => t = ⟨s, false⟩) (fires step) t ∧ UseAfterFree t := by
  have hnext : step ⟨s, false⟩ (.thread (.main .next))
      = some ⟨{ s with main := .test }, false⟩ := by
    rw [step, if_neg Bool.false_ne_true, SchedStop.step]
    simp only [mainNext, hm, Option.map_some]
  have hstart : Reach (fun t => t = ⟨s, false⟩) (fires step) ⟨s, false⟩ := Reach.start rfl
  obtain ⟨t, ht, huse⟩ := frees_of_test (s := { s with main := .test }) rfl hst hw
  exact ⟨t, Reach.after (hstart.next hnext) ht, huse⟩

/-- **FREED TOO EARLY**: a scheduler whose stop request is stored now can be
    freed before `sched_wakeup` has signalled and unlocked exactly when its
    thread is at the head of `main_loop` or in the event loop. -/
theorem wakeup_frees_iff (hr : Reach (fun s => s = schedCreate) (fires SchedStop.step) s)
    (hw : s.waker = .locked) (hs : SchedStop.step s .wakeup = some s') :
    (∃ t, Reach (fun t => t = ⟨s', false⟩) (fires step) t ∧ UseAfterFree t)
      ↔ s.main = .test ∨ s.main = .idle := by
  obtain ⟨hinv, hrun⟩ : StopInv s ∧ Running s := by
    refine (inv_before s hr).resolve_left ?_
    rw [hw]
    exact Bool.false_ne_true
  have hs' : s' = { s with status := .stopped, waker := .stored } := by
    rw [SchedStop.step, schedWakeup, hw] at hs
    exact (Option.some.inj hs).symm
  subst hs'
  constructor
  · rintro ⟨t, ht, hfreed, hholds⟩
    by_contra hmain
    rw [not_or] at hmain
    have hlock := hinv.waker_holds (by rw [hw]; rfl)
    have hblocked : Blocked { s with status := .stopped, waker := .stored } := by
      exact {
        lock := hlock
        past := rfl
        main := hinv.not_holds (by rw [hw]; rfl)
        not_idle := hmain.2
        not_returned := hrun.not_returned
        test := fun he => absurd he hmain.1 }
    have hall : FreeInv t := by
      refine Reach.invariant (I := FreeInv) ?_ ?_ t ht
      · rintro t rfl
        exact ⟨rfl, fun _ => ⟨hblocked, rfl⟩⟩
      · exact fun t act t' _ h hstep => freeInv_step h hstep
    have hkept := (hall.blocked hholds).2
    rw [hfreed] at hkept
    cases hkept
  · rintro (hm | hm)
    · exact frees_of_test hm rfl rfl
    · exact frees_of_idle hm rfl rfl

end Early

/-- The last coroutine finishes and its thread is back at the head of the loop
    when the scheduler is stopped. -/
theorem wakeup_frees_after_last : ∃ (s s' : SchedStop.State) (t : State), s.coNums = 0
    ∧ SchedStop.step s .wakeup = some s' ∧ Reach (fun t => t = ⟨s', false⟩) (fires step) t
    ∧ UseAfterFree t := by
  have hinit : Reach (fun s => s = schedCreate) (fires SchedStop.step) schedCreate :=
    Reach.start rfl
  obtain ⟨s, hs, htest⟩ := Reach.exists_of_runList
    [.main .next, .main .next, .main .next, .main .next, .main .next, .main .next, .submit 1,
      .main .next, .main .next, .main .next, .main .finish, .wakeup]
    (fun (s : SchedStop.State) => decide (s.coNums = 0 ∧ s.waker = .locked ∧ s.main = .test)) hinit
    (by decide +kernel)
  obtain ⟨hnums, hw, hm⟩ := of_decide_eq_true htest
  have hstore : SchedStop.step s .wakeup
      = some { s with status := .stopped, waker := .stored } := by
    rw [SchedStop.step, schedWakeup, hw]
  obtain ⟨t, ht, huse⟩ := (wakeup_frees_iff hs hw hstore).mpr (Or.inl hm)
  exact ⟨s, _, t, hnums, hstore, ht, huse⟩

end SchedFree
