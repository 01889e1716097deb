import TreasureHouse.SchedProofs

/-! # The two sleeping places of a scheduler — `main_loop` beside `sched_sched`

    The scheduler thread goes through `main_loop` one statement at a time, with
    a section under `sched->lock` and a round of `process_expired_timers` as
    one statement each; between any two of them other threads may submit and
    resume coroutines.  The data, and what coroutines and other threads do to
    it, are those of `CoSched`.

    The thread sleeps in `pthread_cond_wait` and in `epoll_pwait`.  Nothing is
    ever registered with the epoll instance, so the latter ends with its
    timeout or with a signal handler, and never because of `sched_sched`:
    `sched_sched` signals the condition variable only.  There it is never
    missed (`cond_wait_reached`); in the event loop it always is
    (`submitted_not_stranded`).

    `appended` lists what `sched_sched` appended since the last wait began: no
    step reads it. -/

namespace SchedWait

open MachineInt LabelledRun HeapC CoSched

/-- Where the scheduler thread is: at the test of the outer loop, in need of the
    lock for the inner loop, in `pthread_cond_wait`, at `pick_one_co`, at
    `schedule`, in a coroutine, in the first `process_expired_timers`, at the
    call of `event_loop_run`, in `epoll_pwait`, in the second
    `process_expired_timers`, or back from `main_loop`. -/
inductive MainPc where
  | test
  | locking
  | waiting
  | picking
  | scheduling (co : Nat)
  | inCo
  | expiring
  | calling (delay : Int)
  | polling (timeout : Int)
  | expiringAgain
  | returned
  deriving DecidableEq

structure State where
  sched : Sched
  main : MainPc
  appended : List Nat

/-- `sched_run_entry` has begun. -/
def runEntry : State where
  sched := schedCreate
  main := .test
  appended := []

/-- A round of the loop of `process_expired_timers`: the time it returns, or
    none if it goes on. -/
def expiredRound (clk : Nat → Int) (sched : Sched) : Option (Option Int × Sched) := do
  match ← heapTop sched.coTimerHeap with
  | none => some (some 0, sched)
  | some timer =>
      let timeNow := clk sched.tick
      let sched := { sched with tick := sched.tick + 1 }
      if timer.when > timeNow then
        some (some (timer.when - timeNow), sched)
      else do
        let popped ← heapPop sched.coTimerHeap
        let sched ← schedCoResume { sched with coTimerHeap := popped.2 } timer.args
        some (none, sched)

/-- The next statement of `main_loop`.  `event_loop_run` narrows the time to
    `int`, and `epoll_pwait` returns at once for 0. -/
def mainNext (clk : Nat → Int) (s : State) : Option State :=
  match s.main with
  | .test => some { s with main := if s.sched.status = .running then .locking else .returned }
  | .locking =>
      if s.sched.coNums = 0 then
        if s.sched.status ≠ .running then some { s with main := .returned }
        else some { s with main := .waiting, appended := [] }
      else some { s with main := .picking }
  | .waiting => none
  | .picking =>
      match s.sched.coReadyQueue with
      | [] => some { s with sched := { s.sched with coCurr := none }, main := .expiring }
      | co :: queue =>
          some { s with
            sched := { s.sched with coReadyQueue := queue, coCurr := some co }
            main := .scheduling co }
  | .scheduling co =>
      (schedule s.sched co).map fun sched => { s with sched := sched, main := .inCo }
  | .inCo => none
  | .expiring =>
      (expiredRound clk s.sched).map fun r =>
        { s with sched := r.2, main := (r.1.map MainPc.calling).getD .expiring }
  | .calling delay =>
      some { s with
        sched := eventLoopRun s.sched delay
        main := .polling (toSigned 32 delay)
        appended := [] }
  | .polling timeout => if timeout = 0 then some { s with main := .expiringAgain } else none
  | .expiringAgain =>
      (expiredRound clk s.sched).map fun r =>
        { s with sched := r.2, main := (r.1.map fun _ => MainPc.test).getD .expiringAgain }
  | .returned => none

/-- `pthread_cond_signal(&sched->cond)`: nobody else waits. -/
def condSignal (main : MainPc) : MainPc := if main = .waiting then .locking else main

/-- A coroutine that leaves goes back to the outer loop. -/
def leaveCo (main : MainPc) (sched : Sched) : MainPc :=
  if main = .inCo ∧ sched.inCo = false then .test else main

/-- The steps: the next statement of the scheduler thread, a step of the running
    coroutine or of another thread, a spurious wake-up, the timeout of
    `epoll_pwait`, and a signal handler that interrupts it. -/
inductive Act where
  | next
  | other (e : Event)
  | spurious
  | elapse
  | interrupt

/-- A step of the running coroutine or of another thread. -/
def other (clk : Nat → Int) (s : State) : Event → Option State
  | .iterate => none
  | .submit co =>
      (CoSched.step clk s.sched (.submit co)).map fun sched =>
        { sched := sched
          main := if s.sched.coNums = 0 then condSignal s.main else s.main
          appended := s.appended ++ [co] }
  | .wakeup =>
      (CoSched.step clk s.sched .wakeup).map fun sched =>
        { s with sched := sched, main := condSignal s.main }
  | e =>
      (CoSched.step clk s.sched e).map fun sched =>
        { s with sched := sched, main := leaveCo s.main sched }

def step (clk : Nat → Int) (s : State) : Act → Option State
  | .next => mainNext clk s
  | .other e => other clk s e
  | .spurious => if s.main = .waiting then some { s with main := .locking } else none
  | .elapse =>
      match s.main with
      | .polling timeout => if 0 < timeout then some { s with main := .expiringAgain } else none
      | _ => none
  | .interrupt =>
      match s.main with
      | .polling _ => some { s with main := .expiringAgain }
      | _ => none

/-- Blocked in `event_loop_run` with a non-zero timeout. -/
def MainPc.blocked : MainPc → Bool
  | .polling timeout => decide (timeout ≠ 0)
  | _ => false

/-- The scheduler thread is blocked there beside a ready coroutine that
    `sched_sched` appended since. -/
def Stranded (s : State) : Prop :=
  s.main.blocked = true ∧ ∃ co ∈ s.appended, co ∈ s.sched.coReadyQueue

/-- The step is a `sched_sched`. -/
def isSubmit : Act → Bool
  | .other (.submit _) => true
  | _ => false

/-- `sched_sched` finds the scheduler thread anywhere but there. -/
def FindsAwake (s : State) (act : Act) : Prop := isSubmit act = true → s.main.blocked = false

instance (s : State) (act : Act) : Decidable (FindsAwake s act) :=
  inferInstanceAs (Decidable (_ → _))

/-- The states of all interleavings. -/
def Reachable (clk : Nat → Int) (s : State) : Prop :=
  Reach (fun s => s = runEntry) (fires (step clk)) s

-- ── Rounds of `process_expired_timers` ───────────────────────────────────────

section Cases

variable {clk : Nat → Int} {s s' : State}

/-- The loop of `process_expired_timers` is made of these rounds. -/
theorem processExpiredLoop_succ_eq (clk : Nat → Int) (k : Nat) (sched : Sched) :
    processExpiredLoop clk (k + 1) sched
      = (expiredRound clk sched).bind fun r =>
          match r.1 with
          | some d => some (d, r.2)
          | none => processExpiredLoop clk k r.2 := by
  rw [processExpiredLoop, expiredRound]
  cases htop : heapTop sched.coTimerHeap with
  | none => rfl
  | some top =>
      cases top with
      | none => rfl
      | some timer =>
          by_cases hlate : timer.when > clk sched.tick
          · simp only [Option.bind_eq_bind, Option.bind_some, if_pos hlate]
          · simp only [Option.bind_eq_bind, Option.bind_some, if_neg hlate, Option.bind_assoc]

/-- A round resumes nobody, or the coroutine of a timer that is due. -/
theorem expiredRound_cases {sched : Sched} {r : Option Int × Sched}
    (h : expiredRound clk sched = some r) :
    (∃ d tick, r = (some d, { sched with tick := tick }))
    ∨ ∃ heap co, r.1 = none ∧ heap.elemNum < sched.coTimerHeap.elemNum
      ∧ schedCoResume { sched with tick := sched.tick + 1, coTimerHeap := heap } co = some r.2 := by
  obtain ⟨top, htop, h⟩ := Option.bind_eq_some_iff.mp h
  cases top with
  | none =>
      cases h
      exact Or.inl ⟨0, sched.tick, rfl⟩
  | some timer =>
      by_cases hlate : timer.when > clk sched.tick
      · simp only [if_pos hlate] at h
        cases h
        exact Or.inl ⟨_, _, rfl⟩
      · simp only [if_neg hlate] at h
        obtain ⟨popped, hpop, h⟩ := Option.bind_eq_some_iff.mp h
        obtain ⟨sched₁, hres, h⟩ := Option.bind_eq_some_iff.mp h
        cases h
        have hnum : popped.2.elemNum = sched.coTimerHeap.elemNum - 1 := heapPop_elemNum hpop
        have hpos : sched.coTimerHeap.elemNum ≠ 0 := by
          intro h0
          rw [heapTop, if_pos h0] at htop
          cases htop
        exact Or.inr ⟨popped.2, timer.args, rfl, by omega, hres⟩

theorem expiredRound_inCo {sched : Sched} {r : Option Int × Sched}
    (h : expiredRound clk sched = some r) : r.2.inCo = sched.inCo := by
  obtain ⟨d, tick, rfl⟩ | ⟨heap, co, -, -, hres⟩ := expiredRound_cases h
  · rfl
  · obtain ⟨c, -, -, hr⟩ := schedCoResume_cases hres
    rw [hr]

-- ── What a step can do ───────────────────────────────────────────────────────

/-- Neither asleep nor in a coroutine. -/
def MainPc.awake : MainPc → Bool
  | .waiting => false
  | .polling _ => false
  | .inCo => false
  | _ => true

/-- Going to sleep in either place, switching to a coroutine, and everything
    else. -/
theorem mainNext_cases (h : mainNext clk s = some s') :
    (s.main = .locking ∧ s.sched.coNums = 0 ∧ s' = { s with main := .waiting, appended := [] })
    ∨ (∃ delay, s.main = .calling delay ∧ s' = { s with
        sched := eventLoopRun s.sched delay
        main := .polling (toSigned 32 delay)
        appended := [] })
    ∨ (∃ co sched, s.main = .scheduling co ∧ schedule s.sched co = some sched
        ∧ s' = { s with sched := sched, main := .inCo })
    ∨ (s.main.blocked = false ∧ s.main ≠ .inCo ∧ s'.main.awake = true
        ∧ s'.appended = s.appended ∧ s'.sched.inCo = s.sched.inCo) := by
  cases hm : s.main with
  | test =>
      simp only [mainNext, hm, Option.some.injEq] at h
      subst h
      refine Or.inr (Or.inr (Or.inr ⟨rfl, MainPc.noConfusion, ?_, rfl, rfl⟩))
      by_cases hst : s.sched.status = .running
      · simp only [if_pos hst, MainPc.awake]
      · simp only [if_neg hst, MainPc.awake]
  | locking =>
      simp only [mainNext, hm] at h
      by_cases hn : s.sched.coNums = 0
      · rw [if_pos hn] at h
        by_cases hst : s.sched.status ≠ .running
        · rw [if_pos hst] at h
          cases h
          exact Or.inr (Or.inr (Or.inr ⟨rfl, MainPc.noConfusion, rfl, rfl, rfl⟩))
        · rw [if_neg hst] at h
          exact Or.inl ⟨rfl, hn, (Option.some.inj h).symm⟩
      · rw [if_neg hn] at h
        cases h
        exact Or.inr (Or.inr (Or.inr ⟨rfl, MainPc.noConfusion, rfl, rfl, rfl⟩))
  | picking =>
      simp only [mainNext, hm] at h
      split at h <;> cases h <;>
        exact Or.inr (Or.inr (Or.inr ⟨rfl, MainPc.noConfusion, rfl, rfl, rfl⟩))
  | scheduling co =>
      simp only [mainNext, hm] at h
      obtain ⟨sched, hsched, rfl⟩ := Option.map_eq_some_iff.mp h
      exact Or.inr (Or.inr (Or.inl ⟨co, sched, rfl, hsched, rfl⟩))
  | expiring | expiringAgain =>
      simp only [mainNext, hm] at h
      obtain ⟨r, hround, rfl⟩ := Option.map_eq_some_iff.mp h
      refine Or.inr (Or.inr (Or.inr ⟨rfl, MainPc.noConfusion, ?_, rfl, expiredRound_inCo hround⟩))
      cases hr : r.1 <;> rfl
  | calling delay =>
      simp only [mainNext, hm, Option.some.injEq] at h
      exact Or.inr (Or.inl ⟨delay, rfl, h.symm⟩)
  | polling timeout =>
      simp only [mainNext, hm] at h
      by_cases ht : timeout = 0
      · rw [if_pos ht] at h
        cases h
        exact Or.inr (Or.inr (Or.inr
          ⟨decide_eq_false (not_not.mpr ht), MainPc.noConfusion, rfl, rfl, rfl⟩))
      · rw [if_neg ht] at h
        cases h
  | waiting | inCo | returned =>
      simp only [mainNext, hm] at h
      cases h

/-- `sched_sched`, `sched_wakeup`, and what leaves the condition variable
    alone. -/
theorem other_cases {e : Event} (h : other clk s e = some s') :
    (∃ co, e = .submit co ∧ s' = {
        sched := schedSched s.sched co
        main := if s.sched.coNums = 0 then condSignal s.main else s.main
        appended := s.appended ++ [co] })
    ∨ (e = .wakeup ∧ s' = { s with
        sched := { s.sched with status := .stopped }
        main := condSignal s.main })
    ∨ (e ≠ .iterate ∧ (∀ co, e ≠ .submit co)
        ∧ ∃ sched, CoSched.step clk s.sched e = some sched
          ∧ s' = { s with sched := sched, main := leaveCo s.main sched }) := by
  cases e with
  | iterate => cases h
  | submit co =>
      obtain ⟨sched, hstep, rfl⟩ := Option.map_eq_some_iff.mp h
      rw [CoSched.step, Option.ite_none_right_eq_some] at hstep
      obtain ⟨-, hstep⟩ := hstep
      cases hstep
      exact Or.inl ⟨co, rfl, rfl⟩
  | wakeup =>
      cases h
      exact Or.inr (Or.inl ⟨rfl, rfl⟩)
  | write stack | yield n | suspend n | delay delayMs n | done | resume co =>
      obtain ⟨sched, hstep, rfl⟩ := Option.map_eq_some_iff.mp h
      exact Or.inr (Or.inr ⟨Event.noConfusion, fun _ => Event.noConfusion, sched, hstep, rfl⟩)

/-- While no coroutine runs, none is done. -/
theorem coStep_idle {sched sched' : Sched} {e : Event} (he : e ≠ .iterate)
    (hsub : ∀ co, e ≠ .submit co) (hidle : sched.inCo = false)
    (h : CoSched.step clk sched e = some sched') :
    sched'.inCo = false ∧ sched'.coNums = sched.coNums := by
  have hrun : ∀ {f : Nat → Option Sched}, running sched f ≠ some sched' := by
    intro f hf
    obtain ⟨cur, hin, -, -⟩ := running_cases hf
    rw [hidle] at hin
    cases hin
  cases e with
  | iterate => exact absurd rfl he
  | write | yield | suspend | delay | done => exact absurd h hrun
  | submit co => exact absurd rfl (hsub co)
  | resume co =>
      obtain ⟨c, -, -, rfl⟩ := schedCoResume_cases h
      exact ⟨hidle, rfl⟩
  | wakeup =>
      cases h
      exact ⟨hidle, rfl⟩

theorem leaveCo_ne {main : MainPc} {sched : Sched} (h : main ≠ .inCo) :
    leaveCo main sched = main := if_neg fun hl => h hl.1

theorem condSignal_ne {main : MainPc} (h : main ≠ .waiting) : condSignal main = main := if_neg h

theorem blocked_ne {main : MainPc} (h : main.blocked = true) :
    main ≠ .inCo ∧ main ≠ .waiting := by
  constructor <;> rintro rfl <;> cases h

/-- The three steps of the environment wake the thread up. -/
theorem wake_cases {act : Act} (h : step clk s act = some s') :
    (act = .next ∧ mainNext clk s = some s')
    ∨ (∃ e, act = .other e ∧ other clk s e = some s')
    ∨ (isSubmit act = false ∧ s.main ≠ .inCo
        ∧ ∃ main, main.awake = true ∧ s' = { s with main := main }
        ∧ (s.main.blocked = true → act = .elapse ∨ act = .interrupt)) := by
  cases act with
  | next => exact Or.inl ⟨rfl, h⟩
  | other e => exact Or.inr (Or.inl ⟨e, rfl, h⟩)
  | spurious =>
      rw [step, Option.ite_none_right_eq_some] at h
      obtain ⟨hw, h⟩ := h
      cases h
      refine Or.inr (Or.inr ⟨rfl, ?_, .locking, rfl, rfl, ?_⟩)
      · rw [hw]
        exact MainPc.noConfusion
      · intro hb
        rw [hw] at hb
        cases hb
  | elapse =>
      rw [step] at h
      split at h
      · rename_i timeout hp
        rw [Option.ite_none_right_eq_some] at h
        obtain ⟨-, h⟩ := h
        cases h
        refine Or.inr (Or.inr ⟨rfl, ?_, .expiringAgain, rfl, rfl, fun _ => Or.inl rfl⟩)
        rw [hp]
        exact MainPc.noConfusion
      · cases h
  | interrupt =>
      rw [step] at h
      split at h
      · rename_i timeout hp
        cases h
        refine Or.inr (Or.inr ⟨rfl, ?_, .expiringAgain, rfl, rfl, fun _ => Or.inr rfl⟩)
        rw [hp]
        exact MainPc.noConfusion
      · cases h

-- ── The condition variable ───────────────────────────────────────────────────

/-- Only a coroutine that runs is on the stack, and a thread asleep on the
    condition variable has no coroutine and missed none. -/
structure CondInv (s : State) : Prop where
  inCo : s.main ≠ .inCo → s.sched.inCo = false
  waiting : s.main = .waiting → s.sched.coNums = 0 ∧ s.appended = []

theorem awake_ne {main : MainPc} (h : main.awake = true) : main ≠ .inCo ∧ main ≠ .waiting := by
  constructor <;> rintro rfl <;> cases h

theorem condSignal_ne_waiting (main : MainPc) : condSignal main ≠ .waiting := by
  rw [condSignal]
  by_cases hw : main = .waiting
  · rw [if_pos hw]
    exact MainPc.noConfusion
  · rw [if_neg hw]
    exact hw

theorem condSignal_inCo {main : MainPc} (h : condSignal main ≠ .inCo) : main ≠ .inCo := by
  rintro rfl
  exact h rfl

theorem condInv_step {act : Act} (h : CondInv s) (hs : step clk s act = some s') : CondInv s' := by
  obtain ⟨-, hs⟩ | ⟨e, -, hs⟩ | ⟨-, hin, main, hawake, rfl, -⟩ := wake_cases hs
  · obtain ⟨hm, hn, rfl⟩ | ⟨delay, hm, rfl⟩ | ⟨co, sched, hm, -, rfl⟩ | ⟨-, hin, hawake, -, hco⟩ :=
      mainNext_cases hs
    · exact ⟨fun _ => h.inCo (by rw [hm]; exact MainPc.noConfusion), fun _ => ⟨hn, rfl⟩⟩
    · exact ⟨fun _ => h.inCo (by rw [hm]; exact MainPc.noConfusion), MainPc.noConfusion⟩
    · exact ⟨fun hne => absurd rfl hne, MainPc.noConfusion⟩
    · exact ⟨fun _ => hco.trans (h.inCo hin), fun hw => absurd hw (awake_ne hawake).2⟩
  · obtain ⟨co, -, rfl⟩ | ⟨-, rfl⟩ | ⟨he, hsub, sched, hstep, rfl⟩ := other_cases hs
    · -- a thread asleep has no coroutine, so it is signalled
      refine ⟨?_, ?_⟩
      · intro hne
        refine h.inCo ?_
        by_cases hn : s.sched.coNums = 0
        · exact condSignal_inCo (by simpa only [if_pos hn] using hne)
        · simpa only [if_neg hn] using hne
      · intro hw
        by_cases hn : s.sched.coNums = 0
        · simp only [if_pos hn] at hw
          exact absurd hw (condSignal_ne_waiting _)
        · simp only [if_neg hn] at hw
          exact absurd (h.waiting hw).1 hn
    · exact ⟨fun hne => h.inCo (condSignal_inCo hne),
        fun hw => absurd hw (condSignal_ne_waiting _)⟩
    · by_cases hm : s.main = .inCo
      · -- the coroutine still runs, or it has left
        refine ⟨?_, ?_⟩
        · intro hne
          refine Bool.eq_false_iff.mpr fun hin => hne ?_
          have hin : sched.inCo = true := hin
          show leaveCo s.main sched = .inCo
          rw [leaveCo, hin, if_neg (fun hl => Bool.noConfusion hl.2), hm]
        · intro hw
          have hw : leaveCo s.main sched = .waiting := hw
          rw [leaveCo, hm] at hw
          split at hw <;> cases hw
      · obtain ⟨hidle, hnums⟩ := coStep_idle he hsub (h.inCo hm) hstep
        refine ⟨fun _ => hidle, ?_⟩
        intro hw
        have hw : leaveCo s.main sched = .waiting := hw
        rw [leaveCo_ne hm] at hw
        exact ⟨hnums.trans (h.waiting hw).1, (h.waiting hw).2⟩
  · exact ⟨fun _ => h.inCo hin, fun hw => absurd hw (awake_ne hawake).2⟩

/-- **The condition variable is never missed**: in every interleaving a
    scheduler thread asleep there has no coroutine, and none was appended since. -/
theorem cond_wait_reached (h : Reachable clk s) (hw : s.main = .waiting) :
    s.sched.coNums = 0 ∧ s.appended = [] := by
  have hinv : CondInv s := by
    refine Reach.invariant (I := CondInv) ?_ ?_ s h
    · rintro s rfl
      exact ⟨fun _ => rfl, MainPc.noConfusion⟩
    · intro s act s' _ hinv hstep
      exact condInv_step hinv hstep
  exact hinv.waiting hw

-- ── The event loop ───────────────────────────────────────────────────────────

/-- Nothing was appended since the thread blocked in `event_loop_run`. -/
def NothingMissed (s : State) : Prop := s.main.blocked = true → s.appended = []

/-- **STEP LEMMA**: only a `sched_sched` that finds the thread blocked is
    missed, and it is. -/
theorem nothingMissed_step {act : Act} (h : NothingMissed s) (hs : step clk s act = some s') :
    (FindsAwake s act → NothingMissed s') ∧ (¬ FindsAwake s act → Stranded s') := by
  have hskip : isSubmit act = false → NothingMissed s' →
      (FindsAwake s act → NothingMissed s') ∧ (¬ FindsAwake s act → Stranded s') := by
    intro hsub hnew
    refine ⟨fun _ => hnew, fun hnot => (hnot fun htrue => ?_).elim⟩
    rw [hsub] at htrue
    cases htrue
  have hawake' : ∀ {main : MainPc}, main.awake = true → main.blocked = false := by
    intro main
    cases main <;> first | exact fun _ => rfl | exact Bool.noConfusion
  obtain ⟨rfl, hs⟩ | ⟨e, rfl, hs⟩ | ⟨hsub, -, main, hawake, rfl, -⟩ := wake_cases hs
  · refine hskip rfl ?_
    obtain ⟨-, -, rfl⟩ | ⟨delay, -, rfl⟩ | ⟨co, sched, -, -, rfl⟩ | ⟨-, -, hawake, -, -⟩ :=
      mainNext_cases hs
    · exact Bool.noConfusion
    · exact fun _ => rfl
    · exact Bool.noConfusion
    · intro hb
      rw [hawake' hawake] at hb
      cases hb
  · obtain ⟨co, rfl, rfl⟩ | ⟨rfl, rfl⟩ | ⟨he, hsub, sched, hstep, rfl⟩ := other_cases hs
    · -- the signal, if there is one, does not reach the event loop
      have hmain : s.main.blocked = true →
          (if s.sched.coNums = 0 then condSignal s.main else s.main) = s.main := by
        intro hb
        rw [condSignal_ne (blocked_ne hb).2, ite_self]
      refine ⟨?_, ?_⟩
      · intro hfinds hb
        have hfree : s.main.blocked = false := hfinds rfl
        by_cases hn : s.sched.coNums = 0
        · simp only [if_pos hn] at hb
          rw [condSignal] at hb
          split at hb
          · cases hb
          · rw [hfree] at hb
            cases hb
        · simp only [if_neg hn] at hb
          rw [hfree] at hb
          cases hb
      · intro hnot
        have hb : s.main.blocked = true := by
          refine Bool.eq_true_of_not_eq_false fun hfree => hnot fun _ => hfree
        refine ⟨?_, co, ?_, ?_⟩
        · show (if s.sched.coNums = 0 then condSignal s.main else s.main).blocked = true
          rw [hmain hb, hb]
        · exact List.mem_append_right _ (List.mem_singleton.mpr rfl)
        · exact List.mem_append_right _ (List.mem_singleton.mpr rfl)
    · refine hskip rfl ?_
      intro hb
      have hb : (condSignal s.main).blocked = true := hb
      rw [condSignal] at hb
      split at hb
      · cases hb
      · exact h hb
    · refine hskip ?_ ?_
      · cases e <;> first | rfl | exact absurd rfl (hsub _)
      · intro hb
        have hb : (leaveCo s.main sched).blocked = true := hb
        rw [leaveCo] at hb
        split at hb
        · cases hb
        · exact h hb
  · refine hskip hsub ?_
    intro hb
    rw [hawake' hawake] at hb
    cases hb

theorem NothingMissed.not_stranded (h : NothingMissed s) : ¬ Stranded s := by
  rintro ⟨hb, co, hco, -⟩
  rw [h hb] at hco
  cases hco

/-- A stranded coroutine stays so until the timeout is over or a signal handler
    runs: no later `sched_sched` helps, nor does `sched_wakeup`. -/
theorem stranded_stays {act : Act} (h : Stranded s) (hs : step clk s act = some s')
    (helapse : act ≠ .elapse) (hinterrupt : act ≠ .interrupt) : Stranded s' := by
  obtain ⟨hb, co, happ, hready⟩ := h
  obtain ⟨rfl, hs⟩ | ⟨e, rfl, hs⟩ | ⟨-, -, main, -, -, hwake⟩ := wake_cases hs
  · obtain ⟨hm, -, -⟩ | ⟨delay, hm, -⟩ | ⟨co, sched, hm, -, -⟩ | ⟨hb', -, -, -, -⟩ :=
      mainNext_cases hs
    · rw [hm] at hb
      cases hb
    · rw [hm] at hb
      cases hb
    · rw [hm] at hb
      cases hb
    · rw [hb'] at hb
      cases hb
  · obtain ⟨hin, hwait⟩ := blocked_ne hb
    obtain ⟨co', rfl, rfl⟩ | ⟨rfl, rfl⟩ | ⟨he, -, sched, hstep, rfl⟩ := other_cases hs
    · refine ⟨?_, co, List.mem_append_left _ happ, List.mem_append_left _ hready⟩
      show (if s.sched.coNums = 0 then condSignal s.main else s.main).blocked = true
      rw [condSignal_ne hwait, ite_self, hb]
    · refine ⟨?_, co, happ, hready⟩
      show (condSignal s.main).blocked = true
      rw [condSignal_ne hwait, hb]
    · refine ⟨?_, co, happ, (step_aside he hstep).ready co hready⟩
      show (leaveCo s.main sched).blocked = true
      rw [leaveCo_ne hin, hb]
  · rcases hwake hb with rfl | rfl
    · exact absurd rfl helapse
    · exact absurd rfl hinterrupt

end Cases

-- ── One thread alone ─────────────────────────────────────────────────────────

section Alone

variable {clk : Nat → Int}

/-- `s'` is reached from `s`. -/
def Leads (clk : Nat → Int) (s s' : State) : Prop := Reach (fun t => t = s) (fires (step clk)) s'

theorem Leads.then {s t t' : State} (h : Leads clk s t) (act : Act)
    (hs : step clk t act = some t') : Leads clk s t' := Reach.next h hs

/-- The thread is at a `process_expired_timers` that it leaves to `done d`. -/
def ExpiresAt (clk : Nat → Int) (pc : MainPc) (done : Int → MainPc) : Prop :=
  ∀ sched app, step clk ⟨sched, pc, app⟩ .next
    = (expiredRound clk sched).map fun r => ⟨r.2, (r.1.map done).getD pc, app⟩

theorem processExpiredLoop_inCo (clk : Nat → Int) :
    ∀ (k : Nat) (sched sched' : Sched) (d : Int),
      processExpiredLoop clk k sched = some (d, sched') → sched'.inCo = sched.inCo := by
  intro k
  induction k with
  | zero =>
      intro sched sched' d h
      cases h
      rfl
  | succ k ih =>
      intro sched sched' d h
      rw [processExpiredLoop_succ_eq] at h
      obtain ⟨⟨o, sched₁⟩, hround, h⟩ := Option.bind_eq_some_iff.mp h
      have hin := expiredRound_inCo hround
      cases o with
      | some d' =>
          cases h
          exact hin
      | none => exact (ih sched₁ sched' d h).trans hin

/-- Uninterrupted rounds are the loop. -/
theorem rounds_lead {pc : MainPc} {done : Int → MainPc} (hpc : ExpiresAt clk pc done) :
    ∀ (k : Nat) (s : State) (sched sched' : Sched) (app : List Nat) (d : Int),
      sched.coTimerHeap.elemNum ≤ k → processExpiredLoop clk (k + 1) sched = some (d, sched') →
      Leads clk s ⟨sched, pc, app⟩ → Leads clk s ⟨sched', done d, app⟩ := by
  intro k
  induction k with
  | zero =>
      intro s sched sched' app d hk h hr
      rw [processExpiredLoop_succ_eq] at h
      obtain ⟨r, hround, h⟩ := Option.bind_eq_some_iff.mp h
      obtain ⟨d', tick, rfl⟩ | ⟨heap, co, -, hlt, -⟩ := expiredRound_cases hround
      · cases h
        exact hr.then .next (by rw [hpc, hround]; rfl)
      · omega
  | succ k ih =>
      intro s sched sched' app d hk h hr
      rw [processExpiredLoop_succ_eq] at h
      obtain ⟨⟨o, sched₁⟩, hround, h⟩ := Option.bind_eq_some_iff.mp h
      have hnext : step clk ⟨sched, pc, app⟩ .next
          = some ⟨sched₁, (o.map done).getD pc, app⟩ := by
        rw [hpc, hround]
        rfl
      obtain ⟨d', tick, he⟩ | ⟨heap, co, ho, hlt, hres⟩ := expiredRound_cases hround
      · cases he
        cases h
        exact hr.then .next hnext
      · cases ho
        obtain ⟨c, -, -, rfl⟩ := schedCoResume_cases hres
        exact ih s _ sched' app d (by show heap.elemNum ≤ k; omega) h (hr.then .next hnext)

theorem expired_leads {pc : MainPc} {done : Int → MainPc} {s : State} {sched sched' : Sched}
    {app : List Nat} {d : Int} (hpc : ExpiresAt clk pc done)
    (h : processExpiredTimers clk sched = some (d, sched')) (hr : Leads clk s ⟨sched, pc, app⟩) :
    Leads clk s ⟨sched', done d, app⟩ := by
  refine rounds_lead hpc _ s sched sched' app d (Nat.le_refl _) ?_ hr
  rw [processExpiredLoop_enough clk (Nat.le_succ _), h]

/-- Where the thread is between two steps of `CoSched`. -/
def restPc (sched : Sched) : MainPc := if sched.inCo then .inCo else .test

/-- An iteration of `main_loop` in one step is one that nobody interrupts. -/
theorem iterate_leads {sched sched' : Sched} (app : List Nat)
    (h : CoSched.step clk sched .iterate = some sched') :
    ∃ app', Leads clk ⟨sched, .test, app⟩ ⟨sched', restPc sched', app'⟩ := by
  obtain ⟨hin, hst, hnums, hcases⟩ := step_iterate_cases h
  have h0 : Leads clk ⟨sched, .test, app⟩ ⟨sched, .test, app⟩ := Reach.start rfl
  have h1 : Leads clk ⟨sched, .test, app⟩ ⟨sched, .locking, app⟩ :=
    h0.then .next (by simp only [step, mainNext, if_pos hst])
  have h2 : Leads clk ⟨sched, .test, app⟩ ⟨sched, .picking, app⟩ :=
    h1.then .next (by simp only [step, mainNext, if_neg hnums])
  obtain ⟨hready, hwait⟩ | ⟨co, queue, hready, hsched⟩ := hcases
  · obtain ⟨delay, sched₁, d, h₁, h₂⟩ := waitForEvents_cases hwait
    have h3 : Leads clk ⟨sched, .test, app⟩ ⟨{ sched with coCurr := none }, .expiring, app⟩ :=
      h2.then .next (by simp only [step, mainNext, hready])
    have hexpiring : ExpiresAt clk .expiring .calling := fun _ _ => rfl
    have h4 := expired_leads hexpiring h₁ h3
    have h5 : Leads clk ⟨sched, .test, app⟩
        ⟨eventLoopRun sched₁ delay, .polling (toSigned 32 delay), []⟩ := h4.then .next rfl
    have h6 : Leads clk ⟨sched, .test, app⟩ ⟨eventLoopRun sched₁ delay, .expiringAgain, []⟩ :=
      h5.then .interrupt rfl
    have hagain : ExpiresAt clk .expiringAgain (fun _ => .test) := fun _ _ => rfl
    have h7 := expired_leads hagain h₂ h6
    -- no coroutine runs in all of this
    have hin₁ := processExpiredLoop_inCo clk _ { sched with coCurr := none } _ _ h₁
    have hin₂ := processExpiredLoop_inCo clk _ (eventLoopRun sched₁ delay) _ _ h₂
    have hout : sched'.inCo = false := hin₂.trans (hin₁.trans hin)
    refine ⟨[], ?_⟩
    rw [restPc, hout]
    exact h7
  · have h3 : Leads clk ⟨sched, .test, app⟩
        ⟨{ sched with coReadyQueue := queue, coCurr := some co }, .scheduling co, app⟩ :=
      h2.then .next (by simp only [step, mainNext, hready])
    have h4 : Leads clk ⟨sched, .test, app⟩ ⟨sched', .inCo, app⟩ :=
      h3.then .next (by simp only [step, mainNext, hsched, Option.map_some])
    obtain ⟨c, stack, -, -, rfl⟩ := schedule_cases hsched
    exact ⟨app, h4⟩

/-- Any other step of `CoSched` is one step. -/
theorem other_leads {sched sched' : Sched} {e : Event} (app : List Nat) (he : e ≠ .iterate)
    (h : CoSched.step clk sched e = some sched') :
    ∃ app', Leads clk ⟨sched, restPc sched, app⟩ ⟨sched', restPc sched', app'⟩ := by
  have h0 : Leads clk ⟨sched, restPc sched, app⟩ ⟨sched, restPc sched, app⟩ := Reach.start rfl
  have hrest : restPc sched ≠ .waiting := by
    rw [restPc]
    split <;> exact MainPc.noConfusion
  -- a coroutine that leaves is back at the outer loop
  have hleave : (sched.inCo = false → sched'.inCo = false) →
      leaveCo (restPc sched) sched' = restPc sched' := by
    intro hidle
    rw [leaveCo, restPc, restPc]
    cases hin : sched.inCo with
    | false => simp [hidle hin]
    | true => cases hin' : sched'.inCo <;> simp
  have hother : e ≠ .wakeup → (hsub : ∀ co, e ≠ .submit co) →
      Leads clk ⟨sched, restPc sched, app⟩ ⟨sched', restPc sched', app⟩ := by
    intro hwake hsub
    rw [← hleave fun hidle => (coStep_idle he hsub hidle h).1]
    refine h0.then (.other e) ?_
    cases e with
    | iterate => exact absurd rfl he
    | submit co => exact absurd rfl (hsub co)
    | wakeup => exact absurd rfl hwake
    | write | yield | suspend | delay | done | resume =>
        simp only [step, other, h, Option.map_some]
  cases e with
  | iterate => exact absurd rfl he
  | submit co =>
      refine ⟨app ++ [co], h0.then (.other (.submit co)) ?_⟩
      have hpc : (if sched.coNums = 0 then condSignal (restPc sched) else restPc sched)
          = restPc sched := by
        rw [condSignal_ne hrest, ite_self]
      simp only [step, other, h, Option.map_some, hpc]
      rw [CoSched.step, Option.ite_none_right_eq_some] at h
      obtain ⟨-, h⟩ := h
      cases h
      rfl
  | wakeup =>
      refine ⟨app, h0.then (.other .wakeup) ?_⟩
      simp only [step, other, h, Option.map_some, condSignal_ne hrest]
      cases h
      rfl
  | write | yield | suspend | delay | done | resume =>
      exact ⟨app, hother Event.noConfusion fun _ => Event.noConfusion⟩

/-- **SIMULATION**: every run of `CoSched` is one of these in which nobody
    interrupts an iteration of `main_loop`. -/
theorem coSched_simulated {sched : Sched} (h : CoSched.Reachable clk sched) :
    ∃ app, Reachable clk ⟨sched, restPc sched, app⟩ := by
  refine Reach.invariant (I := fun sched => ∃ app, Reachable clk ⟨sched, restPc sched, app⟩)
    ?_ ?_ sched h
  · rintro sched rfl
    exact ⟨[], Reach.start rfl⟩
  · rintro sched e sched' - ⟨app, hr⟩ hstep
    by_cases he : e = .iterate
    · subst he
      have hin := (step_iterate_cases hstep).1
      obtain ⟨app', hl⟩ := iterate_leads app hstep
      rw [restPc, hin] at hr
      exact ⟨app', hr.after hl⟩
    · obtain ⟨app', hl⟩ := other_leads app he hstep
      exact ⟨app', hr.after hl⟩

end Alone

-- ── Runs ─────────────────────────────────────────────────────────────────────

/-- **NOBODY IS STRANDED** in every interleaving in which each `sched_sched`
    finds the scheduler thread anywhere but blocked in `event_loop_run`; the
    first one that finds it there strands its coroutine. -/
theorem submitted_not_stranded (clk : Nat → Int) :
    ∀ s, Reach (fun s => s = runEntry) (guarded FindsAwake (fires (step clk))) s →
      ¬ Stranded s ∧ ∀ act s', step clk s act = some s' → (¬ Stranded s' ↔ FindsAwake s act) := by
  intro s hr
  have hinv : NothingMissed s := by
    refine Reach.guarded_invariant (I := NothingMissed) ?_ ?_ s hr
    · rintro s rfl
      exact Bool.noConfusion
    · intro s act s' _ hinv hfinds hstep
      exact (nothingMissed_step hinv hstep).1 hfinds
  refine ⟨hinv.not_stranded, ?_⟩
  intro act s' hstep
  obtain ⟨hkept, hlost⟩ := nothingMissed_step hinv hstep
  exact ⟨fun hnot => by_contra fun hno => hnot (hlost hno),
    fun hfinds => (hkept hfinds).not_stranded⟩

/-- The only coroutine sleeps, and the scheduler blocks until it is due. -/
def oneSleeper : List Act :=
  [.other (.submit 1), .next, .next, .next, .next, .other (.delay 100 4096), .next, .next, .next,
    .next, .next]

/-- Nothing is submitted meanwhile, so nothing is missed. -/
theorem submitted_not_stranded_one :
    ∃ s, ¬ Stranded s ∧ s.main = .polling 100 ∧ s.sched.coNums = 1 := by
  have hinit : Reach (fun s => s = runEntry)
      (fires (checked (fun s act => decide (FindsAwake s act)) (step fun _ => 0))) runEntry :=
    Reach.start rfl
  obtain ⟨s, hs, ht⟩ := Reach.exists_of_runList oneSleeper
    (fun (s : State) => decide (s.main = .polling 100) && decide (s.sched.coNums = 1)) hinit
    (by decide +kernel)
  rw [Bool.and_eq_true, decide_eq_true_eq, decide_eq_true_eq] at ht
  have hr := Reach.guarded_of_checked (fun s act h => of_decide_eq_true h) s hs
  exact ⟨s, (submitted_not_stranded (fun _ => 0) s hr).1, ht.1, ht.2⟩

/-- One submitted after that waits beside the sleeping scheduler. -/
theorem submitted_stranded :
    ¬ ∀ clk : Nat → Int, (∀ i j, i ≤ j → clk i ≤ clk j) → ∀ s, Reachable clk s → ¬ Stranded s := by
  intro halways
  have hinit : Reachable (fun _ => 0) runEntry := Reach.start rfl
  obtain ⟨s, hs, ht⟩ := Reach.exists_of_runList (oneSleeper ++ [.other (.submit 2)])
    (fun (s : State) => s.main.blocked && decide (2 ∈ s.appended)
      && decide (2 ∈ s.sched.coReadyQueue)) hinit (by decide +kernel)
  rw [Bool.and_eq_true, Bool.and_eq_true, decide_eq_true_eq, decide_eq_true_eq] at ht
  exact halways (fun _ => 0) (fun _ _ _ => Int.le_refl 0) s hs ⟨ht.1.1, 2, ht.1.2, ht.2⟩

end SchedWait
