import Mathlib.Logic.Function.Basic
import TreasureHouse.LabelledRunProofs
import TreasureHouse.HeapProofs

/-! # `coroutine/sched/core.c` — one scheduler and its coroutines

    One scheduler thread runs `main_loop`.  A coroutine is known by the address
    of its structure; `mem` holds those that are allocated, and the two queues
    are lists of addresses, taken as initialised.  While a coroutine runs it
    may overwrite the shared stack as it likes, until it yields, suspends,
    sleeps or returns.  Coroutines may be submitted and resumed between any two
    steps.

    `clk` gives the readings of the monotonic clock in the order in which they
    are made, and `tick` counts them.  `list_del` of a coroutine on no queue,
    an access to one that is not allocated, a failed assertion, a copy past the
    end of a block and a deadline outside `long` have no result (`none`).
    What `makecontext` stores at the base of the stack is left out, and the `int`
    `co_nums` has no bound: a scheduler has fewer than 2^31 coroutines at a time.

    `lastLeft`, `switches` and `evCalls` record what happened: no step reads
    them. -/

namespace CoSched

open MachineInt LabelledRun HeapC

/-- `CO_STACK_SIZE`. -/
def coStackSize : Nat := 1024 * 1024

/-- `CO_STATUS`. -/
inductive CoStatus where
  | create
  | runnable
  | runnine
  | waiting
  | interruptible
  | uninterruptible
  | ended
  deriving DecidableEq

/-- `struct coroutine`: its block for the stack (`cap` bytes were allocated)
    and its status. -/
structure Coroutine where
  stack : Nat → UInt8
  cap : Nat
  stackSize : Nat
  status : CoStatus

/-- `_co_timer_t` of `sched_delay`: its callback is `co_after_delay`, its
    argument the coroutine. -/
structure Timer where
  when : Int
  args : Nat

/-- `co_timer_cmp`: a difference of `long`s returned as an `int`. -/
def coTimerCmp (timer1 timer2 : Timer) : Int := toSigned 32 (timer1.when - timer2.when)

/-- `sched->status`. -/
inductive SchedStatus where
  | created
  | running
  | stopped
  deriving DecidableEq

/-- A switch of `schedule` into `co`: how it last left (its bytes in use and
    the stack then), and the stack it finds. -/
structure Switch where
  co : Nat
  left : Option (Nat × (Nat → UInt8))
  stack : Nat → UInt8

/-- `struct sched`; `inCo` says that `co_curr` runs, not `main_loop`. -/
structure Sched where
  coQueue : List Nat
  coReadyQueue : List Nat
  coTimerHeap : Heap Timer
  coCurr : Option Nat
  status : SchedStatus
  coNums : Int
  stack : Nat → UInt8
  mem : Nat → Option Coroutine
  inCo : Bool
  tick : Nat
  lastLeft : Nat → Option (Nat × (Nat → UInt8))
  switches : List Switch
  evCalls : List (Int × List Nat)

-- ── Queues ───────────────────────────────────────────────────────────────────

/-- `list_del(&co->list)`: the coroutine leaves the queue it is on. -/
def listDel (sched : Sched) (co : Nat) : Option Sched :=
  if co ∈ sched.coQueue ∨ co ∈ sched.coReadyQueue then
    some { sched with
      coQueue := sched.coQueue.erase co
      coReadyQueue := sched.coReadyQueue.erase co }
  else none

/-- `co_queue_append`. -/
def coQueueAppend (queue : List Nat) (co : Nat) : List Nat := queue ++ [co]

/-- `sched_co_resume`, also what `co_after_delay` does. -/
def schedCoResume (sched : Sched) (co : Nat) : Option Sched := do
  let c ← sched.mem co
  let sched ← listDel sched co
  some { sched with
    mem := Function.update sched.mem co (some { c with status := .runnable })
    coReadyQueue := coQueueAppend sched.coReadyQueue co }

-- ── Stacks ───────────────────────────────────────────────────────────────────

/-- `memcpy(dst + d, src + s, n)`. -/
def memcpy (dst : Nat → UInt8) (d : Nat) (src : Nat → UInt8) (s n : Nat) : Nat → UInt8 :=
  fun i => if d ≤ i ∧ i < d + n then src (s + (i - d)) else dst i

/-- `save_co_stack` with `n` bytes in use below the top of the stack. -/
def saveCoStack (c : Coroutine) (stack : Nat → UInt8) (n : Nat) : Option Coroutine :=
  if n ≤ coStackSize then
    let c := if c.stackSize < n then { c with stack := fun _ => 0, cap := n } else c
    if n ≤ c.cap then
      some { c with stackSize := n, stack := memcpy c.stack 0 stack (coStackSize - n) n }
    else none
  else none

/-- `restore_co_stack`. -/
def restoreCoStack (stack : Nat → UInt8) (c : Coroutine) : Option (Nat → UInt8) :=
  if c.stackSize ≤ c.cap ∧ c.stackSize ≤ coStackSize then
    some (memcpy stack (coStackSize - c.stackSize) c.stack 0 c.stackSize)
  else none

/-- The stack `schedule` hands to a coroutine. -/
def scheduleStack (stack : Nat → UInt8) (c : Coroutine) : Option (Nat → UInt8) :=
  if c.status ≠ .runnable then restoreCoStack stack c else some stack

/-- `schedule` into `co`, the current coroutine. -/
def schedule (sched : Sched) (co : Nat) : Option Sched := do
  let c ← sched.mem co
  let stack ← scheduleStack sched.stack c
  some { sched with
    stack := stack
    mem := Function.update sched.mem co (some { c with status := .runnable })
    inCo := true
    switches := sched.switches ++ [⟨co, sched.lastLeft co, stack⟩] }

/-- `schedule_yield_coroutine` with `n` bytes of stack in use. -/
def scheduleYieldCoroutine (sched : Sched) (co n : Nat) (status : CoStatus) : Option Sched := do
  let c ← sched.mem co
  let c ← saveCoStack c sched.stack n
  some { sched with
    mem := Function.update sched.mem co (some { c with status := status })
    inCo := false
    lastLeft := Function.update sched.lastLeft co (some (n, sched.stack)) }

/-- `sched_suspend_coroutine`. -/
def schedSuspendCoroutine (sched : Sched) (co n : Nat) : Option Sched :=
  scheduleYieldCoroutine { sched with coQueue := coQueueAppend sched.coQueue co } co n .waiting

/-- `sched_yield_coroutine`. -/
def schedYieldCoroutine (sched : Sched) (co n : Nat) : Option Sched :=
  scheduleYieldCoroutine { sched with coReadyQueue := coQueueAppend sched.coReadyQueue co } co n
    .waiting

-- ── Timers ───────────────────────────────────────────────────────────────────

/-- `sched_delay`: the timer is pushed, then the coroutine suspends. -/
def schedDelay (clk : Nat → Int) (sched : Sched) (co : Nat) (delayMs : Int) (n : Nat) :
    Option Sched :=
  let timer : Timer := ⟨clk sched.tick + delayMs, co⟩
  if -2 ^ 63 ≤ timer.when ∧ timer.when < 2 ^ 63 then do
    let heap ← heapPush sched.coTimerHeap timer
    schedSuspendCoroutine { sched with tick := sched.tick + 1, coTimerHeap := heap } co n
  else none

/-- The loop of `process_expired_timers` for `k` more rounds. -/
def processExpiredLoop (clk : Nat → Int) : Nat → Sched → Option (Int × Sched)
  | 0, sched => some (0, sched)
  | k + 1, sched => do
      match ← heapTop sched.coTimerHeap with
      | none => some (0, sched)
      | some timer =>
          let timeNow := clk sched.tick
          let sched := { sched with tick := sched.tick + 1 }
          if timer.when > timeNow then
            some (timer.when - timeNow, sched)
          else do
            let popped ← heapPop sched.coTimerHeap
            let sched ← schedCoResume { sched with coTimerHeap := popped.2 } timer.args
            processExpiredLoop clk k sched

/-- `process_expired_timers`: each round but the last pops one of the
    `elem_num` timers. -/
def processExpiredTimers (clk : Nat → Int) (sched : Sched) : Option (Int × Sched) :=
  processExpiredLoop clk sched.coTimerHeap.elemNum sched

-- ── The main loop ────────────────────────────────────────────────────────────

/-- `event_loop_run`: no callback runs in it. -/
def eventLoopRun (sched : Sched) (expiredMs : Int) : Sched :=
  { sched with evCalls := sched.evCalls ++ [(expiredMs, sched.coReadyQueue)] }

/-- `main_loop` when no coroutine is ready. -/
def waitForEvents (clk : Nat → Int) (sched : Sched) : Option Sched := do
  let (delay, sched) ← processExpiredTimers clk sched
  let (_, sched) ← processExpiredTimers clk (eventLoopRun sched delay)
  some sched

/-- One iteration of `main_loop`: `pick_one_co`, then `schedule` or wait. -/
def mainLoopIter (clk : Nat → Int) (sched : Sched) : Option Sched :=
  match sched.coReadyQueue with
  | [] => waitForEvents clk { sched with coCurr := none }
  | co :: queue => schedule { sched with coReadyQueue := queue, coCurr := some co } co

/-- `_co_new`. -/
def coNew : Coroutine where
  stack := fun _ => 0
  cap := 0
  stackSize := 0
  status := .runnable

/-- `sched_create`, once `sched_run_entry` has begun. -/
def schedCreate : Sched where
  coQueue := []
  coReadyQueue := []
  coTimerHeap := heapCreate coTimerCmp
  coCurr := none
  status := .running
  coNums := 0
  stack := fun _ => 0
  mem := fun _ => none
  inCo := false
  tick := 0
  lastLeft := fun _ => none
  switches := []
  evCalls := []

/-- `sched_sched` of a new coroutine. -/
def schedSched (sched : Sched) (co : Nat) : Sched :=
  { sched with
    mem := Function.update sched.mem co (some coNew)
    coReadyQueue := coQueueAppend sched.coReadyQueue co
    coNums := sched.coNums + 1 }

/-- The end of `co_wrapper`. -/
def coDone (sched : Sched) (co : Nat) : Sched :=
  { sched with
    mem := Function.update sched.mem co none
    coNums := sched.coNums - 1
    inCo := false
    lastLeft := Function.update sched.lastLeft co none }

-- ── Steps ────────────────────────────────────────────────────────────────────

/-- The steps; `n` is the stack in use when the running coroutine leaves. -/
inductive Event where
  | iterate
  | write (stack : Nat → UInt8)
  | yield (n : Nat)
  | suspend (n : Nat)
  | delay (delayMs : Int) (n : Nat)
  | done
  | submit (co : Nat)
  | resume (co : Nat)
  | wakeup

/-- A step of the running coroutine. -/
def running (sched : Sched) (f : Nat → Option Sched) : Option Sched :=
  if sched.inCo then sched.coCurr.bind f else none

def step (clk : Nat → Int) (sched : Sched) : Event → Option Sched
  | .iterate =>
      if sched.inCo = false ∧ sched.status = .running ∧ sched.coNums ≠ 0 then
        mainLoopIter clk sched
      else none
  | .write stack => running sched fun _ => some { sched with stack := stack }
  | .yield n => running sched fun co => schedYieldCoroutine sched co n
  | .suspend n => running sched fun co => schedSuspendCoroutine sched co n
  | .delay delayMs n => running sched fun co => schedDelay clk sched co delayMs n
  | .done => running sched fun co => some (coDone sched co)
  | .submit co => if sched.mem co = none then some (schedSched sched co) else none
  | .resume co => schedCoResume sched co
  | .wakeup => some { sched with status := .stopped }

/-- The states of all runs of one scheduler. -/
def Reachable (clk : Nat → Int) (sched : Sched) : Prop :=
  Reach (fun s => s = schedCreate) (fires (step clk)) sched

-- ── What a step that fires did ───────────────────────────────────────────────

/-- What a successful `sched_co_resume` did. -/
theorem schedCoResume_cases {sched sched' : Sched} {co : Nat}
    (h : schedCoResume sched co = some sched') :
    ∃ c, sched.mem co = some c ∧ (co ∈ sched.coQueue ∨ co ∈ sched.coReadyQueue)
      ∧ sched' = { sched with
          coQueue := sched.coQueue.erase co
          mem := Function.update sched.mem co (some { c with status := .runnable })
          coReadyQueue := sched.coReadyQueue.erase co ++ [co] } := by
  obtain ⟨c, hc, h⟩ := Option.bind_eq_some_iff.mp h
  obtain ⟨s₁, hdel, h⟩ := Option.bind_eq_some_iff.mp h
  rw [listDel, Option.ite_none_right_eq_some] at hdel
  obtain ⟨hq, hdel⟩ := hdel
  cases hdel
  cases h
  exact ⟨c, hc, hq, rfl⟩

/-- One round of `process_expired_timers`: no timer, the next one is not due, or
    it is due and its coroutine resumes. -/
theorem processExpiredLoop_cases {clk : Nat → Int} {k : Nat} {sched sched' : Sched} {d : Int}
    (h : processExpiredLoop clk (k + 1) sched = some (d, sched')) :
    (heapTop sched.coTimerHeap = some none ∧ d = 0 ∧ sched' = sched)
    ∨ (∃ timer, heapTop sched.coTimerHeap = some (some timer) ∧ clk sched.tick < timer.when
        ∧ d = timer.when - clk sched.tick ∧ sched' = { sched with tick := sched.tick + 1 })
    ∨ (∃ timer popped sched₁, heapTop sched.coTimerHeap = some (some timer)
        ∧ timer.when ≤ clk sched.tick ∧ heapPop sched.coTimerHeap = some popped
        ∧ schedCoResume { sched with tick := sched.tick + 1, coTimerHeap := popped.2 } timer.args
            = some sched₁
        ∧ processExpiredLoop clk k sched₁ = some (d, sched')) := by
  obtain ⟨top, htop, h⟩ := Option.bind_eq_some_iff.mp h
  cases top with
  | none =>
      cases h
      exact Or.inl ⟨htop, rfl, rfl⟩
  | some timer =>
      by_cases hlate : timer.when > clk sched.tick
      · simp only [if_pos hlate] at h
        cases h
        exact Or.inr (Or.inl ⟨timer, htop, hlate, rfl, rfl⟩)
      · simp only [if_neg hlate] at h
        obtain ⟨popped, hpop, h⟩ := Option.bind_eq_some_iff.mp h
        obtain ⟨sched₁, hres, h⟩ := Option.bind_eq_some_iff.mp h
        exact Or.inr (Or.inr ⟨timer, popped, sched₁, htop, by omega, hpop, hres, h⟩)

theorem waitForEvents_cases {clk : Nat → Int} {sched sched' : Sched}
    (h : waitForEvents clk sched = some sched') :
    ∃ delay sched₁ d, processExpiredTimers clk sched = some (delay, sched₁)
      ∧ processExpiredTimers clk (eventLoopRun sched₁ delay) = some (d, sched') := by
  obtain ⟨⟨delay, sched₁⟩, h₁, h⟩ := Option.bind_eq_some_iff.mp h
  obtain ⟨⟨d, sched₂⟩, h₂, h⟩ := Option.bind_eq_some_iff.mp h
  cases h
  exact ⟨delay, sched₁, d, h₁, h₂⟩

theorem schedule_cases {sched sched' : Sched} {co : Nat} (h : schedule sched co = some sched') :
    ∃ c stack, sched.mem co = some c ∧ scheduleStack sched.stack c = some stack
      ∧ sched' = { sched with
          stack := stack
          mem := Function.update sched.mem co (some { c with status := .runnable })
          inCo := true
          switches := sched.switches ++ [⟨co, sched.lastLeft co, stack⟩] } := by
  obtain ⟨c, hc, h⟩ := Option.bind_eq_some_iff.mp h
  obtain ⟨stack, hstack, h⟩ := Option.bind_eq_some_iff.mp h
  cases h
  exact ⟨c, stack, hc, hstack, rfl⟩

theorem scheduleYieldCoroutine_cases {sched sched' : Sched} {co n : Nat} {status : CoStatus}
    (h : scheduleYieldCoroutine sched co n status = some sched') :
    ∃ c c', sched.mem co = some c ∧ saveCoStack c sched.stack n = some c'
      ∧ sched' = { sched with
          mem := Function.update sched.mem co (some { c' with status := status })
          inCo := false
          lastLeft := Function.update sched.lastLeft co (some (n, sched.stack)) } := by
  obtain ⟨c, hc, h⟩ := Option.bind_eq_some_iff.mp h
  obtain ⟨c', hc', h⟩ := Option.bind_eq_some_iff.mp h
  cases h
  exact ⟨c, c', hc, hc', rfl⟩

theorem schedDelay_cases {clk : Nat → Int} {sched sched' : Sched} {co n : Nat} {delayMs : Int}
    (h : schedDelay clk sched co delayMs n = some sched') :
    ∃ heap, heapPush sched.coTimerHeap ⟨clk sched.tick + delayMs, co⟩ = some heap
      ∧ schedSuspendCoroutine { sched with tick := sched.tick + 1, coTimerHeap := heap } co n
          = some sched' := by
  rw [schedDelay, Option.ite_none_right_eq_some] at h
  obtain ⟨heap, hpush, h⟩ := Option.bind_eq_some_iff.mp h.2
  exact ⟨heap, hpush, h⟩

theorem running_cases {sched sched' : Sched} {f : Nat → Option Sched}
    (h : running sched f = some sched') :
    ∃ co, sched.inCo = true ∧ sched.coCurr = some co ∧ f co = some sched' := by
  rw [running, Option.ite_none_right_eq_some] at h
  obtain ⟨hin, h⟩ := h
  obtain ⟨co, hco, h⟩ := Option.bind_eq_some_iff.mp h
  exact ⟨co, hin, hco, h⟩

/-- An iteration of `main_loop` waits for events or switches to the first
    ready coroutine. -/
theorem step_iterate_cases {clk : Nat → Int} {sched sched' : Sched}
    (h : step clk sched .iterate = some sched') :
    sched.inCo = false ∧ sched.status = .running ∧ sched.coNums ≠ 0
      ∧ ((sched.coReadyQueue = []
            ∧ waitForEvents clk { sched with coCurr := none } = some sched')
        ∨ ∃ co queue, sched.coReadyQueue = co :: queue
            ∧ schedule { sched with coReadyQueue := queue, coCurr := some co } co
                = some sched') := by
  rw [step, Option.ite_none_right_eq_some] at h
  obtain ⟨⟨hco, hst, hnums⟩, h⟩ := h
  refine ⟨hco, hst, hnums, ?_⟩
  rw [mainLoopIter] at h
  split at h
  · rename_i hq
    exact Or.inl ⟨hq, h⟩
  · rename_i co queue hq
    exact Or.inr ⟨co, queue, hq, h⟩

/-- What the steps outside `main_loop` leave alone: no switch and no call of
    `event_loop_run` is made, who is ready stays so, and a sleep alone sets a
    timer. -/
structure Aside (clk : Nat → Int) (sched : Sched) (e : Event) (sched' : Sched) : Prop where
  switches : sched'.switches = sched.switches
  evCalls : sched'.evCalls = sched.evCalls
  ready : ∀ co ∈ sched.coReadyQueue, co ∈ sched'.coReadyQueue
  timers : sched'.coTimerHeap = sched.coTimerHeap
    ∨ ∃ delayMs n timer, e = .delay delayMs n ∧ timer.when = clk sched.tick + delayMs
      ∧ heapPush sched.coTimerHeap timer = some sched'.coTimerHeap

theorem step_aside {clk : Nat → Int} {sched sched' : Sched} {e : Event} (he : e ≠ .iterate)
    (h : step clk sched e = some sched') : Aside clk sched e sched' := by
  cases e with
  | iterate => exact absurd rfl he
  | write stack =>
      obtain ⟨co, -, -, h⟩ := running_cases h
      cases h
      exact ⟨rfl, rfl, fun _ hready => hready, Or.inl rfl⟩
  | yield n =>
      obtain ⟨co, -, -, h⟩ := running_cases h
      obtain ⟨c, c', -, -, rfl⟩ := scheduleYieldCoroutine_cases h
      exact ⟨rfl, rfl, fun _ hready => List.mem_append_left _ hready, Or.inl rfl⟩
  | suspend n =>
      obtain ⟨co, -, -, h⟩ := running_cases h
      obtain ⟨c, c', -, -, rfl⟩ := scheduleYieldCoroutine_cases h
      exact ⟨rfl, rfl, fun _ hready => hready, Or.inl rfl⟩
  | delay delayMs n =>
      obtain ⟨co, -, -, h⟩ := running_cases h
      obtain ⟨heap, hpush, h⟩ := schedDelay_cases h
      obtain ⟨c, c', -, -, rfl⟩ := scheduleYieldCoroutine_cases h
      exact ⟨rfl, rfl, fun _ hready => hready, Or.inr ⟨delayMs, n, _, rfl, rfl, hpush⟩⟩
  | done =>
      obtain ⟨co, -, -, h⟩ := running_cases h
      cases h
      exact ⟨rfl, rfl, fun _ hready => hready, Or.inl rfl⟩
  | submit co =>
      rw [step, Option.ite_none_right_eq_some] at h
      obtain ⟨-, h⟩ := h
      cases h
      exact ⟨rfl, rfl, fun _ hready => List.mem_append_left _ hready, Or.inl rfl⟩
  | resume co =>
      obtain ⟨c, -, -, rfl⟩ := schedCoResume_cases h
      refine ⟨rfl, rfl, fun x hready => ?_, Or.inl rfl⟩
      by_cases hne : x = co
      · subst hne
        exact List.mem_append_right _ (List.mem_singleton.mpr rfl)
      · exact List.mem_append_left _ ((List.mem_erase_of_ne hne).mpr hready)
  | wakeup =>
      cases h
      exact ⟨rfl, rfl, fun _ hready => hready, Or.inl rfl⟩

/-- One round more than there are timers changes nothing. -/
theorem processExpiredLoop_succ (clk : Nat → Int) :
    ∀ (k : Nat) (sched : Sched), sched.coTimerHeap.elemNum ≤ k →
      processExpiredLoop clk (k + 1) sched = processExpiredLoop clk k sched := by
  intro k
  induction k with
  | zero =>
      intro sched hk
      have htop : heapTop sched.coTimerHeap = some none := if_pos (Nat.le_zero.mp hk)
      simp only [processExpiredLoop, htop]
      rfl
  | succ k ih =>
      intro sched hk
      rw [processExpiredLoop, processExpiredLoop]
      refine Option.bind_congr ?_
      intro top _
      cases top with
      | none => rfl
      | some timer =>
          by_cases hlate : timer.when > clk sched.tick
          · simp only [if_pos hlate]
          · simp only [if_neg hlate]
            refine Option.bind_congr ?_
            intro popped hpop
            refine Option.bind_congr ?_
            intro sched₁ hres
            obtain ⟨c, -, -, rfl⟩ := schedCoResume_cases hres
            have hnum : popped.2.elemNum = sched.coTimerHeap.elemNum - 1 := heapPop_elemNum hpop
            refine ih _ ?_
            show popped.2.elemNum ≤ k
            omega

/-- So the number of rounds is no bound: any larger one gives the same. -/
theorem processExpiredLoop_enough (clk : Nat → Int) {k : Nat} {sched : Sched}
    (hk : sched.coTimerHeap.elemNum ≤ k) :
    processExpiredLoop clk k sched = processExpiredTimers clk sched := by
  induction k, hk using Nat.le_induction with
  | base => rfl
  | succ k hk ih => rw [processExpiredLoop_succ clk k sched hk, ih]

end CoSched
