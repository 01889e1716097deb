import TreasureHouse.ListQueueProofs
import TreasureHouse.SchedQueueProofs

/-! # The queues of a scheduler in memory

    `CoSched` keeps the coroutines of the two queues as lists.  Here the queues
    are what they are in the source, two `struct list_head`s and one in every
    coroutine, and the functions of `core.c` that touch a queue do so through
    `container/list.h`.

    A scheduler left to itself does the same either way: whatever it does with
    the links it also does with the lists, and the other way round
    (`sched_links_refine`). -/

namespace CoMem

open LabelledRun CoSched ListHead WaitQueue
open HeapC hiding Holds

/-- A `struct list_head`: that of a queue, or the `list` of a coroutine. -/
inductive QueueNode where
  | coQueue
  | coReadyQueue
  | co (co : Nat)
  | poison1
  | poison2
  deriving DecidableEq

instance : ListPoison QueueNode where
  listPoison1 := .poison1
  listPoison2 := .poison2

/-- A scheduler: the links, and everything else.  The lists of `sched` stay
    empty, and so does its record of `event_loop_run`. -/
structure MemSched where
  links : Links QueueNode
  sched : Sched

-- ── The functions ────────────────────────────────────────────────────────────

/-- `co_queue_popleft`; a first node that is no coroutine's has no result. -/
def coQueuePopleft (links : Links QueueNode) (queue : QueueNode) :
    Option (Option Nat × Links QueueNode) :=
  if listEmpty links queue then some (none, links)
  else
    match links.next queue with
    | .co co => some (some co, ListHead.listDel links (.co co))
    | _ => none

/-- `co_queue_append`. -/
def coQueueAppend (links : Links QueueNode) (queue : QueueNode) (co : Nat) : Links QueueNode :=
  listAddTail links (.co co) queue

/-- `sched_co_resume`. -/
def schedCoResume (m : MemSched) (co : Nat) : Option MemSched := do
  let c ← m.sched.mem co
  let links := ListHead.listDel m.links (.co co)
  some
    { links := coQueueAppend links .coReadyQueue co
      sched := { m.sched with
        mem := Function.update m.sched.mem co (some { c with status := .runnable }) } }

/-- `sched_suspend_coroutine`. -/
def schedSuspendCoroutine (m : MemSched) (co n : Nat) : Option MemSched :=
  (scheduleYieldCoroutine m.sched co n .waiting).map fun sched =>
    { links := coQueueAppend m.links .coQueue co, sched := sched }

/-- `sched_yield_coroutine`. -/
def schedYieldCoroutine (m : MemSched) (co n : Nat) : Option MemSched :=
  (scheduleYieldCoroutine m.sched co n .waiting).map fun sched =>
    { links := coQueueAppend m.links .coReadyQueue co, sched := sched }

/-- `sched_delay`. -/
def schedDelay (clk : Nat → Int) (m : MemSched) (co : Nat) (delayMs : Int) (n : Nat) :
    Option MemSched :=
  let timer : Timer := ⟨clk m.sched.tick + delayMs, co⟩
  if -2 ^ 63 ≤ timer.when ∧ timer.when < 2 ^ 63 then do
    let heap ← heapPush m.sched.coTimerHeap timer
    schedSuspendCoroutine
      { m with sched := { m.sched with tick := m.sched.tick + 1, coTimerHeap := heap } } co n
  else none

/-- The loop of `process_expired_timers` for `k` more rounds. -/
def processExpiredLoop (clk : Nat → Int) : Nat → MemSched → Option MemSched
  | 0, m => some m
  | k + 1, m => do
      match ← heapTop m.sched.coTimerHeap with
      | none => some m
      | some timer =>
          let timeNow := clk m.sched.tick
          let m := { m with sched := { m.sched with tick := m.sched.tick + 1 } }
          if timer.when > timeNow then
            some m
          else do
            let popped ← heapPop m.sched.coTimerHeap
            let m ← schedCoResume { m with sched := { m.sched with coTimerHeap := popped.2 } }
              timer.args
            processExpiredLoop clk k m

/-- `process_expired_timers`. -/
def processExpiredTimers (clk : Nat → Int) (m : MemSched) : Option MemSched :=
  processExpiredLoop clk m.sched.coTimerHeap.elemNum m

/-- `main_loop` when no coroutine is ready; `event_loop_run` changes nothing. -/
def waitForEvents (clk : Nat → Int) (m : MemSched) : Option MemSched := do
  let m ← processExpiredTimers clk m
  processExpiredTimers clk m

/-- One iteration of `main_loop`: `pick_one_co`, then `schedule` or wait. -/
def mainLoopIter (clk : Nat → Int) (m : MemSched) : Option MemSched := do
  let (co, links) ← coQueuePopleft m.links .coReadyQueue
  let sched := { m.sched with coCurr := co }
  match co with
  | none => waitForEvents clk { links := links, sched := sched }
  | some co => (schedule sched co).map fun sched => { links := links, sched := sched }

/-- `sched_sched` of a new coroutine, initialised by `_co_new`. -/
def schedSched (m : MemSched) (co : Nat) : MemSched where
  links := coQueueAppend (initListHead m.links (.co co)) .coReadyQueue co
  sched := { m.sched with
    mem := Function.update m.sched.mem co (some coNew)
    coNums := m.sched.coNums + 1 }

/-- A step of the running coroutine. -/
def running (m : MemSched) (f : Nat → Option MemSched) : Option MemSched :=
  if m.sched.inCo then m.sched.coCurr.bind f else none

def memStep (clk : Nat → Int) (m : MemSched) : Event → Option MemSched
  | .iterate =>
      if m.sched.inCo = false ∧ m.sched.status = .running ∧ m.sched.coNums ≠ 0 then
        mainLoopIter clk m
      else none
  | .write stack => running m fun _ => some { m with sched := { m.sched with stack := stack } }
  | .yield n => running m fun co => schedYieldCoroutine m co n
  | .suspend n => running m fun co => schedSuspendCoroutine m co n
  | .delay delayMs n => running m fun co => schedDelay clk m co delayMs n
  | .done => running m fun co => some { m with sched := coDone m.sched co }
  | .submit co => if m.sched.mem co = none then some (schedSched m co) else none
  | .resume co => schedCoResume m co
  | .wakeup => some { m with sched := { m.sched with status := .stopped } }

/-- `sched_create` has initialised the queues; other nodes hold anything. -/
def Created (m : MemSched) : Prop :=
  ∃ links, m = { links := initListHead (initListHead links .coQueue) .coReadyQueue,
                 sched := schedCreate }

/-- The runs of a scheduler left to itself. -/
def MemRun (clk : Nat → Int) (m : MemSched) : Prop :=
  Reach Created (guarded (fun _ e => ownEvent e = true) (fires (memStep clk))) m

-- ── The relation ─────────────────────────────────────────────────────────────

/-- Everything but the queues and the record of `event_loop_run`. -/
def rest (sched : Sched) : Sched := { sched with coQueue := [], coReadyQueue := [], evCalls := [] }

/-- The queues, as lists of nodes. -/
def queues (ready queue : List Nat) : Heads QueueNode :=
  [(.coReadyQueue, ready.map .co), (.coQueue, queue.map .co)]

/-- The scheduler with these links instead of its lists. -/
def inMem (links : Links QueueNode) (sched : Sched) : MemSched where
  links := links
  sched := rest sched

section Queues

variable {links : Links QueueNode} {ready queue : List Nat} {co : Nat}

theorem off_queues (hr : co ∉ ready) (hq : co ∉ queue) : Off (queues ready queue) (.co co) := by
  simp [queues, Off, hr, hq]

theorem swap_queues (h : Holds links (queues ready queue)) :
    Holds links [(.coQueue, queue.map .co), (.coReadyQueue, ready.map .co)] :=
  h.perm (List.Perm.swap ..)

/-- A coroutine on no queue enters `co_ready_queue`. -/
theorem append_ready (h : Holds links (queues ready queue)) (hr : co ∉ ready) (hq : co ∉ queue) :
    Holds (coQueueAppend links .coReadyQueue co) (queues (ready ++ [co]) queue) := by
  rw [queues, List.map_append]
  exact h.append (off_queues hr hq)

/-- A coroutine on no queue enters `co_queue`. -/
theorem append_queue (h : Holds links (queues ready queue)) (hr : co ∉ ready) (hq : co ∉ queue) :
    Holds (coQueueAppend links .coQueue co) (queues ready (queue ++ [co])) := by
  have happ := (swap_queues h).append ((off_queues hr hq).perm (List.Perm.swap ..))
  rw [queues, List.map_append]
  exact happ.perm (List.Perm.swap ..)

theorem map_erase_co (l : List Nat) (co : Nat) :
    (l.map QueueNode.co).erase (.co co) = (l.erase co).map .co := by
  refine (List.map_erase ?_ l).symm
  rintro a b ⟨⟩
  rfl

/-- `list_del` of a coroutine on `co_queue`. -/
theorem del_queue (h : Holds links (queues ready queue)) (hq : co ∈ queue) :
    Holds (ListHead.listDel links (.co co)) (queues ready (queue.erase co)) := by
  have hdel := (swap_queues h).del (List.mem_map_of_mem hq)
  rw [map_erase_co] at hdel
  exact hdel.perm (List.Perm.swap ..)

/-- `co_queue_popleft` of `co_ready_queue`. -/
theorem coQueuePopleft_cons (h : Holds links (queues (co :: ready) queue)) :
    ∃ links', coQueuePopleft links .coReadyQueue = some (some co, links')
      ∧ Holds links' (queues ready queue) := by
  have hnext : links.next .coReadyQueue = .co co := Holds.first h
  have hempty : listEmpty links .coReadyQueue = false := by
    rw [listEmpty_eq h]
    rfl
  refine ⟨ListHead.listDel links (.co co), ?_, ?_⟩
  · rw [coQueuePopleft, hempty, hnext]
    rfl
  · have hdel := Holds.del h (x := .co co) List.mem_cons_self
    rw [List.map_cons, List.erase_cons_head] at hdel
    exact hdel

theorem coQueuePopleft_nil (h : Holds links (queues [] queue)) :
    coQueuePopleft links .coReadyQueue = some (none, links) := by
  rw [coQueuePopleft, listEmpty_eq h]
  rfl

/-- `list_del` of a coroutine on `co_ready_queue`. -/
theorem del_ready (h : Holds links (queues ready queue)) (hr : co ∈ ready) :
    Holds (ListHead.listDel links (.co co)) (queues (ready.erase co) queue) := by
  have hdel := Holds.del h (List.mem_map_of_mem hr)
  rw [map_erase_co] at hdel
  exact hdel

theorem queues_nodup (h : Holds links (queues ready queue)) : (ready ++ queue).Nodup := by
  have hnd := Rings.nodup h
  simp only [queues, List.map_cons, List.map_nil, List.flatten_cons, List.flatten_nil,
    List.append_nil] at hnd
  have hmap : ((ready ++ queue).map QueueNode.co).Nodup := by
    rw [List.map_append]
    exact (hnd.sublist ((List.sublist_cons_self ..).append (List.sublist_cons_self ..)))
  exact hmap.of_map

end Queues

-- ── Timers ───────────────────────────────────────────────────────────────────

section Steps

variable {clk : Nat → Int} {links : Links QueueNode} {s s' : Sched} {co n : Nat}

/-- The links hold the queues of the scheduler. -/
abbrev Held (links : Links QueueNode) (s : Sched) : Prop :=
  ListHead.Holds links (queues s.coReadyQueue s.coQueue)

/-- **RESUME** of a coroutine on either queue. -/
theorem schedCoResume_sim (hs : Held links s)
    (h : CoSched.schedCoResume s co = some s') :
    ∃ links', schedCoResume (inMem links s) co = some (inMem links' s')
      ∧ Held links' s' := by
  obtain ⟨c, hc, hlinked, rfl⟩ := schedCoResume_cases h
  have hnd := queues_nodup hs
  refine ⟨coQueueAppend (ListHead.listDel links (.co co)) .coReadyQueue co, ?_, ?_⟩
  · rw [schedCoResume, inMem, rest, hc]
    rfl
  show Held _ { s with
    coQueue := s.coQueue.erase co, coReadyQueue := s.coReadyQueue.erase co ++ [co] }
  obtain hq | hr := hlinked
  · have hnr : co ∉ s.coReadyQueue := fun hr => List.disjoint_of_nodup_append hnd hr hq
    rw [List.erase_of_not_mem hnr]
    exact append_ready (del_queue hs hq) hnr hnd.of_append_right.not_mem_erase
  · have hnq : co ∉ s.coQueue := fun hq => List.disjoint_of_nodup_append hnd hr hq
    rw [List.erase_of_not_mem hnq]
    exact append_ready (del_ready hs hr) hnd.of_append_left.not_mem_erase hnq

theorem processExpiredLoop_sim :
    ∀ (k : Nat) (links : Links QueueNode) (s s' : Sched) (d : Int), Held links s →
      CoSched.processExpiredLoop clk k s = some (d, s') →
      ∃ links', processExpiredLoop clk k (inMem links s) = some (inMem links' s')
        ∧ Held links' s' := by
  intro k
  induction k with
  | zero =>
      intro links s s' d hs h
      cases h
      exact ⟨links, rfl, hs⟩
  | succ k ih =>
      intro links s s' d hs h
      rw [processExpiredLoop, show (inMem links s).sched.coTimerHeap = s.coTimerHeap from rfl]
      obtain ⟨htop, -, rfl⟩ | ⟨timer, htop, hlate, -, rfl⟩ |
        ⟨timer, popped, s₁, htop, hdue, hpop, hres, hloop⟩ := processExpiredLoop_cases h
      · exact ⟨links, by rw [htop]; rfl, hs⟩
      · refine ⟨links, ?_, hs⟩
        rw [htop, Option.bind_eq_bind, Option.bind_some]
        exact if_pos hlate
      · obtain ⟨links₁, hl₁, hs₁⟩ := schedCoResume_sim
          (s := { s with tick := s.tick + 1, coTimerHeap := popped.2 }) hs hres
        obtain ⟨links₂, hl₂, hs₂⟩ := ih links₁ s₁ s' d hs₁ hloop
        refine ⟨links₂, ?_, hs₂⟩
        rw [htop, Option.bind_eq_bind, Option.bind_some]
        refine (if_neg (not_lt.mpr hdue)).trans ?_
        show (heapPop s.coTimerHeap).bind _ = _
        rw [hpop, Option.bind_some]
        exact (congrArg (fun m => m.bind (processExpiredLoop clk k)) hl₁).trans hl₂

/-- **IDLE**: the timers that expire resume the same coroutines. -/
theorem waitForEvents_sim (hs : Held links s)
    (h : CoSched.waitForEvents clk s = some s') :
    ∃ links', waitForEvents clk (inMem links s) = some (inMem links' s')
      ∧ Held links' s' := by
  obtain ⟨delay, s₁, d, h₁, h₂⟩ := waitForEvents_cases h
  obtain ⟨links₁, hl₁, hs₁⟩ := processExpiredLoop_sim _ links s s₁ delay hs h₁
  obtain ⟨links₂, hl₂, hs₂⟩ := processExpiredLoop_sim _ links₁ (eventLoopRun s₁ delay) s' d hs₁ h₂
  refine ⟨links₂, ?_, hs₂⟩
  rw [waitForEvents, processExpiredTimers]
  exact (congrArg (fun m => m.bind (processExpiredTimers clk)) hl₁).trans hl₂

-- ── Steps ────────────────────────────────────────────────────────────────────

/-- **ITERATE**: `co_queue_popleft` finds the coroutine that comes first. -/
theorem mainLoopIter_sim (hs : Held links s)
    (h : CoSched.mainLoopIter clk s = some s') :
    ∃ links', mainLoopIter clk (inMem links s) = some (inMem links' s')
      ∧ Held links' s' := by
  rw [CoSched.mainLoopIter] at h
  split at h
  · rename_i hq
    obtain ⟨links', hl, hs'⟩ := waitForEvents_sim (s := { s with coCurr := none }) hs h
    refine ⟨links', ?_, hs'⟩
    rw [Held, hq] at hs
    rw [mainLoopIter, show (inMem links s).links = links from rfl, coQueuePopleft_nil hs]
    exact hl
  · rename_i co queue hq
    rw [Held, hq] at hs
    obtain ⟨links', hpop, hs'⟩ := coQueuePopleft_cons hs
    obtain ⟨c, stack, hc, hstack, rfl⟩ := schedule_cases h
    refine ⟨links', ?_, hs'⟩
    rw [mainLoopIter, show (inMem links s).links = links from rfl, hpop]
    have hc' : s.mem co = some c := hc
    have hstack' : scheduleStack s.stack c = some stack := hstack
    simp [schedule, inMem, rest, hc', hstack']

/-- A step of either scheduler: both have a result, and the same, or neither has. -/
def Lockstep (r : Option MemSched) (r' : Option Sched) : Prop :=
  (r = none ∧ r' = none) ∨ ∃ links' s', r = some (inMem links' s') ∧ r' = some s'
    ∧ Held links' s'

/-- A step of the running coroutine, which goes on with the links `g co`. -/
theorem running_lockstep {f : Nat → Option MemSched} {f' : Nat → Option Sched}
    {g : Nat → Links QueueNode}
    (heq : ∀ co, f co = (f' co).map (inMem (g co)))
    (hheld : ∀ co s', s.inCo = true → s.coCurr = some co → f' co = some s' → Held (g co) s') :
    Lockstep (running (inMem links s) f) (CoSched.running s f') := by
  have hrun : running (inMem links s) f = if s.inCo then s.coCurr.bind f else none := rfl
  rw [hrun, CoSched.running]
  by_cases hin : s.inCo = true
  · rw [if_pos hin, if_pos hin]
    cases hco : s.coCurr with
    | none => exact Or.inl ⟨rfl, rfl⟩
    | some co =>
        rw [Option.bind_some, Option.bind_some, heq co]
        cases hf : f' co with
        | none => exact Or.inl ⟨rfl, rfl⟩
        | some s' => exact Or.inr ⟨g co, s', rfl, rfl, hheld co s' hin hco hf⟩
  · rw [if_neg hin, if_neg hin]
    exact Or.inl ⟨rfl, rfl⟩

/-- Switching to `main_loop` goes by neither queue. -/
theorem scheduleYieldCoroutine_rest (s : Sched) (co n : Nat) (status : CoStatus) :
    scheduleYieldCoroutine (rest s) co n status
      = (scheduleYieldCoroutine s co n status).map rest := by
  rw [scheduleYieldCoroutine, scheduleYieldCoroutine, show (rest s).mem = s.mem from rfl]
  cases hc : s.mem co with
  | none => rfl
  | some c =>
      simp only [Option.bind_eq_bind, Option.bind_some]
      cases hsave : saveCoStack c s.stack n with
      | none =>
          rw [show (rest s).stack = s.stack from rfl, hsave]
          rfl
      | some c' =>
          rw [show (rest s).stack = s.stack from rfl, hsave]
          rfl

theorem schedYieldCoroutine_eq (links : Links QueueNode) (s : Sched) (co n : Nat) :
    schedYieldCoroutine (inMem links s) co n = (CoSched.schedYieldCoroutine s co n).map
      (inMem (coQueueAppend links .coReadyQueue co)) := by
  rw [schedYieldCoroutine, CoSched.schedYieldCoroutine]
  have hrest := scheduleYieldCoroutine_rest
    { s with coReadyQueue := CoSched.coQueueAppend s.coReadyQueue co } co n .waiting
  rw [show (inMem links s).sched
    = rest { s with coReadyQueue := CoSched.coQueueAppend s.coReadyQueue co } from rfl, hrest,
    Option.map_map]
  rfl

theorem schedSuspendCoroutine_eq (links : Links QueueNode) (s : Sched) (co n : Nat) :
    schedSuspendCoroutine (inMem links s) co n = (CoSched.schedSuspendCoroutine s co n).map
      (inMem (coQueueAppend links .coQueue co)) := by
  rw [schedSuspendCoroutine, CoSched.schedSuspendCoroutine]
  have hrest := scheduleYieldCoroutine_rest
    { s with coQueue := CoSched.coQueueAppend s.coQueue co } co n .waiting
  rw [show (inMem links s).sched
    = rest { s with coQueue := CoSched.coQueueAppend s.coQueue co } from rfl, hrest,
    Option.map_map]
  rfl

theorem schedDelay_eq (links : Links QueueNode) (s : Sched) (co : Nat) (delayMs : Int) (n : Nat) :
    schedDelay clk (inMem links s) co delayMs n = (CoSched.schedDelay clk s co delayMs n).map
      (inMem (coQueueAppend links .coQueue co)) := by
  rw [schedDelay, CoSched.schedDelay]
  dsimp only
  rw [show (inMem links s).sched.tick = s.tick from rfl,
    show (inMem links s).sched.coTimerHeap = s.coTimerHeap from rfl]
  split
  · cases hpush : heapPush s.coTimerHeap ⟨clk s.tick + delayMs, co⟩ with
    | none => rfl
    | some heap =>
        exact schedSuspendCoroutine_eq links
          { s with tick := s.tick + 1, coTimerHeap := heap } co n
  · rfl

/-- The running coroutine is on no queue. -/
theorem running_off (hp : Placed s) (hin : s.inCo = true) (hco : s.coCurr = some co) :
    co ∉ s.coReadyQueue ∧ co ∉ s.coQueue := by
  have hnd := hp.nodup
  rw [placed_running hin hco] at hnd
  have hnot : co ∉ s.coReadyQueue ++ s.coQueue := fun hmem =>
    List.disjoint_of_nodup_append hnd hmem (List.mem_singleton.mpr rfl)
  rw [List.mem_append, not_or] at hnot
  exact hnot

/-- **LOCKSTEP**: a scheduler left to itself does the same with the links as with
    the lists. -/
theorem memStep_lockstep {e : Event} (hr : Reachable clk s) (hp : Placed s)
    (hsl : ∃ l, Sleeping s l) (he : ownEvent e = true) (hs : Held links s) :
    Lockstep (memStep clk (inMem links s) e) (step clk s e) := by
  cases e with
  | iterate =>
      have hguard : memStep clk (inMem links s) .iterate
          = if s.inCo = false ∧ s.status = .running ∧ s.coNums ≠ 0 then
              mainLoopIter clk (inMem links s) else none := rfl
      rw [hguard, step]
      by_cases hg : s.inCo = false ∧ s.status = .running ∧ s.coNums ≠ 0
      · obtain ⟨l, hl⟩ := hsl
        obtain ⟨s', hs', -⟩ := iterate_kept hr hp hl hg.1 hg.2.1 hg.2.2
        rw [step, if_pos hg] at hs'
        obtain ⟨links', hl', hheld⟩ := mainLoopIter_sim hs hs'
        rw [if_pos hg, if_pos hg]
        exact Or.inr ⟨links', s', hl', hs', hheld⟩
      · rw [if_neg hg, if_neg hg]
        exact Or.inl ⟨rfl, rfl⟩
  | write stack =>
      refine running_lockstep (g := fun _ => links) (fun co => rfl) ?_
      rintro co s' - - ⟨⟩
      exact hs
  | yield n =>
      refine running_lockstep (fun co => schedYieldCoroutine_eq links s co n) ?_
      intro co s' hin hco hy
      obtain ⟨hnr, hnq⟩ := running_off hp hin hco
      obtain ⟨c, c', -, -, rfl⟩ := scheduleYieldCoroutine_cases hy
      exact append_ready hs hnr hnq
  | suspend n => cases he
  | delay delayMs n =>
      refine running_lockstep (fun co => schedDelay_eq links s co delayMs n) ?_
      intro co s' hin hco hd
      obtain ⟨hnr, hnq⟩ := running_off hp hin hco
      obtain ⟨heap, -, hy⟩ := schedDelay_cases hd
      obtain ⟨c, c', -, -, rfl⟩ := scheduleYieldCoroutine_cases hy
      exact append_queue hs hnr hnq
  | done =>
      refine running_lockstep (g := fun _ => links) (fun co => rfl) ?_
      rintro co s' - - ⟨⟩
      exact hs
  | submit co =>
      have hguard : memStep clk (inMem links s) (.submit co)
          = if s.mem co = none then some (schedSched (inMem links s) co) else none := rfl
      rw [hguard, step]
      by_cases hnew : s.mem co = none
      · have hnot : co ∉ placed s := by
          rw [hp.live, hnew]
          exact Bool.false_ne_true
        rw [placed, List.mem_append, List.mem_append, not_or, not_or] at hnot
        obtain ⟨⟨hnr, hnq⟩, -⟩ := hnot
        rw [if_pos hnew, if_pos hnew]
        refine Or.inr ⟨_, _, rfl, rfl, ?_⟩
        exact append_ready (ListHead.Holds.init_node hs (off_queues hnr hnq)) hnr hnq
      · rw [if_neg hnew, if_neg hnew]
        exact Or.inl ⟨rfl, rfl⟩
  | resume co => cases he
  | wakeup => exact Or.inr ⟨links, _, rfl, rfl, hs⟩

end Steps

-- ── Runs ─────────────────────────────────────────────────────────────────────

/-- The links show the queues of `s`, and all else is the same. -/
structure Shows (m : MemSched) (s : Sched) : Prop where
  rest : m.sched = rest s
  ready : Shown m.links .coReadyQueue (s.coReadyQueue.map .co)
  queue : Shown m.links .coQueue (s.coQueue.map .co)

/-- Reached in lockstep. -/
def Same (m : MemSched) (s : Logged) : Prop :=
  ∃ links, m = inMem links s.sched ∧ Held links s.sched

theorem Same.shows {m : MemSched} {s : Logged} (h : Same m s) : Shows m s.sched := by
  obtain ⟨links, rfl, hs⟩ := h
  exact { rest := rfl, ready := ListHead.Holds.shown hs, queue := (swap_queues hs).shown }

theorem held_create (links : Links QueueNode) :
    Held (initListHead (initListHead links .coQueue) .coReadyQueue) schedCreate := by
  exact ((ListHead.holds_nil links).init (by simp [Off])).init (by simp [Off])

/-- **REFINEMENT**: the scheduler that keeps its queues in memory, and the one
    that keeps them as lists, have the same runs.  In memory the calls of
    `event_loop_run` are not recorded; no step reads `evCalls`. -/
theorem sched_links_refine (clk : Nat → Int) :
    (∀ m, MemRun clk m → ∃ s, OwnRun clk s ∧ Shows m s.sched)
      ∧ ∀ s, OwnRun clk s → ∃ m, MemRun clk m ∧ Shows m s.sched := by
  have hruns : (∀ m, MemRun clk m → ∃ s, OwnRun clk s ∧ Same m s)
      ∧ ∀ s, OwnRun clk s → ∃ m, MemRun clk m ∧ Same m s := by
    refine Reach.bisimulate ?_ ?_ ?_ ?_
    · rintro m ⟨links, rfl⟩
      exact ⟨_, rfl, _, rfl, held_create links⟩
    · rintro s rfl
      exact ⟨_, ⟨{ next := id, prev := id }, rfl⟩, _, rfl, held_create _⟩
    · rintro m s e m' hr ⟨links, rfl, hs⟩ ⟨he, hstep⟩
      have h := ownRun_inv clk s hr
      obtain ⟨hnone, -⟩ | ⟨links', s', hm', hs', hheld⟩ :=
        memStep_lockstep h.reach h.placed h.sleeping he hs
      · rw [fires, hnone] at hstep
        cases hstep
      · rw [fires, hm'] at hstep
        cases hstep
        refine ⟨⟨s', s.entered ++ entering clk s.sched e⟩, ⟨he, ?_⟩, links', rfl, hheld⟩
        rw [fires, loggedStep, hs', Option.map_some]
    · rintro m s e s' hr ⟨links, rfl, hs⟩ ⟨he, hstep⟩
      have h := ownRun_inv clk s hr
      obtain ⟨t, hs', rfl⟩ := Option.map_eq_some_iff.mp hstep
      obtain ⟨-, hnone⟩ | ⟨links', t', hm', ht', hheld⟩ :=
        memStep_lockstep h.reach h.placed h.sleeping he hs
      · rw [hnone] at hs'
        cases hs'
      · rw [hs'] at ht'
        cases ht'
        exact ⟨inMem links' t, ⟨he, hm'⟩, links', rfl, hheld⟩
  constructor
  · intro m hm
    obtain ⟨s, hs, h⟩ := hruns.1 m hm
    exact ⟨s, hs, h.shows⟩
  · intro s hs
    obtain ⟨m, hm, h⟩ := hruns.2 s hs
    exact ⟨m, hm, h.shows⟩

end CoMem
