import TreasureHouse.LabelledRunProofs
import TreasureHouse.CondVarProofs

/-! # `threadpool/threadpool.c` — lock-protected sections and their steps

    A step is one section under `wq->lock` or the part of a section under
    `pool->lock` up to the next section under `wq->lock` that is nested in it:
    `threadpool_submit` holds `pool->lock` from its checks to the end of
    `workqueue_put`, and `threadpool_shutdown` holds it around
    `workqueue_stop`, while workers take `wq->lock` in between.  `lock` says
    who holds `pool->lock` between two steps; `wq->lock` is never held there.

    Any thread may submit at any time, so tasks that submit are covered.
    Threads blocked in `pthread_cond_wait` may wake up without a signal.  Left
    out is `clean_task`, and allocations of `struct work` succeed.  The `int`
    `num` has no bound here, so fewer than 2^31 works wait at a time;
    `threads_num` stays within `max_threads`.

    The lists from `accepted` on record what happened: no step reads them. -/

namespace Threadpool

open LabelledRun CondVar

/-- `enum work_status`. -/
inductive WorkStatus where
  | init
  | running
  | stopping
  | stopped
  deriving DecidableEq

/-- `struct work`: its task, and the number of the `threadpool_submit` call it
    is made for. -/
structure Work where
  call : Nat
  task : Nat
  deriving DecidableEq

/-- Where a worker is in `worker_fn`. -/
inductive Worker where
  /-- before `workqueue_get` -/
  | arriving
  /-- in `pthread_cond_wait` on `wq->signal` -/
  | blocked
  /-- woken from it, not yet holding `wq->lock` -/
  | signalled
  /-- in `do_work` -/
  | working (work : Work)
  /-- got NULL -/
  | exiting
  /-- past its section under `pool->lock` -/
  | exited
  deriving DecidableEq

/-- A thread in `threadpool_wait`. -/
inductive Waiter where
  | blocked
  | signalled
  | returned
  deriving DecidableEq

/-- Who holds `pool->lock`. -/
inductive PoolLock where
  | free
  /-- `threadpool_submit`, before `workqueue_put` -/
  | submitting (work : Work)
  /-- `threadpool_shutdown`, before `workqueue_stop` -/
  | stopping
  /-- `threadpool_shutdown`, after `workqueue_stop` -/
  | stopped
  deriving DecidableEq

/-- `struct workqueue`. -/
structure Workqueue where
  list : List Work
  num : Nat
  status : WorkStatus

/-- `struct threadpool` with its threads; `threads` lists the slots of
    `pool->threads` that `pthread_create` filled. -/
structure Pool where
  maxThreads : Int
  threadsNum : Nat
  lock : PoolLock
  status : WorkStatus
  queue : Workqueue
  threads : List Nat
  workers : List Worker
  waiters : List Waiter
  calls : Nat
  accepted : List Work
  rejected : List Work
  started : List (Nat × Work)
  finished : List (Nat × Work)

-- ── The work queue ───────────────────────────────────────────────────────────

/-- `init_workqueue`. -/
def initWorkqueue : Workqueue where
  list := []
  num := 0
  status := .running

/-- What a round of `workqueue_get` comes to. -/
inductive GetResult where
  | wait
  | null
  | work (work : Work)

/-- `workqueue_get` from holding `wq->lock` to releasing it or waiting.  A
    queue with `num` above 0 and nothing on the list has no result. -/
def workqueueGet (wq : Workqueue) : Option (GetResult × Workqueue) :=
  if wq.num = 0 then
    if wq.status ≠ .running then some (.null, wq) else some (.wait, wq)
  else
    match wq.list with
    | work :: list => some (.work work, { wq with list := list, num := wq.num - 1 })
    | [] => none

/-- `workqueue_put`, its queue. -/
def workqueuePut (wq : Workqueue) (work : Work) : Workqueue :=
  { wq with list := wq.list ++ [work], num := wq.num + 1 }

/-- `workqueue_put`, its signal: only a queue with `num` at 0 is signalled. -/
def workqueueSignal (wq : Workqueue) (workers : List Worker) (woken : Option Nat) :
    Option (List Worker) :=
  if wq.num = 0 then signal .blocked .signalled workers woken else some workers

/-- `workqueue_stop`, its queue. -/
def workqueueStop (wq : Workqueue) : Workqueue := { wq with status := .stopping }

-- ── The pool ─────────────────────────────────────────────────────────────────

/-- `threadpool_create`. -/
def threadpoolCreate (cpuNum maxThreads : Int) : Pool where
  maxThreads := min (cpuNum * 3) maxThreads
  threadsNum := 0
  lock := .free
  status := .running
  queue := initWorkqueue
  threads := []
  workers := []
  waiters := []
  calls := 0
  accepted := []
  rejected := []
  started := []
  finished := []

/-- `create_new_thread` when `pthread_create` succeeds. -/
def createNewThread (pool : Pool) : Pool :=
  { pool with
    threads := pool.threads ++ [pool.threadsNum]
    workers := pool.workers ++ [.arriving]
    threadsNum := pool.threadsNum + 1 }

/-- The path through `failed` in `threadpool_submit`. -/
def submitFailed (pool : Pool) (work : Work) : Pool :=
  { pool with rejected := pool.rejected ++ [work] }

/-- `threadpool_submit` up to `workqueue_put`; `created` is whether
    `pthread_create` succeeds. -/
def threadpoolSubmit (pool : Pool) (task : Nat) (created : Bool) : Pool :=
  let work : Work := ⟨pool.calls, task⟩
  let pool := { pool with calls := pool.calls + 1 }
  if pool.status ≠ .running then submitFailed pool work
  else if (pool.threadsNum : Int) < pool.maxThreads then
    if created then { createNewThread pool with lock := .submitting work }
    else submitFailed pool work
  else { pool with lock := .submitting work }

/-- The rest of `threadpool_submit`. -/
def submitPut (pool : Pool) (work : Work) (woken : Option Nat) : Option Pool :=
  (workqueueSignal pool.queue pool.workers woken).map fun workers =>
    { pool with
      workers := workers
      queue := workqueuePut pool.queue work
      lock := .free
      accepted := pool.accepted ++ [work] }

/-- Worker `w` in `workqueue_get`. -/
def workerGet (pool : Pool) (w : Nat) : Option Pool :=
  (workqueueGet pool.queue).map fun r =>
    match r.1 with
    | .wait => { pool with workers := pool.workers.set w .blocked, queue := r.2 }
    | .null => { pool with workers := pool.workers.set w .exiting, queue := r.2 }
    | .work work =>
        { pool with
          workers := pool.workers.set w (.working work)
          queue := r.2
          started := pool.started ++ [(w, work)] }

/-- The section of `worker_fn` under `pool->lock`. -/
def workerExit (pool : Pool) (w : Nat) (woken : Option Nat) : Option Pool :=
  let pool := { pool with
    workers := pool.workers.set w .exited
    threadsNum := pool.threadsNum - 1 }
  if pool.threadsNum = 0 then
    (signal .blocked .signalled pool.waiters woken).map fun waiters =>
      { pool with status := .stopped, waiters := waiters }
  else some pool

/-- `threadpool_shutdown` after `workqueue_stop`. -/
def shutdownEnd (pool : Pool) (woken : Option Nat) : Option Pool :=
  if pool.threadsNum = 0 then
    (signal .blocked .signalled pool.waiters woken).map fun waiters =>
      { pool with status := .stopped, waiters := waiters, lock := .free }
  else some { pool with lock := .free }

/-- A round of the loop of `threadpool_wait`. -/
def threadpoolWait (pool : Pool) : Waiter :=
  if pool.status ≠ .stopped then .blocked else .returned

-- ── Steps ────────────────────────────────────────────────────────────────────

/-- The steps; `woken` is the sleeper a signal picks. -/
inductive Event where
  | submit (task : Nat) (created : Bool)
  | put (woken : Option Nat)
  | get (w : Nat)
  | wakeWorker (w : Nat)
  | finish (w : Nat)
  | exit (w : Nat) (woken : Option Nat)
  | shutdown
  | stopQueue
  | shutdownEnd (woken : Option Nat)
  | wait
  | waitAgain (t : Nat)
  | wakeWaiter (t : Nat)

def step (pool : Pool) : Event → Option Pool
  | .submit task created =>
      if pool.lock = .free then some (threadpoolSubmit pool task created) else none
  | .put woken =>
      match pool.lock with
      | .submitting work => submitPut pool work woken
      | _ => none
  | .get w =>
      if pool.workers[w]? = some .arriving ∨ pool.workers[w]? = some .signalled then
        workerGet pool w
      else none
  | .wakeWorker w =>
      if pool.workers[w]? = some .blocked then
        some { pool with workers := pool.workers.set w .signalled }
      else none
  | .finish w =>
      match pool.workers[w]? with
      | some (.working work) =>
          some { pool with
            workers := pool.workers.set w .arriving
            finished := pool.finished ++ [(w, work)] }
      | _ => none
  | .exit w woken =>
      if pool.workers[w]? = some .exiting ∧ pool.lock = .free then workerExit pool w woken
      else none
  | .shutdown =>
      if pool.lock = .free then some { pool with status := .stopping, lock := .stopping }
      else none
  | .stopQueue =>
      if pool.lock = .stopping then
        some { pool with
          queue := workqueueStop pool.queue
          workers := broadcast .blocked .signalled pool.workers
          lock := .stopped }
      else none
  | .shutdownEnd woken => if pool.lock = .stopped then shutdownEnd pool woken else none
  | .wait =>
      if pool.lock = .free then
        some { pool with waiters := pool.waiters ++ [threadpoolWait pool] }
      else none
  | .waitAgain t =>
      if pool.waiters[t]? = some .signalled ∧ pool.lock = .free then
        some { pool with waiters := pool.waiters.set t (threadpoolWait pool) }
      else none
  | .wakeWaiter t =>
      if pool.waiters[t]? = some .blocked then
        some { pool with waiters := pool.waiters.set t .signalled }
      else none

/-- What a step can do, with the checks that let it. -/
inductive Step (pool : Pool) : Event → Pool → Prop where
  | submitFailed {task created} (free : pool.lock = .free) :
      Step pool (.submit task created)
        { pool with calls := pool.calls + 1, rejected := pool.rejected ++ [⟨pool.calls, task⟩] }
  | submitCreated {task created} (free : pool.lock = .free) (running : pool.status = .running)
      (room : (pool.threadsNum : Int) < pool.maxThreads) :
      Step pool (.submit task created)
        { createNewThread pool with
          calls := pool.calls + 1
          lock := .submitting ⟨pool.calls, task⟩ }
  | submitEnough {task created} (free : pool.lock = .free) (running : pool.status = .running)
      (room : ¬ (pool.threadsNum : Int) < pool.maxThreads) :
      Step pool (.submit task created)
        { pool with calls := pool.calls + 1, lock := .submitting ⟨pool.calls, task⟩ }
  | put {woken work workers} (lock : pool.lock = .submitting work)
      (signalled : workqueueSignal pool.queue pool.workers woken = some workers) :
      Step pool (.put woken)
        { pool with
          workers := workers
          queue := workqueuePut pool.queue work
          lock := .free
          accepted := pool.accepted ++ [work] }
  | getWait {w a} (at_w : pool.workers[w]? = some a) (way : a = .arriving ∨ a = .signalled)
      (num : pool.queue.num = 0) (running : pool.queue.status = .running) :
      Step pool (.get w) { pool with workers := pool.workers.set w .blocked }
  | getNull {w a} (at_w : pool.workers[w]? = some a) (way : a = .arriving ∨ a = .signalled)
      (num : pool.queue.num = 0) (stop : pool.queue.status ≠ .running) :
      Step pool (.get w) { pool with workers := pool.workers.set w .exiting }
  | getWork {w a work list} (at_w : pool.workers[w]? = some a)
      (way : a = .arriving ∨ a = .signalled) (num : pool.queue.num ≠ 0)
      (head : pool.queue.list = work :: list) :
      Step pool (.get w)
        { pool with
          workers := pool.workers.set w (.working work)
          queue := { pool.queue with list := list, num := pool.queue.num - 1 }
          started := pool.started ++ [(w, work)] }
  | wakeWorker {w} (at_w : pool.workers[w]? = some .blocked) :
      Step pool (.wakeWorker w) { pool with workers := pool.workers.set w .signalled }
  | finish {w work} (at_w : pool.workers[w]? = some (.working work)) :
      Step pool (.finish w)
        { pool with
          workers := pool.workers.set w .arriving
          finished := pool.finished ++ [(w, work)] }
  | exitMore {w woken} (at_w : pool.workers[w]? = some .exiting) (free : pool.lock = .free)
      (more : pool.threadsNum - 1 ≠ 0) :
      Step pool (.exit w woken)
        { pool with workers := pool.workers.set w .exited, threadsNum := pool.threadsNum - 1 }
  | exitLast {w woken waiters} (at_w : pool.workers[w]? = some .exiting)
      (free : pool.lock = .free) (last : pool.threadsNum - 1 = 0)
      (signalled : signal .blocked .signalled pool.waiters woken = some waiters) :
      Step pool (.exit w woken)
        { pool with
          workers := pool.workers.set w .exited
          threadsNum := pool.threadsNum - 1
          status := .stopped
          waiters := waiters }
  | shutdown (free : pool.lock = .free) :
      Step pool .shutdown { pool with status := .stopping, lock := .stopping }
  | stopQueue (lock : pool.lock = .stopping) :
      Step pool .stopQueue
        { pool with
          queue := workqueueStop pool.queue
          workers := broadcast .blocked .signalled pool.workers
          lock := .stopped }
  | shutdownMore {woken} (lock : pool.lock = .stopped) (more : pool.threadsNum ≠ 0) :
      Step pool (.shutdownEnd woken) { pool with lock := .free }
  | shutdownLast {woken waiters} (lock : pool.lock = .stopped) (last : pool.threadsNum = 0)
      (signalled : signal .blocked .signalled pool.waiters woken = some waiters) :
      Step pool (.shutdownEnd woken)
        { pool with status := .stopped, waiters := waiters, lock := .free }
  | wait (free : pool.lock = .free) :
      Step pool .wait { pool with waiters := pool.waiters ++ [threadpoolWait pool] }
  | waitAgain {t} (at_t : pool.waiters[t]? = some .signalled) (free : pool.lock = .free) :
      Step pool (.waitAgain t) { pool with waiters := pool.waiters.set t (threadpoolWait pool) }
  | wakeWaiter {t} (at_t : pool.waiters[t]? = some .blocked) :
      Step pool (.wakeWaiter t) { pool with waiters := pool.waiters.set t .signalled }

theorem submit_cases {pool : Pool} {task : Nat} {created : Bool} (free : pool.lock = .free) :
    Step pool (.submit task created) (threadpoolSubmit pool task created) := by
  rw [threadpoolSubmit]
  by_cases hrun : pool.status = .running
  · rw [if_neg (not_not.mpr hrun)]
    by_cases hroom : (pool.threadsNum : Int) < pool.maxThreads
    · rw [if_pos hroom]
      cases created with
      | true => exact .submitCreated free hrun hroom
      | false => exact .submitFailed free
    · rw [if_neg hroom]
      exact .submitEnough free hrun hroom
  · rw [if_pos hrun]
    exact .submitFailed free

theorem get_cases {pool pool' : Pool} {w : Nat} {a : Worker} (at_w : pool.workers[w]? = some a)
    (way : a = .arriving ∨ a = .signalled) (h : workerGet pool w = some pool') :
    Step pool (.get w) pool' := by
  rw [workerGet, workqueueGet] at h
  by_cases hnum : pool.queue.num = 0
  · rw [if_pos hnum] at h
    by_cases hstop : pool.queue.status ≠ .running
    · rw [if_pos hstop] at h
      cases h
      exact .getNull at_w way hnum hstop
    · rw [if_neg hstop] at h
      cases h
      exact .getWait at_w way hnum (not_not.mp hstop)
  · rw [if_neg hnum] at h
    rcases hlist : pool.queue.list with _ | ⟨work, list⟩
    · rw [hlist] at h
      cases h
    · rw [hlist] at h
      cases h
      exact .getWork at_w way hnum hlist

theorem exit_cases {pool pool' : Pool} {w : Nat} {woken : Option Nat}
    (at_w : pool.workers[w]? = some .exiting) (free : pool.lock = .free)
    (h : workerExit pool w woken = some pool') : Step pool (.exit w woken) pool' := by
  rw [workerExit] at h
  by_cases hlast : pool.threadsNum - 1 = 0
  · rw [if_pos hlast, Option.map_eq_some_iff] at h
    obtain ⟨waiters, hsignal, rfl⟩ := h
    exact .exitLast at_w free hlast hsignal
  · rw [if_neg hlast] at h
    cases h
    exact .exitMore at_w free hlast

theorem shutdownEnd_cases {pool pool' : Pool} {woken : Option Nat} (lock : pool.lock = .stopped)
    (h : shutdownEnd pool woken = some pool') : Step pool (.shutdownEnd woken) pool' := by
  rw [shutdownEnd] at h
  by_cases hnone : pool.threadsNum = 0
  · rw [if_pos hnone, Option.map_eq_some_iff] at h
    obtain ⟨waiters, hsignal, rfl⟩ := h
    exact .shutdownLast lock hnone hsignal
  · rw [if_neg hnone] at h
    cases h
    exact .shutdownMore lock hnone

/-- Every step is one of the cases. -/
theorem step_cases {pool pool' : Pool} {e : Event} (h : step pool e = some pool') :
    Step pool e pool' := by
  cases e with
  | submit task created =>
      rw [step, Option.ite_none_right_eq_some] at h
      obtain ⟨free, h⟩ := h
      cases h
      exact submit_cases free
  | put woken =>
      rw [step] at h
      split at h
      · rename_i work lock
        obtain ⟨workers, hsignal, rfl⟩ := Option.map_eq_some_iff.mp h
        exact .put lock hsignal
      · cases h
  | get w =>
      rw [step, Option.ite_none_right_eq_some] at h
      obtain ⟨ha | hs, h⟩ := h
      · exact get_cases ha (Or.inl rfl) h
      · exact get_cases hs (Or.inr rfl) h
  | wakeWorker w =>
      rw [step, Option.ite_none_right_eq_some] at h
      obtain ⟨at_w, h⟩ := h
      cases h
      exact .wakeWorker at_w
  | finish w =>
      rw [step] at h
      split at h
      · rename_i work at_w
        cases h
        exact .finish at_w
      · cases h
  | exit w woken =>
      rw [step, Option.ite_none_right_eq_some] at h
      exact exit_cases h.1.1 h.1.2 h.2
  | shutdown =>
      rw [step, Option.ite_none_right_eq_some] at h
      obtain ⟨free, h⟩ := h
      cases h
      exact .shutdown free
  | stopQueue =>
      rw [step, Option.ite_none_right_eq_some] at h
      obtain ⟨lock, h⟩ := h
      cases h
      exact .stopQueue lock
  | shutdownEnd woken =>
      rw [step, Option.ite_none_right_eq_some] at h
      exact shutdownEnd_cases h.1 h.2
  | wait =>
      rw [step, Option.ite_none_right_eq_some] at h
      obtain ⟨free, h⟩ := h
      cases h
      exact .wait free
  | waitAgain t =>
      rw [step, Option.ite_none_right_eq_some] at h
      obtain ⟨⟨at_t, free⟩, h⟩ := h
      cases h
      exact .waitAgain at_t free
  | wakeWaiter t =>
      rw [step, Option.ite_none_right_eq_some] at h
      obtain ⟨at_t, h⟩ := h
      cases h
      exact .wakeWaiter at_t

/-- The start states: `threadpool_create` with room for a worker. -/
def Created (pool : Pool) : Prop :=
  ∃ cpuNum maxThreads, pool = threadpoolCreate cpuNum maxThreads ∧ 1 ≤ pool.maxThreads

/-- The states of all interleavings. -/
def Reachable (pool : Pool) : Prop := Reach Created (fires step) pool

end Threadpool
