import Mathlib.Data.List.Range
import TreasureHouse.ThreadpoolRunProofs

/-! # Stopping the thread pool — slots, status and the threads that wait

    `threads_num` is the next free slot of `pool->threads` and the number of
    live workers at once.  The two agree while the status is running, for no
    worker leaves before the queue is stopped; after that nothing is submitted
    and no slot is written.  A pool that was stopped stays so: a repeated
    `threadpool_shutdown` stores STATUS_STOPPING, and STATUS_STOPPED again
    before it gives the lock back (`threadpool_slots`).

    STATUS_STOPPED is announced with `pthread_cond_signal`, so each store of it
    wakes one thread of `threadpool_wait`.  Nobody is left asleep exactly when
    no store finds two of them (`waiters_woken`). -/

namespace ThreadpoolStop

open LabelledRun CondVar Threadpool ThreadpoolRun

-- ── Slots ────────────────────────────────────────────────────────────────────

/-- `create_new_thread` filled one slot after the other, one for each worker. -/
structure SlotsInv (pool : Pool) : Prop where
  filled : pool.threads = List.range pool.workers.length
  room : (pool.workers.length : Int) ≤ pool.maxThreads

/-- While the status is running every worker is alive, so `threads_num` is the
    first slot that was never filled. -/
theorem threadsNum_running {pool : Pool} (h : PoolInv pool) (running : pool.status = .running) :
    pool.threadsNum = pool.workers.length := by
  rw [show pool.threadsNum = _ from h.threads, List.countP_eq_length]
  intro w hw
  rw [alive, decide_eq_true_eq]
  rintro rfl
  exact h.phase.not_over running (h.phase.gone (Or.inr hw)).1

theorem SlotsInv.same {pool pool' : Pool} (h : SlotsInv pool) (ht : pool'.threads = pool.threads)
    (hw : pool'.workers.length = pool.workers.length) (hm : pool'.maxThreads = pool.maxThreads) :
    SlotsInv pool' where
  filled := by rw [ht, hw, h.filled]
  room := by rw [hw, hm]; exact h.room

theorem slotsInv_step {pool pool' : Pool} {e : Event} (hp : PoolInv pool) (h : SlotsInv pool)
    (hs : Step pool e pool') : SlotsInv pool' := by
  cases hs with
  | submitCreated free running room =>
      have hnum := threadsNum_running hp running
      refine ⟨?_, ?_⟩
      · show pool.threads ++ [pool.threadsNum]
          = List.range (pool.workers ++ [Worker.arriving]).length
        rw [hnum, h.filled, List.length_append, List.length_singleton, List.range_succ]
      · show ((pool.workers ++ [Worker.arriving]).length : Int) ≤ pool.maxThreads
        rw [List.length_append, List.length_singleton]
        omega
  | put lock signalled => exact h.same rfl (workqueueSignal_length signalled) rfl
  | getWait | getNull | getWork | wakeWorker | finish | exitMore | exitLast =>
      exact h.same rfl List.length_set rfl
  | stopQueue => exact h.same rfl (List.length_map _) rfl
  | _ => exact h.same rfl rfl rfl

theorem slotsInv {pool : Pool} (h : Reachable pool) : SlotsInv pool := by
  refine Reach.invariant (I := SlotsInv) ?_ ?_ pool h
  · rintro pool ⟨cpuNum, maxThreads, rfl, hmax⟩
    exact ⟨rfl, Int.le_trans (Int.ofNat_le.mpr (Nat.zero_le 1)) hmax⟩
  · intro pool e pool' hr h hstep
    exact slotsInv_step (reachable_inv pool hr) h (step_cases hstep)

-- ── The status ───────────────────────────────────────────────────────────────

/-- The values of `enum work_status`. -/
def statusRank : WorkStatus → Nat
  | .init => 0
  | .running => 1
  | .stopping => 2
  | .stopped => 3

/-- No `threadpool_shutdown` is under way: what the status is then, the next
    holder of `pool->lock` sees. -/
def Seen (pool : Pool) : Prop := pool.lock ≠ .stopping ∧ pool.lock ≠ .stopped

/-- The status, or the one that the `threadpool_shutdown` under way will leave. -/
def seenRank (pool : Pool) : Nat :=
  match pool.lock with
  | .stopping | .stopped => if pool.threadsNum = 0 then 3 else 2
  | .free | .submitting _ => statusRank pool.status

theorem seenRank_seen {pool : Pool} (h : Seen pool) : seenRank pool = statusRank pool.status := by
  rw [seenRank]
  cases hl : pool.lock with
  | free | submitting => rfl
  | stopping => exact absurd hl h.1
  | stopped => exact absurd hl h.2

theorem seenRank_free {pool : Pool} (free : pool.lock = .free) :
    seenRank pool = statusRank pool.status := by
  rw [seenRank, free]

theorem statusRank_le (status : WorkStatus) : statusRank status ≤ 3 := by
  cases status <;> decide

/-- `STATUS_INIT` is not used by a pool. -/
theorem status_ne_init {pool : Pool} (h : Reachable pool) : pool.status ≠ .init := by
  refine Reach.invariant (I := fun pool => pool.status ≠ .init) ?_ ?_ pool h
  · rintro pool ⟨cpuNum, maxThreads, rfl, -⟩
    exact WorkStatus.noConfusion
  · intro pool e pool' _ h hstep
    cases step_cases hstep with
    | exitLast | shutdown | shutdownLast => exact WorkStatus.noConfusion
    | _ => exact h

/-- What will be seen never goes back. -/
theorem seenRank_step {pool pool' : Pool} {e : Event} (hr : Reachable pool)
    (hs : Step pool e pool') : seenRank pool ≤ seenRank pool' := by
  have hp := reachable_inv pool hr
  cases hs with
  | submitFailed free => exact Nat.le_of_eq rfl
  | submitCreated free running | submitEnough free running =>
      rw [seenRank_free free]
      exact Nat.le_refl _
  | put lock =>
      rw [seenRank, lock]
      exact Nat.le_refl _
  | exitMore at_w free =>
      rw [seenRank_free free, seenRank_free (by exact free)]
  | exitLast at_w free =>
      rw [seenRank_free free, seenRank_free (by exact free)]
      exact statusRank_le _
  | shutdown free =>
      rw [seenRank_free free]
      show statusRank pool.status ≤ if pool.threadsNum = 0 then 3 else 2
      by_cases hnone : pool.threadsNum = 0
      · rw [if_pos hnone]
        exact statusRank_le _
      · -- only a pool without workers is stopped already
        rw [if_neg hnone]
        cases hst : pool.status with
        | stopped => exact absurd (hp.phase.stopped hst).1 hnone
        | init | running | stopping => decide
  | stopQueue lock =>
      rw [seenRank, lock]
      exact Nat.le_refl _
  | shutdownMore lock more =>
      rw [seenRank, lock, seenRank_free (by rfl)]
      show (if pool.threadsNum = 0 then 3 else 2) ≤ statusRank pool.status
      rw [if_neg more]
      cases hst : pool.status with
      | init => exact absurd hst (status_ne_init hr)
      | running => exact (hp.phase.not_over hst (hp.phase.lock_stopped lock)).elim
      | stopping | stopped => decide
  | shutdownLast lock last =>
      rw [seenRank, lock]
      show (if pool.threadsNum = 0 then 3 else 2) ≤ 3
      rw [if_pos last]
  | _ => exact Nat.le_refl _

-- ── A stopped pool ───────────────────────────────────────────────────────────

/-- No worker is left and the work queue is empty. -/
structure Emptied (pool : Pool) : Prop where
  workers : ∀ w ∈ pool.workers, w = .exited
  list : pool.queue.list = []
  num : pool.queue.num = 0

/-- The queue was stopped and the last worker is gone. -/
def Over (pool : Pool) : Prop := pool.threadsNum = 0 ∧ pool.queue.status ≠ .running

theorem over_step {pool pool' : Pool} {e : Event} (hp : PoolInv pool) (h : Over pool)
    (hs : Step pool e pool') : Over pool' := by
  obtain ⟨hnone, hstop⟩ := h
  cases hs with
  | submitCreated free running | submitEnough free running =>
      exact (hp.phase.not_over running hstop).elim
  | put lock => exact (hp.phase.not_over (hp.phase.submitting _ lock).1 hstop).elim
  | exitMore at_w free more => exact absurd (by rw [hnone]) more
  | exitLast at_w free last => exact ⟨last, hstop⟩
  | stopQueue => exact ⟨hnone, WorkStatus.noConfusion⟩
  | _ => exact ⟨hnone, hstop⟩

theorem Over.emptied {pool : Pool} (hp : PoolInv pool) (h : Over pool) : Emptied pool := by
  obtain ⟨hall, hlist⟩ := hp.drained h.1
  exact { workers := hall, list := hlist, num := by rw [hp.queue.num, hlist, List.length_nil] }

/-- What holds of every later state: the status seen has not gone back, and a
    stopped pool is empty. -/
structure Later (pool pool' : Pool) : Prop where
  status : Seen pool → Seen pool' → statusRank pool.status ≤ statusRank pool'.status
  emptied : pool.status = .stopped → Emptied pool'

theorem later_of_reach {pool pool' : Pool} (h : Reachable pool)
    (hlater : Reach (fun p => p = pool) (fires step) pool') : Later pool pool' := by
  have hrank : seenRank pool ≤ seenRank pool' := by
    refine Reach.invariant (I := fun p => seenRank pool ≤ seenRank p) ?_ ?_ pool' hlater
    · rintro p rfl
      exact Nat.le_refl _
    · intro p e p' hr hle hstep
      exact Nat.le_trans hle (seenRank_step (h.after hr) (step_cases hstep))
  have hover : pool.status = .stopped → Over pool' := by
    intro hst
    refine Reach.invariant (I := Over) ?_ ?_ pool' hlater
    · rintro p rfl
      exact (reachable_inv p h).phase.stopped hst
    · intro p e p' hr hov hstep
      exact over_step (reachable_inv p (h.after hr)) hov (step_cases hstep)
  exact {
    status := by
      intro hseen hseen'
      rwa [seenRank_seen hseen, seenRank_seen hseen'] at hrank
    emptied := fun hst => (hover hst).emptied (reachable_inv pool' (h.after hlater)) }

/-- The slots of `pool->threads`: those filled are in range and distinct, and
    the one that `create_new_thread` would write next is free. -/
structure SlotsOk (pool : Pool) : Prop where
  bound : ∀ i ∈ pool.threads, (i : Int) < pool.maxThreads
  once : pool.threads.Nodup
  next : pool.status = .running → pool.threadsNum ∉ pool.threads

/-- **SLOTS, COUNT AND STATUS** in every interleaving: `create_new_thread`
    stays in range and uses no slot twice, `threads_num` counts the live
    workers, and the status seen only goes from running over stopping to
    stopped, when nobody is left and the queue is empty for good. -/
theorem threadpool_slots {pool : Pool} (h : Reachable pool) :
    SlotsOk pool ∧ pool.threadsNum = pool.workers.countP alive ∧ pool.status ≠ .init
      ∧ ∀ pool', Reach (fun p => p = pool) (fires step) pool' → Later pool pool' := by
  have hp := reachable_inv pool h
  have hslots := slotsInv h
  refine ⟨?_, hp.threads, status_ne_init h, fun pool' => later_of_reach h⟩
  exact {
    bound := by
      intro i hi
      rw [hslots.filled, List.mem_range] at hi
      have := hslots.room
      omega
    once := by
      rw [hslots.filled]
      exact List.nodup_range
    next := by
      intro running hmem
      rw [hslots.filled, List.mem_range, threadsNum_running hp running] at hmem
      exact Nat.lt_irrefl _ hmem }

/-- A `pthread_create` fails, one succeeds, and after the worker left the pool
    is shut down again. -/
theorem threadpool_slots_again :
    ∃ pool, Reachable pool ∧ pool.threads = [0] ∧ pool.status = .stopped ∧ SlotsOk pool
      ∧ pool.threadsNum = 0 ∧ Later pool pool := by
  have hinit : Reach Created (fires step) (threadpoolCreate 4 1) :=
    Reach.start ⟨4, 1, rfl, by decide⟩
  obtain ⟨pool, hr, ht⟩ := Reach.exists_of_runList
    [.submit 70 false, .submit 71 true, .put none, .get 0, .shutdown, .stopQueue, .finish 0,
      .shutdownEnd none, .get 0, .exit 0 none, .shutdown, .stopQueue, .shutdownEnd none,
      .submit 72 true]
    (fun (pool : Pool) => decide (pool.threads = [0]) && decide (pool.status = .stopped)
      && decide (pool.threadsNum = 0)) hinit (by decide)
  rw [Bool.and_eq_true, Bool.and_eq_true, decide_eq_true_eq, decide_eq_true_eq,
    decide_eq_true_eq] at ht
  obtain ⟨hslots, -, -, hlater⟩ := threadpool_slots hr
  exact ⟨pool, hr, ht.1.1, ht.1.2, hslots, ht.2, hlater pool (Reach.start rfl)⟩

-- ── Threads in `threadpool_wait` ─────────────────────────────────────────────

/-- Once the pool is stopped nobody sleeps on `pool->shutdown` unwoken. -/
def NoWaiterLeft (pool : Pool) : Prop := pool.status = .stopped → .blocked ∉ pool.waiters

/-- The step stores STATUS_STOPPED: the last worker leaves, or
    `threadpool_shutdown` finds none. -/
def storesStopped (pool : Pool) : Event → Bool
  | .exit _ _ => decide (pool.threadsNum - 1 = 0)
  | .shutdownEnd _ => decide (pool.threadsNum = 0)
  | _ => false

/-- A step that stores STATUS_STOPPED finds one sleeper at most. -/
def OneSleeper (pool : Pool) (e : Event) : Prop :=
  storesStopped pool e = true → pool.waiters.count .blocked ≤ 1

instance (pool : Pool) (e : Event) : Decidable (OneSleeper pool e) :=
  inferInstanceAs (Decidable (_ → _))

/-- A signal leaves no sleeper exactly when there was one at most. -/
theorem signal_last_iff {waiters waiters' : List Waiter} {woken : Option Nat}
    (h : signal .blocked .signalled waiters woken = some waiters') :
    .blocked ∉ waiters' ↔ waiters.count .blocked ≤ 1 := by
  rcases signal_cases h with ⟨hno, rfl⟩ | ⟨i, hi, rfl⟩
  · exact iff_of_true hno (by rw [List.count_eq_zero.mpr hno]; exact Nat.zero_le 1)
  · have hcount := countP_set (· == Waiter.blocked) (b := .signalled) hi
    simp only [beq_self_eq_true, Bool.toNat_true,
      show (Waiter.signalled == Waiter.blocked) = false from rfl, Bool.toNat_false,
      Nat.add_zero] at hcount
    rw [← List.count_eq_zero, List.count_eq_countP, List.count_eq_countP, ← hcount]
    omega

theorem wait_ne_blocked {pool : Pool} (hst : pool.status = .stopped) :
    .blocked ≠ threadpoolWait pool := by
  rw [threadpoolWait, hst, if_neg (not_not.mpr rfl)]
  exact Waiter.noConfusion

/-- **STEP LEMMA**: only a store of STATUS_STOPPED over two sleepers leaves one
    behind, and it does. -/
theorem noWaiterLeft_step {pool pool' : Pool} {e : Event} (h : NoWaiterLeft pool)
    (hs : Step pool e pool') : NoWaiterLeft pool' ↔ OneSleeper pool e := by
  cases hs with
  | exitMore at_w free more =>
      refine iff_of_true h ?_
      intro hstores
      exact absurd (of_decide_eq_true hstores) more
  | shutdownMore lock more =>
      refine iff_of_true h ?_
      intro hstores
      exact absurd (of_decide_eq_true hstores) more
  | exitLast at_w free last signalled =>
      rw [OneSleeper, ← signal_last_iff signalled]
      exact ⟨fun hno _ => hno rfl, fun hno _ => hno (decide_eq_true last)⟩
  | shutdownLast lock last signalled =>
      rw [OneSleeper, ← signal_last_iff signalled]
      exact ⟨fun hno _ => hno rfl, fun hno _ => hno (decide_eq_true last)⟩
  | shutdown free =>
      exact iff_of_true WorkStatus.noConfusion Bool.noConfusion
  | wait free =>
      refine iff_of_true ?_ Bool.noConfusion
      intro hst hmem
      rcases List.mem_append.mp hmem with hmem | hmem
      · exact h hst hmem
      · exact wait_ne_blocked hst (List.mem_singleton.mp hmem)
  | waitAgain at_t free =>
      refine iff_of_true ?_ Bool.noConfusion
      intro hst hmem
      rcases List.mem_or_eq_of_mem_set hmem with hmem | hmem
      · exact h hst hmem
      · exact wait_ne_blocked hst hmem
  | wakeWaiter at_t =>
      refine iff_of_true ?_ Bool.noConfusion
      intro hst hmem
      exact h hst ((List.mem_or_eq_of_mem_set hmem).resolve_right Waiter.noConfusion)
  | _ => exact iff_of_true h Bool.noConfusion

/-- **NOBODY IS LEFT WAITING** in every interleaving in which STATUS_STOPPED is
    only stored with one sleeper at most; the first store that finds two leaves
    one behind. -/
theorem waiters_woken {pool : Pool} (h : Reach Created (guarded OneSleeper (fires step)) pool) :
    NoWaiterLeft pool
      ∧ ∀ e pool', step pool e = some pool' → (NoWaiterLeft pool' ↔ OneSleeper pool e) := by
  have hinv : NoWaiterLeft pool := by
    refine Reach.guarded_invariant (I := NoWaiterLeft) ?_ ?_ pool h
    · rintro pool ⟨cpuNum, maxThreads, rfl, -⟩ hst
      cases hst
    · intro pool e pool' _ hinv hone hstep
      exact (noWaiterLeft_step hinv (step_cases hstep)).mpr hone
  exact ⟨hinv, fun e pool' hstep => noWaiterLeft_step hinv (step_cases hstep)⟩

/-- One thread waits while the only worker leaves. -/
theorem waiters_woken_one :
    ∃ pool, Reach Created (guarded OneSleeper (fires step)) pool ∧ pool.status = .stopped
      ∧ pool.waiters = [.signalled] ∧ NoWaiterLeft pool := by
  have hinit : Reach Created
      (fires (checked (fun pool e => decide (OneSleeper pool e)) step)) (threadpoolCreate 4 2) :=
    Reach.start ⟨4, 2, rfl, by decide⟩
  obtain ⟨pool, hr, ht⟩ := Reach.exists_of_runList
    [.submit 70 true, .put none, .wait, .shutdown, .stopQueue, .shutdownEnd none, .get 0,
      .finish 0, .get 0, .exit 0 (some 0)]
    (fun (pool : Pool) => decide (pool.status = .stopped)
      && decide (pool.waiters = [.signalled])) hinit (by decide)
  rw [Bool.and_eq_true, decide_eq_true_eq, decide_eq_true_eq] at ht
  have hg : Reach Created (guarded OneSleeper (fires step)) pool :=
    Reach.guarded_of_checked (fun _ _ hc => of_decide_eq_true hc) pool hr
  exact ⟨pool, hg, ht.1, ht.2, (waiters_woken hg).1⟩

/-- Two threads wait for a pool without workers, and its shutdown wakes one. -/
theorem waiters_woken_two : ¬ ∀ pool, Reachable pool → NoWaiterLeft pool := by
  intro h
  have hinit : Reach Created (fires step) (threadpoolCreate 4 2) :=
    Reach.start ⟨4, 2, rfl, by decide⟩
  obtain ⟨pool, hr, ht⟩ := Reach.exists_of_runList
    [.wait, .wait, .shutdown, .stopQueue, .shutdownEnd (some 0)]
    (fun (pool : Pool) => decide (pool.status = .stopped)
      && decide (.blocked ∈ pool.waiters)) hinit (by decide)
  rw [Bool.and_eq_true, decide_eq_true_eq, decide_eq_true_eq] at ht
  exact h pool hr ht.1 ht.2

end ThreadpoolStop
