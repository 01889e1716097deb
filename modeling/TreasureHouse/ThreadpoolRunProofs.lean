import Mathlib.Data.List.Nodup
import TreasureHouse.ThreadpoolProofs

/-! # Tasks of the thread pool — in order, once, and finished at the end

    The invariant comes in four parts, each kept by every step: the queue and
    its history (`QueueInv`), which worker runs what (`RunsInv`), the calls
    behind the work (`CallsInv`), and the phases of a shutdown (`PhaseInv`).
    The last one says that a worker leaves only after the queue was stopped and
    drained, and that nothing is put after that, because a submitter holds
    `pool->lock` from its look at the status to its put. -/

namespace ThreadpoolRun

open LabelledRun CondVar Threadpool

-- ── The queue ────────────────────────────────────────────────────────────────

/-- `num` counts the list, and what left the queue and what is on it are the
    accepted works in order. -/
structure QueueInv (pool : Pool) : Prop where
  num : pool.queue.num = pool.queue.list.length
  fifo : pool.started.map Prod.snd ++ pool.queue.list = pool.accepted

theorem queueInv_step {pool pool' : Pool} {e : Event} (h : QueueInv pool)
    (hs : Step pool e pool') : QueueInv pool' := by
  cases hs with
  | @put woken work workers lock signalled =>
      refine ⟨?_, ?_⟩
      · show pool.queue.num + 1 = (pool.queue.list ++ [work]).length
        rw [h.num, List.length_append, List.length_singleton]
      · show pool.started.map Prod.snd ++ (pool.queue.list ++ [work]) = pool.accepted ++ [work]
        rw [← List.append_assoc, h.fifo]
  | @getWork w a work list at_w way num head =>
      refine ⟨?_, ?_⟩
      · show pool.queue.num - 1 = list.length
        rw [h.num, head, List.length_cons, Nat.add_sub_cancel]
      · show (pool.started ++ [(w, work)]).map Prod.snd ++ list = pool.accepted
        rw [← h.fifo, head, List.map_append, List.append_assoc]
        rfl
  | _ => exact ⟨h.num, h.fifo⟩

-- ── Who runs what ────────────────────────────────────────────────────────────

/-- What worker `p.1` started as `p.2`, it has finished or is at. -/
def RunsInv (pool : Pool) : Prop :=
  ∀ p : Nat × Work, pool.started.count p = pool.finished.count p
    + (decide (pool.workers[p.1]? = some (.working p.2))).toNat

theorem RunsInv.unmoved {pool : Pool} {workers : List Worker} (h : RunsInv pool)
    (hw : ∀ work, Unmoved (Worker.working work) pool.workers workers) (p : Nat × Work) :
    pool.started.count p = pool.finished.count p
      + (decide (workers[p.1]? = some (.working p.2))).toNat := by
  rw [decide_eq_decide.mpr (hw p.2 p.1)]
  exact h p

theorem way_ne_working {a : Worker} (way : a = .arriving ∨ a = .signalled) (work : Work) :
    Worker.working work ≠ a := by
  rcases way with rfl | rfl <;> exact Worker.noConfusion

/-- A put signals or leaves the workers alone. -/
theorem workqueueSignal_cases {wq : Workqueue} {workers workers' : List Worker}
    {woken : Option Nat} (h : workqueueSignal wq workers woken = some workers') :
    signal .blocked .signalled workers woken = some workers' ∨ workers' = workers := by
  rw [workqueueSignal] at h
  by_cases hnum : wq.num = 0
  · rw [if_pos hnum] at h
    exact Or.inl h
  · rw [if_neg hnum] at h
    cases h
    exact Or.inr rfl

theorem workqueueSignal_unmoved {wq : Workqueue} {workers workers' : List Worker}
    {woken : Option Nat} {c : Worker} (h : workqueueSignal wq workers woken = some workers')
    (hs : c ≠ .blocked) (hw : c ≠ .signalled) : Unmoved c workers workers' := by
  rcases workqueueSignal_cases h with h | rfl
  · exact signal_unmoved h hs hw
  · exact fun _ => Iff.rfl

/-- A worker that changes its work changes only its own row. -/
theorem decide_working_set {workers : List Worker} {w : Nat} {a b : Worker}
    (at_w : workers[w]? = some a) (p : Nat × Work) :
    (decide ((workers.set w b)[p.1]? = some (.working p.2))).toNat
      = if p.1 = w then (decide (b = .working p.2)).toNat
        else (decide (workers[p.1]? = some (.working p.2))).toNat := by
  have hset := getElem?_set_iff (j := p.1) (b := b) (c := .working p.2) at_w
  by_cases hp : p.1 = w
  · rw [if_pos hp, decide_eq_decide.mpr (hset.trans ?_)]
    constructor
    · rintro (⟨-, hb⟩ | ⟨hne, -⟩)
      · exact hb.symm
      · exact absurd hp hne
    · exact fun hb => Or.inl ⟨hp, hb.symm⟩
  · rw [if_neg hp, decide_eq_decide.mpr (hset.trans ?_)]
    constructor
    · rintro (⟨heq, -⟩ | ⟨-, hc⟩)
      · exact absurd heq hp
      · exact hc
    · exact fun hc => Or.inr ⟨hp, hc⟩

theorem runsInv_step {pool pool' : Pool} {e : Event} (h : RunsInv pool)
    (hs : Step pool e pool') : RunsInv pool' := by
  cases hs with
  | submitCreated => exact h.unmoved fun _ => append_unmoved Worker.noConfusion
  | put _ signalled =>
      exact h.unmoved fun _ =>
        workqueueSignal_unmoved signalled Worker.noConfusion Worker.noConfusion
  | getWait at_w way =>
      exact h.unmoved fun work => set_unmoved at_w (way_ne_working way work) Worker.noConfusion
  | getNull at_w way =>
      exact h.unmoved fun work => set_unmoved at_w (way_ne_working way work) Worker.noConfusion
  | @getWork w a work list at_w way num head =>
      -- the worker had no work, and now it is at one more than it finished
      intro p
      have hp := h p
      have hold : ∀ work', (pool.workers[w]? = some (.working work')) = False := by
        intro work'
        rw [at_w, Option.some.injEq]
        exact eq_false (Ne.symm (way_ne_working way work'))
      show (pool.started ++ [(w, work)]).count p = _ + _
      rw [decide_working_set at_w, List.count_append, List.count_singleton]
      obtain ⟨v, work'⟩ := p
      by_cases hv : v = w
      · subst hv
        simp only [hold] at hp
        by_cases hwork : work = work'
        · subst hwork
          simp only [beq_self_eq_true, if_true, decide_true]
          simpa using hp
        · simp [hwork, hp]
      · simp [hv, Ne.symm hv, hp]
  | wakeWorker at_w =>
      exact h.unmoved fun _ => set_unmoved at_w Worker.noConfusion Worker.noConfusion
  | @finish w work at_w =>
      intro p
      have hp := h p
      show _ = (pool.finished ++ [(w, work)]).count p + _
      rw [decide_working_set at_w, List.count_append, List.count_singleton, hp]
      obtain ⟨v, work'⟩ := p
      by_cases hv : v = w
      · subst hv
        by_cases hwork : work = work'
        · subst hwork
          simp [at_w]
        · simp [at_w, hwork]
      · simp [hv, Ne.symm hv]
  | exitMore at_w => exact h.unmoved fun _ => set_unmoved at_w Worker.noConfusion Worker.noConfusion
  | exitLast at_w => exact h.unmoved fun _ => set_unmoved at_w Worker.noConfusion Worker.noConfusion
  | stopQueue =>
      exact h.unmoved fun _ => broadcast_unmoved _ Worker.noConfusion Worker.noConfusion
  | _ => exact h

-- ── Counting threads ─────────────────────────────────────────────────────────

/-- The worker has not passed its section under `pool->lock`. -/
def alive (w : Worker) : Bool := decide (w ≠ .exited)

/-- `threads_num` counts the workers that are alive. -/
def ThreadsInv (pool : Pool) : Prop := pool.threadsNum = pool.workers.countP alive

theorem workqueueSignal_countP {wq : Workqueue} {workers workers' : List Worker}
    {woken : Option Nat} (p : Worker → Bool)
    (h : workqueueSignal wq workers woken = some workers') (hp : p .blocked = p .signalled) :
    workers'.countP p = workers.countP p := by
  rcases workqueueSignal_cases h with h | rfl
  · exact signal_countP p h hp
  · rfl

theorem workqueueSignal_length {wq : Workqueue} {workers workers' : List Worker}
    {woken : Option Nat} (h : workqueueSignal wq workers woken = some workers') :
    workers'.length = workers.length := by
  have hcount := workqueueSignal_countP (fun _ => true) h rfl
  rw [List.countP_true] at hcount
  exact hcount

theorem alive_of_way {a : Worker} (way : a = .arriving ∨ a = .signalled) : alive a = true := by
  rcases way with rfl | rfl <;> rfl

theorem threadsInv_step {pool pool' : Pool} {e : Event} (h : ThreadsInv pool)
    (hs : Step pool e pool') : ThreadsInv pool' := by
  -- a worker that stays alive does not change the count
  have hset : ∀ {w a b}, pool.workers[w]? = some a → alive a = true → alive b = true →
      pool.threadsNum = (pool.workers.set w b).countP alive := by
    intro w a b at_w ha hb
    have hcount := countP_set alive (b := b) at_w
    rw [ha, hb] at hcount
    rw [ThreadsInv] at h
    omega
  -- one that leaves takes one off
  have hexit : ∀ {w}, pool.workers[w]? = some .exiting →
      pool.threadsNum - 1 = (pool.workers.set w .exited).countP alive := by
    intro w at_w
    have hcount := countP_set alive (b := .exited) at_w
    rw [show alive .exiting = true from rfl, show alive .exited = false from rfl] at hcount
    rw [ThreadsInv] at h
    simp only [Bool.toNat_true, Bool.toNat_false] at hcount
    omega
  cases hs with
  | submitCreated =>
      show pool.threadsNum + 1 = (pool.workers ++ [Worker.arriving]).countP alive
      rw [List.countP_append, ← show pool.threadsNum = _ from h]
      rfl
  | put _ signalled =>
      show pool.threadsNum = _
      rw [workqueueSignal_countP alive signalled rfl]
      exact h
  | getWait at_w way => exact hset at_w (alive_of_way way) rfl
  | getNull at_w way => exact hset at_w (alive_of_way way) rfl
  | getWork at_w way => exact hset at_w (alive_of_way way) rfl
  | wakeWorker at_w => exact hset at_w rfl rfl
  | finish at_w => exact hset at_w rfl rfl
  | exitMore at_w => exact hexit at_w
  | exitLast at_w => exact hexit at_w
  | stopQueue =>
      exact h.trans (@broadcast_countP _ _ .blocked .signalled pool.workers alive rfl).symm
  | _ => exact h

-- ── Calls ────────────────────────────────────────────────────────────────────

/-- The work a submitter holds `pool->lock` for. -/
def pending : PoolLock → List Work
  | .submitting work => [work]
  | _ => []

theorem pending_free : pending .free = [] := rfl

theorem pending_submitting (work : Work) : pending (.submitting work) = [work] := rfl

/-- The numbers of all calls that were answered or are at their put. -/
def callNumbers (pool : Pool) : List Nat :=
  (pool.accepted ++ pool.rejected ++ pending pool.lock).map Work.call

/-- Every call has a number of its own. -/
structure CallsInv (pool : Pool) : Prop where
  nodup : (callNumbers pool).Nodup
  bound : ∀ c ∈ callNumbers pool, c < pool.calls

/-- A new call gets a fresh number. -/
theorem CallsInv.next {pool pool' : Pool} (h : CallsInv pool)
    (hcalls : pool'.calls = pool.calls + 1)
    (hperm : (callNumbers pool').Perm (pool.calls :: callNumbers pool)) : CallsInv pool' where
  nodup := by
    refine hperm.nodup_iff.mpr (List.nodup_cons.mpr ⟨?_, h.nodup⟩)
    intro hmem
    exact absurd (h.bound _ hmem) (Nat.lt_irrefl _)
  bound := by
    intro c hc
    rw [hcalls]
    rcases List.mem_cons.mp (hperm.mem_iff.mp hc) with rfl | hc
    · exact Nat.lt_succ_self _
    · exact Nat.lt_succ_of_lt (h.bound c hc)

/-- The numbers are only moved around. -/
theorem CallsInv.perm {pool pool' : Pool} (h : CallsInv pool) (hcalls : pool'.calls = pool.calls)
    (hperm : (callNumbers pool').Perm (callNumbers pool)) : CallsInv pool' where
  nodup := hperm.nodup_iff.mpr h.nodup
  bound := by
    intro c hc
    rw [hcalls]
    exact h.bound c (hperm.mem_iff.mp hc)

theorem callNumbers_free {pool : Pool} (free : pool.lock = .free) :
    callNumbers pool = (pool.accepted ++ pool.rejected).map Work.call := by
  rw [callNumbers, free, pending_free, List.append_nil]

theorem callsInv_step {pool pool' : Pool} {e : Event} (h : CallsInv pool)
    (hs : Step pool e pool') : CallsInv pool' := by
  have hlock : ∀ lock : PoolLock, pending lock = pending pool.lock →
      (pool.accepted ++ pool.rejected ++ pending lock).map Work.call = callNumbers pool := by
    intro lock heq
    rw [heq]
    rfl
  cases hs with
  | @submitFailed task created free =>
      refine h.next rfl ?_
      have hnew : callNumbers
            { pool with calls := pool.calls + 1, rejected := pool.rejected ++ [⟨pool.calls, task⟩] }
          = (pool.accepted ++ pool.rejected).map Work.call ++ [pool.calls] := by
        refine (callNumbers_free (by exact free)).trans ?_
        rw [← List.append_assoc, List.map_append]
        rfl
      rw [hnew, callNumbers_free free]
      exact List.perm_append_singleton _ _
  | @submitCreated task created free running room =>
      refine h.next rfl ?_
      rw [callNumbers_free free, callNumbers, List.map_append]
      exact List.perm_append_singleton _ _
  | @submitEnough task created free running room =>
      refine h.next rfl ?_
      rw [callNumbers_free free, callNumbers, List.map_append]
      exact List.perm_append_singleton _ _
  | @put woken work workers lock signalled =>
      refine h.perm rfl (List.Perm.map _ ?_)
      show (pool.accepted ++ [work] ++ pool.rejected ++ pending .free).Perm
        (pool.accepted ++ pool.rejected ++ pending pool.lock)
      rw [lock, pending_free, pending_submitting, List.append_nil, List.append_assoc,
        List.append_assoc]
      exact List.Perm.append_left _ (List.perm_append_comm ..)
  | shutdown free =>
      exact h.perm rfl (List.Perm.of_eq (hlock .stopping (by rw [free]; rfl)))
  | stopQueue lock =>
      exact h.perm rfl (List.Perm.of_eq (hlock .stopped (by rw [lock]; rfl)))
  | shutdownMore lock =>
      exact h.perm rfl (List.Perm.of_eq (hlock .free (by rw [lock]; rfl)))
  | shutdownLast lock =>
      exact h.perm rfl (List.Perm.of_eq (hlock .free (by rw [lock]; rfl)))
  | _ => exact ⟨h.nodup, h.bound⟩

-- ── Phases ───────────────────────────────────────────────────────────────────

/-- Some worker has left the loop of `worker_fn`. -/
def Gone (workers : List Worker) : Prop := .exiting ∈ workers ∨ .exited ∈ workers

theorem Gone.of_unmoved {workers workers' : List Worker}
    (h1 : Unmoved .exiting workers workers') (h2 : Unmoved .exited workers workers')
    (h : Gone workers') : Gone workers :=
  h.imp h1.mem_iff.mp h2.mem_iff.mp

/-- How far a shutdown is. -/
structure PhaseInv (pool : Pool) : Prop where
  max_pos : 1 ≤ pool.maxThreads
  queue_stop : pool.queue.status ≠ .running → pool.status ≠ .running
  submitting : ∀ work, pool.lock = .submitting work →
    pool.status = .running ∧ pool.workers ≠ []
  lock_stopping : pool.lock = .stopping → pool.status = .stopping
  lock_stopped : pool.lock = .stopped → pool.queue.status ≠ .running
  gone : Gone pool.workers → pool.queue.status ≠ .running ∧ pool.queue.list = []
  empty : pool.workers = [] → pool.accepted = []
  stopped : pool.status = .stopped → pool.threadsNum = 0 ∧ pool.queue.status ≠ .running
  returned : .returned ∈ pool.waiters → pool.threadsNum = 0 ∧ pool.queue.status ≠ .running

/-- While the status is running nobody has returned from `threadpool_wait`. -/
theorem PhaseInv.not_over {pool : Pool} (h : PhaseInv pool) (running : pool.status = .running)
    (hover : pool.queue.status ≠ .running) : False :=
  h.queue_stop hover running

theorem ne_nil_of_at {workers : List Worker} {w : Nat} {a : Worker} (at_w : workers[w]? = some a) :
    workers ≠ [] := by
  rintro rfl
  cases at_w

/-- A worker that moves inside the loop changes no phase. -/
theorem PhaseInv.set_worker {pool : Pool} {w : Nat} {a b : Worker} (h : PhaseInv pool)
    (at_w : pool.workers[w]? = some a) (h1 : .exiting ≠ a) (h2 : .exited ≠ a)
    (h3 : .exiting ≠ b) (h4 : .exited ≠ b) :
    PhaseInv { pool with workers := pool.workers.set w b } := by
  have hne := ne_nil_of_at at_w
  exact { h with
    submitting := fun work lock =>
      ⟨(h.submitting work lock).1, fun hnil => hne ((List.set_eq_nil_iff _ _).mp hnil)⟩
    gone := fun hg => h.gone (hg.of_unmoved (set_unmoved at_w h1 h3) (set_unmoved at_w h2 h4))
    empty := fun hnil => h.empty ((List.set_eq_nil_iff _ _).mp hnil) }

theorem way_ne_gone {a : Worker} (way : a = .arriving ∨ a = .signalled) :
    .exiting ≠ a ∧ .exited ≠ a := by
  rcases way with rfl | rfl <;> exact ⟨Worker.noConfusion, Worker.noConfusion⟩

/-- The loop of `threadpool_wait` returns only when the pool is stopped. -/
theorem wait_returned {pool : Pool} (h : .returned = threadpoolWait pool) :
    pool.status = .stopped := by
  rw [threadpoolWait] at h
  by_cases hstop : pool.status = .stopped
  · exact hstop
  · rw [if_pos hstop] at h
    cases h

theorem phaseInv_step {pool pool' : Pool} {e : Event} (hq : QueueInv pool) (ht : ThreadsInv pool)
    (h : PhaseInv pool) (hs : Step pool e pool') : PhaseInv pool' := by
  cases hs with
  | submitFailed free => exact { h with }
  | @submitCreated task created free running room =>
      exact { h with
        submitting := fun work _ => ⟨running, by simp [createNewThread]⟩
        lock_stopping := fun hl => by cases hl
        lock_stopped := fun hl => by cases hl
        gone := fun hg => h.gone (hg.of_unmoved (append_unmoved Worker.noConfusion)
          (append_unmoved Worker.noConfusion))
        empty := fun hnil => absurd hnil (by simp [createNewThread])
        stopped := fun hst => by
          have := hst.symm.trans running
          cases this
        returned := fun hr => (h.not_over running (h.returned hr).2).elim }
  | @submitEnough task created free running room =>
      -- there is a worker already, since `max_threads` is at least 1
      have hne : pool.workers ≠ [] := by
        intro hnil
        rw [ThreadsInv, hnil] at ht
        have h0 : pool.threadsNum = 0 := ht
        have := h.max_pos
        omega
      exact { h with
        submitting := fun work _ => ⟨running, hne⟩
        lock_stopping := fun hl => by cases hl
        lock_stopped := fun hl => by cases hl }
  | @put woken work workers lock signalled =>
      obtain ⟨running, hne⟩ := h.submitting work lock
      have hlen : workers ≠ [] := by
        have hcount := workqueueSignal_length signalled
        intro hnil
        rw [hnil] at hcount
        exact hne (List.length_eq_zero_iff.mp hcount.symm)
      -- the queue is open, so nobody is gone
      have hopen : ¬ Gone workers := by
        intro hg
        have hg' := hg.of_unmoved
          (workqueueSignal_unmoved signalled Worker.noConfusion Worker.noConfusion)
          (workqueueSignal_unmoved signalled Worker.noConfusion Worker.noConfusion)
        exact h.not_over running (h.gone hg').1
      exact { h with
        submitting := fun _ hl => by cases hl
        lock_stopping := fun hl => by cases hl
        lock_stopped := fun hl => by cases hl
        gone := fun hg => absurd hg hopen
        empty := fun hnil => absurd hnil hlen }
  | getWait at_w way =>
      obtain ⟨h1, h2⟩ := way_ne_gone way
      exact h.set_worker at_w h1 h2 Worker.noConfusion Worker.noConfusion
  | @getNull w a at_w way num stop =>
      have hlist : pool.queue.list = [] := List.length_eq_zero_iff.mp (hq.num.symm.trans num)
      have hne := ne_nil_of_at at_w
      exact { h with
        submitting := fun work lock => (h.not_over (h.submitting work lock).1 stop).elim
        gone := fun _ => ⟨stop, hlist⟩
        empty := fun hnil => absurd ((List.set_eq_nil_iff _ _).mp hnil) hne }
  | @getWork w a work list at_w way num head =>
      obtain ⟨h1, h2⟩ := way_ne_gone way
      have hmove := h.set_worker at_w h1 h2 (b := .working work) Worker.noConfusion
        Worker.noConfusion
      exact { hmove with
        gone := fun hg => by
          have := (hmove.gone hg).2
          rw [show pool.queue.list = work :: list from head] at this
          cases this }
  | wakeWorker at_w =>
      exact h.set_worker at_w Worker.noConfusion Worker.noConfusion Worker.noConfusion
        Worker.noConfusion
  | finish at_w =>
      exact { h.set_worker at_w Worker.noConfusion Worker.noConfusion Worker.noConfusion
        Worker.noConfusion with }
  | exitMore at_w free more =>
      have hgone := h.gone (Or.inl (List.mem_of_getElem? at_w))
      exact { h with
        submitting := fun _ hl => by rw [free] at hl; cases hl
        gone := fun _ => hgone
        empty := fun hnil => absurd ((List.set_eq_nil_iff _ _).mp hnil) (ne_nil_of_at at_w)
        stopped := fun hst => (more (by rw [(h.stopped hst).1])).elim
        returned := fun hr => (more (by rw [(h.returned hr).1])).elim }
  | exitLast at_w free last signalled =>
      have hgone := h.gone (Or.inl (List.mem_of_getElem? at_w))
      exact { h with
        queue_stop := fun _ => WorkStatus.noConfusion
        submitting := fun _ hl => by rw [free] at hl; cases hl
        lock_stopping := fun hl => by rw [free] at hl; cases hl
        gone := fun _ => hgone
        empty := fun hnil => absurd ((List.set_eq_nil_iff _ _).mp hnil) (ne_nil_of_at at_w)
        stopped := fun _ => ⟨last, hgone.1⟩
        returned := fun _ => ⟨last, hgone.1⟩ }
  | shutdown free =>
      exact { h with
        queue_stop := fun _ => WorkStatus.noConfusion
        submitting := fun _ hl => by cases hl
        lock_stopping := fun _ => rfl
        lock_stopped := fun hl => by cases hl
        stopped := fun hst => by cases hst }
  | stopQueue lock =>
      have hstop := h.lock_stopping lock
      exact { h with
        queue_stop := fun _ hrun => by
          have := hstop.symm.trans hrun
          cases this
        submitting := fun _ hl => by cases hl
        lock_stopping := fun hl => by cases hl
        lock_stopped := fun _ => WorkStatus.noConfusion
        gone := fun hg => ⟨WorkStatus.noConfusion, (h.gone (hg.of_unmoved
          (broadcast_unmoved _ Worker.noConfusion Worker.noConfusion)
          (broadcast_unmoved _ Worker.noConfusion Worker.noConfusion))).2⟩
        empty := fun hnil => h.empty (List.map_eq_nil_iff.mp hnil)
        stopped := fun hst => ⟨(h.stopped hst).1, WorkStatus.noConfusion⟩
        returned := fun hr => ⟨(h.returned hr).1, WorkStatus.noConfusion⟩ }
  | shutdownMore lock more =>
      exact { h with
        submitting := fun _ hl => by cases hl
        lock_stopping := fun hl => by cases hl
        lock_stopped := fun hl => by cases hl }
  | shutdownLast lock last signalled =>
      have hover := h.lock_stopped lock
      exact { h with
        queue_stop := fun _ => WorkStatus.noConfusion
        submitting := fun _ hl => by cases hl
        lock_stopping := fun hl => by cases hl
        lock_stopped := fun hl => by cases hl
        stopped := fun _ => ⟨last, hover⟩
        returned := fun _ => ⟨last, hover⟩ }
  | wait free =>
      exact { h with
        returned := fun hr => by
          rcases List.mem_append.mp hr with hr | hr
          · exact h.returned hr
          · exact h.stopped (wait_returned (List.mem_singleton.mp hr)) }
  | waitAgain at_t free =>
      exact { h with
        returned := fun hr => by
          rcases List.mem_or_eq_of_mem_set hr with hr | hr
          · exact h.returned hr
          · exact h.stopped (wait_returned hr) }
  | wakeWaiter at_t =>
      exact { h with
        returned := fun hr =>
          h.returned ((set_unmoved at_t Waiter.noConfusion Waiter.noConfusion).mem_iff.mp hr) }

-- ── Runs ─────────────────────────────────────────────────────────────────────

/-- The four parts together. -/
structure PoolInv (pool : Pool) : Prop where
  queue : QueueInv pool
  runs : RunsInv pool
  threads : ThreadsInv pool
  calls : CallsInv pool
  phase : PhaseInv pool

/-- **STEP LEMMA**: every step keeps the invariant. -/
theorem poolInv_step {pool pool' : Pool} {e : Event} (h : PoolInv pool) (hs : Step pool e pool') :
    PoolInv pool' where
  queue := queueInv_step h.queue hs
  runs := runsInv_step h.runs hs
  threads := threadsInv_step h.threads hs
  calls := callsInv_step h.calls hs
  phase := phaseInv_step h.queue h.threads h.phase hs

theorem created_inv {pool : Pool} (h : Created pool) : PoolInv pool := by
  obtain ⟨cpuNum, maxThreads, rfl, hmax⟩ := h
  exact {
    queue := ⟨rfl, rfl⟩
    runs := fun _ => rfl
    threads := rfl
    calls := ⟨List.nodup_nil, fun _ hc => absurd hc List.not_mem_nil⟩
    phase := {
      max_pos := hmax
      queue_stop := fun hq => absurd rfl hq
      submitting := fun _ hl => by cases hl
      lock_stopping := fun hl => by cases hl
      lock_stopped := fun hl => by cases hl
      gone := fun hg => by rcases hg with hg | hg <;> exact absurd hg List.not_mem_nil
      empty := fun _ => rfl
      stopped := fun hst => by cases hst
      returned := fun hr => absurd hr List.not_mem_nil } }

/-- **RUN LEMMA**: the invariant holds in every state of every interleaving. -/
theorem reachable_inv : ∀ pool, Reachable pool → PoolInv pool := by
  refine Reach.invariant (fun _ => created_inv) ?_
  intro pool e pool' _ h hstep
  exact poolInv_step h (step_cases hstep)

-- ── What clients see ─────────────────────────────────────────────────────────

/-- The pool treats its tasks well: works leave the queue in the order they
    were accepted; each is started once, by one worker, which has finished it
    or is at it; a rejected one is never started; and when `threadpool_wait`
    has returned, the finished ones are the accepted ones. -/
structure TasksOk (pool : Pool) : Prop where
  fifo : pool.started.map Prod.snd ++ pool.queue.list = pool.accepted
  once : (pool.accepted.map Work.call).Nodup
  done : ∀ p : Nat × Work, pool.started.count p = pool.finished.count p
    + (decide (pool.workers[p.1]? = some (.working p.2))).toNat
  rejected : ∀ work ∈ pool.rejected, ∀ work' ∈ pool.accepted, work'.call ≠ work.call
  waited : .returned ∈ pool.waiters → (pool.finished.map Prod.snd).Perm pool.accepted

/-- With `threads_num` at 0 no worker is alive, and the queue is drained. -/
theorem PoolInv.drained {pool : Pool} (h : PoolInv pool) (hnone : pool.threadsNum = 0) :
    (∀ w ∈ pool.workers, w = .exited) ∧ pool.queue.list = [] := by
  have hcount : pool.workers.countP alive = 0 := h.threads.symm.trans hnone
  have hall : ∀ w ∈ pool.workers, w = .exited := by
    intro w hw
    have hnot := List.countP_eq_zero.mp hcount w hw
    rw [alive, decide_eq_true_eq, not_not] at hnot
    exact hnot
  refine ⟨hall, ?_⟩
  rcases hw : pool.workers with _ | ⟨w, workers⟩
  · have hacc := h.phase.empty hw
    rw [← h.queue.fifo, List.append_eq_nil_iff] at hacc
    exact hacc.2
  · have hmem : w ∈ pool.workers := by
      rw [hw]
      exact List.mem_cons_self ..
    have hgone : Gone pool.workers := Or.inr (by rw [← hall w hmem]; exact hmem)
    exact (h.phase.gone hgone).2

/-- **Every interleaving treats its tasks well.** -/
theorem threadpool_tasks {pool : Pool} (h : Reachable pool) : TasksOk pool := by
  have hinv := reachable_inv pool h
  have hnodup := hinv.calls.nodup
  rw [callNumbers, List.map_append, List.map_append] at hnodup
  have hnodup' := List.Nodup.of_append_left hnodup
  exact {
    fifo := hinv.queue.fifo
    once := List.Nodup.of_append_left hnodup'
    done := hinv.runs
    rejected := by
      intro work hwork work' hwork'
      exact (List.nodup_append.mp hnodup').2.2 _ (List.mem_map_of_mem hwork') _
        (List.mem_map_of_mem hwork)
    waited := by
      intro hr
      obtain ⟨hall, hlist⟩ := hinv.drained (hinv.phase.returned hr).1
      have hfifo := hinv.queue.fifo
      rw [hlist, List.append_nil] at hfifo
      rw [← hfifo]
      refine List.Perm.map _ (List.perm_iff_count.mpr fun p => ?_)
      have hp := hinv.runs p
      have hidle : ¬ pool.workers[p.1]? = some (.working p.2) := by
        intro hw
        cases hall _ (List.mem_of_getElem? hw)
      rw [decide_eq_false hidle, Bool.toNat_false, Nat.add_zero] at hp
      exact hp.symm }

/-- Two tasks on two workers, a third submitted too late, and a wait. -/
theorem threadpool_tasks_two :
    ∃ pool, Reachable pool ∧ pool.accepted = [⟨0, 70⟩, ⟨1, 71⟩] ∧ pool.rejected = [⟨2, 72⟩]
      ∧ .returned ∈ pool.waiters ∧ TasksOk pool := by
  have hinit : Reach Created (fires step) (threadpoolCreate 4 2) :=
    Reach.start ⟨4, 2, rfl, by decide⟩
  obtain ⟨pool, hr, ht⟩ := Reach.exists_of_runList
    [.submit 70 true, .put none, .submit 71 true, .get 0, .put none, .wait, .shutdown, .get 1,
      .stopQueue, .finish 1, .shutdownEnd none, .submit 72 true, .get 1, .exit 1 none, .finish 0,
      .get 0, .exit 0 (some 0), .waitAgain 0]
    (fun (pool : Pool) => decide (pool.accepted = [⟨0, 70⟩, ⟨1, 71⟩])
      && decide (pool.rejected = [⟨2, 72⟩]) && decide (.returned ∈ pool.waiters)) hinit (by decide)
  rw [Bool.and_eq_true, Bool.and_eq_true, decide_eq_true_eq, decide_eq_true_eq,
    decide_eq_true_eq] at ht
  exact ⟨pool, hr, ht.1.1, ht.1.2, ht.2, threadpool_tasks hr⟩

end ThreadpoolRun
