import TreasureHouse.ListQueueProofs
import TreasureHouse.ThreadpoolRunProofs

/-! # `threadpool/threadpool.c` — the work queue in memory

    `Threadpool` keeps the works of the queue in a list.  Here they are linked as
    in the source, `wq->list` and the `list` of every `struct work`:
    `workqueue_put` is `list_add_tail`, and `workqueue_get` takes the entry that
    its `list_for_each_entry_safe` meets first with `list_del`.

    Every interleaving of the pool is one of the linked pool and the other way
    round (`work_queue_refine`). -/

namespace ThreadpoolMem

open LabelledRun CondVar Threadpool ThreadpoolRun
open WaitQueue (Links initListHead listAddTail)
open ListHead (ListPoison Holds Off Shown listDel)

/-- A `struct list_head`: the one of the queue, or the `list` of a work.  A
    `struct work` goes by the call that allocated it. -/
inductive QueueNode where
  | head
  | work (work : Work)
  | poison1
  | poison2
  deriving DecidableEq

instance : ListPoison QueueNode where
  listPoison1 := .poison1
  listPoison2 := .poison2

/-- A pool: the links, and everything else.  The list of `pool` stays empty. -/
structure MemPool where
  links : Links QueueNode
  pool : Pool

/-- `workqueue_get`: with `num` above 0, the loop ends with the first entry.  On an
    empty list it would leave `work` pointing at the head. -/
def workqueueGet (m : MemPool) : Option (GetResult × MemPool) :=
  let wq := m.pool.queue
  if wq.num = 0 then
    if wq.status ≠ .running then some (.null, m) else some (.wait, m)
  else
    match m.links.next .head with
    | .work work =>
        some (.work work,
          { links := listDel m.links (.work work)
            pool := { m.pool with queue := { wq with num := wq.num - 1 } } })
    | _ => none

/-- Worker `w` in `workqueue_get`. -/
def workerGet (m : MemPool) (w : Nat) : Option MemPool :=
  (workqueueGet m).map fun r =>
    { r.2 with pool := match r.1 with
      | .wait => { r.2.pool with workers := r.2.pool.workers.set w .blocked }
      | .null => { r.2.pool with workers := r.2.pool.workers.set w .exiting }
      | .work work =>
          { r.2.pool with
            workers := r.2.pool.workers.set w (.working work)
            started := r.2.pool.started ++ [(w, work)] } }

/-- `threadpool_submit` from `workqueue_put` on. -/
def submitPut (m : MemPool) (work : Work) (woken : Option Nat) : Option MemPool :=
  (workqueueSignal m.pool.queue m.pool.workers woken).map fun workers =>
    { links := listAddTail m.links (.work work) .head
      pool := { m.pool with
        workers := workers
        queue := { m.pool.queue with num := m.pool.queue.num + 1 }
        lock := .free
        accepted := m.pool.accepted ++ [work] } }

/-- The steps; the others do not touch the queue's list. -/
def memStep (m : MemPool) : Event → Option MemPool
  | .put woken =>
      match m.pool.lock with
      | .submitting work => submitPut m work woken
      | _ => none
  | .get w =>
      if m.pool.workers[w]? = some .arriving ∨ m.pool.workers[w]? = some .signalled then
        workerGet m w
      else none
  | e => (step m.pool e).map fun pool => { m with pool := pool }

/-- `threadpool_create`, whatever the memory held before. -/
def threadpoolCreate (links : Links QueueNode) (cpuNum maxThreads : Int) : MemPool where
  links := initListHead links .head
  pool := Threadpool.threadpoolCreate cpuNum maxThreads

def MemCreated (m : MemPool) : Prop :=
  ∃ links cpuNum maxThreads, m = threadpoolCreate links cpuNum maxThreads ∧ 1 ≤ m.pool.maxThreads

/-- The states of all interleavings. -/
def MemReachable (m : MemPool) : Prop := Reach MemCreated (fires memStep) m

-- ── The relation ─────────────────────────────────────────────────────────────

/-- Everything but the list. -/
def bare (pool : Pool) : Pool := { pool with queue := { pool.queue with list := [] } }

/-- The links hold the list of the pool. -/
structure Same (m : MemPool) (pool : Pool) : Prop where
  held : Holds m.links [(.head, pool.queue.list.map .work)]
  rest : m.pool = bare pool

/-- The list in memory is the list of the pool, and the rest is equal. -/
structure Shows (m : MemPool) (pool : Pool) : Prop where
  list : Shown m.links .head (pool.queue.list.map .work)
  rest : m.pool = bare pool

theorem Same.shows {m : MemPool} {pool : Pool} (h : Same m pool) : Shows m pool where
  list := h.held.shown
  rest := h.rest

/-- The states show the same, and a step is possible in both and leaves them
    showing the same, or in none. -/
structure Agrees (m : MemPool) (pool : Pool) : Prop where
  shows : Shows m pool
  step : ∀ e, Option.Rel Shows (memStep m e) (step pool e)

-- ── Lockstep ─────────────────────────────────────────────────────────────────

section Steps

variable {m : MemPool} {pool : Pool} {w : Nat} {woken : Option Nat} {e : Event}

/-- Taking the first work. -/
theorem workqueueGet_rel (h : Same m pool) :
    Option.Rel (fun r r' => r.1 = r'.1 ∧ Same r.2 { pool with queue := r'.2 })
      (workqueueGet m) (Threadpool.workqueueGet pool.queue) := by
  have hnum : m.pool.queue.num = pool.queue.num := by
    rw [h.rest]
    rfl
  have hstatus : m.pool.queue.status = pool.queue.status := by
    rw [h.rest]
    rfl
  rw [workqueueGet, Threadpool.workqueueGet]
  dsimp only
  rw [hnum, hstatus]
  by_cases h0 : pool.queue.num = 0
  · rw [if_pos h0, if_pos h0]
    by_cases hstop : pool.queue.status ≠ .running
    · rw [if_pos hstop, if_pos hstop]
      exact Option.Rel.some ⟨rfl, h⟩
    · rw [if_neg hstop, if_neg hstop]
      exact Option.Rel.some ⟨rfl, h⟩
  · rw [if_neg h0, if_neg h0]
    have hheld := h.held
    cases hlist : pool.queue.list with
    | nil =>
        rw [hlist] at hheld
        have hnext : m.links.next .head = .head := (Option.some.inj hheld.next_head).symm
        rw [hnext]
        exact Option.Rel.none
    | cons work list =>
        rw [hlist, List.map_cons] at hheld
        have hnext : m.links.next .head = .work work := hheld.first
        rw [hnext]
        have hdel := hheld.del List.mem_cons_self
        rw [List.erase_cons_head] at hdel
        refine Option.Rel.some ⟨rfl, hdel, ?_⟩
        rw [h.rest]
        rfl

theorem workerGet_rel (h : Same m pool) (w : Nat) :
    Option.Rel Same (workerGet m w) (Threadpool.workerGet pool w) := by
  refine rel_map (workqueueGet_rel h) ?_
  rintro ⟨result, m'⟩ ⟨_, queue⟩ ⟨rfl, hsame⟩
  have hrest : m'.pool = bare { pool with queue := queue } := hsame.rest
  cases result with
  | wait => exact ⟨hsame.held, by dsimp only; rw [hrest]; rfl⟩
  | null => exact ⟨hsame.held, by dsimp only; rw [hrest]; rfl⟩
  | work work => exact ⟨hsame.held, by dsimp only; rw [hrest]; rfl⟩

/-- Appending a work that is on no list. -/
theorem submitPut_rel (h : Same m pool) {work : Work} (hwork : work ∉ pool.queue.list)
    (woken : Option Nat) :
    Option.Rel Same (submitPut m work woken) (Threadpool.submitPut pool work woken) := by
  have hsignal : workqueueSignal m.pool.queue m.pool.workers woken
      = workqueueSignal pool.queue pool.workers woken := by
    rw [h.rest]
    rfl
  rw [submitPut, Threadpool.submitPut, hsignal]
  refine rel_map (rel_refl _) ?_
  rintro workers _ rfl
  have hadd := h.held.append (x := QueueNode.work work) (by simp [Off, hwork])
  refine ⟨?_, ?_⟩
  · show Holds _ [(QueueNode.head, (pool.queue.list ++ [work]).map QueueNode.work)]
    rw [List.map_append]
    exact hadd
  · rw [h.rest]
    rfl

/-- What a step comes to without the list, and the list that it leaves. -/
def Beside (pool p p' : Pool) : Prop := p = bare p' ∧ p'.queue.list = pool.queue.list

theorem submit_beside (task : Nat) (created : Bool) :
    Beside pool (threadpoolSubmit (bare pool) task created)
      (threadpoolSubmit pool task created) := by
  rw [threadpoolSubmit, threadpoolSubmit]
  dsimp only
  rw [show (bare pool).status = pool.status from rfl]
  by_cases hstop : pool.status ≠ .running
  · rw [if_pos hstop, if_pos hstop]
    exact ⟨rfl, rfl⟩
  · rw [if_neg hstop, if_neg hstop, show (bare pool).threadsNum = pool.threadsNum from rfl,
      show (bare pool).maxThreads = pool.maxThreads from rfl]
    by_cases hroom : (pool.threadsNum : Int) < pool.maxThreads
    · rw [if_pos hroom, if_pos hroom]
      cases created with
      | true => exact ⟨rfl, rfl⟩
      | false => exact ⟨rfl, rfl⟩
    · rw [if_neg hroom, if_neg hroom]
      exact ⟨rfl, rfl⟩

theorem exit_beside (w : Nat) (woken : Option Nat) :
    Option.Rel (Beside pool) (workerExit (bare pool) w woken) (workerExit pool w woken) := by
  rw [workerExit, workerExit]
  dsimp only
  rw [show (bare pool).threadsNum = pool.threadsNum from rfl]
  by_cases hlast : pool.threadsNum - 1 = 0
  · rw [if_pos hlast, if_pos hlast]
    refine rel_map (rel_refl _) ?_
    rintro waiters _ rfl
    exact ⟨rfl, rfl⟩
  · rw [if_neg hlast, if_neg hlast]
    exact Option.Rel.some ⟨rfl, rfl⟩

theorem shutdownEnd_beside (woken : Option Nat) :
    Option.Rel (Beside pool) (shutdownEnd (bare pool) woken) (shutdownEnd pool woken) := by
  rw [shutdownEnd, shutdownEnd, show (bare pool).threadsNum = pool.threadsNum from rfl]
  by_cases hnone : pool.threadsNum = 0
  · rw [if_pos hnone, if_pos hnone]
    refine rel_map (rel_refl _) ?_
    rintro waiters _ rfl
    exact ⟨rfl, rfl⟩
  · rw [if_neg hnone, if_neg hnone]
    exact Option.Rel.some ⟨rfl, rfl⟩

/-- Every other step leaves the list alone. -/
theorem step_beside (hput : ∀ woken, e ≠ .put woken) (hget : ∀ w, e ≠ .get w) :
    Option.Rel (Beside pool) (step (bare pool) e) (step pool e) := by
  cases e with
  | put woken => exact absurd rfl (hput woken)
  | get w => exact absurd rfl (hget w)
  | submit task created => exact rel_ite (Option.Rel.some (submit_beside task created))
  | wakeWorker w => exact rel_ite (Option.Rel.some ⟨rfl, rfl⟩)
  | finish w =>
      rw [step, step, show (bare pool).workers = pool.workers from rfl]
      cases pool.workers[w]? with
      | none => exact Option.Rel.none
      | some worker =>
          cases worker with
          | working work => exact Option.Rel.some ⟨rfl, rfl⟩
          | _ => exact Option.Rel.none
  | exit w woken => exact rel_ite (exit_beside w woken)
  | shutdown => exact rel_ite (Option.Rel.some ⟨rfl, rfl⟩)
  | stopQueue => exact rel_ite (Option.Rel.some ⟨rfl, rfl⟩)
  | shutdownEnd woken => exact rel_ite (shutdownEnd_beside woken)
  | wait => exact rel_ite (Option.Rel.some ⟨rfl, rfl⟩)
  | waitAgain t => exact rel_ite (Option.Rel.some ⟨rfl, rfl⟩)
  | wakeWaiter t => exact rel_ite (Option.Rel.some ⟨rfl, rfl⟩)

/-- The linked pool takes them with its links as they are. -/
theorem others_rel (h : Same m pool) (hput : ∀ woken, e ≠ .put woken) (hget : ∀ w, e ≠ .get w) :
    Option.Rel Same ((step m.pool e).map fun p => { m with pool := p }) (step pool e) := by
  have hrel : Option.Rel (Beside pool) (step (bare pool) e) (step pool e) :=
    step_beside hput hget
  rw [← h.rest] at hrel
  have hmap := rel_map (f := fun p => { m with pool := p }) (g := id) (S := Same) hrel ?_
  · rw [Option.map_id] at hmap
    exact hmap
  · rintro p p' ⟨hp, hlist⟩
    refine ⟨?_, hp⟩
    show Holds m.links [(QueueNode.head, p'.queue.list.map QueueNode.work)]
    rw [hlist]
    exact h.held

/-- **STEP LEMMA**: a step does the same to both. -/
theorem memStep_rel (h : Same m pool)
    (hfresh : ∀ work, pool.lock = .submitting work → work ∉ pool.queue.list) (e : Event) :
    Option.Rel Same (memStep m e) (step pool e) := by
  have hlock : m.pool.lock = pool.lock := by
    rw [h.rest]
    rfl
  have hworkers : m.pool.workers = pool.workers := by
    rw [h.rest]
    rfl
  cases e with
  | put woken =>
      rw [memStep, step, hlock]
      cases hl : pool.lock with
      | submitting work => exact submitPut_rel h (hfresh work hl) woken
      | _ => exact Option.Rel.none
  | get w =>
      rw [memStep, step, hworkers]
      exact rel_ite (workerGet_rel h w)
  | _ => exact others_rel h (by simp) (by simp)

end Steps

-- ── Runs ─────────────────────────────────────────────────────────────────────

/-- The work of the call that holds the lock is on no list yet. -/
theorem submitting_fresh {pool : Pool} (h : Reachable pool) {work : Work}
    (lock : pool.lock = .submitting work) : work ∉ pool.queue.list := by
  intro hmem
  have hinv := reachable_inv pool h
  have hnd := hinv.calls.nodup
  have hacc : work ∈ pool.accepted := by
    rw [← hinv.queue.fifo]
    exact List.mem_append_right _ hmem
  rw [callNumbers, lock, pending_submitting, List.map_append] at hnd
  have hdisj := List.disjoint_of_nodup_append hnd
  refine hdisj (List.mem_map_of_mem (List.mem_append_left _ hacc)) ?_
  exact List.mem_map_of_mem List.mem_cons_self

theorem Same.agrees {m : MemPool} {pool : Pool} (h : Same m pool) (hr : Reachable pool) :
    Agrees m pool where
  shows := h.shows
  step := fun e =>
    rel_mono (memStep_rel h (fun _ => submitting_fresh hr) e) fun _ _ hs => hs.shows

theorem same_create (links : Links QueueNode) (cpuNum maxThreads : Int) :
    Same (threadpoolCreate links cpuNum maxThreads)
      (Threadpool.threadpoolCreate cpuNum maxThreads) where
  held := (ListHead.holds_nil links).init (by simp [Off])
  rest := rfl

/-- **REFINEMENT**: the pool whose works are linked through memory, and the pool
    that keeps a list of them, have the same interleavings. -/
theorem work_queue_refine :
    (∀ m, MemReachable m → ∃ pool, Reachable pool ∧ Agrees m pool)
      ∧ ∀ pool, Reachable pool → ∃ m, MemReachable m ∧ Agrees m pool := by
  have hruns : (∀ m, MemReachable m → ∃ pool, Reachable pool ∧ Same m pool)
      ∧ ∀ pool, Reachable pool → ∃ m, MemReachable m ∧ Same m pool := by
    refine Reach.bisimulate ?_ ?_ ?_ ?_
    · rintro m ⟨links, cpuNum, maxThreads, rfl, hmax⟩
      exact ⟨_, ⟨cpuNum, maxThreads, rfl, hmax⟩, same_create links cpuNum maxThreads⟩
    · rintro pool ⟨cpuNum, maxThreads, rfl, hmax⟩
      exact ⟨threadpoolCreate { next := id, prev := id } cpuNum maxThreads,
        ⟨_, cpuNum, maxThreads, rfl, hmax⟩, same_create _ cpuNum maxThreads⟩
    · intro m pool e m' hr h hstep
      exact rel_some (memStep_rel h (fun _ => submitting_fresh hr) e) hstep
    · intro m pool e pool' hr h hstep
      exact rel_of_some (memStep_rel h (fun _ => submitting_fresh hr) e) hstep
  constructor
  · intro m hm
    obtain ⟨pool, hr, h⟩ := hruns.1 m hm
    exact ⟨pool, hr, h.agrees hr⟩
  · intro pool hr
    obtain ⟨m, hm, h⟩ := hruns.2 pool hr
    exact ⟨m, hm, h.agrees hr⟩

end ThreadpoolMem
