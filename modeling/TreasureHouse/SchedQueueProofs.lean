import Mathlib.Data.Finset.Card
import TreasureHouse.SchedStackProofs
import TreasureHouse.TimerHeapProofs

/-! # Where the coroutines are — two queues, the current slot and the heap

    The runs here are those of one scheduler left to itself: coroutines are
    submitted, yield, sleep and finish, and nobody else suspends or resumes
    one.  `Placed` says that the coroutines on `co_ready_queue`, on `co_queue`
    and in `co_curr` while it runs are the live ones, each once; `Sleeping`
    that the timers in the heap name those on `co_queue`.

    `list_del` of a coroutine on no queue has no result in the model, and it is
    called in iterations of `main_loop` only: that an iteration always has a
    result says that this never happens.  `entered` records the coroutines in
    the order in which they were appended to `co_ready_queue`. -/

namespace CoSched

open LabelledRun HeapC HeapQueue CoTimer

/-- The steps of a scheduler left to itself. -/
def ownEvent : Event → Bool
  | .suspend _ => false
  | .resume _ => false
  | _ => true

/-- The coroutines that expired timers name, in the order they are run. -/
def expiredCos (r : Expired) : List Nat := r.ran.map fun p => p.1.args

/-- The coroutines resumed by an idle iteration, which looks at the timers
    twice. -/
def awoken (clk : Nat → Int) (heap : Heap Timer) (tick : Nat) : List Nat :=
  match expiredTimers clk heap tick with
  | none => []
  | some r =>
      match expiredTimers clk r.heap r.tick with
      | none => expiredCos r
      | some r' => expiredCos r ++ expiredCos r'

/-- The coroutines a step appends to `co_ready_queue`. -/
def entering (clk : Nat → Int) (sched : Sched) : Event → List Nat
  | .iterate =>
      match sched.coReadyQueue with
      | [] => awoken clk sched.coTimerHeap sched.tick
      | _ :: _ => []
  | .yield _ => sched.coCurr.toList
  | .submit co => [co]
  | .resume co => [co]
  | _ => []

/-- A scheduler and the coroutines that entered `co_ready_queue` so far. -/
structure Logged where
  sched : Sched
  entered : List Nat

def loggedStep (clk : Nat → Int) (s : Logged) (e : Event) : Option Logged :=
  (step clk s.sched e).map fun sched => ⟨sched, s.entered ++ entering clk s.sched e⟩

/-- The runs of a scheduler left to itself. -/
def OwnRun (clk : Nat → Int) (s : Logged) : Prop :=
  Reach (fun s => s = ⟨schedCreate, []⟩)
    (guarded (fun _ e => ownEvent e = true) (fires (loggedStep clk))) s

-- ── The invariant ────────────────────────────────────────────────────────────

/-- The coroutine that runs, if one does. -/
def runningCo (sched : Sched) : List Nat := if sched.inCo then sched.coCurr.toList else []

def placed (sched : Sched) : List Nat :=
  sched.coReadyQueue ++ sched.coQueue ++ runningCo sched

/-- The live coroutines are on a queue or run, each once, and are counted. -/
structure Placed (sched : Sched) : Prop where
  nodup : (placed sched).Nodup
  live : ∀ co, co ∈ placed sched ↔ (sched.mem co).isSome = true
  nums : sched.coNums = (placed sched).length

/-- The heap holds the timers `l`, one for each coroutine on `co_queue`. -/
structure Sleeping (sched : Sched) (l : List Timer) : Prop where
  rep : HeapRep sched.coTimerHeap l
  cmp : sched.coTimerHeap.cmpFn = coTimerCmp
  timers : (l.map Timer.args).Perm sched.coQueue

theorem placed_create : Placed schedCreate where
  nodup := List.nodup_nil
  live := fun _ => iff_of_false (fun h => nomatch h) (fun h => nomatch h)
  nums := rfl

theorem sleeping_create : Sleeping schedCreate [] where
  rep := heapCreate_rep coTimerCmp
  cmp := rfl
  timers := List.Perm.refl _

/-- The same coroutines are live and they only moved. -/
theorem Placed.moved {sched sched' : Sched} (h : Placed sched)
    (hperm : (placed sched').Perm (placed sched))
    (hmem : ∀ co, (sched'.mem co).isSome = (sched.mem co).isSome)
    (hnums : sched'.coNums = sched.coNums) : Placed sched' where
  nodup := hperm.nodup_iff.mpr h.nodup
  live := by
    intro co
    rw [hperm.mem_iff, hmem]
    exact h.live co
  nums := by
    rw [hnums, h.nums, hperm.length_eq]

theorem isSome_update {mem : Nat → Option Coroutine} {co : Nat} {c c' : Coroutine}
    (h : mem co = some c) (x : Nat) :
    (Function.update mem co (some c') x).isSome = (mem x).isSome := by
  by_cases hx : x = co
  · subst hx
    rw [Function.update_self, h]
    rfl
  · rw [Function.update_of_ne hx]

-- ── Timers that expire ───────────────────────────────────────────────────────

/-- What resuming the coroutines `cos`, all of them asleep, did. -/
structure Woken (sched : Sched) (cos : List Nat) (sched' : Sched) : Prop where
  ready : sched'.coReadyQueue = sched.coReadyQueue ++ cos
  queue : (cos ++ sched'.coQueue).Perm sched.coQueue
  mem : ∀ co, (sched'.mem co).isSome = (sched.mem co).isSome
  inCo : sched'.inCo = sched.inCo
  coCurr : sched'.coCurr = sched.coCurr
  coNums : sched'.coNums = sched.coNums
  switches : sched'.switches = sched.switches

theorem Woken.refl (sched : Sched) : Woken sched [] sched where
  ready := (List.append_nil _).symm
  queue := List.Perm.refl _
  mem := fun _ => rfl
  inCo := rfl
  coCurr := rfl
  coNums := rfl
  switches := rfl

theorem Woken.trans {s₁ s₂ s₃ : Sched} {cos cos' : List Nat} (h : Woken s₁ cos s₂)
    (h' : Woken s₂ cos' s₃) : Woken s₁ (cos ++ cos') s₃ where
  ready := by rw [h'.ready, h.ready, List.append_assoc]
  queue := by
    rw [List.append_assoc]
    exact (h'.queue.append_left cos).trans h.queue
  mem := fun co => (h'.mem co).trans (h.mem co)
  inCo := h'.inCo.trans h.inCo
  coCurr := h'.coCurr.trans h.coCurr
  coNums := h'.coNums.trans h.coNums
  switches := h'.switches.trans h.switches

/-- Those that were resumed moved from one queue to the other. -/
theorem Woken.placed_perm {sched sched' : Sched} {cos : List Nat} (h : Woken sched cos sched') :
    (placed sched').Perm (placed sched) := by
  have hrun : runningCo sched' = runningCo sched := by
    rw [runningCo, runningCo, h.inCo, h.coCurr]
  rw [placed, placed, hrun, h.ready, List.append_assoc sched.coReadyQueue]
  exact (h.queue.append_left _).append_right _

theorem Woken.placed {sched sched' : Sched} {cos : List Nat} (h : Woken sched cos sched')
    (hp : Placed sched) : Placed sched' :=
  hp.moved h.placed_perm h.mem h.coNums

/-- **RESUME**: a sleeping coroutine can be resumed. -/
theorem schedCoResume_woken {sched : Sched} (h : Placed sched) {co : Nat}
    (hco : co ∈ sched.coQueue) : ∃ sched', schedCoResume sched co = some sched'
      ∧ Woken sched [co] sched' := by
  have hin : co ∈ placed sched := List.mem_append_left _ (List.mem_append_right _ hco)
  obtain ⟨c, hc⟩ := Option.isSome_iff_exists.mp ((h.live co).mp hin)
  have hnd : (sched.coReadyQueue ++ sched.coQueue).Nodup := h.nodup.of_append_left
  have hnot : co ∉ sched.coReadyQueue := fun hr => List.disjoint_of_nodup_append hnd hr hco
  refine ⟨_, by rw [schedCoResume, hc, listDel, if_pos (Or.inl hco)]; rfl, ?_⟩
  exact {
    ready := by
      show coQueueAppend (sched.coReadyQueue.erase co) co = _
      rw [List.erase_of_not_mem hnot]
      rfl
    queue := (List.perm_cons_erase hco).symm
    mem := isSome_update hc
    inCo := rfl
    coCurr := rfl
    coNums := rfl
    switches := rfl }

theorem resumeAll_woken :
    ∀ (ps : List (Timer × Int)) (sched : Sched) (rest : List Nat), Placed sched →
      ((ps.map fun p => p.1.args) ++ rest).Perm sched.coQueue →
      ∃ sched', resumeAll ps sched = some sched'
        ∧ Woken sched (ps.map fun p => p.1.args) sched' := by
  intro ps
  induction ps with
  | nil => exact fun sched _ _ _ => ⟨sched, rfl, Woken.refl sched⟩
  | cons p ps ih =>
      intro sched rest h hperm
      have hco : p.1.args ∈ sched.coQueue := hperm.mem_iff.mp List.mem_cons_self
      obtain ⟨s₁, hres, hw⟩ := schedCoResume_woken h hco
      have hrest : ((ps.map fun p => p.1.args) ++ rest).Perm s₁.coQueue :=
        (hperm.trans hw.queue.symm).cons_inv
      obtain ⟨s₂, hall, hw'⟩ := ih s₁ rest (hw.placed h) hrest
      refine ⟨s₂, ?_, hw.trans hw'⟩
      rw [resumeAll, hres]
      exact hall

/-- **EXPIRY**: a call of `process_expired_timers` always has a result; the
    coroutines it resumes are those whose timers it ran. -/
theorem processExpiredTimers_woken (clk : Nat → Int) {sched : Sched} {l : List Timer}
    (h : Placed sched) (hs : Sleeping sched l) :
    ∃ r l' sched', expiredTimers clk sched.coTimerHeap sched.tick = some r
      ∧ processExpiredTimers clk sched = some (r.delay, sched')
      ∧ sched'.coTimerHeap = r.heap ∧ sched'.tick = r.tick
      ∧ Woken sched (expiredCos r) sched' ∧ Sleeping sched' l' := by
  obtain ⟨r, l', hr, hdone⟩ := expiredLoop_spec clk sched.coTimerHeap.elemNum sched.coTimerHeap l
    sched.tick hs.rep hs.cmp (by rw [hs.rep.num])
  have hargs : ((r.ran.map fun p => p.1.args) ++ l'.map Timer.args).Perm sched.coQueue := by
    have hp := (hdone.perm.map Timer.args).trans hs.timers
    rw [List.map_append, List.map_map] at hp
    exact hp
  obtain ⟨s₁, hall, hw⟩ := resumeAll_woken r.ran sched (l'.map Timer.args) h hargs
  refine ⟨r, l', setTimers s₁ r.heap r.tick, hr, ?_, rfl, rfl, ?_, ?_⟩
  · rw [processExpiredTimers, processExpiredLoop_eq, hr]
    simp only [Option.bind_some, hall, Option.map_some]
  · exact {
      ready := hw.ready
      queue := hw.queue
      mem := hw.mem
      inCo := hw.inCo
      coCurr := hw.coCurr
      coNums := hw.coNums
      switches := hw.switches }
  · exact {
      rep := hdone.rep
      cmp := hdone.cmp
      timers := (List.perm_append_left_iff _).mp (hargs.trans hw.queue.symm) }

/-- **IDLE ITERATION**: it always has a result. -/
theorem waitForEvents_woken (clk : Nat → Int) {sched : Sched} {l : List Timer}
    (h : Placed sched) (hs : Sleeping sched l) :
    ∃ l' sched', waitForEvents clk sched = some sched'
      ∧ Woken sched (awoken clk sched.coTimerHeap sched.tick) sched' ∧ Sleeping sched' l' := by
  obtain ⟨r, l₁, s₁, hr, hp, hheap, htick, hw, hs₁⟩ := processExpiredTimers_woken clk h hs
  have hev : Woken s₁ [] (eventLoopRun s₁ r.delay) := { Woken.refl s₁ with }
  have hsev : Sleeping (eventLoopRun s₁ r.delay) l₁ := { hs₁ with }
  obtain ⟨r', l', s₂, hr', hp', -, -, hw', hs₂⟩ :=
    processExpiredTimers_woken clk (hev.placed (hw.placed h)) hsev
  have hr'' : expiredTimers clk r.heap r.tick = some r' := by
    rw [← hheap, ← htick]
    exact hr'
  refine ⟨l', s₂, ?_, ?_, hs₂⟩
  · simp only [waitForEvents, hp, Option.bind_eq_bind, Option.bind_some, hp']
  · have hall := hw.trans (hev.trans hw')
    simp only [awoken, hr, hr'']
    exact hall

-- ── Steps ────────────────────────────────────────────────────────────────────

/-- The coroutines scheduled so far, then those that wait for it. -/
def history (sched : Sched) : List Nat :=
  sched.switches.map Switch.co ++ sched.coReadyQueue

/-- What a step keeps, and what it appends. -/
structure Kept (clk : Nat → Int) (sched : Sched) (e : Event) (sched' : Sched) : Prop where
  placed : Placed sched'
  sleeping : ∃ l, Sleeping sched' l
  history : history sched' = history sched ++ entering clk sched e

section Steps

variable {clk : Nat → Int} {sched sched' : Sched} {l : List Timer} {co n : Nat}

theorem placed_running (hin : sched.inCo = true) (hco : sched.coCurr = some co) :
    placed sched = sched.coReadyQueue ++ sched.coQueue ++ [co] := by
  rw [placed, runningCo, if_pos hin, hco]
  rfl

theorem placed_idle (hin : sched.inCo = false) :
    placed sched = sched.coReadyQueue ++ sched.coQueue := by
  rw [placed, runningCo, hin]
  exact List.append_nil _

/-- **SCHEDULE**: the first ready coroutine is the next one to run. -/
theorem schedule_kept (hr : Reachable clk sched) (h : Placed sched) (hs : Sleeping sched l)
    (hin : sched.inCo = false) {queue : List Nat} (hq : sched.coReadyQueue = co :: queue) :
    ∃ sched', schedule { sched with coReadyQueue := queue, coCurr := some co } co = some sched'
      ∧ Kept clk sched .iterate sched' := by
  have hpl : placed sched = co :: queue ++ sched.coQueue := by rw [placed_idle hin, hq]
  have hmem : co ∈ placed sched := by
    rw [hpl]
    exact List.mem_cons_self
  obtain ⟨c, hc⟩ := Option.isSome_iff_exists.mp ((h.live co).mp hmem)
  obtain ⟨-, stack, hstack⟩ := reachable_copies_fit clk hr hc
  refine ⟨_, by simp only [schedule, hc, hstack, Option.bind_eq_bind, Option.bind_some]; rfl, ?_⟩
  exact {
    placed := by
      refine h.moved ?_ (isSome_update hc) rfl
      rw [placed_running rfl (Eq.refl (some co)), hpl]
      exact List.perm_append_singleton co (queue ++ sched.coQueue)
    sleeping := ⟨l, { hs with }⟩
    history := by
      have he : entering clk sched .iterate = [] := by
        simp only [entering, hq]
      rw [he, history, history, hq, List.map_append, List.append_nil, List.append_assoc]
      rfl }

/-- **ITERATE**: an iteration of `main_loop` always has a result. -/
theorem iterate_kept (hr : Reachable clk sched) (h : Placed sched) (hs : Sleeping sched l)
    (hin : sched.inCo = false) (hst : sched.status = .running) (hn : sched.coNums ≠ 0) :
    ∃ sched', step clk sched .iterate = some sched' ∧ Kept clk sched .iterate sched' := by
  rw [step, if_pos ⟨hin, hst, hn⟩, mainLoopIter]
  split
  · rename_i hq
    have hpl : placed { sched with coCurr := none } = placed sched := by
      rw [placed_idle hin]
      exact placed_idle hin
    have he : entering clk sched .iterate = awoken clk sched.coTimerHeap sched.tick := by
      simp only [entering, hq]
    have h₀ : Placed { sched with coCurr := none } :=
      h.moved (by rw [hpl]) (fun _ => rfl) rfl
    obtain ⟨l', sched', hwait, hw, hs'⟩ := waitForEvents_woken clk h₀ { hs with }
    refine ⟨sched', hwait, { placed := hw.placed h₀, sleeping := ⟨l', hs'⟩, history := ?_ }⟩
    rw [he, history, history, hw.switches, hw.ready, List.append_assoc]
  · rename_i co queue hq
    exact schedule_kept hr h hs hin hq

/-- Leaving the stack for the end of a queue. -/
theorem leave_perm (a b : List Nat) (co : Nat) : (a ++ [co] ++ b).Perm (a ++ b ++ [co]) := by
  rw [List.append_assoc, List.append_assoc]
  exact List.perm_append_comm.append_left a

/-- **YIELD**: the running coroutine enters `co_ready_queue`. -/
theorem schedYieldCoroutine_kept (h : Placed sched) (hs : Sleeping sched l)
    (hin : sched.inCo = true) (hco : sched.coCurr = some co)
    (hy : schedYieldCoroutine sched co n = some sched') : Kept clk sched (.yield n) sched' := by
  obtain ⟨c, c', hc, -, rfl⟩ := scheduleYieldCoroutine_cases hy
  exact {
    placed := by
      refine h.moved ?_ (isSome_update hc) rfl
      rw [placed_running hin hco, placed_idle rfl]
      exact leave_perm _ _ co
    sleeping := ⟨l, { hs with }⟩
    history := by
      have he : entering clk sched (.yield n) = [co] := by
        rw [entering, hco]
        rfl
      rw [he, history, history, List.append_assoc]
      rfl }

/-- **DELAY**: the running coroutine enters `co_queue`, with its timer. -/
theorem schedDelay_kept {delayMs : Int} (h : Placed sched) (hs : Sleeping sched l)
    (hin : sched.inCo = true) (hco : sched.coCurr = some co)
    (hd : schedDelay clk sched co delayMs n = some sched') :
    Kept clk sched (.delay delayMs n) sched' := by
  obtain ⟨heap, hpush, hy⟩ := schedDelay_cases hd
  obtain ⟨c, c', hc, -, rfl⟩ := scheduleYieldCoroutine_cases hy
  obtain ⟨l', hrep, hcmp, hperm, -⟩ := heapPush_some hs.rep hpush
  exact {
    placed := by
      refine h.moved ?_ (isSome_update hc) rfl
      rw [placed_running hin hco, placed_idle rfl]
      show (sched.coReadyQueue ++ (sched.coQueue ++ [co])).Perm _
      rw [List.append_assoc]
    sleeping := by
      refine ⟨l', { rep := hrep, cmp := hcmp.trans hs.cmp, timers := ?_ }⟩
      refine (hperm.map Timer.args).trans ?_
      exact (hs.timers.cons co).trans (List.perm_append_singleton co sched.coQueue).symm
    history := (List.append_nil _).symm }

/-- **DONE**: the running coroutine is neither live nor anywhere. -/
theorem coDone_kept (h : Placed sched) (hs : Sleeping sched l) (hin : sched.inCo = true)
    (hco : sched.coCurr = some co) : Kept clk sched .done (coDone sched co) := by
  have hpl : placed (coDone sched co) = sched.coReadyQueue ++ sched.coQueue := placed_idle rfl
  have hnd := h.nodup
  have hlive := h.live
  have hnums := h.nums
  rw [placed_running hin hco] at hnd hlive hnums
  have hnot : co ∉ sched.coReadyQueue ++ sched.coQueue := fun hmem =>
    List.disjoint_of_nodup_append hnd hmem (List.mem_singleton.mpr rfl)
  exact {
    placed := {
      nodup := by
        rw [hpl]
        exact hnd.of_append_left
      live := by
        intro x
        rw [hpl]
        by_cases hx : x = co
        · subst hx
          refine iff_of_false hnot ?_
          show ¬ (Function.update sched.mem x none x).isSome = true
          rw [Function.update_self]
          exact fun hsome => nomatch hsome
        · have hone : x ∉ [co] := fun hmem => hx (List.mem_singleton.mp hmem)
          show _ ↔ (Function.update sched.mem co none x).isSome = true
          rw [Function.update_of_ne hx, ← hlive x, List.mem_append (t := [co]), or_iff_left hone]
      nums := by
        rw [List.length_append, List.length_singleton] at hnums
        rw [hpl]
        show sched.coNums - 1 = _
        omega }
    sleeping := ⟨l, { hs with }⟩
    history := (List.append_nil _).symm }

/-- **SUBMIT**: the new coroutine enters `co_ready_queue`. -/
theorem schedSched_kept (h : Placed sched) (hs : Sleeping sched l) (hnew : sched.mem co = none) :
    Kept clk sched (.submit co) (schedSched sched co) := by
  have hperm : (placed (schedSched sched co)).Perm (co :: placed sched) := by
    show (sched.coReadyQueue ++ [co] ++ sched.coQueue ++ runningCo sched).Perm _
    rw [placed, List.append_assoc, List.append_assoc, List.append_assoc sched.coReadyQueue]
    exact List.perm_middle
  have hnot : co ∉ placed sched := by
    rw [h.live, hnew]
    exact fun hsome => nomatch hsome
  exact {
    placed := {
      nodup := hperm.nodup_iff.mpr (List.nodup_cons.mpr ⟨hnot, h.nodup⟩)
      live := by
        intro x
        rw [hperm.mem_iff, List.mem_cons]
        show _ ↔ (Function.update sched.mem co (some coNew) x).isSome = true
        by_cases hx : x = co
        · subst hx
          rw [Function.update_self]
          exact iff_of_true (Or.inl rfl) rfl
        · rw [Function.update_of_ne hx, or_iff_right hx]
          exact h.live x
      nums := by
        rw [hperm.length_eq, List.length_cons]
        show sched.coNums + 1 = _
        rw [h.nums]
        rfl }
    sleeping := ⟨l, { hs with }⟩
    history := by
      rw [history, history, List.append_assoc]
      rfl }

/-- **EVERY STEP** of a scheduler left to itself keeps the coroutines in place. -/
theorem step_kept {e : Event} (hr : Reachable clk sched) (h : Placed sched)
    (hs : ∃ l, Sleeping sched l) (he : ownEvent e = true)
    (hstep : step clk sched e = some sched') : Kept clk sched e sched' := by
  obtain ⟨l, hs⟩ := hs
  cases e with
  | iterate =>
      obtain ⟨hin, hst, hn, -⟩ := step_iterate_cases hstep
      obtain ⟨s₁, hs₁, hk⟩ := iterate_kept hr h hs hin hst hn
      rw [hstep] at hs₁
      cases hs₁
      exact hk
  | write stack =>
      obtain ⟨co, -, -, hw⟩ := running_cases hstep
      cases hw
      exact {
        placed := { h with }
        sleeping := ⟨l, { hs with }⟩
        history := (List.append_nil _).symm }
  | yield n =>
      obtain ⟨co, hin, hco, hy⟩ := running_cases hstep
      exact schedYieldCoroutine_kept h hs hin hco hy
  | suspend n => cases he
  | delay delayMs n =>
      obtain ⟨co, hin, hco, hd⟩ := running_cases hstep
      exact schedDelay_kept h hs hin hco hd
  | done =>
      obtain ⟨co, hin, hco, hd⟩ := running_cases hstep
      cases hd
      exact coDone_kept h hs hin hco
  | submit co =>
      rw [step, Option.ite_none_right_eq_some] at hstep
      obtain ⟨hnew, hstep⟩ := hstep
      cases hstep
      exact schedSched_kept h hs hnew
  | resume co => cases he
  | wakeup =>
      cases hstep
      exact {
        placed := { h with }
        sleeping := ⟨l, { hs with }⟩
        history := (List.append_nil _).symm }

end Steps

-- ── Runs ─────────────────────────────────────────────────────────────────────

/-- What is kept along a run. -/
structure LoggedInv (clk : Nat → Int) (s : Logged) : Prop where
  reach : Reachable clk s.sched
  placed : Placed s.sched
  sleeping : ∃ l, Sleeping s.sched l
  entered : s.entered = history s.sched

theorem ownRun_inv (clk : Nat → Int) : ∀ s, OwnRun clk s → LoggedInv clk s := by
  refine Reach.guarded_invariant (I := LoggedInv clk) ?_ ?_
  · rintro s rfl
    exact {
      reach := Reach.start rfl
      placed := placed_create
      sleeping := ⟨[], sleeping_create⟩
      entered := rfl }
  · intro s e s' _ h he hstep
    obtain ⟨sched', hstep', rfl⟩ := Option.map_eq_some_iff.mp hstep
    have hk := step_kept h.reach h.placed h.sleeping he hstep'
    exact {
      reach := h.reach.next hstep'
      placed := hk.placed
      sleeping := hk.sleeping
      entered := by
        show s.entered ++ entering clk s.sched e = _
        rw [h.entered, hk.history] }

end CoSched
