import TreasureHouse.SchedQueueProofs

/-! # `list_del` of a coroutine — the functions that unlink, with their failures

    A coroutine has one list node.  `list_del` poisons it, and `list_del` of a
    poisoned node writes through the poison.  `CoSched` gives such a call no
    result, as it does for whatever else has none; here the two are apart
    (`Fault`), so that a run can say which node was unlinked in vain.

    `co_queue_popleft`, `sched_co_resume` and `coroutine_set_current_state` are
    the functions that unlink.  For the others, and those that call them,
    `_toOption` says that they are those of `CoSched` once the fault is
    forgotten. -/

namespace CoLink

open LabelledRun HeapC CoTimer CoSched

variable {α β : Type}

/-- Why a call has no result: `list_del` met the node of a coroutine that is on
    no queue, or something else. -/
inductive Fault where
  | unlinked (co : Nat)
  | other
  deriving DecidableEq

/-- A call that does not unlink. -/
def found (r : Option α) : Except Fault α := r.elim (.error .other) .ok

theorem found_toOption (r : Option α) : (found r).toOption = r := by
  cases r <;> rfl

theorem found_cases (r : Option α) :
    (∃ a, found r = .ok a ∧ r = some a) ∨ found r = .error .other := by
  cases r with
  | none => exact Or.inr rfl
  | some a => exact Or.inl ⟨a, rfl, rfl⟩

theorem toOption_bind (x : Except Fault α) (f : α → Except Fault β) :
    (x >>= f).toOption = x.toOption >>= fun a => (f a).toOption := by
  cases x <;> rfl

theorem eq_ok_of_toOption {x : Except Fault α} {a : α} (h : x.toOption = some a) : x = .ok a := by
  cases x with
  | error e => cases h
  | ok b =>
      cases h
      rfl

theorem bind_eq_ok {x : Except Fault α} {f : α → Except Fault β} {b : β} :
    x >>= f = .ok b ↔ ∃ a, x = .ok a ∧ f a = .ok b := by
  cases x with
  | error e => exact iff_of_false (fun h => nomatch h) fun ⟨_, h, _⟩ => nomatch h
  | ok a =>
      constructor
      · exact fun h => ⟨a, rfl, h⟩
      · rintro ⟨a', ha, h⟩
        cases ha
        exact h

-- ── The functions ────────────────────────────────────────────────────────────

/-- `co->list` is linked into one of the scheduler's queues. -/
def Linked (sched : Sched) (co : Nat) : Prop := co ∈ sched.coQueue ∨ co ∈ sched.coReadyQueue

instance (sched : Sched) (co : Nat) : Decidable (Linked sched co) :=
  inferInstanceAs (Decidable (_ ∨ _))

/-- `list_del(&co->list)`. -/
def listDel (sched : Sched) (co : Nat) : Except Fault Sched :=
  if Linked sched co then
    .ok { sched with
      coQueue := sched.coQueue.erase co
      coReadyQueue := sched.coReadyQueue.erase co }
  else .error (.unlinked co)

/-- `co_queue_popleft` of `co_ready_queue`. -/
def coQueuePopleft (sched : Sched) : Except Fault (Option Nat × Sched) :=
  match sched.coReadyQueue with
  | [] => .ok (none, sched)
  | co :: _ => (listDel sched co).map fun sched => (some co, sched)

/-- `sched_co_resume`. -/
def schedCoResume (sched : Sched) (co : Nat) : Except Fault Sched := do
  let c ← found (sched.mem co)
  let sched ← listDel sched co
  .ok { sched with
    mem := Function.update sched.mem co (some { c with status := .runnable })
    coReadyQueue := coQueueAppend sched.coReadyQueue co }

/-- `coroutine_set_current_state`.  The source hands `list_del` the node itself;
    its address is meant. -/
def coroutineSetCurrentState (sched : Sched) (state : CoStatus) : Except Fault Sched := do
  let co ← found sched.coCurr
  let c ← found (sched.mem co)
  let sched := { sched with mem := Function.update sched.mem co (some { c with status := state }) }
  if state ≠ .runnable then listDel sched co else .ok sched

/-- The loop of `process_expired_timers` for `k` more rounds. -/
def processExpiredLoop (clk : Nat → Int) : Nat → Sched → Except Fault (Int × Sched)
  | 0, sched => .ok (0, sched)
  | k + 1, sched => do
      match ← found (heapTop sched.coTimerHeap) with
      | none => .ok (0, sched)
      | some timer =>
          let timeNow := clk sched.tick
          let sched := { sched with tick := sched.tick + 1 }
          if timer.when > timeNow then
            .ok (timer.when - timeNow, sched)
          else do
            let popped ← found (heapPop sched.coTimerHeap)
            let sched ← schedCoResume { sched with coTimerHeap := popped.2 } timer.args
            processExpiredLoop clk k sched

/-- `process_expired_timers`. -/
def processExpiredTimers (clk : Nat → Int) (sched : Sched) : Except Fault (Int × Sched) :=
  processExpiredLoop clk sched.coTimerHeap.elemNum sched

/-- `main_loop` when no coroutine is ready. -/
def waitForEvents (clk : Nat → Int) (sched : Sched) : Except Fault Sched := do
  let (delay, sched) ← processExpiredTimers clk sched
  let (_, sched) ← processExpiredTimers clk (eventLoopRun sched delay)
  .ok sched

/-- One iteration of `main_loop`: `pick_one_co`, then `schedule` or wait. -/
def mainLoopIter (clk : Nat → Int) (sched : Sched) : Except Fault Sched := do
  let (co, sched) ← coQueuePopleft sched
  let sched := { sched with coCurr := co }
  match co with
  | none => waitForEvents clk sched
  | some co => found (schedule sched co)

/-- A step of the scheduler's own; only an iteration of `main_loop` unlinks. -/
def ownStep (clk : Nat → Int) (sched : Sched) (e : Event) : Except Fault Sched :=
  match e with
  | .iterate =>
      if sched.inCo = false ∧ sched.status = .running ∧ sched.coNums ≠ 0 then
        mainLoopIter clk sched
      else .error .other
  | e => found (step clk sched e)

-- ── The same functions with the fault forgotten ──────────────────────────────

theorem listDel_toOption (sched : Sched) (co : Nat) :
    (listDel sched co).toOption = CoSched.listDel sched co := by
  rw [listDel, CoSched.listDel]
  by_cases h : co ∈ sched.coQueue ∨ co ∈ sched.coReadyQueue
  · rw [if_pos h, if_pos (show Linked sched co from h)]
    rfl
  · rw [if_neg h, if_neg (show ¬ Linked sched co from h)]
    rfl

theorem schedCoResume_toOption (sched : Sched) (co : Nat) :
    (schedCoResume sched co).toOption = CoSched.schedCoResume sched co := by
  simp only [schedCoResume, CoSched.schedCoResume, toOption_bind, found_toOption, listDel_toOption]
  rfl

theorem processExpiredLoop_toOption (clk : Nat → Int) : ∀ (k : Nat) (sched : Sched),
    (processExpiredLoop clk k sched).toOption = CoSched.processExpiredLoop clk k sched := by
  intro k
  induction k with
  | zero => exact fun _ => rfl
  | succ k ih =>
      intro sched
      rw [processExpiredLoop, CoSched.processExpiredLoop, toOption_bind, found_toOption]
      refine Option.bind_congr ?_
      intro top _
      cases top with
      | none => rfl
      | some timer =>
          by_cases hlate : timer.when > clk sched.tick
          · simp only [if_pos hlate]
            rfl
          · simp only [if_neg hlate, toOption_bind, found_toOption, schedCoResume_toOption, ih]

theorem waitForEvents_toOption (clk : Nat → Int) (sched : Sched) :
    (waitForEvents clk sched).toOption = CoSched.waitForEvents clk sched := by
  simp only [waitForEvents, CoSched.waitForEvents, toOption_bind, processExpiredTimers,
    CoSched.processExpiredTimers, processExpiredLoop_toOption]
  rfl

/-- The first node of a queue is linked, and is on no other queue. -/
theorem coQueuePopleft_cons {sched : Sched} {co : Nat} {queue : List Nat} (h : Placed sched)
    (hq : sched.coReadyQueue = co :: queue) :
    coQueuePopleft sched = .ok (some co, { sched with coReadyQueue := queue }) := by
  have hmem : co ∈ sched.coReadyQueue := by
    rw [hq]
    exact List.mem_cons_self
  have hnot : co ∉ sched.coQueue := fun hw =>
    List.disjoint_of_nodup_append h.nodup.of_append_left hmem hw
  simp only [coQueuePopleft, hq, listDel, if_pos (show Linked sched co from Or.inr hmem),
    List.erase_of_not_mem hnot, List.erase_cons_head]
  rfl

theorem mainLoopIter_toOption (clk : Nat → Int) {sched : Sched} (h : Placed sched) :
    (mainLoopIter clk sched).toOption = CoSched.mainLoopIter clk sched := by
  rw [mainLoopIter, CoSched.mainLoopIter, toOption_bind]
  split
  · rename_i hq
    have hpop : coQueuePopleft sched = .ok (none, sched) := by
      rw [coQueuePopleft]
      simp only [hq]
    rw [hpop]
    exact waitForEvents_toOption clk _
  · rename_i co queue hq
    rw [coQueuePopleft_cons h hq]
    exact found_toOption _

theorem ownStep_toOption (clk : Nat → Int) {sched : Sched} (h : Placed sched) (e : Event) :
    (ownStep clk sched e).toOption = step clk sched e := by
  cases e with
  | iterate =>
      by_cases hgo : sched.inCo = false ∧ sched.status = .running ∧ sched.coNums ≠ 0
      · rw [ownStep, step, if_pos hgo, if_pos hgo]
        exact mainLoopIter_toOption clk h
      · rw [ownStep, step, if_neg hgo, if_neg hgo]
        rfl
  | _ => exact found_toOption _

-- ── What a resume does ───────────────────────────────────────────────────────

theorem schedCoResume_eq_ok {sched sched' : Sched} {co : Nat} :
    schedCoResume sched co = .ok sched' ↔ ∃ c, sched.mem co = some c ∧ Linked sched co
      ∧ sched' = { sched with
          coQueue := sched.coQueue.erase co
          mem := Function.update sched.mem co (some { c with status := .runnable })
          coReadyQueue := sched.coReadyQueue.erase co ++ [co] } := by
  constructor
  · intro h
    refine CoSched.schedCoResume_cases ?_
    rw [← schedCoResume_toOption, h]
    rfl
  · rintro ⟨c, hc, hlinked, rfl⟩
    simp only [schedCoResume, hc, listDel, if_pos hlinked]
    rfl

/-- A resumed coroutine is ready, and so is who was. -/
theorem mem_ready_of_resume {sched sched' : Sched} {co x : Nat}
    (h : schedCoResume sched co = .ok sched') :
    x ∈ sched'.coReadyQueue ↔ x ∈ sched.coReadyQueue ∨ x = co := by
  obtain ⟨c, -, -, rfl⟩ := schedCoResume_eq_ok.mp h
  show x ∈ sched.coReadyQueue.erase co ++ [co] ↔ _
  rw [List.mem_append, List.mem_singleton]
  by_cases hx : x = co
  · exact iff_of_true (Or.inr hx) (Or.inr hx)
  · rw [List.mem_erase_of_ne hx]

/-- A queue without duplicates stays one. -/
theorem ready_nodup_of_resume {sched sched' : Sched} {co : Nat}
    (h : schedCoResume sched co = .ok sched') (hnd : sched.coReadyQueue.Nodup) :
    sched'.coReadyQueue.Nodup := by
  obtain ⟨c, -, -, rfl⟩ := schedCoResume_eq_ok.mp h
  refine (List.nodup_append_comm).mp (List.nodup_cons.mpr ⟨?_, hnd.erase co⟩)
  exact hnd.not_mem_erase

end CoLink
