import TreasureHouse.WakeUpProofs

/-! # `wait_event` — who unlinks a node that is on no queue

    The runs of one scheduler whose coroutines yield, sleep on timers, finish,
    and sleep through `wait_event`, with calls of `wake_up` in between.  A step
    that unlinks the node of a coroutine on no queue ends the run and is
    recorded (`fault`): nothing after it has a meaning.

    A coroutine leaves `co_ready_queue` when it is picked, so while it runs its
    node is on no queue, and `coroutine_set_current_state` unlinks it once
    more.  `every_unlink_linked` says that this is the only such step. -/

namespace CoLink

open LabelledRun HeapC CoTimer CoSched WaitQueue

variable {α : Type} [DecidableEq α]

-- ── Waiting ──────────────────────────────────────────────────────────────────

/-- `init_wait_entry`. -/
def initWaitEntry (w : WakeState α) (wait : α) (flags : Nat) : Except Fault (WakeState α) := do
  let co ← found w.sched.coCurr
  .ok { w with
    lists := initListHead w.lists wait
    flags := Function.update w.flags wait flags
    owner := Function.update w.owner wait co }

/-- `prepare_to_wait_event` as long as no signal is pending, which none ever
    is.  The arguments of `list_add` and `list_add_tail` are in the order of
    the source. -/
def prepareToWaitEvent (head : α) (w : WakeState α) (entry : α) (state : CoStatus) :
    Except Fault (WakeState α) := do
  let lists :=
    if listEmpty w.lists entry then
      if w.flags entry &&& wqFlagExclusive ≠ 0 then listAddTail w.lists head entry
      else listAdd w.lists head entry
    else w.lists
  let sched ← coroutineSetCurrentState w.sched state
  .ok { w with lists := lists, sched := sched }

/-- To the wait queue it does what `WaitQueue` says, which leaves the
    scheduler out. -/
theorem prepareToWaitEvent_lists {head entry : α} {w w' : WakeState α} {state : CoStatus}
    (h : prepareToWaitEvent head w entry state = .ok w') (status : Nat → Nat) (co s : Nat) :
    w'.lists = (WaitQueue.prepareToWaitEvent head ⟨w.lists, w.flags, w.owner, status⟩ entry
      co s).2.lists := by
  obtain ⟨sched, -, h⟩ := bind_eq_ok.mp h
  cases h
  rw [WaitQueue.prepareToWaitEvent, signalPendingState, if_neg Bool.false_ne_true]
  simp only [setCurrentState, exclusive, decide_eq_true_eq]

-- ── Steps ────────────────────────────────────────────────────────────────────

/-- A scheduler and its wait queues, with the coroutine whose node was unlinked
    from no queue, if that happened. -/
structure LinkState (α : Type) where
  wake : WakeState α
  fault : Option Nat

/-- A step of the scheduler's own, the first round of `wait_event` by the
    running coroutine, or a call of `wake_up` within `k` rounds. -/
inductive LinkEvent (α : Type) where
  | own (e : Event)
  | waitEvent (head entry : α) (flags : Nat) (state : CoStatus)
  | wakeUp (head : α) (wakeFlags k : Nat)

def linkAct (clk : Nat → Int) (w : WakeState α) : LinkEvent α → Except Fault (WakeState α)
  | .own e => (ownStep clk w.sched e).map fun sched => { w with sched := sched }
  | .waitEvent head entry flags state =>
      if w.sched.inCo then do
        let w ← initWaitEntry w entry flags
        prepareToWaitEvent head w entry state
      else .error .other
  | .wakeUp head wakeFlags k => wakeUp (fun _ => autoremoveWakeFunction) head wakeFlags k w

def linkStep (clk : Nat → Int) (s : LinkState α) (e : LinkEvent α) : Option (LinkState α) :=
  if s.fault = none then
    match linkAct clk s.wake e with
    | .ok w => some { s with wake := w }
    | .error (.unlinked co) => some { s with fault := some co }
    | .error .other => none
  else none

/-- A new scheduler; every wait queue is initialised and empty. -/
def LinkFresh (s : LinkState α) : Prop :=
  s.wake.sched = schedCreate ∧ s.fault = none ∧ ∀ head, s.wake.lists.next head = head

/-- Coroutines yield, sleep, and wait with a state that is not
    `CO_RUNNABLE`. -/
def Sleeps : LinkEvent α → Prop
  | .own e => ownEvent e = true
  | .waitEvent _ _ _ state => state ≠ .runnable
  | .wakeUp _ _ _ => True

instance (e : LinkEvent α) : Decidable (Sleeps e) :=
  match e with
  | .own e => inferInstanceAs (Decidable (ownEvent e = true))
  | .waitEvent _ _ _ state => inferInstanceAs (Decidable (state ≠ .runnable))
  | .wakeUp _ _ _ => .isTrue trivial

/-- A coroutine goes to sleep through `wait_event`. -/
def isWait : LinkEvent α → Bool
  | .waitEvent _ _ _ _ => true
  | _ => false

/-- No node was unlinked from no queue, no coroutine is on `co_ready_queue`
    twice, and whoever is resumed now will be on it once. -/
structure UnlinksRight (s : LinkState α) : Prop where
  linked : s.fault = none
  once : s.wake.sched.coReadyQueue.Nodup
  woken : ∀ co sched', schedCoResume s.wake.sched co = .ok sched' →
    sched'.coReadyQueue.count co = 1

omit [DecidableEq α] in
theorem UnlinksRight.of_nodup {s : LinkState α} (hf : s.fault = none)
    (hnd : s.wake.sched.coReadyQueue.Nodup) : UnlinksRight s where
  linked := hf
  once := hnd
  woken := fun _ _ h => List.count_eq_one_of_mem (ready_nodup_of_resume h hnd)
    ((mem_ready_of_resume h).mpr (Or.inr rfl))

/-- A step has a result, or it unlinked a node in vain. -/
theorem linkStep_cases {clk : Nat → Int} {s s' : LinkState α} {e : LinkEvent α}
    (h : linkStep clk s e = some s') : s.fault = none
      ∧ ((∃ w, linkAct clk s.wake e = .ok w ∧ s' = { s with wake := w })
        ∨ ∃ co, linkAct clk s.wake e = .error (.unlinked co)
          ∧ s' = { s with fault := some co }) := by
  rw [linkStep, Option.ite_none_right_eq_some] at h
  obtain ⟨hf, h⟩ := h
  refine ⟨hf, ?_⟩
  split at h
  · rename_i w hact
    cases h
    exact Or.inl ⟨w, hact, rfl⟩
  · rename_i co hact
    cases h
    exact Or.inr ⟨co, hact, rfl⟩
  · cases h

-- ── The invariant ────────────────────────────────────────────────────────────

/-- Every coroutine is in its place, and nobody waits. -/
structure LinkInv (clk : Nat → Int) (s : LinkState α) : Prop where
  linked : s.fault = none
  nobody : ∀ head, s.wake.lists.next head = head
  reach : Reachable clk s.wake.sched
  placed : Placed s.wake.sched
  sleeping : ∃ l, Sleeping s.wake.sched l

section Steps

variable {clk : Nat → Int} {sched : Sched} {s : LinkState α}

/-- **OWN STEPS** never unlink a node in vain. -/
theorem ownStep_cases {e : Event} (hr : Reachable clk sched) (h : Placed sched)
    (hs : ∃ l, Sleeping sched l) :
    (∃ sched', ownStep clk sched e = .ok sched' ∧ step clk sched e = some sched')
      ∨ ownStep clk sched e = .error .other := by
  obtain ⟨l, hs⟩ := hs
  cases e with
  | iterate =>
      by_cases hgo : sched.inCo = false ∧ sched.status = .running ∧ sched.coNums ≠ 0
      · obtain ⟨sched', hstep, -⟩ := iterate_kept hr h hs hgo.1 hgo.2.1 hgo.2.2
        refine Or.inl ⟨sched', eq_ok_of_toOption ?_, hstep⟩
        rw [ownStep_toOption clk h, hstep]
      · exact Or.inr (if_neg hgo)
  | _ => exact found_cases _

/-- **WAIT**: the running coroutine is on no queue. -/
theorem setCurrentState_unlinked {co : Nat} {state : CoStatus} (h : Placed sched)
    (hin : sched.inCo = true) (hco : sched.coCurr = some co) (hstate : state ≠ .runnable) :
    coroutineSetCurrentState sched state = .error (.unlinked co) := by
  have hnd := h.nodup
  have hlive := h.live co
  rw [placed_running hin hco] at hnd hlive
  have hmem : co ∈ [co] := List.mem_singleton.mpr rfl
  obtain ⟨c, hc⟩ := Option.isSome_iff_exists.mp (hlive.mp (List.mem_append_right _ hmem))
  have hnot : ¬ Linked sched co := by
    intro hl
    refine List.disjoint_of_nodup_append hnd ?_ hmem
    exact List.mem_append.mpr hl.symm
  rw [coroutineSetCurrentState, hco]
  show found (sched.mem co) >>= _ = _
  rw [hc]
  show (if state ≠ .runnable then listDel _ co else _) = _
  rw [if_pos hstate]
  exact if_neg hnot

theorem LinkInv.wait (h : LinkInv clk s) (head entry : α) (flags : Nat) {state : CoStatus}
    (hstate : state ≠ .runnable) :
    linkAct clk s.wake (.waitEvent head entry flags state) = .error .other
      ∨ ∃ co, linkAct clk s.wake (.waitEvent head entry flags state) = .error (.unlinked co) := by
  rw [linkAct]
  by_cases hin : s.wake.sched.inCo = true
  · rw [if_pos hin]
    cases hco : s.wake.sched.coCurr with
    | none =>
        left
        rw [initWaitEntry, hco]
        rfl
    | some co =>
        right
        refine ⟨co, ?_⟩
        have hset := setCurrentState_unlinked h.placed hin hco hstate
        rw [initWaitEntry, hco]
        simp only [prepareToWaitEvent, found, Option.elim, bind, Except.bind, hset]
  · exact Or.inl (if_neg hin)

/-- **WAKE UP**: on an empty queue there is nobody to wake. -/
theorem LinkInv.wakeUp (h : LinkInv clk s) (head : α) (wakeFlags k : Nat) :
    linkAct clk s.wake (.wakeUp head wakeFlags k) = .ok s.wake
      ∨ linkAct clk s.wake (.wakeUp head wakeFlags k) = .error .other := by
  rw [linkAct, CoLink.wakeUp, h.nobody head]
  cases k with
  | zero => exact Or.inr rfl
  | succ k => exact Or.inl (if_pos rfl)

/-- A step without `wait_event` keeps the invariant, one with it does not. -/
theorem LinkInv.step {s' : LinkState α} {e : LinkEvent α} (h : LinkInv clk s) (he : Sleeps e)
    (hstep : linkStep clk s e = some s') :
    (isWait e = false ∧ LinkInv clk s') ∨ (isWait e = true ∧ s'.fault ≠ none) := by
  obtain ⟨-, hcases⟩ := linkStep_cases hstep
  cases e with
  | own e =>
      refine Or.inl ⟨rfl, ?_⟩
      obtain ⟨sched', hown, hs⟩ | hown := ownStep_cases (e := e) h.reach h.placed h.sleeping
      · have hact : linkAct clk s.wake (.own e) = .ok { s.wake with sched := sched' } := by
          rw [linkAct, hown]
          rfl
        rw [hact] at hcases
        obtain ⟨w, hw, rfl⟩ | ⟨co, hw, -⟩ := hcases
        · cases hw
          have hk := step_kept h.reach h.placed h.sleeping he hs
          exact {
            linked := h.linked
            nobody := h.nobody
            reach := h.reach.next hs
            placed := hk.placed
            sleeping := hk.sleeping }
        · cases hw
      · have hact : linkAct clk s.wake (.own e) = .error .other := by
          rw [linkAct, hown]
          rfl
        rw [hact] at hcases
        obtain ⟨w, hw, -⟩ | ⟨co, hw, -⟩ := hcases <;> cases hw
  | waitEvent head entry flags state =>
      refine Or.inr ⟨rfl, ?_⟩
      obtain ⟨w, hw, -⟩ | ⟨co, -, rfl⟩ := hcases
      · obtain hother | ⟨co, hunlinked⟩ := h.wait head entry flags he
        · rw [hother] at hw
          cases hw
        · rw [hunlinked] at hw
          cases hw
      · exact fun hnone => nomatch hnone
  | wakeUp head wakeFlags k =>
      refine Or.inl ⟨rfl, ?_⟩
      obtain hact | hact := h.wakeUp head wakeFlags k
      · rw [hact] at hcases
        obtain ⟨w, hw, rfl⟩ | ⟨co, hw, -⟩ := hcases
        · cases hw
          exact h
        · cases hw
      · rw [hact] at hcases
        obtain ⟨w, hw, -⟩ | ⟨co, hw, -⟩ := hcases <;> cases hw

omit [DecidableEq α] in
theorem LinkInv.right (h : LinkInv clk s) : UnlinksRight s :=
  UnlinksRight.of_nodup h.linked h.placed.nodup.of_append_left.of_append_left

omit [DecidableEq α] in
theorem linkInv_fresh (h : LinkFresh s) : LinkInv clk s where
  linked := h.2.1
  nobody := h.2.2
  reach := Reach.start h.1
  placed := by
    rw [h.1]
    exact placed_create
  sleeping := by
    rw [h.1]
    exact ⟨[], sleeping_create⟩

end Steps

-- ── Runs ─────────────────────────────────────────────────────────────────────

/-- **EVERY UNLINK FINDS ITS NODE LINKED** in every run without `wait_event`,
    and the first `wait_event` unlinks one that is not. -/
theorem every_unlink_linked (clk : Nat → Int) :
    ∀ s : LinkState α,
      Reach LinkFresh (guarded (fun _ e => Sleeps e ∧ isWait e = false) (fires (linkStep clk))) s →
      UnlinksRight s ∧ ∀ e s', Sleeps e → linkStep clk s e = some s' →
        (UnlinksRight s' ↔ isWait e = false) := by
  intro s hr
  have hinv : LinkInv clk s := by
    refine Reach.guarded_invariant (I := LinkInv clk) (fun s h => linkInv_fresh h) ?_ s hr
    rintro s e s' - h ⟨he, hwait⟩ hstep
    obtain ⟨-, h'⟩ | ⟨htrue, -⟩ := h.step he hstep
    · exact h'
    · rw [hwait] at htrue
      cases htrue
  refine ⟨hinv.right, ?_⟩
  intro e s' he hstep
  obtain ⟨hno, h'⟩ | ⟨hwait, hfault⟩ := hinv.step he hstep
  · exact iff_of_true h'.right hno
  · refine iff_of_false (fun hright => hfault hright.linked) ?_
    rw [hwait]
    exact fun h => nomatch h

/-- The start of the runs below. -/
def linkCreate : LinkState Nat where
  wake := { lists := ⟨id, id⟩, flags := fun _ => 0, owner := fun _ => 0, sched := schedCreate }
  fault := none

theorem linkCreate_fresh : LinkFresh linkCreate := ⟨rfl, rfl, fun _ => rfl⟩

/-- One coroutine has slept and is ready, another sleeps; nobody was woken. -/
theorem every_unlink_linked_sleepers : ∃ s : LinkState Nat, UnlinksRight s
    ∧ s.wake.sched.coReadyQueue = [1] ∧ s.wake.sched.coQueue = [2] := by
  have hinit : Reach LinkFresh (fires (checked (fun _ e => decide (Sleeps e) && !isWait e)
      (linkStep fun _ => 0))) linkCreate := Reach.start linkCreate_fresh
  obtain ⟨s, hs, htest⟩ := Reach.exists_of_runList
    [.own (.submit 1), .own (.submit 2), .own .iterate, .own (.delay 0 4096), .own .iterate,
      .own (.yield 4096), .wakeUp 0 wqFlagExclusive 1, .own .iterate, .own (.delay 5 4096),
      .own .iterate]
    (fun (s : LinkState Nat) => decide (s.wake.sched.coReadyQueue = [1]
      ∧ s.wake.sched.coQueue = [2])) hinit (by decide +kernel)
  have hr : Reach LinkFresh (guarded (fun _ e => Sleeps e ∧ isWait e = false)
      (fires (linkStep fun _ => 0))) s := by
    refine Reach.guarded_of_checked ?_ s hs
    intro s e h
    rw [Bool.and_eq_true, decide_eq_true_eq, Bool.not_eq_true'] at h
    exact h
  obtain ⟨hready, hqueue⟩ := of_decide_eq_true htest
  exact ⟨s, (every_unlink_linked (fun _ => 0) s hr).1, hready, hqueue⟩

/-- A coroutine runs and waits: its node, which was unlinked when it was
    picked, is unlinked again. -/
theorem wait_event_unlinks_twice :
    ¬ ∀ (clk : Nat → Int) (s : LinkState Nat),
      Reach LinkFresh (guarded (fun _ e => Sleeps e) (fires (linkStep clk))) s →
      UnlinksRight s := by
  intro halways
  have hinit : Reach LinkFresh (fires (checked (fun _ e => decide (Sleeps e))
      (linkStep fun _ => 0))) linkCreate := Reach.start linkCreate_fresh
  obtain ⟨s, hs, htest⟩ := Reach.exists_of_runList
    [.own (.submit 1), .own .iterate, .waitEvent 0 1 0 .uninterruptible]
    (fun (s : LinkState Nat) => decide (s.fault = some 1)) hinit (by decide +kernel)
  have hr := Reach.guarded_of_checked (fun _ _ h => of_decide_eq_true h) s hs
  have hfault := (halways _ s hr).linked
  rw [of_decide_eq_true htest] at hfault
  cases hfault

end CoLink
