import TreasureHouse.SchedProofs

/-! # The shared stack — what a coroutine finds when it runs again

    What every run keeps (`StackInv`): the block of a coroutine that left with
    `n` bytes in use holds the top `n` bytes of the stack as they were then.
    Nothing but leaving writes the blocks; waking a coroutine writes its status
    (`SameStacks`).

    The stack is rebuilt from the block only when the status is not
    `CO_RUNNABLE`.  A yielded coroutine is `CO_WAITING` until it is picked; one
    that `sched_co_resume` woke is `CO_RUNNABLE` and runs on whatever the
    coroutines before it left behind.  `KeepsStack` says when that does no
    harm. -/

namespace CoSched

open LabelledRun HeapC

-- ── Copies ───────────────────────────────────────────────────────────────────

theorem memcpy_inside (dst : Nat → UInt8) (d : Nat) (src : Nat → UInt8) (s : Nat) {n j : Nat}
    (hj : j < n) : memcpy dst d src s n (d + j) = src (s + j) := by
  rw [memcpy]
  rw [if_pos ⟨Nat.le_add_right d j, by omega⟩, Nat.add_sub_cancel_left]

/-- The top bytes of the stack are those in the block of `c`. -/
def TopHolds (stack : Nat → UInt8) (c : Coroutine) : Prop :=
  ∀ j, j < c.stackSize → stack (coStackSize - c.stackSize + j) = c.stack j

instance topHoldsDecidable (stack : Nat → UInt8) (c : Coroutine) : Decidable (TopHolds stack c) :=
  inferInstanceAs (Decidable (∀ j, j < c.stackSize → _))

/-- What `mem` holds at an address against how the coroutine there last left. -/
def Remembers : Option Coroutine → Option (Nat × (Nat → UInt8)) → Prop
  | none, left => left = none
  | some c, none => c.stackSize = 0
  | some c, some (n, snap) =>
      c.stackSize = n ∧ n ≤ coStackSize ∧ n ≤ c.cap
        ∧ ∀ j, j < n → c.stack j = snap (coStackSize - n + j)

/-- `save_co_stack` keeps the bytes in use. -/
theorem saveCoStack_remembers {c c' : Coroutine} {stack : Nat → UInt8} {n : Nat}
    (h : saveCoStack c stack n = some c') : Remembers (some c') (some (n, stack)) := by
  rw [saveCoStack, Option.ite_none_right_eq_some] at h
  obtain ⟨hn, h⟩ := h
  generalize (if c.stackSize < n then { c with stack := fun _ => 0, cap := n } else c) = b at h
  obtain ⟨hcap, h⟩ := Option.ite_none_right_eq_some.mp h
  cases h
  refine ⟨rfl, hn, hcap, ?_⟩
  intro j hj
  have hcopy := memcpy_inside b.stack 0 stack (coStackSize - n) hj
  rw [Nat.zero_add] at hcopy
  exact hcopy

/-- `restore_co_stack` puts them back. -/
theorem restoreCoStack_topHolds {stack stack' : Nat → UInt8} {c : Coroutine}
    (h : restoreCoStack stack c = some stack') : TopHolds stack' c := by
  rw [restoreCoStack, Option.ite_none_right_eq_some] at h
  obtain ⟨-, h⟩ := h
  cases h
  intro j hj
  rw [memcpy_inside stack _ c.stack 0 hj, Nat.zero_add]

/-- The stack `schedule` hands over holds the block exactly when it is restored
    or held it already. -/
theorem scheduleStack_topHolds {stack stack' : Nat → UInt8} {c : Coroutine}
    (h : scheduleStack stack c = some stack') :
    TopHolds stack' c ↔ c.status ≠ .runnable ∨ TopHolds stack c := by
  rw [scheduleStack] at h
  by_cases hst : c.status ≠ .runnable
  · rw [if_pos hst] at h
    exact iff_of_true (restoreCoStack_topHolds h) (Or.inl hst)
  · rw [if_neg hst] at h
    cases h
    constructor
    · intro ht
      exact Or.inr ht
    · intro hor
      exact hor.resolve_left hst

/-- A switch into a coroutine that had left with `n` bytes in use finds those
    bytes at the top of the stack. -/
def Intact (sw : Switch) : Prop :=
  ∀ n snap, sw.left = some (n, snap) →
    ∀ i, coStackSize - n ≤ i → i < coStackSize → sw.stack i = snap i

/-- With the block intact, a switch is intact when the stack holds the block. -/
theorem Remembers.intact_iff {c : Coroutine} {left : Option (Nat × (Nat → UInt8))}
    (h : Remembers (some c) left) (co : Nat) (stack : Nat → UInt8) :
    Intact ⟨co, left, stack⟩ ↔ TopHolds stack c := by
  cases left with
  | none =>
      have h0 : c.stackSize = 0 := h
      refine iff_of_true ?_ ?_
      · intro n snap hleft
        cases hleft
      · intro j hj
        omega
  | some p =>
      obtain ⟨n, snap⟩ := p
      obtain ⟨rfl, hmax, -, hblock⟩ := h
      constructor
      · intro hint j hj
        have hfound := hint _ _ rfl (coStackSize - c.stackSize + j) (by omega) (by omega)
        exact hfound.trans (hblock j hj).symm
      · intro htop n' snap' hleft i hlo hhi
        cases hleft
        obtain ⟨j, rfl⟩ := Nat.exists_eq_add_of_le hlo
        have hj : j < c.stackSize := by omega
        exact (htop j hj).trans (hblock j hj)

-- ── Waking ───────────────────────────────────────────────────────────────────

/-- A coroutine apart from its status. -/
def Coroutine.unmarked (c : Coroutine) : Coroutine := { c with status := .create }

/-- Only queues, timers, clock and statuses differ. -/
structure SameStacks (sched sched' : Sched) : Prop where
  mem : ∀ co, (sched'.mem co).map Coroutine.unmarked = (sched.mem co).map Coroutine.unmarked
  lastLeft : sched'.lastLeft = sched.lastLeft
  switches : sched'.switches = sched.switches

theorem SameStacks.trans {s₁ s₂ s₃ : Sched} (h : SameStacks s₁ s₂) (h' : SameStacks s₂ s₃) :
    SameStacks s₁ s₃ where
  mem := fun co => (h'.mem co).trans (h.mem co)
  lastLeft := h'.lastLeft.trans h.lastLeft
  switches := h'.switches.trans h.switches

/-- What is remembered does not depend on the status. -/
theorem remembers_unmarked (m : Option Coroutine) (left : Option (Nat × (Nat → UInt8))) :
    Remembers (m.map Coroutine.unmarked) left ↔ Remembers m left := by
  cases m <;> cases left <;> exact Iff.rfl

theorem schedCoResume_sameStacks {sched sched' : Sched} {co : Nat}
    (h : schedCoResume sched co = some sched') : SameStacks sched sched' := by
  obtain ⟨c, hc, -, rfl⟩ := schedCoResume_cases h
  refine ⟨?_, rfl, rfl⟩
  intro co'
  by_cases heq : co' = co
  · subst heq
    show ((Function.update sched.mem co' _) co').map _ = _
    rw [Function.update_self, hc]
    rfl
  · show ((Function.update sched.mem co _) co').map _ = _
    rw [Function.update_of_ne heq]

theorem processExpiredLoop_sameStacks (clk : Nat → Int) :
    ∀ (k : Nat) (sched sched' : Sched) (d : Int),
      processExpiredLoop clk k sched = some (d, sched') → SameStacks sched sched' := by
  intro k
  induction k with
  | zero =>
      intro sched sched' d h
      cases h
      exact ⟨fun _ => rfl, rfl, rfl⟩
  | succ k ih =>
      intro sched sched' d h
      obtain ⟨-, -, rfl⟩ | ⟨timer, -, -, -, rfl⟩ | ⟨timer, popped, sched₁, -, -, -, hres, h⟩ :=
        processExpiredLoop_cases h
      · exact ⟨fun _ => rfl, rfl, rfl⟩
      · exact ⟨fun _ => rfl, rfl, rfl⟩
      · have hwoken : SameStacks sched sched₁ := by
          obtain ⟨hmem, hleft, hsw⟩ := schedCoResume_sameStacks hres
          exact ⟨hmem, hleft, hsw⟩
        exact hwoken.trans (ih sched₁ sched' d h)

theorem waitForEvents_sameStacks {clk : Nat → Int} {sched sched' : Sched}
    (h : waitForEvents clk sched = some sched') : SameStacks sched sched' := by
  obtain ⟨delay, sched₁, d, h₁, h₂⟩ := waitForEvents_cases h
  have hs₁ := processExpiredLoop_sameStacks clk _ _ _ _ h₁
  have hs₂ := processExpiredLoop_sameStacks clk _ _ _ _ h₂
  have hrun : SameStacks sched₁ (eventLoopRun sched₁ delay) := ⟨fun _ => rfl, rfl, rfl⟩
  exact (hs₁.trans hrun).trans hs₂

-- ── The invariant of every run ───────────────────────────────────────────────

/-- Every coroutine that left is remembered, whatever has run since. -/
def StackInv (sched : Sched) : Prop := ∀ co, Remembers (sched.mem co) (sched.lastLeft co)

theorem StackInv.sameStacks {sched sched' : Sched} (h : StackInv sched)
    (hs : SameStacks sched sched') : StackInv sched' := by
  intro co
  rw [hs.lastLeft, ← remembers_unmarked, hs.mem co, remembers_unmarked]
  exact h co

/-- The invariant after one address is written. -/
theorem StackInv.update {sched sched' : Sched} (h : StackInv sched) (co : Nat)
    {m : Option Coroutine} {left : Option (Nat × (Nat → UInt8))}
    (hmem : sched'.mem = Function.update sched.mem co m)
    (hleft : sched'.lastLeft = Function.update sched.lastLeft co left)
    (hco : Remembers m left) : StackInv sched' := by
  intro co'
  rw [hmem, hleft]
  by_cases heq : co' = co
  · subst heq
    rw [Function.update_self, Function.update_self]
    exact hco
  · rw [Function.update_of_ne heq, Function.update_of_ne heq]
    exact h co'

/-- Leaving saves the stack of the coroutine that leaves. -/
theorem StackInv.leave {sched sched' : Sched} {co n : Nat} {status : CoStatus}
    (h : StackInv sched) (hy : scheduleYieldCoroutine sched co n status = some sched') :
    StackInv sched' := by
  obtain ⟨c, c', -, hsave, rfl⟩ := scheduleYieldCoroutine_cases hy
  have hsaved : Remembers (some c') (some (n, sched.stack)) := saveCoStack_remembers hsave
  exact h.update co rfl rfl hsaved

theorem StackInv.schedule {sched sched' : Sched} {co : Nat} (h : StackInv sched)
    (hs : CoSched.schedule sched co = some sched') : StackInv sched' := by
  obtain ⟨c, stack, hc, -, rfl⟩ := schedule_cases hs
  have hco : Remembers (some c) (sched.lastLeft co) := hc ▸ h co
  have hmarked : Remembers (some { c with status := .runnable }) (sched.lastLeft co) :=
    (remembers_unmarked _ _).mp ((remembers_unmarked (some c) _).mpr hco)
  exact h.update co rfl (Function.update_eq_self co sched.lastLeft).symm hmarked

/-- Every step keeps the invariant. -/
theorem StackInv.step {clk : Nat → Int} {sched sched' : Sched} {e : Event} (h : StackInv sched)
    (hs : CoSched.step clk sched e = some sched') : StackInv sched' := by
  cases e with
  | iterate =>
      obtain ⟨-, -, -, ⟨-, hs⟩ | ⟨co, queue, -, hs⟩⟩ := step_iterate_cases hs
      · have hidle : StackInv { sched with coCurr := none } := h
        exact hidle.sameStacks (waitForEvents_sameStacks hs)
      · have hpick : StackInv { sched with coReadyQueue := queue, coCurr := some co } := h
        exact hpick.schedule hs
  | write stack =>
      obtain ⟨co, -, -, hs⟩ := running_cases hs
      cases hs
      exact h
  | yield n =>
      obtain ⟨co, -, -, hs⟩ := running_cases hs
      have hq : StackInv { sched with coReadyQueue := coQueueAppend sched.coReadyQueue co } := h
      exact hq.leave hs
  | suspend n =>
      obtain ⟨co, -, -, hs⟩ := running_cases hs
      have hq : StackInv { sched with coQueue := coQueueAppend sched.coQueue co } := h
      exact hq.leave hs
  | delay delayMs n =>
      obtain ⟨co, -, -, hs⟩ := running_cases hs
      obtain ⟨heap, -, hs⟩ := schedDelay_cases hs
      have hq : StackInv { sched with
          tick := sched.tick + 1
          coTimerHeap := heap
          coQueue := coQueueAppend sched.coQueue co } := h
      exact hq.leave hs
  | done =>
      obtain ⟨co, -, -, hs⟩ := running_cases hs
      cases hs
      have hend : Remembers none none := rfl
      exact h.update co rfl rfl hend
  | submit co =>
      rw [CoSched.step, Option.ite_none_right_eq_some] at hs
      obtain ⟨hfree, hs⟩ := hs
      cases hs
      have hnone : sched.lastLeft co = none := by
        have hco := h co
        rw [hfree] at hco
        exact hco
      have hnew : Remembers (some coNew) (sched.lastLeft co) := by
        rw [hnone]
        rfl
      exact h.update co rfl (Function.update_eq_self co sched.lastLeft).symm hnew
  | resume co => exact h.sameStacks (schedCoResume_sameStacks hs)
  | wakeup =>
      cases hs
      exact h

/-- **NO RUN LOSES A SAVED STACK**: the blocks hold what was in use, even where
    a coroutine is sent back on a stack that is not its own. -/
theorem reachable_stackInv (clk : Nat → Int) : ∀ s, Reachable clk s → StackInv s := by
  refine Reach.invariant ?_ ?_
  · intro s h0 co
    subst h0
    rfl
  · intro s e s' _ hI hs
    exact hI.step hs

/-- The block of a coroutine is as large as its `stack_size` says. -/
theorem Remembers.stackSize_le {c : Coroutine} {left : Option (Nat × (Nat → UInt8))}
    (h : Remembers (some c) left) : c.stackSize ≤ c.cap ∧ c.stackSize ≤ coStackSize := by
  cases left with
  | none =>
      have h0 : c.stackSize = 0 := h
      omega
  | some p =>
      obtain ⟨n, snap⟩ := p
      obtain ⟨rfl, hmax, hcap, -⟩ := h
      exact ⟨hcap, hmax⟩

/-- **NO COPY OVERRUNS**: a coroutine can leave with any part of the stack in
    use, and be scheduled again. -/
theorem reachable_copies_fit (clk : Nat → Int) {s : Sched} (hr : Reachable clk s) {co : Nat}
    {c : Coroutine} (hc : s.mem co = some c) :
    (∀ n, n ≤ coStackSize → ∃ c', saveCoStack c s.stack n = some c')
      ∧ ∃ stack, scheduleStack s.stack c = some stack := by
  have hco : Remembers (some c) (s.lastLeft co) := hc ▸ reachable_stackInv clk s hr co
  have hfit := hco.stackSize_le
  constructor
  · intro n hn
    rw [saveCoStack, if_pos hn]
    by_cases hgrow : c.stackSize < n
    · simp only [if_pos hgrow]
      exact ⟨_, if_pos (Nat.le_refl n)⟩
    · simp only [if_neg hgrow]
      exact ⟨_, if_pos (by omega)⟩
  · rw [scheduleStack]
    by_cases hst : c.status ≠ .runnable
    · rw [if_pos hst]
      exact ⟨_, if_pos hfit⟩
    · rw [if_neg hst]
      exact ⟨_, rfl⟩

-- ── When a switch is safe ────────────────────────────────────────────────────

/-- The coroutine `main_loop` picks, if it picks one, is not `CO_RUNNABLE`
    (it yielded), or the stack still holds what it left there. -/
def KeepsStack (sched : Sched) : Event → Prop
  | .iterate => ∀ co ∈ sched.coReadyQueue.head?, ∀ c ∈ sched.mem co,
      c.status ≠ .runnable ∨ TopHolds sched.stack c
  | _ => True

instance keepsStackDecidable (sched : Sched) (e : Event) : Decidable (KeepsStack sched e) :=
  match e with
  | .iterate => inferInstanceAs (Decidable (∀ co ∈ sched.coReadyQueue.head?, ∀ c ∈ sched.mem co,
      c.status ≠ .runnable ∨ TopHolds sched.stack c))
  | .write _ | .yield _ | .suspend _ | .delay _ _ | .done | .submit _ | .resume _ | .wakeup =>
      .isTrue trivial

/-- All switches so far found the stack as it was left. -/
def StacksIntact (sched : Sched) : Prop := ∀ sw ∈ sched.switches, Intact sw

theorem stacksIntact_congr {sched sched' : Sched} (h : sched'.switches = sched.switches) :
    StacksIntact sched' ↔ StacksIntact sched := by
  rw [StacksIntact, StacksIntact, h]

/-- A step from a state whose switches were intact makes no other switch, or
    one that is intact exactly when the condition holds. -/
theorem StackInv.stacksIntact_step_iff {clk : Nat → Int} {sched sched' : Sched} {e : Event}
    (h : StackInv sched) (hall : StacksIntact sched) (hs : CoSched.step clk sched e = some sched') :
    StacksIntact sched' ↔ KeepsStack sched e := by
  by_cases he : e = .iterate
  · subst he
    obtain ⟨-, -, -, ⟨hq, hs⟩ | ⟨co, queue, hq, hs⟩⟩ := step_iterate_cases hs
    · have hsw : sched'.switches = sched.switches := (waitForEvents_sameStacks hs).switches
      refine iff_of_true ((stacksIntact_congr hsw).mpr hall) ?_
      intro co hco
      rw [hq] at hco
      cases hco
    · obtain ⟨c, stack, hc, hstack, rfl⟩ := schedule_cases hs
      have hc' : sched.mem co = some c := hc
      have hco : Remembers (some c) (sched.lastLeft co) := hc' ▸ h co
      have hiff := (hco.intact_iff co stack).trans (scheduleStack_topHolds hstack)
      constructor
      · intro hint co₁ hco₁ c₁ hc₁
        rw [hq] at hco₁
        cases hco₁
        cases hc'.symm.trans hc₁
        exact hiff.mp (hint _ (List.mem_append_right _ (List.mem_singleton.mpr rfl)))
      · intro hkeeps sw hsw
        obtain hold | hnew := List.mem_append.mp hsw
        · exact hall sw hold
        · have hhead : sched.coReadyQueue.head? = some co := by
            rw [hq]
            rfl
          rw [List.mem_singleton.mp hnew]
          exact hiff.mpr (hkeeps co hhead c hc')
  · have hsw := (step_aside he hs).switches
    have hkeeps : KeepsStack sched e := by
      cases e with
      | iterate => exact absurd rfl he
      | _ => exact trivial
    exact iff_of_true ((stacksIntact_congr hsw).mpr hall) hkeeps

/-- **A SWITCH FINDS THE STACK AS IT WAS LEFT** in every run whose steps meet
    `KeepsStack`, and the first step that does not makes a switch that finds
    something else. -/
theorem switch_stack_intact (clk : Nat → Int) :
    ∀ s, Reach (fun s => s = schedCreate) (guarded KeepsStack (fires (step clk))) s →
      StacksIntact s ∧ ∀ e s', step clk s e = some s' → (StacksIntact s' ↔ KeepsStack s e) := by
  intro s hr
  have hall : StacksIntact s := by
    refine Reach.guarded_invariant (I := StacksIntact) ?_ ?_ s hr
    · intro s h0 sw hsw
      subst h0
      cases hsw
    · intro s e s' hreach hI hcond hs
      exact ((reachable_stackInv clk s hreach).stacksIntact_step_iff hI hs).mpr hcond
  refine ⟨hall, ?_⟩
  intro e s' hs
  exact (reachable_stackInv clk s hr.of_guarded).stacksIntact_step_iff hall hs

/-- Two coroutines yield to each other, each writing over the whole stack: the
    second switch into the first one finds its byte again. -/
theorem switch_stack_intact_yields :
    ∃ s, StacksIntact s ∧ s.switches.length = 3 ∧ s.stack (coStackSize - 1) = 1 := by
  have hinit : Reach (fun s => s = schedCreate)
      (fires (checked (fun s e => decide (KeepsStack s e)) (step fun _ => 0))) schedCreate :=
    Reach.start rfl
  obtain ⟨s, hs, htest⟩ := Reach.exists_of_runList
    [.submit 1, .submit 2, .iterate, .write fun _ => 1, .yield 4096, .iterate, .write fun _ => 2,
      .yield 4096, .iterate]
    (fun (s : Sched) => decide (s.switches.length = 3 ∧ s.stack (coStackSize - 1) = 1))
    hinit (by decide +kernel)
  obtain ⟨hlen, hbyte⟩ := of_decide_eq_true htest
  have hr := Reach.guarded_of_checked (fun s e h => of_decide_eq_true h) s hs
  exact ⟨s, (switch_stack_intact (fun _ => 0) s hr).1, hlen, hbyte⟩

/-- A sleeping coroutine wakes after another one has run: it is `CO_RUNNABLE`,
    so it runs on the stack of the other. -/
theorem switch_stack_lost_after_delay :
    ¬ ∀ clk : Nat → Int, (∀ i j, i ≤ j → clk i ≤ clk j) →
      ∀ s, Reachable clk s → StacksIntact s := by
  intro halways
  have hinit : Reachable (fun _ => 0) schedCreate := Reach.start rfl
  obtain ⟨s, hs, htest⟩ := Reach.exists_of_runList
    [.submit 1, .submit 2, .iterate, .write fun _ => 1, .delay 0 4096, .iterate, .write fun _ => 2,
      .done, .iterate, .iterate]
    (fun (s : Sched) => s.switches.any fun sw =>
      sw.left.any fun (p : Nat × (Nat → UInt8)) => decide (p.1 = 4096 ∧ p.2 (coStackSize - 1) = 1)
        && decide (sw.stack (coStackSize - 1) = 2))
    hinit (by decide +kernel)
  obtain ⟨sw, hsw, htest⟩ := List.any_eq_true.mp htest
  obtain ⟨⟨n, snap⟩, hleft, htest⟩ := (Option.any_eq_true _ _).mp htest
  obtain ⟨hsnap, hstack⟩ := Bool.and_eq_true_iff.mp htest
  obtain ⟨rfl, hone⟩ : n = 4096 ∧ snap (coStackSize - 1) = 1 := of_decide_eq_true hsnap
  have hint := halways (fun _ => 0) (fun _ _ _ => Int.le_refl 0) s hs sw hsw 4096 snap
    hleft (coStackSize - 1) (by decide) (by decide)
  have htwo := of_decide_eq_true hstack
  rw [hint, hone] at htwo
  cases htwo

end CoSched
