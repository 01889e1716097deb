import TreasureHouse.SchedProofs

/-! # Waiting for events — when `main_loop` blocks beside a ready coroutine

    `process_expired_timers` does two jobs at once: it resumes the coroutines
    whose timers are due, and it returns the time until the next one.  When it
    resumed somebody and a later timer remains, `main_loop` takes that time
    into `event_loop_run` although a coroutine is ready.

    It returns 0 exactly when every timer it reads is due (`AllDue`), and makes
    nobody ready exactly when the first one is not (`NoneDue`).  Between the
    two the scheduler blocks too early. -/

namespace CoSched

open LabelledRun HeapC

-- ── The timers it finds due ──────────────────────────────────────────────────

/-- The next timer, if there is one, is not due at the next reading. -/
def NoneDue (clk : Nat → Int) (heap : Heap Timer) (tick : Nat) : Prop :=
  ∀ timer ∈ (heapTop heap).join, clk tick < timer.when

instance noneDueDecidable (clk : Nat → Int) (heap : Heap Timer) (tick : Nat) :
    Decidable (NoneDue clk heap tick) :=
  inferInstanceAs (Decidable (∀ timer ∈ (heapTop heap).join, clk tick < timer.when))

/-- Popped one after the other, `k` timers are each due at the reading made
    for it. -/
def AllDue (clk : Nat → Int) : Nat → Heap Timer → Nat → Prop
  | 0, _, _ => True
  | k + 1, heap, tick => ∀ timer ∈ (heapTop heap).join,
      timer.when ≤ clk tick ∧ ∀ popped ∈ heapPop heap, AllDue clk k popped.2 (tick + 1)

instance allDueDecidable (clk : Nat → Int) : ∀ k heap tick, Decidable (AllDue clk k heap tick)
  | 0, _, _ => .isTrue trivial
  | k + 1, heap, tick =>
      have : ∀ popped : Option Timer × Heap Timer, Decidable (AllDue clk k popped.2 (tick + 1)) :=
        fun popped => allDueDecidable clk k popped.2 (tick + 1)
      inferInstanceAs (Decidable (∀ timer ∈ (heapTop heap).join,
        timer.when ≤ clk tick ∧ ∀ popped ∈ heapPop heap, AllDue clk k popped.2 (tick + 1)))

/-- With no coroutine ready, either no timer is due or all of them are. -/
def WakesAllOrNone (clk : Nat → Int) (sched : Sched) : Event → Prop
  | .iterate => sched.coReadyQueue = [] →
      NoneDue clk sched.coTimerHeap sched.tick
        ∨ AllDue clk sched.coTimerHeap.elemNum sched.coTimerHeap sched.tick
  | _ => True

instance wakesAllOrNoneDecidable (clk : Nat → Int) (sched : Sched) (e : Event) :
    Decidable (WakesAllOrNone clk sched e) :=
  match e with
  | .iterate => inferInstanceAs (Decidable (sched.coReadyQueue = [] →
      NoneDue clk sched.coTimerHeap sched.tick
        ∨ AllDue clk sched.coTimerHeap.elemNum sched.coTimerHeap sched.tick))
  | .write _ | .yield _ | .suspend _ | .delay _ _ | .done | .submit _ | .resume _ | .wakeup =>
      .isTrue trivial

/-- `process_expired_timers` returns 0 exactly when all timers are due. -/
theorem processExpiredLoop_zero_iff (clk : Nat → Int) :
    ∀ (k : Nat) (sched sched' : Sched) (d : Int),
      processExpiredLoop clk k sched = some (d, sched') →
      (d = 0 ↔ AllDue clk k sched.coTimerHeap sched.tick) := by
  intro k
  induction k with
  | zero =>
      intro sched sched' d h
      cases h
      exact iff_of_true rfl trivial
  | succ k ih =>
      intro sched sched' d h
      rw [AllDue]
      obtain ⟨htop, hd, -⟩ | ⟨timer, htop, hlate, hd, -⟩ |
        ⟨timer, popped, sched₁, htop, hdue, hpop, hres, h⟩ := processExpiredLoop_cases h
      · refine iff_of_true hd ?_
        intro timer ht
        rw [htop] at ht
        cases ht
      · refine iff_of_false (by omega) ?_
        intro hall
        rw [htop] at hall
        have := (hall timer rfl).1
        omega
      · have hrest := ih sched₁ sched' d h
        obtain ⟨c, -, -, rfl⟩ := schedCoResume_cases hres
        rw [hrest, htop, hpop]
        constructor
        · intro hall timer' ht
          cases ht
          refine ⟨hdue, ?_⟩
          intro popped' hp
          cases hp
          exact hall
        · intro hall
          exact (hall timer rfl).2 popped rfl

/-- A coroutine that is ready stays ready. -/
theorem processExpiredLoop_ready (clk : Nat → Int) :
    ∀ (k : Nat) (sched sched' : Sched) (d : Int),
      processExpiredLoop clk k sched = some (d, sched') → sched.coReadyQueue ≠ [] →
      sched'.coReadyQueue ≠ [] := by
  intro k
  induction k with
  | zero =>
      intro sched sched' d h hready
      cases h
      exact hready
  | succ k ih =>
      intro sched sched' d h hready
      obtain ⟨-, -, rfl⟩ | ⟨timer, -, -, -, rfl⟩ | ⟨timer, popped, sched₁, -, -, -, hres, h⟩ :=
        processExpiredLoop_cases h
      · exact hready
      · exact hready
      · obtain ⟨c, -, -, rfl⟩ := schedCoResume_cases hres
        exact ih _ sched' d h (List.concat_ne_nil _ _)

theorem processExpiredLoop_evCalls (clk : Nat → Int) :
    ∀ (k : Nat) (sched sched' : Sched) (d : Int),
      processExpiredLoop clk k sched = some (d, sched') → sched'.evCalls = sched.evCalls := by
  intro k
  induction k with
  | zero =>
      intro sched sched' d h
      cases h
      rfl
  | succ k ih =>
      intro sched sched' d h
      obtain ⟨-, -, rfl⟩ | ⟨timer, -, -, -, rfl⟩ | ⟨timer, popped, sched₁, -, -, -, hres, h⟩ :=
        processExpiredLoop_cases h
      · rfl
      · rfl
      · have hrest := ih sched₁ sched' d h
        obtain ⟨c, -, -, rfl⟩ := schedCoResume_cases hres
        exact hrest

/-- From an empty ready queue, the time returned is 0 or nobody is ready
    exactly when no timer was due or all were. -/
theorem processExpiredTimers_iff {clk : Nat → Int} {sched sched' : Sched} {d : Int}
    (h : processExpiredTimers clk sched = some (d, sched')) (hready : sched.coReadyQueue = []) :
    (d ≠ 0 → sched'.coReadyQueue = []) ↔
      NoneDue clk sched.coTimerHeap sched.tick
        ∨ AllDue clk sched.coTimerHeap.elemNum sched.coTimerHeap sched.tick := by
  have hzero := processExpiredLoop_zero_iff clk _ sched sched' d h
  rw [← hzero]
  rw [processExpiredTimers] at h
  cases hk : sched.coTimerHeap.elemNum with
  | zero =>
      rw [hk] at h
      cases h
      exact iff_of_true (fun _ => hready) (Or.inr rfl)
  | succ k =>
      rw [hk] at h
      obtain ⟨-, hd, -⟩ | ⟨timer, htop, hlate, hd, rfl⟩ |
        ⟨timer, popped, sched₁, htop, hdue, -, hres, h⟩ := processExpiredLoop_cases h
      · exact iff_of_true (fun hne => absurd hd hne) (Or.inr hd)
      · refine iff_of_true (fun _ => hready) (Or.inl ?_)
        intro timer' ht
        rw [htop] at ht
        cases ht
        exact hlate
      · -- the first timer was due: its coroutine is ready whatever follows
        have hsome : sched'.coReadyQueue ≠ [] := by
          obtain ⟨c, -, -, rfl⟩ := schedCoResume_cases hres
          exact processExpiredLoop_ready clk k _ sched' d h (List.concat_ne_nil _ _)
        constructor
        · intro hblock
          exact Or.inr (by_contra fun hne => hsome (hblock hne))
        · intro hor hne
          obtain hnone | hd := hor
          · have := hnone timer (by rw [htop]; rfl)
            omega
          · exact absurd hd hne

-- ── Runs ─────────────────────────────────────────────────────────────────────

/-- Every call of `event_loop_run` so far that could block was made with an
    empty ready queue. -/
def BlocksIdle (sched : Sched) : Prop := ∀ call ∈ sched.evCalls, call.1 ≠ 0 → call.2 = []

theorem blocksIdle_congr {sched sched' : Sched} (h : sched'.evCalls = sched.evCalls) :
    BlocksIdle sched' ↔ BlocksIdle sched := by
  rw [BlocksIdle, BlocksIdle, h]

/-- `event_loop_run` is called in the idle iterations of `main_loop` only. -/
theorem step_evCalls {clk : Nat → Int} {sched sched' : Sched} {e : Event}
    (h : step clk sched e = some sched') :
    (e = .iterate ∧ sched.coReadyQueue = [])
    ∨ sched'.evCalls = sched.evCalls := by
  by_cases he : e = .iterate
  · subst he
    obtain ⟨-, -, -, ⟨hready, -⟩ | ⟨co, queue, -, h⟩⟩ := step_iterate_cases h
    · exact Or.inl ⟨rfl, hready⟩
    · obtain ⟨c, stack, -, -, rfl⟩ := schedule_cases h
      exact Or.inr rfl
  · exact Or.inr (step_aside he h).evCalls

/-- An idle iteration blocks as it should exactly when the condition holds. -/
theorem waitForEvents_blocksIdle_iff {clk : Nat → Int} {sched sched' : Sched}
    (h : waitForEvents clk sched = some sched') (hready : sched.coReadyQueue = [])
    (hall : BlocksIdle sched) :
    BlocksIdle sched' ↔ WakesAllOrNone clk sched .iterate := by
  obtain ⟨delay, sched₁, d, h₁, h₂⟩ := waitForEvents_cases h
  have hcalls₁ : sched₁.evCalls = sched.evCalls := processExpiredLoop_evCalls clk _ _ _ _ h₁
  have hcalls₂ : sched'.evCalls = sched₁.evCalls ++ [(delay, sched₁.coReadyQueue)] :=
    processExpiredLoop_evCalls clk _ _ _ _ h₂
  have hiff := processExpiredTimers_iff h₁ hready
  rw [hcalls₁] at hcalls₂
  constructor
  · intro hblock _
    refine hiff.mp (hblock (delay, sched₁.coReadyQueue) ?_)
    rw [hcalls₂]
    exact List.mem_append_right _ (List.mem_singleton.mpr rfl)
  · intro hcond call hcall
    rw [hcalls₂] at hcall
    obtain hold | hnew := List.mem_append.mp hcall
    · exact hall call hold
    · rw [List.mem_singleton.mp hnew]
      exact hiff.mpr (hcond hready)

theorem step_blocksIdle_iff {clk : Nat → Int} {sched sched' : Sched} {e : Event}
    (hall : BlocksIdle sched) (h : step clk sched e = some sched') :
    BlocksIdle sched' ↔ WakesAllOrNone clk sched e := by
  by_cases hidle : e = .iterate ∧ sched.coReadyQueue = []
  · obtain ⟨rfl, hready⟩ := hidle
    obtain ⟨-, -, -, ⟨-, h⟩ | ⟨co, queue, hq, -⟩⟩ := step_iterate_cases h
    · have hcall : BlocksIdle { sched with coCurr := none } := hall
      have hiff := waitForEvents_blocksIdle_iff h hready hcall
      exact hiff
    · rw [hready] at hq
      cases hq
  · have hcalls := (step_evCalls h).resolve_left hidle
    have hcond : WakesAllOrNone clk sched e := by
      cases e with
      | iterate => exact fun hready => absurd ⟨rfl, hready⟩ hidle
      | _ => exact trivial
    exact iff_of_true ((blocksIdle_congr hcalls).mpr hall) hcond

/-- **THE EVENT LOOP BLOCKS ONLY WHEN NOBODY IS READY** in every run whose idle
    iterations wake all timers or none, and the first one that does not blocks
    beside a ready coroutine. -/
theorem event_loop_blocks_idle (clk : Nat → Int) :
    ∀ s, Reach (fun s => s = schedCreate) (guarded (WakesAllOrNone clk) (fires (step clk))) s →
      BlocksIdle s ∧ ∀ e s', step clk s e = some s' → (BlocksIdle s' ↔ WakesAllOrNone clk s e) := by
  intro s hr
  have hall : BlocksIdle s := by
    refine Reach.guarded_invariant (I := BlocksIdle) ?_ ?_ s hr
    · intro s h0 call hcall
      subst h0
      cases hcall
    · intro s e s' _ hI hcond h
      exact (step_blocksIdle_iff hI h).mpr hcond
  exact ⟨hall, fun e s' h => step_blocksIdle_iff hall h⟩

/-- Two coroutines sleep and neither is due: the scheduler blocks until the
    first of them is. -/
theorem event_loop_blocks_idle_sleepers : ∃ s, BlocksIdle s ∧ s.evCalls = [(5, [])] := by
  have hinit : Reach (fun s => s = schedCreate)
      (fires (checked (fun s e => decide (WakesAllOrNone (fun _ => 0) s e)) (step fun _ => 0)))
      schedCreate := Reach.start rfl
  obtain ⟨s, hs, htest⟩ := Reach.exists_of_runList
    [.submit 1, .submit 2, .iterate, .delay 10 4096, .iterate, .delay 5 4096, .iterate]
    (fun (s : Sched) => decide (s.evCalls = [(5, [])])) hinit (by decide +kernel)
  have hr := Reach.guarded_of_checked (fun s e h => of_decide_eq_true h) s hs
  exact ⟨s, (event_loop_blocks_idle (fun _ => 0) s hr).1, of_decide_eq_true htest⟩

/-- One sleeper is due and another is not: the first becomes ready and the
    scheduler blocks until the second is due. -/
theorem event_loop_blocks_beside_ready :
    ¬ ∀ clk : Nat → Int, (∀ i j, i ≤ j → clk i ≤ clk j) → ∀ s, Reachable clk s → BlocksIdle s := by
  intro halways
  have hinit : Reachable (fun _ => 0) schedCreate := Reach.start rfl
  obtain ⟨s, hs, htest⟩ := Reach.exists_of_runList
    [.submit 1, .submit 2, .iterate, .delay 0 4096, .iterate, .delay 100 4096, .iterate]
    (fun (s : Sched) => decide ((100, [1]) ∈ s.evCalls)) hinit (by decide +kernel)
  have hcall : (100, [1]) ∈ s.evCalls := of_decide_eq_true htest
  have hempty := halways (fun _ => 0) (fun _ _ _ => Int.le_refl 0) s hs _ hcall (by decide)
  cases hempty

end CoSched
