import TreasureHouse.TimerHeapProofs

/-! # The timeout of `epoll_pwait` — from a deadline to an `int`

    An idle iteration of `main_loop` hands the time until the next deadline to
    `event_loop_run`, which hands it to `epoll_pwait` as an `int`.  What it
    should be is said by `Expires`: the pending deadlines are taken in order,
    each compared with a reading of the clock of its own, until one is not due.

    Two narrowings come in between.  `co_timer_cmp` orders the heap by the
    difference of two deadlines as an `int`, so the deadlines that are pending
    together have to be less than 2^31 ms apart (`SleepsNear`).  And the time
    left is converted itself, so its low 32 bits have to be below 2^31
    (`FirstNear`); a negative timeout waits for ever. -/

namespace CoSched

open MachineInt LabelledRun BinaryHeap HeapC HeapQueue CoTimer

/-- The timeout `event_loop_run` hands to `epoll_pwait`. -/
def epollTimeout (expiredMs : Int) : Int := toSigned 32 expiredMs

/-- The deadlines of the timers that are set. -/
def deadlines (heap : Heap Timer) : Multiset Int := (contents heap).map Timer.when

-- ── What was asked for ───────────────────────────────────────────────────────

/-- The deadlines `m` expire in order, beginning with reading number `tick`:
    with the next reading number `tick'`, the deadlines `m'` are left, the
    first of them `delay` ms away. -/
inductive Expires (clk : Nat → Int) :
    Nat → Multiset Int → Int → Nat → Multiset Int → Prop where
  | none (tick : Nat) : Expires clk tick 0 0 tick 0
  | late {tick : Nat} {w : Int} {m : Multiset Int} : (∀ v ∈ m, w ≤ v) → clk tick < w →
      Expires clk tick (w ::ₘ m) (w - clk tick) (tick + 1) (w ::ₘ m)
  | due {tick tick' : Nat} {w delay : Int} {m m' : Multiset Int} : (∀ v ∈ m, w ≤ v) →
      w ≤ clk tick → Expires clk (tick + 1) m delay tick' m' →
      Expires clk tick (w ::ₘ m) delay tick' m'

/-- The timeout of an idle iteration is not negative and, from the last reading
    on, not beyond any deadline that is pending then. -/
def TimeoutRight (clk : Nat → Int) (sched : Sched) : Prop :=
  ∀ delay sched', processExpiredTimers clk sched = some (delay, sched') →
    0 ≤ epollTimeout delay
      ∧ ∀ w ∈ deadlines sched'.coTimerHeap, epollTimeout delay ≤ w - clk (sched'.tick - 1)

/-- A step hands no timeout to `epoll_pwait`, or a right one. -/
def HandsRight (clk : Nat → Int) (sched : Sched) : Event → Prop
  | .iterate => sched.coReadyQueue = [] → TimeoutRight clk { sched with coCurr := none }
  | _ => True

-- ── The condition ────────────────────────────────────────────────────────────

/-- The difference of two deadlines is an `int`, either way. -/
def Near (x y : Int) : Prop := -2 ^ 31 < x - y ∧ x - y < 2 ^ 31

instance (x y : Int) : Decidable (Near x y) := inferInstanceAs (Decidable (_ ∧ _))

/-- The deadline of a new timer is near every deadline that is pending. -/
def SleepsNear (clk : Nat → Int) (sched : Sched) : Event → Prop
  | .delay delayMs _ => ∀ w ∈ deadlines sched.coTimerHeap, Near w (clk sched.tick + delayMs)
  | _ => True

instance (clk : Nat → Int) (sched : Sched) (e : Event) : Decidable (SleepsNear clk sched e) :=
  match e with
  | .delay delayMs _ => inferInstanceAs (Decidable
      (∀ w ∈ deadlines sched.coTimerHeap, Near w (clk sched.tick + delayMs)))
  | .iterate | .write _ | .yield _ | .suspend _ | .done | .submit _ | .resume _ | .wakeup =>
      .isTrue trivial

/-- With no coroutine ready, the first deadline that is not due is less than
    2^31 ms away, but for multiples of 2^32 ms. -/
def FirstNear (clk : Nat → Int) (sched : Sched) : Event → Prop
  | .iterate => sched.coReadyQueue = [] → ∀ delay tick' m',
      Expires clk sched.tick (deadlines sched.coTimerHeap) delay tick' m' →
      delay % 2 ^ 32 < 2 ^ 31
  | _ => True

-- ── Deadlines in order ───────────────────────────────────────────────────────

section Order

variable {clk : Nat → Int} {tick tick' tick'' : Nat} {delay delay' : Int}
  {m m' m'' : Multiset Int}

/-- What is left, and how far it is away. -/
theorem Expires.left (h : Expires clk tick m delay tick' m') :
    m' ≤ m ∧ ((m' = 0 ∧ delay = 0) ∨ ∃ w ∈ m', (∀ v ∈ m', w ≤ v)
      ∧ clk (tick' - 1) < w ∧ delay = w - clk (tick' - 1)) := by
  induction h with
  | none tick => exact ⟨le_refl 0, Or.inl ⟨rfl, rfl⟩⟩
  | @late tick w m hleast hlate =>
      refine ⟨le_refl _, Or.inr ⟨w, Multiset.mem_cons_self w m, ?_, hlate, rfl⟩⟩
      exact Multiset.forall_mem_cons.mpr ⟨Int.le_refl w, hleast⟩
  | due _ _ _ ih => exact ⟨ih.1.trans (Multiset.le_cons_self _ _), ih.2⟩

/-- Two ways to begin with the least deadline are the same. -/
theorem least_unique {w w' : Int} {m m' : Multiset Int} (h : w ::ₘ m = w' ::ₘ m')
    (hw : ∀ v ∈ m, w ≤ v) (hw' : ∀ v ∈ m', w' ≤ v) : w = w' ∧ m = m' := by
  have hall : ∀ v ∈ w ::ₘ m, w ≤ v := Multiset.forall_mem_cons.mpr ⟨Int.le_refl w, hw⟩
  have hall' : ∀ v ∈ w' ::ₘ m', w' ≤ v := Multiset.forall_mem_cons.mpr ⟨Int.le_refl w', hw'⟩
  have hle : w ≤ w' := hall w' (by rw [h]; exact Multiset.mem_cons_self w' m')
  have hle' : w' ≤ w := hall' w (by rw [← h]; exact Multiset.mem_cons_self w m)
  have heq : w = w' := Int.le_antisymm hle hle'
  subst heq
  exact ⟨rfl, (Multiset.cons_inj_right w).mp h⟩

/-- The time left is determined. -/
theorem Expires.unique (h : Expires clk tick m delay tick' m')
    (h' : Expires clk tick m delay' tick'' m'') : delay = delay' := by
  induction h with
  | none tick =>
      generalize h0 : (0 : Multiset Int) = n at h'
      cases h' with
      | none => rfl
      | late => exact absurd h0.symm (Multiset.cons_ne_zero)
      | due => exact absurd h0.symm (Multiset.cons_ne_zero)
  | @late tick w m hleast hlate =>
      generalize hn : w ::ₘ m = n at h'
      cases h' with
      | none => exact absurd hn Multiset.cons_ne_zero
      | late hleast' _ =>
          obtain ⟨rfl, -⟩ := least_unique hn hleast hleast'
          rfl
      | due hleast' hdue _ =>
          obtain ⟨rfl, -⟩ := least_unique hn hleast hleast'
          exact absurd hdue (Int.not_le.mpr hlate)
  | @due tick _ w _ m _ hleast hdue _ ih =>
      generalize hn : w ::ₘ m = n at h'
      cases h' with
      | none => exact absurd hn Multiset.cons_ne_zero
      | late hleast' hlate =>
          obtain ⟨rfl, -⟩ := least_unique hn hleast hleast'
          exact absurd hdue (Int.not_le.mpr hlate)
      | due hleast' _ hrest =>
          obtain ⟨rfl, rfl⟩ := least_unique hn hleast hleast'
          exact ih hrest

/-- A time left of 0 or more is handed over right exactly when its low 32 bits
    are below 2^31. -/
theorem Expires.handed_iff (h : Expires clk tick m delay tick' m') :
    (0 ≤ epollTimeout delay ∧ ∀ w ∈ m', epollTimeout delay ≤ w - clk (tick' - 1))
      ↔ delay % 2 ^ 32 < 2 ^ 31 := by
  have hsign : 0 ≤ delay → (0 ≤ epollTimeout delay ↔ delay % 2 ^ 32 < 2 ^ 31)
      ∧ epollTimeout delay ≤ delay := by
    intro hpos
    rw [epollTimeout, toSigned]
    omega
  obtain ⟨-, ⟨rfl, rfl⟩ | ⟨w, -, hleast, hlate, hdelay⟩⟩ := h.left
  · exact iff_of_true ⟨by decide, fun _ hw => absurd hw (Multiset.notMem_zero _)⟩ (by decide)
  · obtain ⟨hiff, hle⟩ := hsign (by omega)
    rw [← hiff, and_iff_left_iff_imp]
    intro _ v hv
    have hwv := hleast v hv
    omega

end Order

-- ── The heap ─────────────────────────────────────────────────────────────────

/-- The heap holds the timers `l` in order, all of them near each other. -/
structure NearInv (heap : Heap Timer) (l : List Timer) : Prop where
  rep : HeapRep heap l
  cmp : heap.cmpFn = coTimerCmp
  near : ∀ a ∈ l, ∀ b ∈ l, Near a.when b.when
  ordered : HeapOrdered Earlier l

theorem nearInv_create : NearInv (heapCreate coTimerCmp) [] where
  rep := heapCreate_rep coTimerCmp
  cmp := rfl
  near := fun _ ha => nomatch ha
  ordered := fun _ _ _ _ hu _ => nomatch hu

/-- Between near deadlines `co_timer_cmp` is the difference. -/
theorem coTimerCmp_eq {a b : Timer} (h : Near a.when b.when) :
    coTimerCmp a b = a.when - b.when :=
  toSigned_of_range (by decide) h.1.le h.2

theorem decides_of_near {l : List Timer} (h : ∀ a ∈ l, ∀ b ∈ l, Near a.when b.when) :
    Decides coTimerCmp Earlier l where
  refl := earlier_refl
  trans := earlier_trans
  of_nonpos := by
    intro a ha b hb hle
    rw [coTimerCmp_eq (h a ha b hb)] at hle
    exact sub_nonpos.mp hle
  of_nonneg := by
    intro a ha b hb hle
    rw [coTimerCmp_eq (h a ha b hb)] at hle
    exact sub_nonneg.mp hle

section Heap

variable {clk : Nat → Int} {heap : Heap Timer} {l : List Timer}

theorem deadlines_eq (h : HeapRep heap l) : deadlines heap = (l.map Timer.when : List Int) := by
  rw [deadlines, h.contents_eq, Multiset.map_coe]

/-- **PUSH**: a timer near all others. -/
theorem NearInv.push (h : NearInv heap l) {timer : Timer} {heap' : Heap Timer}
    (hnear : ∀ w ∈ deadlines heap, Near w timer.when) (hpush : heapPush heap timer = some heap') :
    ∃ l', NearInv heap' l' := by
  obtain ⟨l', hrep, hcmp, hperm, hord⟩ := heapPush_some h.rep hpush
  have hnew : ∀ a ∈ l, Near a.when timer.when := by
    intro a ha
    refine hnear a.when ?_
    rw [deadlines_eq h.rep]
    exact Multiset.mem_coe.mpr (List.mem_map_of_mem ha)
  have hall : ∀ a ∈ timer :: l, ∀ b ∈ timer :: l, Near a.when b.when := by
    intro a ha b hb
    rcases List.mem_cons.mp ha with heq | ha'
    · rcases List.mem_cons.mp hb with heq' | hb'
      · rw [heq, heq', Near]
        omega
      · have hba := hnew b hb'
        rw [heq]
        rw [Near] at hba ⊢
        omega
    · rcases List.mem_cons.mp hb with heq' | hb'
      · rw [heq']
        exact hnew a ha'
      · exact h.near a ha' b hb'
  rw [h.cmp] at hord
  exact ⟨l', {
    rep := hrep
    cmp := hcmp.trans h.cmp
    near := fun a ha b hb => hall a (hperm.mem_iff.mp ha) b (hperm.mem_iff.mp hb)
    ordered := hord Earlier (decides_of_near hall) h.ordered }⟩

/-- **THE LOOP** takes the deadlines in order. -/
theorem expiredLoop_expires (clk : Nat → Int) :
    ∀ (k : Nat) (heap : Heap Timer) (l : List Timer) (tick : Nat), NearInv heap l →
      l.length ≤ k → ∃ r l', expiredLoop clk k heap tick = some r ∧ NearInv r.heap l'
        ∧ Expires clk tick (l.map Timer.when : List Int) r.delay r.tick
          (l'.map Timer.when : List Int) := by
  intro k
  induction k with
  | zero =>
      intro heap l tick h hk
      have hl : l = [] := List.eq_nil_of_length_eq_zero (Nat.le_zero.mp hk)
      subst hl
      exact ⟨_, [], rfl, h, Expires.none tick⟩
  | succ k ih =>
      intro heap l tick h hk
      cases l with
      | nil =>
          exact ⟨_, [], expiredLoop_nil clk k tick h.rep, h, Expires.none tick⟩
      | cons t l =>
          have hleast : ∀ v ∈ (l.map Timer.when : Multiset Int), t.when ≤ v := by
            intro v hv
            obtain ⟨u, hu, rfl⟩ := List.mem_map.mp (Multiset.mem_coe.mp hv)
            exact head_earliest h.ordered u (List.mem_cons_of_mem t hu)
          by_cases hlate : t.when > clk tick
          · exact ⟨_, t :: l, expiredLoop_late k h.rep hlate, h, Expires.late hleast hlate⟩
          · obtain ⟨heap₁, l₁, hpop, hrep₁, hcmp₁, hperm₁, hord₁⟩ := heapPop_spec h.rep
            rw [h.cmp] at hord₁
            have hsub : ∀ a ∈ l₁, a ∈ t :: l := fun a ha =>
              List.mem_cons_of_mem t (hperm₁.mem_iff.mp ha)
            have h₁ : NearInv heap₁ l₁ := {
              rep := hrep₁
              cmp := hcmp₁.trans h.cmp
              near := fun a ha b hb => h.near a (hsub a ha) b (hsub b hb)
              ordered := hord₁ Earlier (decides_of_near h.near) h.ordered }
            have hlen : l₁.length ≤ k := by
              rw [hperm₁.length_eq]
              exact Nat.le_of_succ_le_succ hk
            obtain ⟨r, l', hr, h', hexp⟩ := ih heap₁ l₁ (tick + 1) h₁ hlen
            rw [Multiset.coe_eq_coe.mpr (hperm₁.map Timer.when)] at hexp
            exact ⟨_, l', expiredLoop_due h.rep hlate hpop hr, h',
              Expires.due hleast (Int.not_lt.mp hlate) hexp⟩

end Heap

-- ── The scheduler ────────────────────────────────────────────────────────────

section Steps

variable {clk : Nat → Int} {sched sched' : Sched} {l : List Timer}

/-- `process_expired_timers` returns the time left. -/
theorem processExpiredTimers_expires {delay : Int} (h : NearInv sched.coTimerHeap l)
    (hp : processExpiredTimers clk sched = some (delay, sched')) :
    Expires clk sched.tick (deadlines sched.coTimerHeap) delay sched'.tick
        (deadlines sched'.coTimerHeap)
      ∧ ∃ l', NearInv sched'.coTimerHeap l' := by
  rw [processExpiredTimers, processExpiredLoop_eq] at hp
  obtain ⟨r, l', hr, h', hexp⟩ := expiredLoop_expires clk sched.coTimerHeap.elemNum
    sched.coTimerHeap l sched.tick h (by rw [h.rep.num])
  rw [hr, Option.bind_some] at hp
  obtain ⟨s₁, -, heq⟩ := Option.map_eq_some_iff.mp hp
  cases heq
  rw [deadlines_eq h.rep]
  refine ⟨?_, l', h'⟩
  show Expires clk sched.tick _ r.delay r.tick (deadlines r.heap)
  rw [deadlines_eq h'.rep]
  exact hexp

/-- Timers are pushed by a sleep and popped in an idle iteration. -/
theorem step_timers_cases {e : Event} (h : step clk sched e = some sched') :
    sched'.coTimerHeap = sched.coTimerHeap
    ∨ (∃ delayMs n timer, e = .delay delayMs n ∧ timer.when = clk sched.tick + delayMs
        ∧ heapPush sched.coTimerHeap timer = some sched'.coTimerHeap)
    ∨ (e = .iterate ∧ sched.coReadyQueue = []
        ∧ waitForEvents clk { sched with coCurr := none } = some sched') := by
  by_cases he : e = .iterate
  · subst he
    obtain ⟨-, -, -, ⟨hready, hwait⟩ | ⟨co, queue, -, hs⟩⟩ := step_iterate_cases h
    · exact Or.inr (Or.inr ⟨rfl, hready, hwait⟩)
    · obtain ⟨c, stack, -, -, rfl⟩ := schedule_cases hs
      exact Or.inl rfl
  · rw [← or_assoc]
    exact Or.inl (step_aside he h).timers

/-- **EVERY STEP** with near sleeps keeps the heap in order. -/
theorem NearInv.after {e : Event} (h : NearInv sched.coTimerHeap l)
    (hnear : SleepsNear clk sched e) (hstep : step clk sched e = some sched') :
    ∃ l', NearInv sched'.coTimerHeap l' := by
  obtain hsame | ⟨delayMs, n, timer, rfl, hwhen, hpush⟩ | ⟨rfl, -, hwait⟩ :=
    step_timers_cases hstep
  · rw [hsame]
    exact ⟨l, h⟩
  · refine h.push ?_ hpush
    rw [hwhen]
    exact hnear
  · obtain ⟨delay, sched₁, d, hp₁, hp₂⟩ := waitForEvents_cases hwait
    have h₀ : NearInv { sched with coCurr := none }.coTimerHeap l := h
    obtain ⟨-, l₁, h₁⟩ := processExpiredTimers_expires h₀ hp₁
    have hev : NearInv (eventLoopRun sched₁ delay).coTimerHeap l₁ := h₁
    exact (processExpiredTimers_expires hev hp₂).2

/-- An iteration hands over a right timeout exactly when the first deadline is
    near. -/
theorem NearInv.handsRight_iff {e : Event} (h : NearInv sched.coTimerHeap l)
    (hstep : step clk sched e = some sched') :
    HandsRight clk sched e ↔ FirstNear clk sched e := by
  cases e with
  | iterate =>
      obtain ⟨-, -, -, ⟨hready, hwait⟩ | ⟨co, queue, hq, -⟩⟩ := step_iterate_cases hstep
      · obtain ⟨delay, sched₁, d, hp, -⟩ := waitForEvents_cases hwait
        have h₀ : NearInv { sched with coCurr := none }.coTimerHeap l := h
        obtain ⟨hexp, -⟩ := processExpiredTimers_expires h₀ hp
        constructor
        · intro hright _ delay' tick' m' hexp'
          have hdelay : delay = delay' := hexp.unique hexp'
          rw [← hdelay]
          exact hexp.handed_iff.mp (hright hready delay sched₁ hp)
        · intro hfirst _ delay' sched₁' hp'
          rw [hp] at hp'
          cases hp'
          exact hexp.handed_iff.mpr (hfirst hready delay _ _ hexp)
      · have hne : sched.coReadyQueue ≠ [] := by
          rw [hq]
          exact List.cons_ne_nil co queue
        exact iff_of_true (fun h0 => absurd h0 hne) fun h0 => absurd h0 hne
  | _ => exact Iff.rfl

end Steps

-- ── Runs ─────────────────────────────────────────────────────────────────────

/-- **THE TIMEOUT IS RIGHT** in every idle iteration of a run in which no sleep
    ends 2^31 ms or more from a pending one, exactly when the first deadline
    that is not due is near. -/
theorem epoll_timeout_right (clk : Nat → Int) :
    ∀ s, Reach (fun s => s = schedCreate) (guarded (SleepsNear clk) (fires (step clk))) s →
      ∀ e s', step clk s e = some s' → (HandsRight clk s e ↔ FirstNear clk s e) := by
  intro s hr e s' hstep
  have hinv : ∃ l, NearInv s.coTimerHeap l := by
    refine Reach.guarded_invariant (I := fun s => ∃ l, NearInv s.coTimerHeap l) ?_ ?_ s hr
    · rintro s rfl
      exact ⟨[], nearInv_create⟩
    · rintro s e s' - ⟨l, h⟩ hnear hstep
      exact h.after hnear hstep
  obtain ⟨l, h⟩ := hinv
  exact h.handsRight_iff hstep

/-- With every pending deadline less than 2^31 ms from every reading the first
    one is near. -/
theorem firstNear_of_bound {clk : Nat → Int} {sched : Sched}
    (h : ∀ w ∈ deadlines sched.coTimerHeap, ∀ i, w - clk i < 2 ^ 31) (e : Event) :
    FirstNear clk sched e := by
  cases e with
  | iterate =>
      intro _ delay tick' m' hexp
      obtain ⟨hle, ⟨-, rfl⟩ | ⟨w, hw, -, hlate, rfl⟩⟩ := hexp.left
      · decide
      · have hbound := h w (Multiset.mem_of_le hle hw) (tick' - 1)
        omega
  | _ => exact trivial

/-- Two coroutines sleep: the scheduler waits for the first of them. -/
theorem epoll_timeout_right_two : ∃ s s', step (fun _ => 0) s .iterate = some s'
    ∧ HandsRight (fun _ => 0) s .iterate ∧ s'.evCalls = [(5, [])] := by
  have hinit : Reach (fun s => s = schedCreate)
      (fires (checked (fun s e => decide (SleepsNear (fun _ => 0) s e)) (step fun _ => 0)))
      schedCreate := Reach.start rfl
  obtain ⟨s, hs, htest⟩ := Reach.exists_of_runList
    [.submit 1, .submit 2, .iterate, .delay 10 4096, .iterate, .delay 5 4096]
    (fun (s : Sched) => decide (∀ w ∈ deadlines s.coTimerHeap, w < 2 ^ 31)
      && (step (fun _ => 0) s .iterate).any fun (s' : Sched) => decide (s'.evCalls = [(5, [])]))
    hinit (by decide +kernel)
  rw [Bool.and_eq_true, decide_eq_true_eq, Option.any_eq_true] at htest
  obtain ⟨hbound, s', hstep, hcalls⟩ := htest
  have hr := Reach.guarded_of_checked (fun _ _ h => of_decide_eq_true h) s hs
  have hfirst : FirstNear (fun _ => 0) s .iterate := by
    refine firstNear_of_bound ?_ .iterate
    intro w hw _
    rw [Int.sub_zero]
    exact hbound w hw
  exact ⟨s, s', hstep, (epoll_timeout_right (fun _ => 0) s hr .iterate s' hstep).mpr hfirst,
    of_decide_eq_true hcalls⟩

/-- The delays `sched_delay` is called with: not negative, and a `long`. -/
def LongDelay : Event → Prop
  | .delay delayMs _ => 0 ≤ delayMs ∧ delayMs < 2 ^ 63
  | _ => True

instance (e : Event) : Decidable (LongDelay e) :=
  match e with
  | .delay delayMs _ => inferInstanceAs (Decidable (0 ≤ delayMs ∧ delayMs < 2 ^ 63))
  | .iterate | .write _ | .yield _ | .suspend _ | .done | .submit _ | .resume _ | .wakeup =>
      .isTrue trivial

/-- One coroutine sleeps for 2^31 ms, and the scheduler waits for ever. -/
theorem epoll_timeout_negative :
    ¬ ∀ clk : Nat → Int, (∀ i j, i ≤ j → clk i ≤ clk j) → ∀ s,
      Reach (fun s => s = schedCreate) (guarded (fun _ e => LongDelay e) (fires (step clk))) s →
      ∀ e s', step clk s e = some s' → HandsRight clk s e := by
  intro halways
  have hinit : Reach (fun s => s = schedCreate)
      (fires (checked (fun _ e => decide (LongDelay e)) (step fun _ => 0))) schedCreate :=
    Reach.start rfl
  obtain ⟨s, hs, htest⟩ := Reach.exists_of_runList
    [.submit 1, .iterate, .delay (2 ^ 31) 4096]
    (fun (s : Sched) => decide (s.coReadyQueue = [])
      && (step (fun _ => 0) s .iterate).isSome
      && (processExpiredTimers (fun _ => 0) { s with coCurr := none }).any
        fun (p : Int × Sched) => decide (epollTimeout p.1 = -2 ^ 31)) hinit (by decide +kernel)
  rw [Bool.and_eq_true, Bool.and_eq_true, decide_eq_true_eq, Option.any_eq_true] at htest
  obtain ⟨⟨hready, hsome⟩, ⟨delay, sched₁⟩, hp, hneg⟩ := htest
  obtain ⟨s', hstep⟩ := Option.isSome_iff_exists.mp hsome
  have hr := Reach.guarded_of_checked (fun _ _ h => of_decide_eq_true h) s hs
  have hright := halways (fun _ => 0) (fun _ _ _ => Int.le_refl 0) s hr .iterate s' hstep
  have hpos := (hright hready delay sched₁ hp).1
  rw [of_decide_eq_true hneg] at hpos
  revert hpos
  decide

end CoSched
