import Mathlib.Algebra.Order.Group.Multiset
import TreasureHouse.HeapQueueProofs
import TreasureHouse.SchedProofs

/-! # Timers — `process_expired_timers` on a heap ordered by `co_timer_cmp`

    `expiredLoop` is the loop with the callbacks it runs listed, each with the
    clock reading made for it; `processExpiredLoop_eq` says that the scheduler's
    loop is this one with every callback a `sched_co_resume`.

    `co_timer_cmp` returns the difference of two deadlines as an `int`, so for
    deadlines 2^31 ms or more apart its sign can be the wrong one.
    `timers_right_iff` says for which deadlines, and for how many timers at a
    time, every call runs what is due and nothing else. -/

namespace CoTimer

open MachineInt LabelledRun BinaryHeap HeapC HeapQueue CoSched

/-- The range of `long`. -/
def InLong (x : Int) : Prop := -2 ^ 63 ≤ x ∧ x < 2 ^ 63

instance (x : Int) : Decidable (InLong x) := inferInstanceAs (Decidable (_ ∧ _))

/-- `co_timer_after`, at a reading `now` of the clock. -/
def coTimerAfter (now afterMs : Int) (args : Nat) : Option Timer :=
  if InLong (now + afterMs) then some ⟨now + afterMs, args⟩ else none

/-- What a call of `process_expired_timers` did: the timers it ran, each with
    the reading before, what it returned, and the heap after. -/
structure Expired where
  ran : List (Timer × Int)
  delay : Int
  heap : Heap Timer
  tick : Nat

/-- The loop of `process_expired_timers` for `k` more rounds. -/
def expiredLoop (clk : Nat → Int) : Nat → Heap Timer → Nat → Option Expired
  | 0, heap, tick => some ⟨[], 0, heap, tick⟩
  | k + 1, heap, tick => do
      match ← heapTop heap with
      | none => some ⟨[], 0, heap, tick⟩
      | some timer =>
          let timeNow := clk tick
          if timer.when > timeNow then
            some ⟨[], timer.when - timeNow, heap, tick + 1⟩
          else do
            let popped ← heapPop heap
            let r ← expiredLoop clk k popped.2 (tick + 1)
            some { r with ran := (timer, timeNow) :: r.ran }

/-- `process_expired_timers`. -/
def expiredTimers (clk : Nat → Int) (heap : Heap Timer) (tick : Nat) : Option Expired :=
  expiredLoop clk heap.elemNum heap tick

-- ── The loop on a represented heap ───────────────────────────────────────────

/-- The order the heap is meant to keep. -/
def Earlier (a b : Timer) : Prop := a.when ≤ b.when

/-- What the loop did to a heap that held the timers `l`; it leaves `l'`. -/
structure LoopDone (clk : Nat → Int) (l : List Timer) (tick : Nat) (r : Expired)
    (l' : List Timer) : Prop where
  rep : HeapRep r.heap l'
  cmp : r.heap.cmpFn = coTimerCmp
  perm : (r.ran.map Prod.fst ++ l').Perm l
  due : ∀ p ∈ r.ran, p.1.when ≤ p.2
  readings : r.ran.map Prod.snd = (List.range' tick r.ran.length).map clk
  stop : (l' = [] ∧ r.delay = 0) ∨
    ∃ t, l'[0]? = some t ∧ clk (tick + r.ran.length) < t.when
      ∧ r.delay = t.when - clk (tick + r.ran.length)
  sorted : Decides coTimerCmp Earlier l → HeapOrdered Earlier l →
    HeapOrdered Earlier l' ∧ (r.ran.map fun p => p.1.when).Pairwise (· ≤ ·)

theorem heapTop_nil {heap : Heap Timer} (h : HeapRep heap []) : heapTop heap = some none :=
  if_pos h.num

theorem heapTop_cons {heap : Heap Timer} {t : Timer} {l : List Timer} (h : HeapRep heap (t :: l)) :
    heapTop heap = some (some t) := by
  have hnum : heap.elemNum = l.length + 1 := h.num
  rw [heapTop, if_neg (by omega), h.holds.load_eq (a := t) rfl]
  rfl

section Rounds

variable {clk : Nat → Int} {heap : Heap Timer} {t : Timer} {l : List Timer} {tick : Nat}

/-- A round that finds no timer. -/
theorem expiredLoop_nil (clk : Nat → Int) (k tick : Nat) (h : HeapRep heap []) :
    expiredLoop clk (k + 1) heap tick = some ⟨[], 0, heap, tick⟩ := by
  rw [expiredLoop, heapTop_nil h]
  rfl

/-- A round that finds one that is not due. -/
theorem expiredLoop_late (k : Nat) (h : HeapRep heap (t :: l)) (hlate : t.when > clk tick) :
    expiredLoop clk (k + 1) heap tick = some ⟨[], t.when - clk tick, heap, tick + 1⟩ := by
  rw [expiredLoop, heapTop_cons h]
  simp only [Option.bind_eq_bind, Option.bind_some, if_pos hlate]

/-- A round that runs the next timer. -/
theorem expiredLoop_due {k : Nat} {popped : Option Timer × Heap Timer} {r : Expired}
    (h : HeapRep heap (t :: l)) (hdue : ¬ t.when > clk tick)
    (hpop : heapPop heap = some popped)
    (hr : expiredLoop clk k popped.2 (tick + 1) = some r) :
    expiredLoop clk (k + 1) heap tick = some { r with ran := (t, clk tick) :: r.ran } := by
  rw [expiredLoop, heapTop_cons h]
  simp only [Option.bind_eq_bind, Option.bind_some, if_neg hdue, hpop, hr]

end Rounds

theorem earlier_refl (a : Timer) : Earlier a a := Int.le_refl a.when

theorem earlier_trans (a b c : Timer) (hab : Earlier a b) (hbc : Earlier b c) : Earlier a c :=
  Int.le_trans hab hbc

/-- The first timer of an ordered heap has the least deadline. -/
theorem head_earliest {t : Timer} {l : List Timer} (ho : HeapOrdered Earlier (t :: l)) :
    ∀ u ∈ t :: l, t.when ≤ u.when :=
  ho.root_le earlier_refl earlier_trans rfl

/-- A round that runs no timer. -/
theorem loopDone_none {clk : Nat → Int} {heap : Heap Timer} {l : List Timer}
    (h : HeapRep heap l) (hcmp : heap.cmpFn = coTimerCmp) (tick tick' : Nat) {delay : Int}
    (hstop : (l = [] ∧ delay = 0)
      ∨ ∃ t, l[0]? = some t ∧ clk tick < t.when ∧ delay = t.when - clk tick) :
    LoopDone clk l tick ⟨[], delay, heap, tick'⟩ l where
  rep := h
  cmp := hcmp
  perm := List.Perm.refl _
  due := fun _ hp => nomatch hp
  readings := rfl
  stop := hstop
  sorted := fun _ ho => ⟨ho, List.Pairwise.nil⟩

/-- **THE LOOP**: with as many rounds as there are timers it ends, for every
    clock and whatever the deadlines are; it runs its timers in order if
    `co_timer_cmp` decides the order of the deadlines present. -/
theorem expiredLoop_spec (clk : Nat → Int) :
    ∀ (k : Nat) (heap : Heap Timer) (l : List Timer) (tick : Nat),
      HeapRep heap l → heap.cmpFn = coTimerCmp → l.length ≤ k →
      ∃ r l', expiredLoop clk k heap tick = some r ∧ LoopDone clk l tick r l' := by
  intro k
  induction k with
  | zero =>
      intro heap l tick h hcmp hk
      have hl : l = [] := List.eq_nil_of_length_eq_zero (Nat.le_zero.mp hk)
      subst hl
      exact ⟨_, [], rfl, loopDone_none h hcmp tick tick (Or.inl ⟨rfl, rfl⟩)⟩
  | succ k ih =>
      intro heap l tick h hcmp hk
      cases l with
      | nil =>
          exact ⟨_, [], expiredLoop_nil clk k tick h,
            loopDone_none h hcmp tick tick (Or.inl ⟨rfl, rfl⟩)⟩
      | cons t l =>
          by_cases hlate : t.when > clk tick
          · exact ⟨_, t :: l, expiredLoop_late k h hlate,
              loopDone_none h hcmp tick (tick + 1) (Or.inr ⟨t, rfl, hlate, rfl⟩)⟩
          · obtain ⟨heap₁, l₁, hpop, h₁, hcmp₁, hperm₁, hord₁⟩ := heapPop_spec h
            rw [hcmp] at hcmp₁ hord₁
            have hlen : l₁.length ≤ k := by
              rw [hperm₁.length_eq]
              exact Nat.le_of_succ_le_succ hk
            obtain ⟨r, l', hr, hdone⟩ := ih heap₁ l₁ (tick + 1) h₁ hcmp₁ hlen
            refine ⟨_, l', expiredLoop_due h hlate hpop hr, ?_⟩
            · have hpos : tick + (r.ran.length + 1) = tick + 1 + r.ran.length := by omega
              exact {
                rep := hdone.rep
                cmp := hdone.cmp
                perm := (hdone.perm.trans hperm₁).cons t
                due := by
                  intro p hp
                  rcases List.mem_cons.mp hp with rfl | hp
                  · exact Int.not_lt.mp hlate
                  · exact hdone.due p hp
                readings := by
                  rw [List.map_cons, hdone.readings]
                  rfl
                stop := by
                  rw [List.length_cons, hpos]
                  exact hdone.stop
                sorted := by
                  intro hdec ho
                  have hdec₁ : Decides coTimerCmp Earlier l₁ :=
                    hdec.sub fun u hu => List.mem_cons_of_mem t (hperm₁.mem_iff.mp hu)
                  obtain ⟨ho', hs⟩ := hdone.sorted hdec₁ (hord₁ Earlier hdec ho)
                  refine ⟨ho', List.pairwise_cons.mpr ⟨?_, hs⟩⟩
                  intro w hw
                  obtain ⟨p, hp, rfl⟩ := List.mem_map.mp hw
                  have hp₁ : p.1 ∈ l₁ := hdone.perm.mem_iff.mp
                    (List.mem_append_left _ (List.mem_map_of_mem hp))
                  exact head_earliest ho p.1 (List.mem_cons_of_mem t (hperm₁.mem_iff.mp hp₁)) }

-- ── The scheduler's loop ─────────────────────────────────────────────────────

/-- The callbacks of the scheduler's timers, one after the other. -/
def resumeAll : List (Timer × Int) → Sched → Option Sched
  | [], sched => some sched
  | p :: ps, sched => (schedCoResume sched p.1.args).bind (resumeAll ps)

/-- The timer heap and the clock position are replaced. -/
def setTimers (sched : Sched) (heap : Heap Timer) (tick : Nat) : Sched :=
  { sched with coTimerHeap := heap, tick := tick }

/-- A resume neither reads nor changes the timers. -/
theorem schedCoResume_setTimers (sched : Sched) (heap : Heap Timer) (tick co : Nat) :
    schedCoResume (setTimers sched heap tick) co
      = (schedCoResume sched co).map fun s => setTimers s heap tick := by
  have hq : ((setTimers sched heap tick).coQueue = sched.coQueue)
      ∧ (setTimers sched heap tick).coReadyQueue = sched.coReadyQueue := ⟨rfl, rfl⟩
  have hm : (setTimers sched heap tick).mem = sched.mem := rfl
  rw [schedCoResume, schedCoResume, listDel, listDel, hq.1, hq.2, hm]
  cases sched.mem co with
  | none => rfl
  | some c =>
      by_cases hmem : co ∈ sched.coQueue ∨ co ∈ sched.coReadyQueue
      · simp only [if_pos hmem]
        rfl
      · simp only [if_neg hmem]
        rfl

theorem resumeAll_setTimers (heap : Heap Timer) (tick : Nat) :
    ∀ (ps : List (Timer × Int)) (sched : Sched),
      resumeAll ps (setTimers sched heap tick)
        = (resumeAll ps sched).map fun s => setTimers s heap tick := by
  intro ps
  induction ps with
  | nil => intro sched; rfl
  | cons p ps ih =>
      intro sched
      rw [resumeAll, resumeAll, schedCoResume_setTimers]
      cases schedCoResume sched p.1.args with
      | none => rfl
      | some s => exact ih s

/-- The scheduler's loop is the timer loop followed by its callbacks; they do
    not meet, because a resume leaves the timers alone. -/
theorem processExpiredLoop_eq (clk : Nat → Int) :
    ∀ (k : Nat) (sched : Sched),
      processExpiredLoop clk k sched
        = (expiredLoop clk k sched.coTimerHeap sched.tick).bind fun r =>
            (resumeAll r.ran sched).map fun s => (r.delay, setTimers s r.heap r.tick) := by
  intro k
  induction k with
  | zero => intro sched; rfl
  | succ k ih =>
      intro sched
      rw [processExpiredLoop, expiredLoop]
      simp only [Option.bind_eq_bind, Option.bind_assoc]
      refine Option.bind_congr ?_
      intro top _
      cases top with
      | none => rfl
      | some timer =>
          by_cases hlate : timer.when > clk sched.tick
          · simp only [if_pos hlate]
            rfl
          · simp only [if_neg hlate, Option.bind_assoc]
            refine Option.bind_congr ?_
            intro popped _
            have hset : schedCoResume { sched with tick := sched.tick + 1, coTimerHeap := popped.2 }
                timer.args = (schedCoResume sched timer.args).map
                  fun s => setTimers s popped.2 (sched.tick + 1) :=
              schedCoResume_setTimers sched popped.2 (sched.tick + 1) timer.args
            rw [hset]
            cases hres : schedCoResume sched timer.args with
            | none =>
                simp only [Option.map_none, Option.bind_none, resumeAll, hres, Option.bind_some]
                cases expiredLoop clk k popped.2 (sched.tick + 1) <;> rfl
            | some s =>
                simp only [Option.map_some, Option.bind_some, resumeAll, hres]
                rw [ih]
                refine Option.bind_congr ?_
                intro r _
                show (resumeAll r.ran (setTimers s popped.2 (sched.tick + 1))).map _ = _
                rw [resumeAll_setTimers, Option.map_map]
                rfl

-- ── Runs of one timer heap ───────────────────────────────────────────────────

/-- What `process_expired_timers` owes, when its first reading is number
    `tick`. -/
structure ExpiredOk (clk : Nat → Int) (heap : Heap Timer) (tick : Nat) (r : Expired) : Prop where
  sorted : (r.ran.map fun p => p.1.when).Pairwise (· ≤ ·)
  due : ∀ p ∈ r.ran, p.1.when ≤ p.2
  readings : r.ran.map Prod.snd = (List.range' tick r.ran.length).map clk
  once : contents heap = (r.ran.map Prod.fst : List Timer) + contents r.heap
  rest : (contents r.heap = 0 ∧ r.delay = 0) ∨
    ∃ t ∈ contents r.heap, r.delay = t.when - clk (tick + r.ran.length)
      ∧ ∀ u ∈ contents r.heap, clk (tick + r.ran.length) < u.when ∧ t.when ≤ u.when

/-- The timers of one scheduler. -/
structure TimerState where
  heap : Heap Timer
  tick : Nat

/-- A timer made by `co_timer_after` at the reading `now` is pushed, whenever
    that reading was, or the expired timers are processed. -/
inductive TimerOp where
  | push (now delayMs : Int) (args : Nat)
  | process

def timerStep (clk : Nat → Int) (s : TimerState) : TimerOp → Option TimerState
  | .push now delayMs args => do
      let timer ← coTimerAfter now delayMs args
      let heap ← heapPush s.heap timer
      some { s with heap := heap }
  | .process => (expiredTimers clk s.heap s.tick).map fun r => ⟨r.heap, r.tick⟩

/-- No timer is set. -/
def timersCreate : TimerState := ⟨heapCreate coTimerCmp, 0⟩

/-- Delays are non-negative `long`s and deadlines fit; the deadlines pushed are
    among `D`, and at most `b` timers are set at any time. -/
def Allowed (b : Nat) (D : Set Int) (s : TimerState) : TimerOp → Prop
  | .push now delayMs _ => (0 ≤ delayMs ∧ delayMs < 2 ^ 63) ∧ InLong (now + delayMs)
      ∧ now + delayMs ∈ D ∧ s.heap.elemNum < b
  | .process => True

/-- Whenever timers with deadlines among `D` are pushed, at most `b` at a time,
    every push and every call of `process_expired_timers` does what it should. -/
def TimersRight (b : Nat) (D : Set Int) : Prop :=
  ∀ clk : Nat → Int, (∀ m n, m ≤ n → clk m ≤ clk n) →
    ∀ s, Reach (fun s => s = timersCreate) (guarded (Allowed b D) (fires (timerStep clk))) s →
      (∃ r, expiredTimers clk s.heap s.tick = some r ∧ ExpiredOk clk s.heap s.tick r)
      ∧ ∀ op, Allowed b D s op → ∃ s', timerStep clk s op = some s'

/-- Of two deadlines among `D` the later one is later by the right sign of a
    32-bit difference as well. -/
def Apart (D : Set Int) : Prop :=
  ∀ x ∈ D, ∀ y ∈ D, InLong x → InLong y → x < y → 0 < (y - x) % 2 ^ 32 ∧ (y - x) % 2 ^ 32 < 2 ^ 31

/-- The sign of `co_timer_cmp` for a timer and an earlier one. -/
theorem coTimerCmp_pos_iff {a b : Timer} :
    0 < coTimerCmp a b
      ↔ 0 < (a.when - b.when) % 2 ^ 32 ∧ (a.when - b.when) % 2 ^ 32 < 2 ^ 31 := by
  rw [coTimerCmp, toSigned]
  omega

theorem coTimerCmp_neg_iff {a b : Timer} :
    coTimerCmp b a < 0
      ↔ 0 < (a.when - b.when) % 2 ^ 32 ∧ (a.when - b.when) % 2 ^ 32 ≤ 2 ^ 31 := by
  rw [coTimerCmp, toSigned]
  omega

theorem decides_of_apart {D : Set Int} (h : Apart D) {l : List Timer}
    (hl : ∀ t ∈ l, t.when ∈ D ∧ InLong t.when) : Decides coTimerCmp Earlier l where
  refl := earlier_refl
  trans := earlier_trans
  of_nonpos := by
    intro a ha b hb hle
    rw [Earlier]
    by_contra hlt
    have hap := h _ (hl b hb).1 _ (hl a ha).1 (hl b hb).2 (hl a ha).2 (by omega)
    have hpos : 0 < coTimerCmp a b := coTimerCmp_pos_iff.mpr hap
    omega
  of_nonneg := by
    intro a ha b hb hle
    rw [Earlier]
    by_contra hlt
    have hap := h _ (hl a ha).1 _ (hl b hb).1 (hl a ha).2 (hl b hb).2 (by omega)
    have hneg : coTimerCmp a b < 0 := coTimerCmp_neg_iff.mpr ⟨hap.1, hap.2.le⟩
    omega

/-- One timer is in order, whatever its deadline. -/
theorem decides_of_length_le_one {l : List Timer} (h : l.length ≤ 1) :
    Decides coTimerCmp Earlier l := by
  have hone : ∀ a ∈ l, ∀ b ∈ l, a = b := by
    cases l with
    | nil => exact fun _ ha => nomatch ha
    | cons t l =>
        have hl : l = [] := List.eq_nil_of_length_eq_zero (Nat.le_zero.mp (Nat.le_of_succ_le_succ h))
        subst hl
        intro a ha b hb
        rw [List.mem_singleton.mp ha, List.mem_singleton.mp hb]
  exact {
    refl := earlier_refl
    trans := earlier_trans
    of_nonpos := by
      intro a ha b hb _
      rw [hone a ha b hb]
      exact earlier_refl b
    of_nonneg := by
      intro a ha b hb _
      rw [hone a ha b hb]
      exact earlier_refl b }

/-- The heap holds timers that were allowed, in the order of their deadlines. -/
structure TimersInv (b : Nat) (D : Set Int) (s : TimerState) (l : List Timer) : Prop where
  rep : HeapRep s.heap l
  cmp : s.heap.cmpFn = coTimerCmp
  length_le : l.length ≤ b
  among : ∀ t ∈ l, t.when ∈ D ∧ InLong t.when
  ordered : HeapOrdered Earlier l

theorem timersInv_create (b : Nat) (D : Set Int) : TimersInv b D timersCreate [] where
  rep := heapCreate_rep coTimerCmp
  cmp := rfl
  length_le := Nat.zero_le b
  among := fun _ ht => nomatch ht
  ordered := fun _ _ _ _ hu _ => nomatch hu

section Right

variable {b : Nat} {D : Set Int} {s : TimerState} {l : List Timer}

theorem decides_of_ok (hok : b ≤ 1 ∨ Apart D) {l : List Timer} (hb : l.length ≤ b)
    (hl : ∀ t ∈ l, t.when ∈ D ∧ InLong t.when) : Decides coTimerCmp Earlier l := by
  rcases hok with hb1 | hap
  · exact decides_of_length_le_one (Nat.le_trans hb hb1)
  · exact decides_of_apart hap hl

/-- **PUSH**: an allowed push has a result and keeps the order. -/
theorem TimersInv.push (clk : Nat → Int) (h : TimersInv b D s l) (hok : b ≤ 1 ∨ Apart D)
    (hroom : b ≤ heapRoom ∨ ∀ x ∈ D, ¬ InLong x) {now delayMs : Int} {args : Nat}
    (hal : Allowed b D s (.push now delayMs args)) :
    ∃ s' l', timerStep clk s (.push now delayMs args) = some s' ∧ TimersInv b D s' l' := by
  obtain ⟨-, hin, hD, hlt⟩ := hal
  rw [h.rep.num] at hlt
  have hfree : l.length < heapRoom := by
    rcases hroom with hb | hnone
    · omega
    · exact absurd hin (hnone _ hD)
  obtain ⟨heap, l', hpush, hrep, hcmp, hperm, hord⟩ :=
    heapPush_spec h.rep hfree ⟨now + delayMs, args⟩
  have hamong : ∀ t ∈ (⟨now + delayMs, args⟩ : Timer) :: l, t.when ∈ D ∧ InLong t.when := by
    intro t ht
    rcases List.mem_cons.mp ht with rfl | ht
    · exact ⟨hD, hin⟩
    · exact h.among t ht
  have hdec : Decides coTimerCmp Earlier (⟨now + delayMs, args⟩ :: l) :=
    decides_of_ok hok hlt hamong
  refine ⟨{ s with heap := heap }, l', ?_, ?_⟩
  · rw [timerStep, coTimerAfter, if_pos hin]
    simp only [Option.bind_eq_bind, Option.bind_some, hpush]
  · rw [h.cmp] at hcmp hord
    exact {
      rep := hrep
      cmp := hcmp
      length_le := by
        rw [hperm.length_eq]
        exact hlt
      among := fun t ht => hamong t (hperm.mem_iff.mp ht)
      ordered := hord Earlier hdec h.ordered }

/-- **PROCESS**: a call has a result, does what it owes and keeps the order. -/
theorem TimersInv.process (clk : Nat → Int) (h : TimersInv b D s l) (hok : b ≤ 1 ∨ Apart D) :
    ∃ r l', expiredTimers clk s.heap s.tick = some r ∧ ExpiredOk clk s.heap s.tick r
      ∧ TimersInv b D ⟨r.heap, r.tick⟩ l' := by
  obtain ⟨r, l', hr, hdone⟩ := expiredLoop_spec clk s.heap.elemNum s.heap l s.tick h.rep h.cmp
    (by rw [h.rep.num])
  obtain ⟨ho', hsorted⟩ := hdone.sorted (decides_of_ok hok h.length_le h.among) h.ordered
  have hsub : ∀ t ∈ l', t ∈ l := fun t ht =>
    hdone.perm.mem_iff.mp (List.mem_append_right _ ht)
  refine ⟨r, l', hr, ?_, ?_⟩
  · exact {
      sorted := hsorted
      due := hdone.due
      readings := hdone.readings
      once := by
        rw [h.rep.contents_eq, hdone.rep.contents_eq, Multiset.coe_add]
        exact Multiset.coe_eq_coe.mpr hdone.perm.symm
      rest := by
        rw [hdone.rep.contents_eq]
        rcases hdone.stop with ⟨rfl, hd⟩ | ⟨t, ht, hlate, hd⟩
        · exact Or.inl ⟨rfl, hd⟩
        · refine Or.inr ⟨t, Multiset.mem_coe.mpr (List.mem_of_getElem? ht), hd, ?_⟩
          intro u hu
          have htu : t.when ≤ u.when :=
            ho'.root_le earlier_refl earlier_trans ht u (Multiset.mem_coe.mp hu)
          exact ⟨Int.lt_of_lt_of_le hlate htu, htu⟩ }
  · have hlen := hdone.perm.length_eq
    rw [List.length_append] at hlen
    have hle := h.length_le
    exact {
      rep := hdone.rep
      cmp := hdone.cmp
      length_le := by omega
      among := fun t ht => h.among t (hsub t ht)
      ordered := ho' }

theorem timersRight_of (hok : b ≤ 1 ∨ Apart D) (hroom : b ≤ heapRoom ∨ ∀ x ∈ D, ¬ InLong x) :
    TimersRight b D := by
  intro clk _ s hr
  have hinv : ∃ l, TimersInv b D s l := by
    refine Reach.guarded_invariant (I := fun s => ∃ l, TimersInv b D s l) ?_ ?_ s hr
    · rintro s rfl
      exact ⟨[], timersInv_create b D⟩
    · rintro s op s' - ⟨l, h⟩ hal hstep
      cases op with
      | push now delayMs args =>
          obtain ⟨s₁, l', hs₁, h'⟩ := h.push clk hok hroom hal
          rw [fires, hs₁] at hstep
          cases hstep
          exact ⟨l', h'⟩
      | process =>
          obtain ⟨r, l', hr, -, h'⟩ := h.process clk hok
          rw [fires, timerStep, hr] at hstep
          cases hstep
          exact ⟨l', h'⟩
  obtain ⟨l, h⟩ := hinv
  obtain ⟨r, l', hr, hright, -⟩ := h.process clk hok
  refine ⟨⟨r, hr, hright⟩, ?_⟩
  intro op hal
  cases op with
  | push now delayMs args =>
      obtain ⟨s', l', hs', -⟩ := h.push clk hok hroom hal
      exact ⟨s', hs'⟩
  | process => exact ⟨⟨r.heap, r.tick⟩, by rw [timerStep, hr]; rfl⟩

end Right

-- ── Where it goes wrong ──────────────────────────────────────────────────────

/-- A run whose heap holds `l`, every timer where it was pushed, before the
    first call of `process_expired_timers`. -/
def Holding (b : Nat) (D : Set Int) (clk : Nat → Int) (l : List Timer) : Prop :=
  ∃ s, Reach (fun s => s = timersCreate) (guarded (Allowed b D) (fires (timerStep clk))) s
    ∧ HeapRep s.heap l ∧ s.heap.cmpFn = coTimerCmp ∧ s.tick = 0

theorem holding_nil (b : Nat) (D : Set Int) (clk : Nat → Int) : Holding b D clk [] :=
  ⟨timersCreate, Reach.start rfl, heapCreate_rep coTimerCmp, rfl, rfl⟩

section Wrong

variable {b : Nat} {D : Set Int} {clk : Nat → Int} {l : List Timer}

/-- A push below a parent that is not later by the sign of `co_timer_cmp`. -/
theorem Holding.push (h : Holding b D clk l) (now delayMs : Int) (args : Nat)
    (hroom : l.length < heapRoom) (hb : l.length < b) (hdelay : 0 ≤ delayMs ∧ delayMs < 2 ^ 63)
    (hin : InLong (now + delayMs)) (hD : now + delayMs ∈ D)
    (hstay : l ≠ [] → ∃ p, l[parent l.length]? = some p
      ∧ coTimerCmp p ⟨now + delayMs, args⟩ ≤ 0) :
    Holding b D clk (l ++ [⟨now + delayMs, args⟩]) := by
  obtain ⟨s, hr, hrep, hcmp, htick⟩ := h
  obtain ⟨heap, l', hpush, hrep', hcmp', hperm, -⟩ :=
    heapPush_spec hrep hroom ⟨now + delayMs, args⟩
  have hstep : timerStep clk s (.push now delayMs args) = some { s with heap := heap } := by
    rw [timerStep, coTimerAfter, if_pos hin]
    simp only [Option.bind_eq_bind, Option.bind_some, hpush]
  have hal : Allowed b D s (.push now delayMs args) := by
    refine ⟨hdelay, hin, hD, ?_⟩
    rw [hrep.num]
    exact hb
  refine ⟨{ s with heap := heap }, hr.next ⟨hal, hstep⟩, ?_, hcmp'.trans hcmp, htick⟩
  by_cases hl : l = []
  · subst hl
    rw [List.perm_singleton.mp hperm] at hrep'
    exact hrep'
  · obtain ⟨p, hp, hle⟩ := hstay hl
    obtain ⟨heap₁, hpush₁, hrep₁⟩ := heapPush_stays hrep hroom (List.length_pos_iff.mpr hl) hp
      (by rw [hcmp]; exact hle)
    rw [hpush] at hpush₁
    cases hpush₁
    exact hrep₁

/-- The later of two deadlines is pushed first and hides the other one. -/
theorem not_timersRight_of_pair {x y : Int} (hb : 2 ≤ b) (hx : x ∈ D) (hy : y ∈ D)
    (hxl : InLong x) (hyl : InLong y) (hlt : x < y)
    (hbad : ¬ (0 < (y - x) % 2 ^ 32 ∧ (y - x) % 2 ^ 32 < 2 ^ 31)) : ¬ TimersRight b D := by
  intro h
  have hy' : y - min (y - x) (2 ^ 63 - 1) + min (y - x) (2 ^ 63 - 1) = y := by omega
  have h₁ : Holding b D (fun _ => x) [⟨y, 0⟩] := by
    have hp := (holding_nil b D fun _ => x).push (y - min (y - x) (2 ^ 63 - 1))
      (min (y - x) (2 ^ 63 - 1)) 0
    rw [hy'] at hp
    exact hp (by decide) (by show 0 < b; omega) (by omega) hyl hy fun hne => absurd rfl hne
  have h₂ : Holding b D (fun _ => x) [⟨y, 0⟩, ⟨x, 1⟩] := by
    have hp := h₁.push x 0 1
    rw [Int.add_zero] at hp
    have hroom : 1 < heapRoom := by decide
    have hroot : parent 1 = 0 := by decide
    refine hp hroom hb (by decide) hxl hx fun _ => ⟨⟨y, 0⟩, ?_, ?_⟩
    · rw [List.length_singleton, hroot]
      rfl
    · exact Int.not_lt.mp fun hpos => hbad (coTimerCmp_pos_iff.mp hpos)
  obtain ⟨s, hr, hrep, hcmp, htick⟩ := h₂
  obtain ⟨⟨r, hrun, hok⟩, -⟩ := h (fun _ => x) (fun _ _ _ => Int.le_refl x) s hr
  have hnum : s.heap.elemNum = 1 + 1 := hrep.num
  rw [expiredTimers, hnum, expiredLoop_late 1 hrep hlt] at hrun
  cases hrun
  have hmem : (⟨x, 1⟩ : Timer) ∈ contents s.heap := by
    rw [hrep.contents_eq]
    simp
  rcases hok.rest with ⟨h0, -⟩ | ⟨t, -, -, hlate⟩
  · rw [h0] at hmem
    exact absurd hmem (Multiset.notMem_zero _)
  · exact absurd (hlate _ hmem).1 (Int.lt_irrefl x)

/-- Timers with one deadline stay where they are pushed. -/
theorem holding_replicate (clk : Nat → Int) {x : Int} (hx : x ∈ D) (hxl : InLong x) :
    ∀ n, n ≤ heapRoom → n ≤ b → Holding b D clk (List.replicate n ⟨x, 0⟩) := by
  intro n
  induction n with
  | zero => exact fun _ _ => holding_nil b D clk
  | succ n ih =>
      intro hroom hb
      have h := ih (Nat.le_of_succ_le hroom) (Nat.le_of_succ_le hb)
      have hp := h.push x 0 0
      rw [Int.add_zero, List.length_replicate] at hp
      rw [List.replicate_succ']
      refine hp hroom hb (by decide) hxl hx fun hne => ⟨⟨x, 0⟩, ?_, ?_⟩
      · have h0 : n ≠ 0 := fun h0 => hne (by rw [h0]; rfl)
        rw [List.getElem?_replicate, if_pos (parent_lt (Nat.pos_of_ne_zero h0))]
      · rw [coTimerCmp, Int.sub_self]
        decide

/-- One timer more than there is room for. -/
theorem not_timersRight_of_full {x : Int} (hb : heapRoom < b) (hx : x ∈ D) (hxl : InLong x) :
    ¬ TimersRight b D := by
  intro h
  obtain ⟨s, hr, hrep, -, -⟩ :=
    holding_replicate (fun _ => 0) hx hxl heapRoom (Nat.le_refl _) hb.le
  have hadd : x + 0 = x := Int.add_zero x
  have hal : Allowed b D s (.push x 0 0) := by
    refine ⟨by decide, by rw [hadd]; exact hxl, by rw [hadd]; exact hx, ?_⟩
    rw [hrep.num, List.length_replicate]
    exact hb
  obtain ⟨-, hpush⟩ := h (fun _ => 0) (fun _ _ _ => Int.le_refl 0) s hr
  obtain ⟨s', hs'⟩ := hpush _ hal
  rw [timerStep, coTimerAfter, hadd, if_pos hxl] at hs'
  simp only [Option.bind_eq_bind, Option.bind_some,
    heapPush_full hrep List.length_replicate] at hs'
  cases hs'

end Wrong

/-- **WHICH TIMERS ARE RIGHT**: every run that sets at most `b` timers at a
    time, with deadlines among `D`, does what it should exactly when timers are
    set one at a time or any two deadlines are apart in 32 bits as well, and
    the heap has room. -/
theorem timers_right_iff (b : Nat) (D : Set Int) :
    TimersRight b D ↔ (b ≤ 1 ∨ Apart D) ∧ (b ≤ heapRoom ∨ ∀ x ∈ D, ¬ InLong x) := by
  constructor
  · intro h
    constructor
    · by_contra hnot
      rw [not_or] at hnot
      obtain ⟨hb, hap⟩ := hnot
      simp only [Apart, not_forall] at hap
      obtain ⟨x, hx, y, hy, hxl, hyl, hlt, hbad⟩ := hap
      exact not_timersRight_of_pair (by omega) hx hy hxl hyl hlt hbad h
    · by_contra hnot
      rw [not_or] at hnot
      obtain ⟨hb, hin⟩ := hnot
      simp only [not_forall, not_not] at hin
      obtain ⟨x, hx, hxl⟩ := hin
      exact not_timersRight_of_full (by omega) hx hxl h
  · exact fun ⟨hok, hroom⟩ => timersRight_of hok hroom

/-- Two timers 2^31 ms apart, the later one pushed first: at time 0 the one
    that is due is not run. -/
theorem timers_hide_due : ¬ TimersRight 2 {0, 2 ^ 31} :=
  not_timersRight_of_pair (x := 0) (y := 2 ^ 31) (Nat.le_refl 2) (by simp) (by simp)
    (by decide) (by decide) (by decide) (by decide)

end CoTimer
