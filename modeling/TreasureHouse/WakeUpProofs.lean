import TreasureHouse.WaitQueueProofs
import TreasureHouse.SchedUnlinkProofs

/-! # `__wake_up` — whom it wakes, and who stays on the wait queue

    `__wake_up_locked` stops at the first entry whose function returns
    non-zero, if the caller asked for one waiter only, and
    `autoremove_wake_function` takes the entry off the queue if
    `sched_wakeup_coroutine` returns non-zero.  That one resumes the coroutine
    and returns 0.  So a call goes through the whole queue, whatever its flags,
    and leaves it as it was.

      • `wakeUp_eq_ok`: what a call does.
      • `wakeUp_removes_nobody`: it is never what was asked for. -/

namespace CoLink

open CoSched WaitQueue LinkRing Succession

variable {α : Type} [DecidableEq α]

/-- The links, the `flags` and `private` of the entries of wait queues, and the
    scheduler of the coroutines that wait. -/
structure WakeState (α : Type) where
  lists : Links α
  flags : α → Nat
  owner : α → Nat
  sched : Sched

/-- `wait_queue_func_t`, as `__wake_up_locked` calls it. -/
abbrev WaitQueueFunc (α : Type) : Type :=
  WakeState α → α → Nat → Except Fault (Int × WakeState α)

-- ── The functions ────────────────────────────────────────────────────────────

/-- `sched_wakeup_coroutine`. -/
def schedWakeupCoroutine : WaitQueueFunc α := fun w curr _ => do
  let sched ← schedCoResume w.sched (w.owner curr)
  .ok (0, { w with sched := sched })

/-- `autoremove_wake_function`. -/
def autoremoveWakeFunction : WaitQueueFunc α := fun w wait wakeFlags => do
  let (ret, w) ← schedWakeupCoroutine w wait wakeFlags
  if ret ≠ 0 then .ok (ret, { w with lists := listDelInit w.lists wait })
  else .ok (ret, w)

/-- `__wake_up_locked` from `curr` on, within `k` rounds.  The entry after
    `curr` is read before the function of `curr` runs. -/
def wakeUpLocked (func : α → WaitQueueFunc α) (head : α) (wakeFlags : Nat) :
    Nat → α → WakeState α → Except Fault (WakeState α)
  | 0, _, _ => .error .other
  | k + 1, curr, w =>
      if curr = head then .ok w
      else do
        let next := w.lists.next curr
        let (ret, w) ← func curr w curr wakeFlags
        if ret ≠ 0 ∧ wakeFlags &&& wqFlagExclusive ≠ 0 then .ok w
        else wakeUpLocked func head wakeFlags k next w

/-- `__wake_up`; the spin lock is held over it. -/
def wakeUp (func : α → WaitQueueFunc α) (head : α) (wakeFlags k : Nat) (w : WakeState α) :
    Except Fault (WakeState α) :=
  wakeUpLocked func head wakeFlags k (w.lists.next head) w

-- ── What was asked for ───────────────────────────────────────────────────────

/-- The entries `es` are on the queue at `head`, in this order. -/
structure Queued (head : α) (lists : Links α) (es : List α) : Prop where
  nodup : (head :: es).Nodup
  next : NextRing (some ∘ lists.next) head es
  prev : PrevRing (some ∘ lists.prev) head es

/-- A call makes the coroutines of the entries `woken` ready, and no other, and
    leaves the entries `left`. -/
def Wakes (func : α → WaitQueueFunc α) (head : α) (wakeFlags : Nat) (w : WakeState α)
    (woken left : List α) : Prop :=
  ∃ k w', wakeUp func head wakeFlags k w = .ok w'
    ∧ (∀ co, co ∈ w'.sched.coReadyQueue ↔ co ∈ w.sched.coReadyQueue ∨ co ∈ woken.map w.owner)
    ∧ Queued head w'.lists left

/-- The first waiter alone for `WQ_FLAG_EXCLUSIVE`, all of them without. -/
def WakesRight (func : α → WaitQueueFunc α) (head : α) (wakeFlags : Nat) (w : WakeState α)
    (es : List α) : Prop :=
  if wakeFlags &&& wqFlagExclusive ≠ 0 then Wakes func head wakeFlags w (es.take 1) es.tail
  else Wakes func head wakeFlags w es []

-- ── Resuming several coroutines ──────────────────────────────────────────────

/-- `sched_co_resume` of one coroutine after the other. -/
def resumeCos : List Nat → Sched → Except Fault Sched
  | [], sched => .ok sched
  | co :: cos, sched => schedCoResume sched co >>= resumeCos cos

theorem mem_ready_of_resumeCos : ∀ {cos : List Nat} {sched sched' : Sched},
    resumeCos cos sched = .ok sched' →
      ∀ x, x ∈ sched'.coReadyQueue ↔ x ∈ sched.coReadyQueue ∨ x ∈ cos := by
  intro cos
  induction cos with
  | nil =>
      intro sched sched' h x
      cases h
      rw [or_iff_left List.not_mem_nil]
  | cons co cos ih =>
      intro sched sched' h x
      obtain ⟨s₁, hres, h⟩ := bind_eq_ok.mp h
      rw [ih h x, mem_ready_of_resume hres, List.mem_cons, or_assoc]

/-- After a resume the same coroutines are live and linked. -/
theorem live_linked_of_resume {sched sched' : Sched} {co : Nat}
    (h : schedCoResume sched co = .ok sched') (x : Nat) :
    ((sched'.mem x).isSome ∧ Linked sched' x) ↔ ((sched.mem x).isSome ∧ Linked sched x) := by
  obtain ⟨c, hc, hlinked, rfl⟩ := schedCoResume_eq_ok.mp h
  have hlive : (Function.update sched.mem co (some { c with status := .runnable }) x).isSome
      = (sched.mem x).isSome := isSome_update hc x
  have hq : (x ∈ sched.coQueue.erase co ∨ x ∈ sched.coReadyQueue.erase co ++ [co])
      ↔ Linked sched x := by
    by_cases hx : x = co
    · subst hx
      refine iff_of_true (Or.inr ?_) hlinked
      exact List.mem_append_right _ (List.mem_singleton.mpr rfl)
    · rw [List.mem_append, List.mem_singleton, or_iff_left hx, List.mem_erase_of_ne hx,
        List.mem_erase_of_ne hx]
      rfl
  exact and_congr (by rw [← hlive]) hq

/-- All can be resumed if each of them is live and on a queue. -/
theorem resumeCos_ok_iff : ∀ {cos : List Nat} {sched : Sched},
    (∃ sched', resumeCos cos sched = .ok sched')
      ↔ ∀ co ∈ cos, (sched.mem co).isSome ∧ Linked sched co := by
  intro cos
  induction cos with
  | nil =>
      intro sched
      exact iff_of_true ⟨sched, rfl⟩ fun _ h => nomatch h
  | cons co cos ih =>
      intro sched
      rw [List.forall_mem_cons]
      constructor
      · rintro ⟨s₂, h⟩
        obtain ⟨s₁, hres, h⟩ := bind_eq_ok.mp h
        obtain ⟨c, hc, hlinked, -⟩ := schedCoResume_eq_ok.mp hres
        refine ⟨⟨by rw [hc]; rfl, hlinked⟩, fun x hx => ?_⟩
        exact (live_linked_of_resume hres x).mp (ih.mp ⟨s₂, h⟩ x hx)
      · rintro ⟨⟨hlive, hlinked⟩, hrest⟩
        obtain ⟨c, hc⟩ := Option.isSome_iff_exists.mp hlive
        have hres := schedCoResume_eq_ok.mpr ⟨c, hc, hlinked, rfl⟩
        obtain ⟨s₂, h⟩ := ih.mpr fun x hx => (live_linked_of_resume hres x).mpr (hrest x hx)
        exact ⟨s₂, bind_eq_ok.mpr ⟨_, hres, h⟩⟩

-- ── The walk ─────────────────────────────────────────────────────────────────

/-- The entry's function resumes its coroutine and returns 0. -/
theorem autoremoveWakeFunction_eq (w : WakeState α) (wait : α) (wakeFlags : Nat) :
    autoremoveWakeFunction w wait wakeFlags
      = (schedCoResume w.sched (w.owner wait)).map fun sched => (0, { w with sched := sched }) := by
  rw [autoremoveWakeFunction, schedWakeupCoroutine]
  cases schedCoResume w.sched (w.owner wait) with
  | error e => rfl
  | ok sched => rfl

/-- **THE WALK** goes on to the head and touches no link. -/
theorem wakeUpLocked_eq_ok {func : α → WaitQueueFunc α} {head : α} {wakeFlags : Nat} :
    ∀ {l : List α} {p : α} {k : Nat} {w w' : WakeState α},
      (∀ x y, Follows (p :: (l ++ [head])) x y → w.lists.next x = y) → head ∉ l →
      (∀ e ∈ l, func e = autoremoveWakeFunction) →
      (wakeUpLocked func head wakeFlags k (w.lists.next p) w = .ok w'
        ↔ l.length < k ∧ ∃ sched, resumeCos (l.map w.owner) w.sched = .ok sched
          ∧ w' = { w with sched := sched }) := by
  intro l
  induction l with
  | nil =>
      intro p k w w' hring _ _
      rw [hring p head (follows_front [])]
      cases k with
      | zero => exact iff_of_false (fun h => nomatch h) fun h => absurd h.1 (Nat.lt_irrefl 0)
      | succ k =>
          rw [wakeUpLocked, if_pos rfl]
          constructor
          · intro h
            cases h
            exact ⟨Nat.succ_pos k, w.sched, rfl, rfl⟩
          · rintro ⟨-, sched, hres, rfl⟩
            cases hres
            rfl
  | cons a l ih =>
      intro p k w w' hring hhead hfunc
      rw [List.mem_cons, not_or] at hhead
      rw [List.forall_mem_cons] at hfunc
      rw [hring p a (follows_front (l ++ [head]))]
      cases k with
      | zero => exact iff_of_false (fun h => nomatch h) fun h => absurd h.1 (Nat.not_lt_zero _)
      | succ k =>
          rw [wakeUpLocked, if_neg (Ne.symm hhead.1), hfunc.1, autoremoveWakeFunction_eq,
            List.map_cons, resumeCos, List.length_cons, Nat.succ_lt_succ_iff]
          cases schedCoResume w.sched (w.owner a) with
          | error e => exact iff_of_false (fun h => nomatch h) fun ⟨_, _, h, _⟩ => nomatch h
          | ok sched₁ =>
              -- the function returned 0, so the walk goes on with the next entry
              exact ih (w := { w with sched := sched₁ })
                (fun x y hf => hring x y (follows_cons.mpr (Or.inr hf))) hhead.2 hfunc.2

section Queue

variable {func : α → WaitQueueFunc α} {head : α} {w w' : WakeState α} {es : List α}

/-- **A CALL** resumes every waiter in turn, whatever its flags. -/
theorem wakeUp_eq_ok (hq : Queued head w.lists es)
    (hfunc : ∀ e ∈ es, func e = autoremoveWakeFunction) (wakeFlags : Nat) {k : Nat} :
    wakeUp func head wakeFlags k w = .ok w'
      ↔ es.length < k ∧ ∃ sched, resumeCos (es.map w.owner) w.sched = .ok sched
        ∧ w' = { w with sched := sched } :=
  wakeUpLocked_eq_ok (fun x y hf => Option.some.inj (hq.next x y hf))
    (List.nodup_cons.mp hq.nodup).1 hfunc

/-- **ALL WAITERS ARE WOKEN AND ALL STAY**, for any flags, if their coroutines
    can be resumed. -/
theorem wakeUp_wakes_all (hq : Queued head w.lists es)
    (hfunc : ∀ e ∈ es, func e = autoremoveWakeFunction) (wakeFlags : Nat) :
    Wakes func head wakeFlags w es es
      ↔ ∀ e ∈ es, (w.sched.mem (w.owner e)).isSome ∧ Linked w.sched (w.owner e) := by
  rw [← List.forall_mem_map (P := fun co => (w.sched.mem co).isSome ∧ Linked w.sched co),
    ← resumeCos_ok_iff]
  constructor
  · rintro ⟨k, w', h, -, -⟩
    obtain ⟨-, sched, hres, -⟩ := (wakeUp_eq_ok hq hfunc wakeFlags).mp h
    exact ⟨sched, hres⟩
  · rintro ⟨sched, hres⟩
    have h := (wakeUp_eq_ok hq hfunc wakeFlags).mpr
      ⟨Nat.lt_succ_self es.length, sched, hres, rfl⟩
    exact ⟨es.length + 1, _, h, mem_ready_of_resumeCos hres, hq⟩

/-- No call changes who is on the queue. -/
theorem Wakes.left_eq (hq : Queued head w.lists es)
    (hfunc : ∀ e ∈ es, func e = autoremoveWakeFunction) {wakeFlags : Nat} {woken left : List α}
    (h : Wakes func head wakeFlags w woken left) : left = es := by
  obtain ⟨k, w', hrun, -, hleft⟩ := h
  obtain ⟨-, sched, -, rfl⟩ := (wakeUp_eq_ok hq hfunc wakeFlags).mp hrun
  exact (visits_of_ring hleft.next (List.nodup_cons.mp hleft.nodup).1).unique
    (visits_of_ring hq.next (List.nodup_cons.mp hq.nodup).1)

/-- **NOBODY LEAVES THE QUEUE**: with a waiter on it, no call does what was
    asked for. -/
theorem wakeUp_removes_nobody (hq : Queued head w.lists es) (hne : es ≠ [])
    (hfunc : ∀ e ∈ es, func e = autoremoveWakeFunction) (wakeFlags : Nat) :
    ¬ WakesRight func head wakeFlags w es := by
  intro h
  rw [WakesRight] at h
  by_cases hexcl : wakeFlags &&& wqFlagExclusive ≠ 0
  · rw [if_pos hexcl] at h
    have hlen := congrArg List.length (h.left_eq hq hfunc)
    have hpos := List.length_pos_iff.mpr hne
    rw [List.length_tail] at hlen
    omega
  · rw [if_neg hexcl] at h
    exact hne (h.left_eq hq hfunc).symm

end Queue

-- ── Two waiters ──────────────────────────────────────────────────────────────

/-- Coroutines 1 and 2 are suspended, and wait with entries 1 and 2. -/
def twoWaiting : WakeState Nat where
  lists := listAdd (listAdd ⟨id, id⟩ 2 0) 1 0
  flags := fun _ => wqFlagExclusive
  owner := id
  sched := { schedCreate with
    coQueue := [1, 2]
    coNums := 2
    mem := fun co => if co = 1 ∨ co = 2 then some coNew else none }

theorem twoWaiting_queued : Queued 0 twoWaiting.lists [1, 2] := by
  have hnext₀ : NextRing (some ∘ Links.next (⟨id, id⟩ : Links Nat)) 0 [] := nextRing_nil rfl
  have hprev₀ : PrevRing (some ∘ Links.prev (⟨id, id⟩ : Links Nat)) 0 [] := prevRing_nil rfl
  obtain ⟨hnext, hprev⟩ := listAdd_ring (List.nodup_singleton 0) (show 2 ∉ [0] by decide)
    hnext₀ hprev₀
  obtain ⟨hnext, hprev⟩ := listAdd_ring (show [0, 2].Nodup by decide)
    (show 1 ∉ [0, 2] by decide) hnext hprev
  exact { nodup := by decide, next := hnext, prev := hprev }

theorem wakeUp_removes_nobody_two :
    ¬ WakesRight (fun _ => autoremoveWakeFunction) 0 wqFlagExclusive twoWaiting [1, 2]
      ∧ ¬ WakesRight (fun _ => autoremoveWakeFunction) 0 0 twoWaiting [1, 2] :=
  ⟨wakeUp_removes_nobody twoWaiting_queued (by decide) (fun _ _ => rfl) wqFlagExclusive,
    wakeUp_removes_nobody twoWaiting_queued (by decide) (fun _ _ => rfl) 0⟩

/-- Asked for one of two waiters, a call makes both ready, and the first is
    still on the queue. -/
theorem wakeUp_wakes_second :
    ¬ ∀ (func : Nat → WaitQueueFunc Nat) (head : Nat) (w : WakeState Nat) (es : List Nat),
      Queued head w.lists es → es ≠ [] → (∀ e ∈ es, func e = autoremoveWakeFunction) →
      ∀ wakeFlags, WakesRight func head wakeFlags w es := by
  intro h
  have h2 := h (fun _ => autoremoveWakeFunction) 0 twoWaiting [1, 2] twoWaiting_queued (by decide)
    (fun _ _ => rfl) wqFlagExclusive
  rw [WakesRight, if_pos (by decide)] at h2
  obtain ⟨k, w', hrun, hready, -⟩ := h2
  obtain ⟨-, sched, hres, rfl⟩ :=
    (wakeUp_eq_ok twoWaiting_queued (fun _ _ => rfl) wqFlagExclusive).mp hrun
  have hboth : 2 ∈ sched.coReadyQueue :=
    (mem_ready_of_resumeCos hres 2).mpr (Or.inr (by decide))
  have hone := (hready 2).mp hboth
  revert hone
  decide

end CoLink
