import TreasureHouse.ThreadpoolRunProofs

/-! # Lost wake-ups of the work queue

    `workqueue_put` signals only when `num` was 0.  A put into a queue that
    still holds work wakes nobody, and while some worker sleeps this leaves
    work behind that no worker is coming for — unless enough workers are on
    their way already.  That condition on the puts is exact
    (`no_lost_wakeup`). -/

namespace ThreadpoolWake

open LabelledRun CondVar Threadpool ThreadpoolRun

/-- The worker is on its way to `workqueue_get`: new, woken, or back from a
    task. -/
def onTheWay : Worker → Bool
  | .arriving => true
  | .signalled => true
  | _ => false

/-- If a worker sleeps unsignalled, every queued work has a worker coming. -/
def NoLostWakeup (pool : Pool) : Prop :=
  .blocked ∈ pool.workers → pool.queue.num ≤ pool.workers.countP onTheWay

/-- A put finds an empty queue, no sleeper, or more workers on their way than
    there is work. -/
def putCovered (pool : Pool) : Event → Bool
  | .put _ => decide (pool.queue.num = 0) || decide (.blocked ∉ pool.workers)
      || decide (pool.queue.num < pool.workers.countP onTheWay)
  | _ => true

/-- The steps that are no uncovered put. -/
def Covered (pool : Pool) (e : Event) : Prop := putCovered pool e = true

theorem way_onTheWay {a : Worker} (way : a = .arriving ∨ a = .signalled) :
    onTheWay a = true ∧ .blocked ≠ a := by
  rcases way with rfl | rfl <;> exact ⟨rfl, Worker.noConfusion⟩

/-- A worker moves to where it still, or newly, counts as on its way. -/
theorem NoLostWakeup.set_worker {pool : Pool} {w : Nat} {a b : Worker} (h : NoLostWakeup pool)
    (at_w : pool.workers[w]? = some a) (hb : .blocked ≠ b)
    (hway : onTheWay a = true → onTheWay b = true) :
    .blocked ∈ pool.workers.set w b →
      pool.queue.num ≤ (pool.workers.set w b).countP onTheWay := by
  intro hmem
  have hold : .blocked ∈ pool.workers :=
    (List.mem_or_eq_of_mem_set hmem).resolve_right hb
  have hnum := h hold
  have hcount := countP_set onTheWay (b := b) at_w
  have hle : (onTheWay a).toNat ≤ (onTheWay b).toNat := by
    cases ha : onTheWay a with
    | false => exact Nat.zero_le _
    | true => exact Nat.le_of_eq (by rw [hway ha])
  omega

/-- **STEP LEMMA**: only an uncovered put loses a wake-up, and it does. -/
theorem noLostWakeup_step {pool pool' : Pool} {e : Event} (h : NoLostWakeup pool)
    (hs : Step pool e pool') : NoLostWakeup pool' ↔ Covered pool e := by
  cases hs with
  | @put woken work workers lock signalled =>
      rw [Covered, putCovered, Bool.or_eq_true, Bool.or_eq_true, decide_eq_true_eq,
        decide_eq_true_eq, decide_eq_true_eq]
      rw [workqueueSignal] at signalled
      by_cases hnum : pool.queue.num = 0
      · -- the first work: somebody is woken for it, or nobody sleeps
        rw [if_pos hnum] at signalled
        refine iff_of_true ?_ (Or.inl (Or.inl hnum))
        intro hmem
        show pool.queue.num + 1 ≤ workers.countP onTheWay
        rcases signal_cases signalled with ⟨hno, rfl⟩ | ⟨i, hi, rfl⟩
        · exact absurd hmem hno
        · have hcount := countP_set onTheWay (b := .signalled) hi
          rw [show onTheWay .blocked = false from rfl,
            show onTheWay .signalled = true from rfl] at hcount
          simp only [Bool.toNat_false, Bool.toNat_true] at hcount
          omega
      · rw [if_neg hnum] at signalled
        cases signalled
        show (.blocked ∈ pool.workers → pool.queue.num + 1 ≤ pool.workers.countP onTheWay) ↔ _
        constructor
        · intro hcov
          by_cases hmem : .blocked ∈ pool.workers
          · exact Or.inr (hcov hmem)
          · exact Or.inl (Or.inr hmem)
        · rintro ((h0 | hno) | hlt) hmem
          · exact absurd h0 hnum
          · exact absurd hmem hno
          · exact hlt
  | submitCreated =>
      refine iff_of_true ?_ rfl
      intro hmem
      have hold : .blocked ∈ pool.workers :=
        (append_unmoved Worker.noConfusion).mem_iff.mp hmem
      have hnum := h hold
      show pool.queue.num ≤ (pool.workers ++ [Worker.arriving]).countP onTheWay
      rw [List.countP_append]
      omega
  | getWait at_w way num =>
      refine iff_of_true (fun _ => ?_) rfl
      show pool.queue.num ≤ _
      omega
  | getNull at_w way num =>
      refine iff_of_true (fun _ => ?_) rfl
      show pool.queue.num ≤ _
      omega
  | @getWork w a work list at_w way num head =>
      -- one work less, and one worker less on its way
      refine iff_of_true ?_ rfl
      intro hmem
      obtain ⟨hway, hne⟩ := way_onTheWay way
      have hold : .blocked ∈ pool.workers :=
        (List.mem_or_eq_of_mem_set hmem).resolve_right Worker.noConfusion
      have hnum := h hold
      have hcount := countP_set onTheWay (b := .working work) at_w
      rw [hway, show onTheWay (.working work) = false from rfl] at hcount
      simp only [Bool.toNat_false, Bool.toNat_true] at hcount
      show pool.queue.num - 1 ≤ (pool.workers.set w (.working work)).countP onTheWay
      omega
  | wakeWorker at_w =>
      exact iff_of_true (h.set_worker at_w Worker.noConfusion (fun _ => rfl)) rfl
  | finish at_w =>
      exact iff_of_true (h.set_worker at_w Worker.noConfusion (fun _ => rfl)) rfl
  | exitMore at_w =>
      exact iff_of_true (h.set_worker at_w Worker.noConfusion Bool.noConfusion) rfl
  | exitLast at_w =>
      exact iff_of_true (h.set_worker at_w Worker.noConfusion Bool.noConfusion) rfl
  | stopQueue =>
      refine iff_of_true ?_ rfl
      intro hmem
      exact absurd hmem (asleep_notMem_broadcast Worker.noConfusion _)
  | _ => exact iff_of_true h rfl

/-- **No wake-up is lost** in every interleaving in which each put finds an
    empty queue, no sleeping worker, or more workers on their way than work;
    the first put that does not loses one. -/
theorem no_lost_wakeup {pool : Pool} (h : Reach Created (guarded Covered (fires step)) pool) :
    NoLostWakeup pool
      ∧ ∀ e pool', step pool e = some pool' → (NoLostWakeup pool' ↔ Covered pool e) := by
  have hinv : NoLostWakeup pool := by
    refine Reach.guarded_invariant (I := NoLostWakeup) ?_ ?_ pool h
    · rintro pool ⟨cpuNum, maxThreads, rfl, -⟩ hmem
      exact absurd hmem List.not_mem_nil
    · intro pool e pool' _ hinv hcov hstep
      exact (noLostWakeup_step hinv (step_cases hstep)).mpr hcov
  exact ⟨hinv, fun e pool' hstep => noLostWakeup_step hinv (step_cases hstep)⟩

/-- Two workers that have run a task each and sleep. -/
def twoIdle : List Event :=
  [.submit 70 true, .put none, .get 0, .finish 0, .get 0, .submit 71 true, .put (some 0), .get 1,
    .finish 1, .get 1, .get 0]

/-- With two workers asleep, one put wakes one of them. -/
theorem no_lost_wakeup_one_put :
    ∃ pool, Reach Created (guarded Covered (fires step)) pool
      ∧ pool.workers = [.signalled, .blocked] ∧ pool.queue.num = 1 ∧ NoLostWakeup pool := by
  have hinit : Reach Created (fires (checked putCovered step)) (threadpoolCreate 4 2) :=
    Reach.start ⟨4, 2, rfl, by decide⟩
  obtain ⟨pool, hr, ht⟩ := Reach.exists_of_runList (twoIdle ++ [.submit 72 true, .put (some 0)])
    (fun (pool : Pool) => decide (pool.workers = [.signalled, .blocked])
      && decide (pool.queue.num = 1)) hinit (by decide)
  rw [Bool.and_eq_true, decide_eq_true_eq, decide_eq_true_eq] at ht
  have hg : Reach Created (guarded Covered (fires step)) pool :=
    Reach.guarded_of_checked (fun _ _ hc => hc) pool hr
  exact ⟨pool, hg, ht.1, ht.2, (no_lost_wakeup hg).1⟩

/-- With two workers asleep, two puts in a row wake only one. -/
theorem no_lost_wakeup_two_puts : ¬ ∀ pool, Reachable pool → NoLostWakeup pool := by
  intro h
  have hinit : Reach Created (fires step) (threadpoolCreate 4 2) :=
    Reach.start ⟨4, 2, rfl, by decide⟩
  obtain ⟨pool, hr, ht⟩ := Reach.exists_of_runList
    (twoIdle ++ [.submit 72 true, .put (some 0), .submit 73 true, .put none])
    (fun (pool : Pool) => decide (.blocked ∈ pool.workers)
      && decide (pool.workers.countP onTheWay < pool.queue.num)) hinit (by decide)
  rw [Bool.and_eq_true, decide_eq_true_eq, decide_eq_true_eq] at ht
  have := h pool hr ht.1
  omega

end ThreadpoolWake
