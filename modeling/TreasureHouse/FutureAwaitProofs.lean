import TreasureHouse.SchedProofs

/-! # A future — `future_set_result` on one thread, `future_await` on another

    The future is made by `processors_create_co_future`: its callback resumes
    the coroutine that made it.  An executor thread sets its result, statement
    by statement, callback included; the coroutine awaits it, and `main_loop`
    switches back to it when it is on `co_ready_queue`.

    An access to the future after `future_destory`, a `list_del` of the
    coroutine on no queue and an append of the coroutine when it is on a queue
    are recorded in `faults`, and the step goes on as if the list were sound.
    `future_get_result` is declared but not defined: it is a parameter. -/

namespace FutureAwait

open LabelledRun CoSched

/-- `future_status_e`. -/
inductive FutureStatus where
  | pending
  | cancelled
  | finished
  deriving DecidableEq

/-- `_future_t`; `doneCallback` says that `sched_co_resume` is to be called,
    and `result` is `none` as long as nobody set it. -/
structure Future (α : Type) where
  status : FutureStatus
  result : Option α
  doneCallback : Bool

inductive Fault where
  | destroyed
  | notLinked
  | linkedTwice
  deriving DecidableEq

/-- The executor, before each statement of `future_set_result` and, in the
    callback, of `sched_co_resume`. -/
inductive ExecPc where
  | setResult
  | setStatus
  | checkCallback
  | callCallback
  | listDel
  | setRunnable
  | append
  | done
  deriving DecidableEq

/-- The coroutine, before each statement of `future_await` and of the
    `sched_suspend_coroutine` in it; `suspended` is off the processor. -/
inductive CoPc where
  | test
  | append
  | switch
  | suspended
  | getResult
  | destory
  | passed
  deriving DecidableEq

/-- The future, the queues the coroutine is on, and the two threads; `passes`
    are the results `future_await` returned. -/
structure State (α : Type) where
  future : Future α
  destroyed : Bool
  onCoQueue : Bool
  onReadyQueue : Bool
  coStatus : CoStatus
  exec : ExecPc
  co : CoPc
  got : Option α
  passes : List (Option α)
  faults : List Fault

variable {α : Type}

/-- After `processors_create_co_future`. -/
def createCoFuture : State α where
  future := ⟨.pending, none, true⟩
  destroyed := false
  onCoQueue := false
  onReadyQueue := false
  coStatus := .runnable
  exec := .setResult
  co := .test
  got := none
  passes := []
  faults := []

/-- An access to the future. -/
def touch (s : State α) : State α :=
  if s.destroyed then { s with faults := s.faults ++ [.destroyed] } else s

/-- `list_del(&co->list)`. -/
def listDel (s : State α) : State α :=
  if s.onCoQueue || s.onReadyQueue then { s with onCoQueue := false, onReadyQueue := false }
  else { s with faults := s.faults ++ [.notLinked] }

/-- The check before `co_queue_append`. -/
def checkUnlinked (s : State α) : State α :=
  if s.onCoQueue || s.onReadyQueue then { s with faults := s.faults ++ [.linkedTwice] } else s

/-- `future_set_result(f, r)`. -/
def futureSetResult (r : α) (s : State α) : Option (State α) :=
  match s.exec with
  | .setResult => some { touch s with
      future := { s.future with result := some r }
      exec := .setStatus }
  | .setStatus => some { touch s with
      future := { s.future with status := .finished }
      exec := .checkCallback }
  | .checkCallback => some { touch s with
      exec := if s.future.doneCallback then .callCallback else .done }
  | .callCallback => some { touch s with exec := .listDel }
  | .listDel => some { listDel s with exec := .setRunnable }
  | .setRunnable => some { s with coStatus := .runnable, exec := .append }
  | .append => some { checkUnlinked s with onReadyQueue := true, exec := .done }
  | .done => none

/-- `future_await(f)`; `get` is `future_get_result`. -/
def futureAwait (get : Future α → Option α) (s : State α) : Option (State α) :=
  match s.co with
  | .test => some { touch s with
      co := if s.future.status ≠ .finished then .append else .getResult }
  | .append => some { checkUnlinked s with onCoQueue := true, co := .switch }
  | .switch => some { s with coStatus := .waiting, co := .suspended }
  | .suspended =>
      if s.onReadyQueue then
        some { s with onReadyQueue := false, coStatus := .runnable, co := .getResult }
      else none
  | .getResult => some { touch s with got := get s.future, co := .destory }
  | .destory => some { touch s with
      destroyed := true
      co := .passed
      passes := s.passes ++ [s.got] }
  | .passed => none

inductive Act where
  | exec
  | co
  deriving DecidableEq

def step (get : Future α → Option α) (r : α) (s : State α) : Act → Option (State α)
  | .exec => futureSetResult r s
  | .co => futureAwait get s

/-- No fault so far, and `future_await` has returned at most once, with the
    result that was set. -/
structure AwaitSafe (r : α) (s : State α) : Prop where
  no_fault : s.faults = []
  passes : s.passes = [] ∨ s.passes = [some r]

/-- The coroutine tests the status before FINISHED is stored, and the callback
    deletes it from its queue after it was appended to `co_queue`. -/
def InTime (s : State α) : Act → Prop
  | .exec => s.exec = .listDel → s.onCoQueue = true
  | .co => s.co = .test → s.future.status ≠ .finished

instance (s : State α) (act : Act) : Decidable (InTime s act) := by
  cases act with
  | exec => exact inferInstanceAs (Decidable (_ → _))
  | co => exact inferInstanceAs (Decidable (_ → _))

-- ── The invariant ────────────────────────────────────────────────────────────

/-- The status is stored. -/
def ExecPc.finished : ExecPc → Bool
  | .setResult => false
  | .setStatus => false
  | _ => true

/-- The `list_del` of the callback is made. -/
def ExecPc.deleted : ExecPc → Bool
  | .setRunnable => true
  | .append => true
  | .done => true
  | _ => false

/-- The coroutine has appended itself and was not switched to since. -/
def CoPc.asleep : CoPc → Bool
  | .switch => true
  | .suspended => true
  | _ => false

/-- The coroutine is back. -/
def CoPc.back : CoPc → Bool
  | .getResult => true
  | .destory => true
  | .passed => true
  | _ => false

/-- Where the coroutine is linked, and what is known about the future. -/
structure AwaitInv (r : α) (s : State α) : Prop where
  no_fault : s.faults = []
  callback : s.future.doneCallback = true
  status : s.future.status = if s.exec.finished then .finished else .pending
  result : s.exec ≠ .setResult → s.future.result = some r
  on_co : s.onCoQueue = (s.co.asleep && !s.exec.deleted)
  on_ready : s.onReadyQueue = (s.co.asleep && decide (s.exec = .done))
  deleted : s.exec.deleted = true → s.co.asleep = true ∨ s.co.back = true
  back : s.co.back = true → s.exec = .done
  destroyed : s.destroyed = decide (s.co = .passed)
  got : s.co = .destory → s.got = some r
  passes : s.passes = if s.co = .passed then [some r] else []

theorem awaitInv_create (r : α) : AwaitInv r (createCoFuture : State α) where
  no_fault := rfl
  callback := rfl
  status := rfl
  result := fun h => absurd rfl h
  on_co := rfl
  on_ready := rfl
  deleted := fun h => nomatch h
  back := fun h => nomatch h
  destroyed := rfl
  got := fun h => nomatch h
  passes := rfl

section Steps

variable {get : Future α → Option α} {r : α} {s s' : State α}

theorem touch_alive (h : s.destroyed = false) : touch s = s := by
  rw [touch, h]
  rfl

theorem checkUnlinked_off (h : s.onCoQueue = false) (h' : s.onReadyQueue = false) :
    checkUnlinked s = s := by
  rw [checkUnlinked, h, h']
  rfl

/-- The future is there until the coroutine passes. -/
theorem AwaitInv.alive (h : AwaitInv r s) (hco : s.co ≠ .passed) : s.destroyed = false := by
  rw [h.destroyed]
  exact decide_eq_false hco

/-- While the executor is busy the coroutine is not back, so the future is
    there. -/
theorem AwaitInv.busy (h : AwaitInv r s) (he : s.exec ≠ .done) :
    s.co.back = false ∧ s.destroyed = false := by
  have hback : s.co.back = false := Bool.not_eq_true _ ▸ fun hb => he (h.back hb)
  refine ⟨hback, h.alive ?_⟩
  intro hp
  rw [hp] at hback
  cases hback

/-- A statement of the executor that links nothing. -/
theorem AwaitInv.exec_on (h : AwaitInv r s) (hne : s.exec ≠ .done) {f : Future α} {st : CoStatus}
    {e : ExecPc} (hcb : f.doneCallback = true)
    (hst : f.status = if e.finished then .finished else .pending)
    (hres : e ≠ .setResult → f.result = some r) (hdel : e.deleted = s.exec.deleted)
    (hdone : e ≠ .done) : AwaitInv r { s with future := f, coStatus := st, exec := e } where
  no_fault := h.no_fault
  callback := hcb
  status := hst
  result := hres
  on_co := by
    show s.onCoQueue = (s.co.asleep && !e.deleted)
    rw [hdel]
    exact h.on_co
  on_ready := by
    show s.onReadyQueue = (s.co.asleep && decide (e = .done))
    rw [h.on_ready, decide_eq_false hne, decide_eq_false hdone]
  deleted := by
    show e.deleted = true → _
    rw [hdel]
    exact h.deleted
  back := fun hb => absurd ((h.busy hne).1.symm.trans hb) Bool.false_ne_true
  destroyed := h.destroyed
  got := h.got
  passes := h.passes

/-- **EXECUTOR** -/
theorem awaitInv_exec (h : AwaitInv r s) (hg : InTime s .exec)
    (hs : futureSetResult r s = some s') : AwaitInv r s' := by
  have hne : s.exec ≠ .done := by
    intro he
    simp only [futureSetResult, he] at hs
    cases hs
  obtain ⟨hback, hlive⟩ := h.busy hne
  have hres := h.result
  have hst := h.status
  cases he : s.exec with
  | setResult =>
      simp only [futureSetResult, he, touch_alive hlive, Option.some.injEq] at hs
      subst hs
      rw [he] at hst hres
      exact h.exec_on hne h.callback hst (fun _ => rfl) (by rw [he]; rfl) fun hd => nomatch hd
  | setStatus =>
      rw [he] at hres
      simp only [futureSetResult, he, touch_alive hlive, Option.some.injEq] at hs
      subst hs
      exact h.exec_on hne h.callback rfl (fun _ => hres (by decide)) (by rw [he]; rfl)
        fun hd => nomatch hd
  | checkCallback =>
      rw [he] at hst hres
      simp only [futureSetResult, he, touch_alive hlive, if_pos h.callback,
        Option.some.injEq] at hs
      subst hs
      exact h.exec_on hne h.callback hst (fun _ => hres (by decide)) (by rw [he]; rfl)
        fun hd => nomatch hd
  | callCallback =>
      rw [he] at hst hres
      simp only [futureSetResult, he, touch_alive hlive, Option.some.injEq] at hs
      subst hs
      exact h.exec_on hne h.callback hst (fun _ => hres (by decide)) (by rw [he]; rfl)
        fun hd => nomatch hd
  | listDel =>
      -- the guard: the coroutine is on `co_queue`
      rw [he] at hst hres
      have hlinked := hg he
      have hasleep : s.co.asleep = true := by
        have hco := h.on_co
        rw [hlinked] at hco
        exact (Bool.and_eq_true_iff.mp hco.symm).1
      have hdel : listDel s = { s with onCoQueue := false, onReadyQueue := false } := by
        rw [listDel, hlinked, Bool.true_or, if_pos rfl]
      simp only [futureSetResult, he, hdel, Option.some.injEq] at hs
      subst hs
      exact {
        no_fault := h.no_fault
        callback := h.callback
        status := hst
        result := fun _ => hres (by decide)
        on_co := (Bool.and_false _).symm
        on_ready := (Bool.and_false _).symm
        deleted := fun _ => Or.inl hasleep
        back := fun hb => absurd (hback.symm.trans hb) Bool.false_ne_true
        destroyed := h.destroyed
        got := h.got
        passes := h.passes }
  | setRunnable =>
      rw [he] at hst hres
      simp only [futureSetResult, he, Option.some.injEq] at hs
      subst hs
      exact h.exec_on hne h.callback hst (fun _ => hres (by decide)) (by rw [he]; rfl)
        fun hd => nomatch hd
  | append =>
      have hco := h.on_co
      have hready := h.on_ready
      rw [he] at hst hres hco hready
      have hoff : s.onCoQueue = false := hco.trans (Bool.and_false _)
      have hasleep : s.co.asleep = true := by
        refine (h.deleted (by rw [he]; rfl)).resolve_right fun hb => ?_
        exact absurd (hback.symm.trans hb) Bool.false_ne_true
      simp only [futureSetResult, he, checkUnlinked_off hoff (hready.trans (Bool.and_false _)),
        Option.some.injEq] at hs
      subst hs
      exact {
        no_fault := h.no_fault
        callback := h.callback
        status := hst
        result := fun _ => hres (by decide)
        on_co := hco
        on_ready := by
          show true = (s.co.asleep && true)
          rw [hasleep]
          rfl
        deleted := fun _ => Or.inl hasleep
        back := fun _ => rfl
        destroyed := h.destroyed
        got := h.got
        passes := h.passes }
  | done => exact absurd he hne

/-- A statement of the coroutine that links nothing. -/
theorem AwaitInv.co_on (h : AwaitInv r s) (hne : s.co ≠ .passed) {st : CoStatus} {c : CoPc}
    {g : Option α} (hasleep : c.asleep = s.co.asleep) (hback : c.back = s.co.back)
    (hgot : c = .destory → g = some r) (hnext : c ≠ .passed) :
    AwaitInv r { s with coStatus := st, co := c, got := g } where
  no_fault := h.no_fault
  callback := h.callback
  status := h.status
  result := h.result
  on_co := by
    show s.onCoQueue = (c.asleep && !s.exec.deleted)
    rw [hasleep]
    exact h.on_co
  on_ready := by
    show s.onReadyQueue = (c.asleep && decide (s.exec = .done))
    rw [hasleep]
    exact h.on_ready
  deleted := by
    show _ → c.asleep = true ∨ c.back = true
    rw [hasleep, hback]
    exact h.deleted
  back := by
    show c.back = true → _
    rw [hback]
    exact h.back
  destroyed := by
    show s.destroyed = decide (c = .passed)
    rw [h.destroyed, decide_eq_false hne, decide_eq_false hnext]
  got := hgot
  passes := by
    show s.passes = if c = .passed then [some r] else []
    rw [h.passes, if_neg hne, if_neg hnext]

/-- **COROUTINE** -/
theorem awaitInv_co (hget : ∀ f, get f = f.result) (h : AwaitInv r s) (hg : InTime s .co)
    (hs : futureAwait get s = some s') : AwaitInv r s' := by
  have hne : s.co ≠ .passed := by
    intro hc
    simp only [futureAwait, hc] at hs
    cases hs
  have hon := h.on_co
  have hready := h.on_ready
  have hdel := h.deleted
  have hback := h.back
  have hpass := h.passes
  have hlive := h.destroyed
  cases hc : s.co with
  | test =>
      -- the guard: FINISHED is not stored
      have hlate := hg hc
      simp only [futureAwait, hc, touch_alive (h.alive hne), if_pos hlate, Option.some.injEq] at hs
      subst hs
      exact h.co_on hne (by rw [hc]; rfl) (by rw [hc]; rfl) (fun hp => nomatch hp)
        fun hp => nomatch hp
  | append =>
      rw [hc] at hon hready hdel hback hpass hlive
      have hnot : s.exec.deleted = false := by
        refine Bool.not_eq_true _ ▸ fun hd => ?_
        rcases hdel hd with hd | hd
        · cases hd
        · cases hd
      have hbusy : s.exec ≠ .done := by
        intro he
        rw [he] at hnot
        cases hnot
      simp only [futureAwait, hc, checkUnlinked_off (hon.trans (Bool.false_and _))
        (hready.trans (Bool.false_and _)), Option.some.injEq] at hs
      subst hs
      exact {
        no_fault := h.no_fault
        callback := h.callback
        status := h.status
        result := h.result
        on_co := by
          show true = (true && !s.exec.deleted)
          rw [hnot]
          rfl
        on_ready := by
          show s.onReadyQueue = (true && decide (s.exec = .done))
          rw [hready, decide_eq_false hbusy]
          rfl
        deleted := fun _ => Or.inl rfl
        back := fun hb => nomatch hb
        destroyed := hlive
        got := fun hp => nomatch hp
        passes := hpass }
  | switch =>
      simp only [futureAwait, hc, Option.some.injEq] at hs
      subst hs
      exact h.co_on hne (by rw [hc]; rfl) (by rw [hc]; rfl) (fun hp => nomatch hp)
        fun hp => nomatch hp
  | suspended =>
      rw [hc] at hon hready hdel hback hpass hlive
      simp only [futureAwait, hc, Option.ite_none_right_eq_some] at hs
      obtain ⟨hr, hs⟩ := hs
      cases hs
      have hdone : s.exec = .done := by
        rw [hr] at hready
        exact of_decide_eq_true (Bool.and_eq_true_iff.mp hready.symm).2
      exact {
        no_fault := h.no_fault
        callback := h.callback
        status := h.status
        result := h.result
        on_co := by
          show s.onCoQueue = (false && !s.exec.deleted)
          rw [hon, hdone]
          rfl
        on_ready := (Bool.false_and _).symm
        deleted := fun _ => Or.inr rfl
        back := fun _ => hdone
        destroyed := hlive
        got := fun hp => nomatch hp
        passes := hpass }
  | getResult =>
      have hdone := hback (by rw [hc]; rfl)
      have hres := h.result (by rw [hdone]; exact fun hd => nomatch hd)
      simp only [futureAwait, hc, touch_alive (h.alive hne), Option.some.injEq] at hs
      subst hs
      exact h.co_on hne (by rw [hc]; rfl) (by rw [hc]; rfl)
        (fun _ => (hget s.future).trans hres) fun hp => nomatch hp
  | destory =>
      have hgot := h.got hc
      rw [hc] at hon hready hdel hback hpass hlive
      have hdone := hback rfl
      simp only [futureAwait, hc, touch_alive hlive, Option.some.injEq] at hs
      subst hs
      exact {
        no_fault := h.no_fault
        callback := h.callback
        status := h.status
        result := h.result
        on_co := hon
        on_ready := hready
        deleted := fun _ => Or.inr rfl
        back := fun _ => hdone
        destroyed := rfl
        got := fun hp => nomatch hp
        passes := by
          show s.passes ++ [s.got] = [some r]
          rw [hpass, hgot]
          rfl }
  | passed => exact absurd hc hne

end Steps

theorem AwaitInv.safe {r : α} {s : State α} (h : AwaitInv r s) : AwaitSafe r s := by
  refine ⟨h.no_fault, ?_⟩
  rw [h.passes]
  by_cases hp : s.co = .passed
  · exact Or.inr (if_pos hp)
  · exact Or.inl (if_neg hp)

/-- When neither thread can go on, the coroutine has passed. -/
theorem AwaitInv.passed_of_stuck {get : Future α → Option α} {r : α} {s : State α}
    (h : AwaitInv r s) (hstuck : ∀ act, step get r s act = none) : s.passes = [some r] := by
  have hexec : s.exec = .done := by
    have hs := hstuck .exec
    cases he : s.exec with
    | done => rfl
    | _ =>
        simp only [step, futureSetResult, he] at hs
        cases hs
  have hco : s.co = .passed := by
    have hs := hstuck .co
    cases hc : s.co with
    | passed => rfl
    | suspended =>
        have hready := h.on_ready
        rw [hc, hexec] at hready
        have hon : s.onReadyQueue = true := hready.trans (by decide)
        simp only [step, futureAwait, hc, if_pos hon] at hs
        cases hs
    | _ =>
        simp only [step, futureAwait, hc] at hs
        cases hs
  rw [h.passes, if_pos hco]

-- ── Too late ─────────────────────────────────────────────────────────────────

/-- The executor has stored FINISHED and not resumed the coroutine yet. -/
def ExecPc.resuming : ExecPc → Bool
  | .checkCallback => true
  | .callCallback => true
  | .listDel => true
  | _ => false

/-- There was a fault, or there will be one: the coroutine went past its
    suspension and is on no queue when the callback comes to resume it. -/
def Doomed (s : State α) : Prop :=
  s.faults ≠ [] ∨ s.exec.resuming = true ∧ s.co.back = true ∧ s.onCoQueue = false
    ∧ s.onReadyQueue = false ∧ s.future.doneCallback = true

section Late

variable {get : Future α → Option α} {r : α} {s s' : State α} {act : Act}

theorem touch_cases (s : State α) :
    touch s = s ∨ touch s = { s with faults := s.faults ++ [.destroyed] } := by
  by_cases h : s.destroyed = true
  · exact Or.inr (if_pos h)
  · exact Or.inl (if_neg h)

/-- Faults stay recorded. -/
theorem faults_step (h : s.faults ≠ []) (hs : step get r s act = some s') : s'.faults ≠ [] := by
  have ht : (touch s).faults ≠ [] := by
    rcases touch_cases s with ht | ht
    · rwa [ht]
    · rw [ht]
      exact List.concat_ne_nil _ _
  have hd : (listDel s).faults ≠ [] := by
    rw [listDel]
    split
    · exact h
    · exact List.concat_ne_nil _ _
  have hc : (checkUnlinked s).faults ≠ [] := by
    rw [checkUnlinked]
    split
    · exact List.concat_ne_nil _ _
    · exact h
  cases act with
  | exec =>
      cases he : s.exec with
      | setResult | setStatus | checkCallback | callCallback =>
          simp only [step, futureSetResult, he, Option.some.injEq] at hs
          subst hs
          exact ht
      | listDel =>
          simp only [step, futureSetResult, he, Option.some.injEq] at hs
          subst hs
          exact hd
      | setRunnable =>
          simp only [step, futureSetResult, he, Option.some.injEq] at hs
          subst hs
          exact h
      | append =>
          simp only [step, futureSetResult, he, Option.some.injEq] at hs
          subst hs
          exact hc
      | done =>
          simp only [step, futureSetResult, he] at hs
          cases hs
  | co =>
      cases hco : s.co with
      | test | getResult | destory =>
          simp only [step, futureAwait, hco, Option.some.injEq] at hs
          subst hs
          exact ht
      | append =>
          simp only [step, futureAwait, hco, Option.some.injEq] at hs
          subst hs
          exact hc
      | switch =>
          simp only [step, futureAwait, hco, Option.some.injEq] at hs
          subst hs
          exact h
      | suspended =>
          simp only [step, futureAwait, hco, Option.ite_none_right_eq_some] at hs
          obtain ⟨-, hs⟩ := hs
          cases hs
          exact h
      | passed =>
          simp only [step, futureAwait, hco] at hs
          cases hs

/-- A doomed run stays doomed. -/
theorem doomed_step (h : Doomed s) (hs : step get r s act = some s') : Doomed s' := by
  rcases h with h | ⟨he, hb, hon, hready, hcb⟩
  · exact Or.inl (faults_step h hs)
  · by_cases hf : s.faults = []
    · cases act with
      | exec =>
          cases hpc : s.exec with
          | checkCallback =>
              simp only [step, futureSetResult, hpc, if_pos hcb, Option.some.injEq] at hs
              subst hs
              rcases touch_cases s with ht | ht
              · rw [ht]
                exact Or.inr ⟨rfl, hb, hon, hready, hcb⟩
              · rw [ht]
                exact Or.inl (List.concat_ne_nil _ _)
          | callCallback =>
              simp only [step, futureSetResult, hpc, Option.some.injEq] at hs
              subst hs
              rcases touch_cases s with ht | ht
              · rw [ht]
                exact Or.inr ⟨rfl, hb, hon, hready, hcb⟩
              · rw [ht]
                exact Or.inl (List.concat_ne_nil _ _)
          | listDel =>
              simp only [step, futureSetResult, hpc, listDel, hon, hready, Option.some.injEq] at hs
              subst hs
              exact Or.inl (List.concat_ne_nil _ _)
          | setResult | setStatus | setRunnable | append | done =>
              rw [hpc] at he
              cases he
      | co =>
          cases hco : s.co with
          | getResult | destory =>
              simp only [step, futureAwait, hco, Option.some.injEq] at hs
              subst hs
              rcases touch_cases s with ht | ht
              · rw [ht]
                exact Or.inr ⟨he, rfl, hon, hready, hcb⟩
              · rw [ht]
                exact Or.inl (List.concat_ne_nil _ _)
          | passed =>
              simp only [step, futureAwait, hco] at hs
              cases hs
          | test | append | switch | suspended =>
              rw [hco] at hb
              cases hb
    · exact Or.inl (faults_step hf hs)

/-- **TOO LATE**: a step outside the condition dooms the run. -/
theorem doomed_of_late (h : AwaitInv r s) (hs : step get r s act = some s')
    (hlate : ¬ InTime s act) : Doomed s' := by
  cases act with
  | exec =>
      simp only [InTime, Classical.not_imp] at hlate
      obtain ⟨he, hoff⟩ := hlate
      have hready := h.on_ready
      rw [he] at hready
      simp only [step, futureSetResult, he, listDel, Bool.eq_false_of_not_eq_true hoff,
        hready.trans (Bool.and_false _), Option.some.injEq] at hs
      subst hs
      exact Or.inl (List.concat_ne_nil _ _)
  | co =>
      simp only [InTime, Classical.not_imp, not_not] at hlate
      obtain ⟨hc, hst⟩ := hlate
      have hon := h.on_co
      have hready := h.on_ready
      have hdel := h.deleted
      rw [hc] at hon hready hdel
      have hres : s.exec.resuming = true := by
        rw [h.status] at hst
        cases he : s.exec with
        | checkCallback | callCallback | listDel => rfl
        | setResult | setStatus =>
            rw [he] at hst
            cases hst
        | setRunnable | append | done =>
            rw [he] at hdel
            rcases hdel rfl with hd | hd
            · cases hd
            · cases hd
      have hlive : s.destroyed = false := h.alive (by rw [hc]; exact fun hp => nomatch hp)
      simp only [step, futureAwait, hc, touch_alive hlive, if_neg (not_not.mpr hst),
        Option.some.injEq] at hs
      subst hs
      exact Or.inr ⟨hres, rfl, hon.trans (Bool.false_and _), hready.trans (Bool.false_and _),
        h.callback⟩

end Late

/-- **AWAITING A FUTURE**: in every run in which the status is tested and the
    coroutine resumed in time there is no fault, `future_await` returns the
    result that was set, and it has returned once when nothing is left to do.
    Every other run has a fault by the time `future_set_result` has returned. -/
theorem await_safe (get : Future α → Option α) (hget : ∀ f, get f = f.result) (r : α) :
    ∀ s, Reach (fun s => s = createCoFuture) (guarded InTime (fires (step get r))) s →
      AwaitSafe r s ∧ ((∀ act, step get r s act = none) → s.passes = [some r])
      ∧ ∀ act s', step get r s act = some s' → ¬ InTime s act →
          ∀ t, Reach (fun t => t = s') (fires (step get r)) t → t.exec = .done →
            ¬ AwaitSafe r t := by
  intro s hr
  have h : AwaitInv r s := by
    refine Reach.guarded_invariant (I := AwaitInv r) ?_ ?_ s hr
    · rintro s rfl
      exact awaitInv_create r
    · intro s act s' _ hI hg hs
      cases act with
      | exec => exact awaitInv_exec hI hg hs
      | co => exact awaitInv_co hget hI hg hs
  refine ⟨h.safe, h.passed_of_stuck, ?_⟩
  intro act s' hs hlate t ht hdone hsafe
  have hdoomed : Doomed t := by
    refine Reach.invariant (I := Doomed) ?_ ?_ t ht
    · rintro t rfl
      exact doomed_of_late h hs hlate
    · exact fun t act t' _ hI hs => doomed_step hI hs
  rcases hdoomed with hf | ⟨he, -⟩
  · exact hf hsafe.no_fault
  · rw [hdone] at he
    cases he

/-- The coroutine suspends before the result comes. -/
theorem await_safe_suspended : ∃ s : State Nat, AwaitSafe 7 s ∧ s.passes = [some 7] := by
  have hinit : Reach (fun s => s = createCoFuture)
      (fires (checked (fun s act => decide (InTime s act)) (step Future.result 7)))
      createCoFuture := Reach.start rfl
  obtain ⟨s, hs, htest⟩ := Reach.exists_of_runList
    [.co, .co, .exec, .exec, .exec, .co, .exec, .exec, .exec, .exec, .co, .co, .co]
    (fun (s : State Nat) => decide (s.passes = [some 7])) hinit (by decide +kernel)
  have hr := Reach.guarded_of_checked (fun s act h => of_decide_eq_true h) s hs
  exact ⟨s, (await_safe Future.result (fun _ => rfl) 7 s hr).1, of_decide_eq_true htest⟩

/-- The result comes before the await: the future is destroyed before
    `future_set_result` reads its callback. -/
theorem await_faults : ¬ ∀ s : State Nat,
    Reach (fun s => s = createCoFuture) (fires (step Future.result 7)) s → AwaitSafe 7 s := by
  intro hall
  have hinit : Reach (fun s => s = createCoFuture) (fires (step Future.result 7))
      createCoFuture := Reach.start rfl
  obtain ⟨s, hs, htest⟩ := Reach.exists_of_runList
    [.exec, .exec, .co, .co, .co, .exec]
    (fun (s : State Nat) => decide (s.faults = [.destroyed])) hinit (by decide +kernel)
  have hf := (hall s hs).no_fault
  rw [of_decide_eq_true htest] at hf
  cases hf

end FutureAwait
