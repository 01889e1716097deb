import Mathlib.Algebra.BigOperators.Group.Finset.Piecewise
import Mathlib.Algebra.BigOperators.Ring.Finset
import TreasureHouse.CondVarProofs
import TreasureHouse.LabelledRunProofs

/-! # Processors — submitting coroutines and waiting for all of them

    Every coroutine is a position in a list; its entry says who submits it
    (the main thread, or the coroutine at a position) and how far it is, from
    the call of `processors_submit` to the end of `processors_coroutine_done`.
    `p_turn` is read and written without a lock, in steps of its own.  A
    section under a lock is one step.

    Reading `all_p` outside its bounds and an overflow of an `int` counter have
    no result.  `wait_group_wait` may wake without a signal. -/

namespace Processors

open LabelledRun CondVar

/-- How far a coroutine is: in `processors_submit` before the first read of
    `p_turn`, the second read, the write, `_add_wg` and `sched_sched`; on the
    queues of a scheduler; running; and at the end of `co_wrapper`, before
    `co_nums` is lowered, before `processors_coroutine_done` and after it. -/
inductive Stage where
  | turn
  | advance (p : Nat)
  | store (p next : Nat)
  | addWg (p : Nat)
  | sched (p : Nat)
  | queued (p : Nat)
  | running (p : Nat)
  | ended (p : Nat)
  | counted (p : Nat)
  | done
  deriving DecidableEq

/-- A coroutine; `caller` is the coroutine that submits it, `none` for the main
    thread. -/
structure Co where
  caller : Option Nat
  stage : Stage
  deriving DecidableEq

/-- The main thread: before `coroutine_loop`, at the test in `wait_group_wait`,
    asleep there, woken, or back from it. -/
inductive MainPc where
  | submitting
  | test
  | waiting
  | woken
  | returned
  deriving DecidableEq

/-- `p_turn`, `val` of the wait group, `co_nums` of every scheduler, and the
    threads. -/
structure State where
  pTurn : Nat
  val : Int
  coNums : Nat → Int
  cos : List Co
  main : MainPc

/-- A coroutine is being submitted. -/
def Stage.submitting : Stage → Bool
  | .turn => true
  | .advance _ => true
  | .store _ _ => true
  | .addWg _ => true
  | .sched _ => true
  | _ => false

/-- Submitted, as far as the wait group goes, and not yet reported. -/
def Stage.unreported : Stage → Bool
  | .sched _ => true
  | .queued _ => true
  | .running _ => true
  | .ended _ => true
  | .counted _ => true
  | _ => false

/-- Counted in `co_nums` of scheduler `p`. -/
def Stage.onSched (p : Nat) : Stage → Bool
  | .queued q => q == p
  | .running q => q == p
  | .ended q => q == p
  | _ => false

/-- The thread of scheduler `p` executes it. -/
def Stage.onThread (p : Nat) : Stage → Bool
  | .running q => q == p
  | .ended q => q == p
  | .counted q => q == p
  | _ => false

/-- The caller is in `processors_submit`. -/
def calling (s : State) (caller : Option Nat) : Bool :=
  s.cos.any fun co => co.caller == caller && co.stage.submitting

/-- The thread of scheduler `p` is in a coroutine. -/
def busy (s : State) (p : Nat) : Bool := s.cos.any fun co => co.stage.onThread p

/-- The coroutine at `j` moves on. -/
def move (s : State) (j : Nat) (co : Co) (stage : Stage) : State :=
  { s with cos := s.cos.set j { co with stage := stage } }

/-- `pthread_cond_signal` in `wait_group_done`. -/
def condSignal (s : State) : State :=
  if s.main = .waiting then { s with main := .woken } else s

/-- `val++`, `co_nums++`: an `int` that is one larger. -/
def incr (n : Int) : Option Int := if n + 1 < 2 ^ 31 then some (n + 1) else none

/-- The next statement about the coroutine at `j`, by its caller while it is
    submitted and by its scheduler's thread after that. -/
def coStep (pNums : Nat) (s : State) (j : Nat) : Option State :=
  s.cos[j]?.bind fun co =>
    match co.stage with
    | .turn => if s.pTurn < pNums then some (move s j co (.advance s.pTurn)) else none
    | .advance p => some (move s j co (.store p ((s.pTurn + 1) % pNums)))
    | .store p next => some { move s j co (.addWg p) with pTurn := next }
    | .addWg p => (incr s.val).map fun val => { move s j co (.sched p) with val := val }
    | .sched p => (incr (s.coNums p)).map fun n =>
        { move s j co (.queued p) with coNums := Function.update s.coNums p n }
    | .queued p => if busy s p then none else some (move s j co (.running p))
    | .running p => if calling s (some j) then none else some (move s j co (.ended p))
    | .ended p => some { move s j co (.counted p) with
        coNums := Function.update s.coNums p (s.coNums p - 1) }
    | .counted _ =>
        let s' := { move s j co .done with val := s.val - 1 }
        some (if s.val - 1 = 0 then condSignal s' else s')
    | .done => none

/-- A running coroutine yields or sleeps. -/
def leave (s : State) (j : Nat) : Option State :=
  s.cos[j]?.bind fun co =>
    match co.stage with
    | .running p => if calling s (some j) then none else some (move s j co (.queued p))
    | _ => none

/-- Who may call `processors_submit`: the main thread before `coroutine_loop`,
    and a running coroutine; one call at a time. -/
def mayCall (s : State) : Option Nat → Bool
  | none => s.main == .submitting && !calling s none
  | some i =>
      match s.cos[i]? with
      | some ⟨_, .running _⟩ => !calling s (some i)
      | _ => false

/-- `coroutine_create`: the call of `processors_submit` begins. -/
def submit (s : State) (caller : Option Nat) : Option State :=
  if mayCall s caller then some { s with cos := s.cos ++ [⟨caller, .turn⟩] } else none

/-- `processors_join` up to the end of `wait_group_wait`. -/
def mainStep (s : State) : Option State :=
  match s.main with
  | .submitting => if calling s none then none else some { s with main := .test }
  | .test | .woken => some { s with main := if s.val = 0 then .returned else .waiting }
  | .waiting => none
  | .returned => none

inductive Act where
  | submit (caller : Option Nat)
  | co (j : Nat)
  | leave (j : Nat)
  | main
  | spurious
  deriving DecidableEq

def step (pNums : Nat) (s : State) : Act → Option State
  | .submit caller => submit s caller
  | .co j => coStep pNums s j
  | .leave j => leave s j
  | .main => mainStep s
  | .spurious => if s.main = .waiting then some { s with main := .woken } else none

/-- After `processors_create`. -/
def processorsCreate : State where
  pTurn := 0
  val := 0
  coNums := fun _ => 0
  cos := []
  main := .submitting

-- ── The invariant ────────────────────────────────────────────────────────────

/-- Both counters count, a call has a caller, and the main thread comes back
    when nothing is left. -/
structure CountInv (s : State) : Prop where
  val : s.val = s.cos.countP fun co => co.stage.unreported
  nums : ∀ p, s.coNums p = s.cos.countP fun co => co.stage.onSched p
  by_main : ∀ co ∈ s.cos, co.stage.submitting = true → co.caller = none → s.main = .submitting
  by_co : ∀ co ∈ s.cos, co.stage.submitting = true → ∀ i, co.caller = some i →
    ∃ c p, s.cos[i]? = some c ∧ c.stage = .running p
  returned : s.main = .returned → ∀ co ∈ s.cos, co.stage = .done

theorem countInv_create : CountInv processorsCreate where
  val := rfl
  nums := fun _ => rfl
  by_main := fun _ h => nomatch h
  by_co := fun _ h => nomatch h
  returned := fun h => nomatch h

section Steps

variable {s s' : State} {j : Nat} {co : Co} {stage : Stage}

theorem not_calling {caller : Option Nat} (h : calling s caller = false) :
    ∀ co ∈ s.cos, co.stage.submitting = true → co.caller ≠ caller := by
  intro co hco hsub heq
  rw [calling, List.any_eq_false] at h
  refine h co hco ?_
  rw [heq, hsub]
  simp

/-- **MOVE**: one coroutine moves on and the counters follow.  A coroutine that
    stops running has no call under way. -/
theorem CountInv.move (h : CountInv s) (hj : s.cos[j]? = some co)
    (hcos : s'.cos = s.cos.set j { co with stage := stage })
    (hval : s'.val + co.stage.unreported.toNat = s.val + stage.unreported.toNat)
    (hnums : ∀ p, s'.coNums p + (co.stage.onSched p).toNat
      = s.coNums p + (stage.onSched p).toNat)
    (hsub : stage.submitting = true → co.stage.submitting = true)
    (hrun : (∀ p, co.stage ≠ .running p) ∨ calling s (some j) = false)
    (hdone : co.stage ≠ .done)
    (hmain : (s.main = .submitting → s'.main = .submitting)
      ∧ (s'.main = .returned → s.main = .returned)) : CountInv s' := by
  have hlive : s.main ≠ .returned := fun hr => hdone (h.returned hr co (List.mem_of_getElem? hj))
  have hold : ∀ c ∈ s'.cos, c.stage.submitting = true →
      ∃ c₀ ∈ s.cos, c₀.stage.submitting = true ∧ c₀.caller = c.caller := by
    intro c hc hs
    rw [hcos] at hc
    rcases List.mem_or_eq_of_mem_set hc with hc | rfl
    · exact ⟨c, hc, hs, rfl⟩
    · exact ⟨co, List.mem_of_getElem? hj, hsub hs, rfl⟩
  exact {
    val := by
      have hc := countP_set (fun co : Co => co.stage.unreported)
        (b := { co with stage := stage }) hj
      have hv := h.val
      rw [hcos]
      simp only at hc
      omega
    nums := by
      intro p
      have hc := countP_set (fun co : Co => co.stage.onSched p)
        (b := { co with stage := stage }) hj
      have hv := h.nums p
      have hn := hnums p
      rw [hcos]
      simp only at hc
      omega
    by_main := by
      intro c hc hs hcaller
      obtain ⟨c₀, hc₀, hs₀, heq⟩ := hold c hc hs
      exact hmain.1 (h.by_main c₀ hc₀ hs₀ (heq.trans hcaller))
    by_co := by
      intro c hc hs i hcaller
      obtain ⟨c₀, hc₀, hs₀, heq⟩ := hold c hc hs
      obtain ⟨d, p, hd, hdp⟩ := h.by_co c₀ hc₀ hs₀ i (heq.trans hcaller)
      refine ⟨d, p, ?_, hdp⟩
      have hij : i ≠ j := by
        rintro rfl
        rcases hrun with hrun | hrun
        · rw [hj] at hd
          cases hd
          exact hrun p hdp
        · exact not_calling hrun c₀ hc₀ hs₀ (heq.trans hcaller)
      rw [hcos, List.getElem?_set_ne (Ne.symm hij)]
      exact hd
    returned := fun hr => absurd (hmain.2 hr) hlive }

/-- A move that changes no counter. -/
theorem CountInv.shift (h : CountInv s) (hj : s.cos[j]? = some co)
    (hcos : s'.cos = s.cos.set j { co with stage := stage })
    (hrest : s'.val = s.val ∧ s'.coNums = s.coNums ∧ s'.main = s.main)
    (hsame : stage.unreported = co.stage.unreported ∧ ∀ p, stage.onSched p = co.stage.onSched p)
    (hsub : stage.submitting = true → co.stage.submitting = true)
    (hrun : (∀ p, co.stage ≠ .running p) ∨ calling s (some j) = false)
    (hdone : co.stage ≠ .done) : CountInv s' := by
  refine h.move hj hcos ?_ ?_ hsub hrun hdone ?_
  · rw [hrest.1, hsame.1]
  · intro p
    rw [hrest.2.1, hsame.2 p]
  · rw [hrest.2.2]
    exact ⟨id, id⟩

theorem incr_some {n m : Int} (h : incr n = some m) : m = n + 1 := by
  rw [incr, Option.ite_none_right_eq_some] at h
  exact (Option.some.inj h.2).symm

/-- `co_nums` of one scheduler changes as the coroutine's place does. -/
theorem update_nums (nums : Nat → Int) {a b : Nat → Nat} {p : Nat} {n : Int}
    (hp : n + a p = nums p + b p) (hne : ∀ q, q ≠ p → a q = b q) (q : Nat) :
    Function.update nums p n q + a q = nums q + b q := by
  by_cases hq : q = p
  · subst hq
    rw [Function.update_self]
    exact hp
  · rw [Function.update_of_ne hq, hne q hq]

theorem condSignal_main (s : State) :
    ((condSignal s).main = .submitting ↔ s.main = .submitting)
      ∧ ((condSignal s).main = .returned ↔ s.main = .returned) := by
  rw [condSignal]
  by_cases hw : s.main = .waiting
  · rw [if_pos hw, hw]
    simp
  · rw [if_neg hw]
    exact ⟨Iff.rfl, Iff.rfl⟩

theorem condSignal_rest (s : State) : (condSignal s).cos = s.cos ∧ (condSignal s).val = s.val
    ∧ (condSignal s).coNums = s.coNums := by
  rw [condSignal]
  by_cases hw : s.main = .waiting
  · rw [if_pos hw]
    exact ⟨rfl, rfl, rfl⟩
  · rw [if_neg hw]
    exact ⟨rfl, rfl, rfl⟩

/-- **ONE COROUTINE**: every stage. -/
theorem countInv_coStep {pNums : Nat} (h : CountInv s) (hs : coStep pNums s j = some s') :
    CountInv s' := by
  obtain ⟨co, hj, hs⟩ := Option.bind_eq_some_iff.mp hs
  have keep : (s.main = .submitting → s.main = .submitting)
      ∧ (s.main = .returned → s.main = .returned) := ⟨id, id⟩
  cases hst : co.stage with
  | turn =>
      simp only [hst, Option.ite_none_right_eq_some] at hs
      obtain ⟨-, hs⟩ := hs
      cases hs
      refine h.shift hj rfl ⟨rfl, rfl, rfl⟩ ?_ ?_ (Or.inl ?_) ?_
      all_goals rw [hst]
      · exact ⟨rfl, fun _ => rfl⟩
      · exact id
      · exact fun _ he => nomatch he
      · exact fun he => nomatch he
  | advance p =>
      simp only [hst, Option.some.injEq] at hs
      subst hs
      refine h.shift hj rfl ⟨rfl, rfl, rfl⟩ ?_ ?_ (Or.inl ?_) ?_
      all_goals rw [hst]
      · exact ⟨rfl, fun _ => rfl⟩
      · exact id
      · exact fun _ he => nomatch he
      · exact fun he => nomatch he
  | store p next =>
      simp only [hst, Option.some.injEq] at hs
      subst hs
      refine h.shift hj rfl ⟨rfl, rfl, rfl⟩ ?_ ?_ (Or.inl ?_) ?_
      all_goals rw [hst]
      · exact ⟨rfl, fun _ => rfl⟩
      · exact id
      · exact fun _ he => nomatch he
      · exact fun he => nomatch he
  | addWg p =>
      simp only [hst] at hs
      obtain ⟨val, hval, rfl⟩ := Option.map_eq_some_iff.mp hs
      have hv := incr_some hval
      refine h.move hj rfl ?_ ?_ ?_ ?_ ?_ keep
      all_goals simp [move, hst, Stage.unreported, Stage.onSched, Stage.submitting, hv]
  | sched p =>
      simp only [hst] at hs
      obtain ⟨n, hn, rfl⟩ := Option.map_eq_some_iff.mp hs
      have hv := incr_some hn
      refine h.move hj rfl ?_ ?_ ?_ ?_ ?_ keep
      · simp [move, hst, Stage.unreported]
      · refine update_nums s.coNums ?_ ?_
        · simp [hst, Stage.onSched, hv]
        · intro q hq
          have hpq : (p == q) = false := beq_eq_false_iff_ne.mpr (Ne.symm hq)
          simp [hst, Stage.onSched, hpq]
      all_goals simp [hst, Stage.submitting]
  | queued p =>
      simp only [hst, Option.ite_none_left_eq_some] at hs
      obtain ⟨-, hs⟩ := hs
      cases hs
      refine h.shift hj rfl ⟨rfl, rfl, rfl⟩ ?_ ?_ (Or.inl ?_) ?_
      all_goals rw [hst]
      · exact ⟨rfl, fun _ => rfl⟩
      · exact id
      · exact fun _ he => nomatch he
      · exact fun he => nomatch he
  | running p =>
      simp only [hst, Option.ite_none_left_eq_some] at hs
      obtain ⟨hcall, hs⟩ := hs
      cases hs
      refine h.shift hj rfl ⟨rfl, rfl, rfl⟩ ?_ ?_ (Or.inr (Bool.not_eq_true _ ▸ hcall)) ?_
      all_goals rw [hst]
      · exact ⟨rfl, fun _ => rfl⟩
      · exact id
      · exact fun he => nomatch he
  | ended p =>
      simp only [hst, Option.some.injEq] at hs
      subst hs
      refine h.move hj rfl ?_ ?_ ?_ ?_ ?_ keep
      · simp [move, hst, Stage.unreported]
      · refine update_nums s.coNums ?_ ?_
        · simp [hst, Stage.onSched]
        · intro q hq
          have hpq : (p == q) = false := beq_eq_false_iff_ne.mpr (Ne.symm hq)
          simp [hst, Stage.onSched, hpq]
      all_goals simp [hst, Stage.submitting]
  | counted p =>
      simp only [hst, Option.some.injEq] at hs
      subst hs
      have hend : ∀ t : State, t.cos = s.cos.set j { co with stage := .done } →
          t.val = s.val - 1 → t.coNums = s.coNums →
          ((s.main = .submitting → t.main = .submitting)
            ∧ (t.main = .returned → s.main = .returned)) → CountInv t := by
        intro t hcos hval hnums hmain
        refine h.move hj hcos ?_ ?_ ?_ ?_ ?_ hmain
        all_goals simp [hst, Stage.unreported, Stage.onSched, Stage.submitting, hval, hnums]
      by_cases h0 : s.val - 1 = 0
      · rw [if_pos h0]
        obtain ⟨hcos, hval, hnums⟩ := condSignal_rest { move s j co .done with val := s.val - 1 }
        obtain ⟨hsub, hret⟩ := condSignal_main { move s j co .done with val := s.val - 1 }
        exact hend _ hcos hval hnums ⟨hsub.mpr, hret.mp⟩
      · rw [if_neg h0]
        exact hend _ rfl rfl rfl keep
  | done =>
      simp only [hst] at hs
      cases hs

/-- **LEAVE** -/
theorem countInv_leave (h : CountInv s) (hs : leave s j = some s') : CountInv s' := by
  obtain ⟨co, hj, hs⟩ := Option.bind_eq_some_iff.mp hs
  split at hs
  · rename_i p hst
    rw [Option.ite_none_left_eq_some] at hs
    obtain ⟨hcall, hs⟩ := hs
    cases hs
    refine h.shift hj rfl ⟨rfl, rfl, rfl⟩ ?_ ?_ (Or.inr (Bool.not_eq_true _ ▸ hcall)) ?_
    all_goals rw [hst]
    · exact ⟨rfl, fun _ => rfl⟩
    · exact id
    · exact fun he => nomatch he
  · cases hs

/-- Who may call is the main thread before the wait, or runs. -/
theorem mayCall_cases {caller : Option Nat} (h : mayCall s caller = true) :
    (caller = none ∧ s.main = .submitting)
    ∨ ∃ i c p, caller = some i ∧ s.cos[i]? = some c ∧ c.stage = .running p := by
  cases caller with
  | none =>
      rw [mayCall, Bool.and_eq_true, beq_iff_eq] at h
      exact Or.inl ⟨rfl, h.1⟩
  | some i =>
      simp only [mayCall] at h
      split at h
      · rename_i caller' p hi
        exact Or.inr ⟨i, _, p, rfl, hi, rfl⟩
      · cases h

/-- **SUBMIT** -/
theorem countInv_submit {caller : Option Nat} (h : CountInv s) (hs : submit s caller = some s') :
    CountInv s' := by
  rw [submit, Option.ite_none_right_eq_some] at hs
  obtain ⟨hmay, hs⟩ := hs
  cases hs
  have hcases := mayCall_cases hmay
  have hmem : ∀ co ∈ s.cos ++ [(⟨caller, .turn⟩ : Co)], co ∈ s.cos ∨ co = ⟨caller, .turn⟩ := by
    intro co hco
    rcases List.mem_append.mp hco with hco | hco
    · exact Or.inl hco
    · exact Or.inr (List.mem_singleton.mp hco)
  have hkeep : ∀ (i : Nat) (c : Co), s.cos[i]? = some c →
      (s.cos ++ [(⟨caller, .turn⟩ : Co)])[i]? = some c := by
    intro i c hi
    rw [List.getElem?_append_left (List.getElem?_eq_some_iff.mp hi).1]
    exact hi
  exact {
    val := by
      rw [List.countP_append, h.val]
      rfl
    nums := by
      intro p
      rw [List.countP_append]
      exact h.nums p
    by_main := by
      intro co hco hs hcaller
      rcases hmem co hco with hco | rfl
      · exact h.by_main co hco hs hcaller
      · rcases hcases with ⟨-, hm⟩ | ⟨i, c, p, hi, -, -⟩
        · exact hm
        · rw [hi] at hcaller
          cases hcaller
    by_co := by
      intro co hco hs i hcaller
      rcases hmem co hco with hco | rfl
      · obtain ⟨c, p, hi, hp⟩ := h.by_co co hco hs i hcaller
        exact ⟨c, p, hkeep i c hi, hp⟩
      · rcases hcases with ⟨hnone, -⟩ | ⟨i', c, p, hi', hc, hp⟩
        · rw [hnone] at hcaller
          cases hcaller
        · rw [hi'] at hcaller
          cases hcaller
          exact ⟨c, p, hkeep i c hc, hp⟩
    returned := by
      intro hr
      rcases hcases with ⟨-, hm⟩ | ⟨i, c, p, -, hc, hp⟩
      · rw [hm] at hr
        cases hr
      · have hdone := h.returned hr c (List.mem_of_getElem? hc)
        rw [hp] at hdone
        cases hdone }

/-- With nobody unreported nobody is left: a call under way would have a caller
    that is unreported. -/
theorem CountInv.all_done (h : CountInv s) (h0 : s.val = 0) (hm : s.main ≠ .submitting) :
    ∀ co ∈ s.cos, co.stage = .done := by
  have hcount : s.cos.countP (fun co => co.stage.unreported) = 0 := by
    have hv := h.val
    omega
  have hnone : ∀ co ∈ s.cos, ¬ co.stage.unreported = true := List.countP_eq_zero.mp hcount
  intro co hco
  have hnot : ¬ co.stage.submitting = true := by
    intro hsub
    cases hcaller : co.caller with
    | none => exact hm (h.by_main co hco hsub hcaller)
    | some i =>
        obtain ⟨c, p, hi, hp⟩ := h.by_co co hco hsub i hcaller
        refine hnone c (List.mem_of_getElem? hi) ?_
        rw [hp]
        rfl
  have hun := hnone co hco
  cases hst : co.stage with
  | done => rfl
  | turn | advance p | store p next | addWg p =>
      rw [hst] at hnot
      exact absurd rfl hnot
  | sched p | queued p | running p | ended p | counted p =>
      rw [hst] at hun
      exact absurd rfl hun

/-- **MAIN** -/
theorem countInv_main (h : CountInv s) (hs : mainStep s = some s') : CountInv s' := by
  cases hm : s.main with
  | submitting =>
      simp only [mainStep, hm, Option.ite_none_left_eq_some] at hs
      obtain ⟨hcall, hs⟩ := hs
      cases hs
      have hnone := not_calling (Bool.not_eq_true _ ▸ hcall)
      exact { h with
        by_main := fun co hco hsub hcaller => absurd hcaller (hnone co hco hsub)
        returned := fun hr => nomatch hr }
  | test | woken =>
      simp only [mainStep, hm, Option.some.injEq] at hs
      subst hs
      have hne : s.main ≠ .submitting := by
        rw [hm]
        exact fun he => nomatch he
      exact { h with
        by_main := fun co hco hsub hcaller => absurd (h.by_main co hco hsub hcaller) hne
        returned := by
          intro hr
          by_cases h0 : s.val = 0
          · exact h.all_done h0 hne
          · simp only [if_neg h0] at hr
            cases hr }
  | waiting | returned =>
      simp only [mainStep, hm] at hs
      cases hs

theorem countInv_step {pNums : Nat} {act : Act} (h : CountInv s)
    (hs : step pNums s act = some s') : CountInv s' := by
  cases act with
  | submit caller => exact countInv_submit h hs
  | co j => exact countInv_coStep h hs
  | leave j => exact countInv_leave h hs
  | main => exact countInv_main h hs
  | spurious =>
      rw [step, Option.ite_none_right_eq_some] at hs
      obtain ⟨hw, hs⟩ := hs
      cases hs
      have hne : s.main ≠ .submitting := by
        rw [hw]
        exact fun he => nomatch he
      exact { h with
        by_main := fun co hco hsub hcaller => absurd (h.by_main co hco hsub hcaller) hne
        returned := fun hr => nomatch hr }

end Steps

-- ── Runs ─────────────────────────────────────────────────────────────────────

/-- Whoever is counted by a scheduler is unreported, and counted by one. -/
theorem sum_onSched_le (pNums : Nat) (cos : List Co) :
    ∑ p ∈ Finset.range pNums, (cos.countP fun co => co.stage.onSched p)
      ≤ cos.countP fun co => co.stage.unreported := by
  induction cos with
  | nil => simp
  | cons co cos ih =>
      have hone : ∑ p ∈ Finset.range pNums, (if co.stage.onSched p then 1 else 0)
          ≤ if co.stage.unreported then 1 else 0 := by
        cases hst : co.stage with
        | queued q | running q | ended q =>
            simp only [Stage.onSched, Stage.unreported, beq_iff_eq, Finset.sum_ite_eq]
            split <;> simp
        | turn | advance p | store p next | addWg p | sched p | counted p | done =>
            simp [Stage.onSched]
      simp only [List.countP_cons, Finset.sum_add_distrib]
      omega

/-- **THE WAIT GROUP COUNTS WHAT IS LEFT**, for any number of processors: its
    value is the number of coroutines submitted and not yet reported, at least
    the sum of all `co_nums`, and when `wait_group_wait` has returned every
    coroutine is finished. -/
theorem wait_group_counts (pNums : Nat) :
    ∀ s, Reach (fun s => s = processorsCreate) (fires (step pNums)) s →
      (s.val = s.cos.countP fun co => co.stage.unreported)
      ∧ ∑ p ∈ Finset.range pNums, s.coNums p ≤ s.val ∧ 0 ≤ s.val
      ∧ (s.main = .returned → (∀ co ∈ s.cos, co.stage = .done) ∧ ∀ p, s.coNums p = 0) := by
  intro s hr
  have h : CountInv s := by
    refine Reach.invariant (I := CountInv) ?_ ?_ s hr
    · rintro s rfl
      exact countInv_create
    · exact fun s act s' _ hI hs => countInv_step hI hs
  refine ⟨h.val, ?_, ?_, ?_⟩
  · have hle := sum_onSched_le pNums s.cos
    have hsum : ∑ p ∈ Finset.range pNums, s.coNums p
        = ((∑ p ∈ Finset.range pNums, (s.cos.countP fun co => co.stage.onSched p) : Nat) : Int) := by
      rw [Nat.cast_sum]
      exact Finset.sum_congr rfl fun p _ => h.nums p
    rw [hsum, h.val]
    exact Int.ofNat_le.mpr hle
  · rw [h.val]
    exact Int.natCast_nonneg _
  · intro hret
    have hall := h.returned hret
    refine ⟨hall, fun p => ?_⟩
    have hzero : (s.cos.countP fun co => co.stage.onSched p) = 0 := by
      refine List.countP_eq_zero.mpr fun co hco => ?_
      rw [hall co hco]
      exact Bool.false_ne_true
    rw [h.nums p, hzero]
    rfl

/-- Two processors: a coroutine submits another one, and the wait ends after
    both. -/
theorem wait_group_counts_two : ∃ s : State, s.main = .returned ∧ s.cos.length = 2
    ∧ (∀ co ∈ s.cos, co.stage = .done) ∧ ∀ p, s.coNums p = 0 := by
  have hinit : Reach (fun s => s = processorsCreate) (fires (step 2)) processorsCreate :=
    Reach.start rfl
  obtain ⟨s, hs, htest⟩ := Reach.exists_of_runList
    [.submit none, .co 0, .co 0, .co 0, .co 0, .co 0, .main, .main, .co 0, .submit (some 0),
      .co 1, .co 1, .co 1, .co 1, .co 1, .co 0, .co 0, .co 0, .co 1, .co 1, .co 1, .co 1, .main]
    (fun (s : State) => decide (s.main = .returned ∧ s.cos.length = 2)) hinit (by decide +kernel)
  obtain ⟨hm, hlen⟩ := of_decide_eq_true htest
  obtain ⟨-, -, -, hret⟩ := wait_group_counts 2 s hs
  exact ⟨s, hm, hlen, hret hm⟩

end Processors
