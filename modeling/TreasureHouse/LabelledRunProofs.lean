import Mathlib.Data.List.Basic

/-! # Labelled runs — reachability, invariants, and runs under a step condition

    A system is a set of start states and a labelled step relation.  Every
    whole-run result of the development goes through the two rules here:

    * `Reach.invariant` — what holds at the start and is kept by every step
      holds in every reached state;
    * `Reach.guarded_invariant` — the same for runs whose steps all meet a
      condition on the state before the step and the label taken.

    `Reach.simulate` and `Reach.bisimulate` relate the runs of two systems, and
    `rel_bind` two computations that may fault. -/

namespace LabelledRun

variable {σ ε : Type}

/-- The states reached from a start state by finitely many steps. -/
inductive Reach (init : σ → Prop) (step : σ → ε → σ → Prop) : σ → Prop where
  | start {s : σ} : init s → Reach init step s
  | next {s s' : σ} {e : ε} : Reach init step s → step s e s' → Reach init step s'

/-- The step relation restricted to steps that meet `cond` before they are
    taken. -/
def guarded (cond : σ → ε → Prop) (step : σ → ε → σ → Prop) : σ → ε → σ → Prop :=
  fun s e s' => cond s e ∧ step s e s'

/-- The step relation of a partial transition function. -/
def fires (f : σ → ε → Option σ) : σ → ε → σ → Prop :=
  fun s e s' => f s e = some s'

variable {init : σ → Prop} {step : σ → ε → σ → Prop}

/-- **INVARIANT RULE**: initially true and kept by every step from a reached
    state. -/
theorem Reach.invariant {I : σ → Prop} (h0 : ∀ s, init s → I s)
    (hs : ∀ s e s', Reach init step s → I s → step s e s' → I s') :
    ∀ s, Reach init step s → I s := by
  intro s hr
  induction hr with
  | start hi => exact h0 _ hi
  | next hr hstep ih => exact hs _ _ _ hr ih hstep

/-- A run goes on from a reached state. -/
theorem Reach.after {s s' : σ} (hr : Reach init step s)
    (hlater : Reach (fun t => t = s) step s') : Reach init step s' := by
  induction hlater with
  | start hi =>
      subst hi
      exact hr
  | next _ hstep ih => exact ih.next hstep

/-- More start states. -/
theorem Reach.of_init {init' : σ → Prop} (h : ∀ s, init s → init' s) {s : σ}
    (hr : Reach init step s) : Reach init' step s := by
  induction hr with
  | start hi => exact Reach.start (h _ hi)
  | next _ hstep ih => exact ih.next hstep

/-- A guarded run is a run. -/
theorem Reach.of_guarded {cond : σ → ε → Prop} {s : σ}
    (hr : Reach init (guarded cond step) s) : Reach init step s := by
  induction hr with
  | start hi => exact Reach.start hi
  | next _ hstep ih => exact Reach.next ih hstep.2

/-- **GUARDED INVARIANT RULE**: the invariant only has to be kept by the steps
    that meet the condition, and each such step may use that its source state
    is reachable without the condition. -/
theorem Reach.guarded_invariant {cond : σ → ε → Prop} {I : σ → Prop}
    (h0 : ∀ s, init s → I s)
    (hs : ∀ s e s', Reach init step s → I s → cond s e → step s e s' → I s') :
    ∀ s, Reach init (guarded cond step) s → I s := by
  refine Reach.invariant h0 ?_
  intro s e s' hr hI hstep
  exact hs s e s' hr.of_guarded hI hstep.1 hstep.2

/-- **SIMULATION RULE**: a relation to the reached states of a second system that
    holds at the start and that the second system can follow step by step. -/
theorem Reach.simulate {τ : Type} {R : σ → τ → Prop} {init' : τ → Prop} {step' : τ → ε → τ → Prop}
    (h0 : ∀ s, init s → ∃ t, init' t ∧ R s t)
    (hs : ∀ s t e s', Reach init' step' t → R s t → step s e s' → ∃ t', step' t e t' ∧ R s' t') :
    ∀ s, Reach init step s → ∃ t, Reach init' step' t ∧ R s t := by
  intro s hr
  induction hr with
  | start hi =>
      obtain ⟨t, ht, hR⟩ := h0 _ hi
      exact ⟨t, Reach.start ht, hR⟩
  | next _ hstep ih =>
      obtain ⟨t, ht, hR⟩ := ih
      obtain ⟨t', hstep', hR'⟩ := hs _ t _ _ ht hR hstep
      exact ⟨t', ht.next hstep', hR'⟩

/-- **BISIMULATION RULE**: a relation that holds at the start and that either system
    can follow step by step relates every reached state to one of the other. -/
theorem Reach.bisimulate {τ : Type} {R : σ → τ → Prop} {init' : τ → Prop}
    {step' : τ → ε → τ → Prop} (h0 : ∀ s, init s → ∃ t, init' t ∧ R s t)
    (h0' : ∀ t, init' t → ∃ s, init s ∧ R s t)
    (hs : ∀ s t e s', Reach init' step' t → R s t → step s e s' → ∃ t', step' t e t' ∧ R s' t')
    (hs' : ∀ s t e t', Reach init' step' t → R s t → step' t e t' → ∃ s', step s e s' ∧ R s' t') :
    (∀ s, Reach init step s → ∃ t, Reach init' step' t ∧ R s t)
      ∧ ∀ t, Reach init' step' t → ∃ s, Reach init step s ∧ R s t := by
  refine ⟨Reach.simulate h0 hs, ?_⟩
  intro t ht
  induction ht with
  | start hi =>
      obtain ⟨s, hinit, hR⟩ := h0' _ hi
      exact ⟨s, Reach.start hinit, hR⟩
  | next hr hstep ih =>
      obtain ⟨s, hreach, hR⟩ := ih
      obtain ⟨s', hstep', hR'⟩ := hs' s _ _ _ hr hR hstep
      exact ⟨s', hreach.next hstep', hR'⟩

/-- Run a transition function along a list of labels. -/
def runList (f : σ → ε → Option σ) : σ → List ε → Option σ
  | s, [] => some s
  | s, e :: es => (f s e).bind fun s' => runList f s' es

/-- A run along a list of labels ends in a reached state. -/
theorem Reach.of_runList {f : σ → ε → Option σ} :
    ∀ (es : List ε) (s s' : σ), Reach init (fires f) s →
      runList f s es = some s' → Reach init (fires f) s' := by
  intro es
  induction es with
  | nil =>
      intro s s' hr h
      cases h
      exact hr
  | cons e es ih =>
      intro s s' hr h
      obtain ⟨t, ht, h'⟩ := Option.bind_eq_some_iff.mp h
      exact ih t s' (hr.next ht) h'

/-- A run along a list of labels whose end passes a test. -/
theorem Reach.exists_of_runList {f : σ → ε → Option σ} {s : σ} (es : List ε) (test : σ → Bool)
    (hr : Reach init (fires f) s) (h : (runList f s es).any test = true) :
    ∃ s', Reach init (fires f) s' ∧ test s' = true := by
  obtain ⟨s', hs', ht⟩ := (Option.any_eq_true test _).mp h
  exact ⟨s', Reach.of_runList es s s' hr hs', ht⟩

/-- A transition function restricted to labels that pass a check. -/
def checked (check : σ → ε → Bool) (f : σ → ε → Option σ) : σ → ε → Option σ :=
  fun s e => if check s e then f s e else none

/-- A checked run is a guarded run. -/
theorem Reach.guarded_of_checked {f : σ → ε → Option σ} {check : σ → ε → Bool}
    {cond : σ → ε → Prop} (hcheck : ∀ s e, check s e = true → cond s e) :
    ∀ s, Reach init (fires (checked check f)) s → Reach init (guarded cond (fires f)) s := by
  intro s hr
  induction hr with
  | start hi => exact Reach.start hi
  | @next s s' e _ hstep ih =>
      rw [fires, checked, Option.ite_none_right_eq_some] at hstep
      exact ih.next ⟨hcheck s e hstep.1, hstep.2⟩

-- ── Two answers ──────────────────────────────────────────────────────────────

section Answers

variable {α β γ δ : Type} {R : α → β → Prop} {S : γ → δ → Prop} {x : Option α} {y : Option β}

/-- **LOCKSTEP RULE**: computations with related results, or none, go on to
    related results, or none. -/
theorem rel_bind {f : α → Option γ} {g : β → Option δ} (h : Option.Rel R x y)
    (hfg : ∀ a b, y = some b → R a b → Option.Rel S (f a) (g b)) :
    Option.Rel S (x.bind f) (y.bind g) := by
  cases h with
  | some hab => exact hfg _ _ rfl hab
  | none => exact Option.Rel.none

theorem rel_refl (x : Option α) : Option.Rel Eq x x := by
  cases x with
  | none => exact Option.Rel.none
  | some a => exact Option.Rel.some rfl

theorem rel_map {f : α → γ} {g : β → δ} (h : Option.Rel R x y)
    (hfg : ∀ a b, R a b → S (f a) (g b)) : Option.Rel S (x.map f) (y.map g) := by
  cases h with
  | some hab => exact Option.Rel.some (hfg _ _ hab)
  | none => exact Option.Rel.none

theorem rel_ite {c : Prop} [Decidable c] (h : Option.Rel R x y) :
    Option.Rel R (if c then x else none) (if c then y else none) := by
  by_cases hc : c
  · rw [if_pos hc, if_pos hc]
    exact h
  · rw [if_neg hc, if_neg hc]
    exact Option.Rel.none

theorem rel_mono {R' : α → β → Prop} (h : Option.Rel R x y) (hR : ∀ a b, R a b → R' a b) :
    Option.Rel R' x y := by
  cases h with
  | some hab => exact Option.Rel.some (hR _ _ hab)
  | none => exact Option.Rel.none

theorem rel_some {a : α} (h : Option.Rel R x y) (hx : x = some a) : ∃ b, y = some b ∧ R a b := by
  cases h with
  | some hab =>
      cases hx
      exact ⟨_, rfl, hab⟩
  | none => cases hx

theorem rel_of_some {b : β} (h : Option.Rel R x y) (hy : y = some b) :
    ∃ a, x = some a ∧ R a b := by
  cases h with
  | some hab =>
      cases hy
      exact ⟨_, rfl, hab⟩
  | none => cases hy

end Answers

end LabelledRun
