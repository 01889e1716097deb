import TreasureHouse.MpscqOrderProofs

/-! # One call of `mpscq_pop` — when it returns NULL

    The window of inconsistency lies between a producer's exchange on `head`
    and its store to `prev->next`.  A call of `mpscq_pop` that returns NULL
    has seen, at one of its own moments, a queue with nothing waiting or a
    producer in that window.  `Unexcused` says what the consumer knows while
    neither has happened: once it read a NULL link, `head` is still its `tail`,
    and once it pushed the stub, its `tail` is linked.

    Without a producer in the window the call returns NULL exactly on the
    empty queue, and calls repeated by the consumer alone return all that was
    pushed. -/

namespace MpscqCall

open Succession Mpscq MpscqOrder LabelledRun

variable {α τ : Type} [DecidableEq α] [DecidableEq τ]

/-- A producer stands between its exchange on `head` and its store to
    `prev->next`. -/
def MidPush (s : State α τ) : Prop := ∃ t n prev, s.prod t = .link n prev

/-- Every node whose exchange has happened has been returned. -/
def Drained (s : State α τ) : Prop := elems s.xchgs = s.rets

/-- A call of `mpscq_pop` that starts in `s₀`: `l` are the states since its
    first access, the newest first, and `s` is the newest.  The call is over
    when the consumer is idle again. -/
inductive InCall (s₀ : State α τ) : List (State α τ) → State α τ → Prop where
  | enter {s : State α τ} : s₀.cons = .idle → popStep s₀ = some s → InCall s₀ [s] s
  | step {l : List (State α τ)} {s s' : State α τ} {act : Act α τ} :
      InCall s₀ l s → s.cons ≠ .idle → Step s act s' → InCall s₀ (s' :: l) s'

/-- What the consumer knows as long as the queue was not seen drained and no
    producer was seen in the window. -/
def Unexcused (s : State α τ) : Prop :=
  match s.cons with
  | .branch tail none => tail ≠ .stub ∧ s.head = tail
  | .tryNext tail none => s.head = tail
  | .compareHead tail head => head = tail ∧ s.head = tail
  | .pushStub tail .idle => ∃ q, s.next tail = some q
  | .pushStub tail (.link _ prev) => prev = tail
  | .pushStub tail _ => s.head = tail
  | .lastTry _ next => next ≠ none
  | _ => True

-- ── One step of the call ─────────────────────────────────────────────────────

section Steps

variable {s s' : State α τ} {l : List (Node α)}

omit [DecidableEq τ] in
/-- A NULL link of `tail`: nothing follows it, or a producer owes the link. -/
theorem next_none (h : Inv s l) (hidle : stubPc s.cons = .idle) (hnext : s.next s.tail = none) :
    s.head = s.tail ∨ MidPush s := by
  obtain ⟨t, rfl⟩ := List.head?_eq_some_iff.mp h.front
  cases t with
  | nil => exact Or.inl (Option.some.inj h.chain.last).symm
  | cons b t =>
      refine Or.inr ?_
      rcases h.chain.linked s.tail b (follows_front t) with hl | ⟨-, i, hi⟩
      · rw [hnext] at hl
        cases hl
      · cases i with
        | none =>
            have hi' : stubPc s.cons = .link b s.tail := hi
            rw [hidle] at hi'
            cases hi'
        | some u => exact ⟨u, b, s.tail, hi⟩

omit [DecidableEq τ] in
/-- With only the stub on the chain nothing waits. -/
theorem drained_of_stub (h : Inv s l) (hh : s.head = s.tail) (hstub : s.tail = .stub)
    (hret : returning s.cons = []) : Drained s := by
  have hl := h.single hh.symm
  have hhist := h.history
  rw [hl, hret, hstub, List.append_nil] at hhist
  exact hhist.symm.trans (List.append_nil _)

omit [DecidableEq τ] in
/-- A push moves `head` and adds to the history only by the exchange. -/
theorem pushStep_head {pc : PushPc α} {r : State α τ × PushPc α} (h : pushStep s pc = some r) :
    (r.1.head = s.head ∧ r.1.xchgs = s.xchgs) ∨ ∃ n prev, r.2 = .link n prev := by
  obtain ⟨n, -, rfl⟩ | ⟨n, -, rfl⟩ | ⟨n, -, rfl⟩ | ⟨n, cur, -, -, rfl⟩ | ⟨n, prev, -, rfl⟩ :=
    pushStep_cases h
  · exact Or.inl ⟨rfl, rfl⟩
  · exact Or.inl ⟨rfl, rfl⟩
  · exact Or.inr ⟨n, s.head, rfl⟩
  · exact Or.inl ⟨rfl, rfl⟩
  · exact Or.inl ⟨rfl, rfl⟩

omit [DecidableEq α] [DecidableEq τ] in
/-- What the consumer knows does not depend on more than `head` and the link of
    `tail`. -/
theorem Unexcused.frame (h : Unexcused s) (hc : ConsInv s l) (hcons : s'.cons = s.cons)
    (hhead : s'.head = s.head) (hnext : ∀ q, s.next s.tail = some q → s'.next s.tail = some q) :
    Unexcused s' := by
  rw [Unexcused] at h ⊢
  rw [ConsInv] at hc
  rw [hcons, hhead]
  cases hpc : s.cons with
  | pushStub tail pc =>
      rw [hpc] at h hc
      cases pc with
      | idle =>
          obtain ⟨q, hq⟩ := h
          rw [hc.1] at hq
          exact ⟨q, by rw [hc.1]; exact hnext q hq⟩
      | clear n => exact h
      | load n => exact h
      | cas n cur => exact h
      | link n prev => exact h
  | branch tail next => rw [hpc] at h; cases next <;> exact h
  | tryNext tail next => rw [hpc] at h; cases next <;> exact h
  | _ => rw [hpc] at h; exact h

/-- A producer's step adds nothing to the history and takes nothing from the
    consumer's knowledge, unless it is an exchange. -/
theorem prodStep_cases {t : τ} (h : Inv s l) (hs : Step s (.prod t) s') :
    MidPush s' ∨ (s'.xchgs = s.xchgs ∧ (Unexcused s → Unexcused s')) := by
  obtain ⟨r, hr, rfl⟩ := hs
  obtain ⟨-, -, -, -, hnext, -, -, hcons, -, -⟩ := pushStep_chain h (i := some t) hr
  rcases pushStep_head hr with ⟨hhead, hx⟩ | ⟨n, prev, hlink⟩
  · exact Or.inr ⟨hx, fun hu => hu.frame h.consumer hcons hhead hnext⟩
  · refine Or.inl ⟨t, n, prev, ?_⟩
    show Function.update s.prod t r.2 t = _
    rw [Function.update_self, hlink]

omit [DecidableEq τ] in
/-- After a read of a NULL link at `tail`. -/
theorem read_none (h : Inv s l) (hidle : stubPc s.cons = .idle) (hret : returning s.cons = [])
    (hnext : s.next s.tail = none) :
    (Drained s ∨ MidPush s) ∨ (s.tail ≠ .stub ∧ s.head = s.tail) := by
  rcases next_none h hidle hnext with hh | hmid
  · by_cases hstub : s.tail = .stub
    · exact Or.inl (Or.inl (drained_of_stub h hh hstub hret))
    · exact Or.inr ⟨hstub, hh⟩
  · exact Or.inl (Or.inr hmid)

omit [DecidableEq τ] in
/-- **STEP LEMMA**: an access of the consumer keeps its knowledge, or the state
    it is made in is an excuse; without one the call ends by returning a
    node. -/
theorem popStep_unexcused (h : Inv s l) (hne : s.cons ≠ .idle) (hu : Unexcused s)
    (hs : popStep s = some s') :
    (Drained s ∨ MidPush s)
      ∨ (Unexcused s' ∧ (s'.cons = .idle → ∃ n, s'.rets = s.rets ++ [n])) := by
  have hc := h.consumer
  rw [ConsInv] at hc
  rw [Unexcused] at hu
  rw [popStep] at hs
  cases hpc : s.cons with
  | idle => exact absurd hpc hne
  | loadNext tail =>
      rw [hpc] at hs hc
      cases hs
      subst hc
      cases hn : s.next s.tail with
      | none =>
          refine (read_none h (by rw [hpc]; rfl) (by rw [hpc]; rfl) hn).imp_right fun hk => ?_
          exact ⟨hk, by rintro ⟨⟩⟩
      | some q => exact Or.inr ⟨trivial, by rintro ⟨⟩⟩
  | branch tail next =>
      rw [hpc] at hs hu
      refine Or.inr ?_
      cases next with
      | none =>
          simp only [if_neg hu.1] at hs
          cases hs
          exact ⟨⟨hu.2, hu.2⟩, by rintro ⟨⟩⟩
      | some q =>
          by_cases hstub : tail = .stub
          · simp only [if_pos hstub] at hs
            cases hs
            exact ⟨trivial, by rintro ⟨⟩⟩
          · simp only [if_neg hstub] at hs
            cases hs
            exact ⟨trivial, by rintro ⟨⟩⟩
  | loadNextAgain tail =>
      rw [hpc] at hs hc
      cases hs
      obtain ⟨rfl, hstub⟩ := hc
      cases hn : s.next s.tail with
      | none =>
          refine (read_none h (by rw [hpc]; rfl) (by rw [hpc]; rfl) hn).imp_right fun hk => ?_
          exact ⟨hk.2, by rintro ⟨⟩⟩
      | some q => exact Or.inr ⟨trivial, by rintro ⟨⟩⟩
  | tryNext tail next =>
      rw [hpc] at hs hu
      refine Or.inr ?_
      cases hs
      cases next with
      | none => exact ⟨⟨hu, hu⟩, by rintro ⟨⟩⟩
      | some q => exact ⟨trivial, by rintro ⟨⟩⟩
  | compareHead tail head =>
      rw [hpc] at hs hu
      obtain ⟨rfl, hh⟩ := hu
      simp only [ne_eq, not_true_eq_false, if_false] at hs
      cases hs
      exact Or.inr ⟨hh, by rintro ⟨⟩⟩
  | pushStub tail pc =>
      rw [hpc] at hs hu
      refine Or.inr ?_
      cases pc with
      | idle =>
          cases hs
          obtain ⟨q, hq⟩ := hu
          refine ⟨?_, by rintro ⟨⟩⟩
          show s.next tail ≠ none
          rw [hq]
          exact Option.some_ne_none q
      | clear n => cases hs; exact ⟨hu, by rintro ⟨⟩⟩
      | load n => cases hs; exact ⟨hu, by rintro ⟨⟩⟩
      | cas n cur =>
          simp only [pushStep] at hs
          by_cases hcur : s.head = cur
          · rw [if_pos hcur] at hs
            cases hs
            exact ⟨hcur.symm.trans hu, by rintro ⟨⟩⟩
          · rw [if_neg hcur] at hs
            cases hs
            exact ⟨hu, by rintro ⟨⟩⟩
      | link n prev =>
          cases hs
          have hp : prev = tail := hu
          refine ⟨⟨n, ?_⟩, by rintro ⟨⟩⟩
          show Function.update s.next prev (some n) tail = some n
          rw [hp, Function.update_self]
  | lastTry tail next =>
      rw [hpc] at hs hu
      refine Or.inr ?_
      cases hs
      cases next with
      | none => exact absurd rfl hu
      | some q => exact ⟨trivial, by rintro ⟨⟩⟩
  | ret n =>
      rw [hpc] at hs
      cases hs
      exact Or.inr ⟨trivial, fun _ => ⟨n, rfl⟩⟩

omit [DecidableEq τ] in
/-- What a consumer step leaves alone: the producers; what was returned, unless
    it is the return; and the history, unless it is the exchange. -/
theorem popStep_frame (hs : popStep s = some s') :
    s'.prod = s.prod ∧ (s'.rets = s.rets ∨ (s'.cons = .idle ∧ ∃ n, s'.rets = s.rets ++ [n]))
      ∧ (s'.xchgs = s.xchgs
        ∨ ∃ tail n cur, s.cons = .pushStub tail (.cas n cur) ∧ s'.xchgs = s.xchgs ++ [n]) := by
  rw [popStep] at hs
  cases hpc : s.cons with
  | branch tail next =>
      rw [hpc] at hs
      by_cases hstub : tail = .stub
      · simp only [if_pos hstub] at hs
        cases next <;> cases hs <;> exact ⟨rfl, Or.inl rfl, Or.inl rfl⟩
      · simp only [if_neg hstub] at hs
        cases hs
        cases next <;> exact ⟨rfl, Or.inl rfl, Or.inl rfl⟩
  | compareHead tail head =>
      rw [hpc] at hs
      by_cases hne : tail ≠ head
      · simp only [if_pos hne] at hs
        cases hs
        exact ⟨rfl, Or.inl rfl, Or.inl rfl⟩
      · simp only [if_neg hne] at hs
        cases hs
        exact ⟨rfl, Or.inl rfl, Or.inl rfl⟩
  | pushStub tail pc =>
      rw [hpc] at hs
      cases pc with
      | cas n cur =>
          simp only [pushStep] at hs
          by_cases hcur : s.head = cur
          · rw [if_pos hcur] at hs
            cases hs
            exact ⟨rfl, Or.inl rfl, Or.inr ⟨tail, n, cur, rfl, rfl⟩⟩
          · rw [if_neg hcur] at hs
            cases hs
            exact ⟨rfl, Or.inl rfl, Or.inl rfl⟩
      | _ => cases hs; exact ⟨rfl, Or.inl rfl, Or.inl rfl⟩
  | tryNext tail next =>
      rw [hpc] at hs
      cases hs
      cases next <;> exact ⟨rfl, Or.inl rfl, Or.inl rfl⟩
  | lastTry tail next =>
      rw [hpc] at hs
      cases hs
      cases next <;> exact ⟨rfl, Or.inl rfl, Or.inl rfl⟩
  | ret n =>
      rw [hpc] at hs
      cases hs
      exact ⟨rfl, Or.inr ⟨rfl, n, rfl⟩, Or.inl rfl⟩
  | _ => rw [hpc] at hs; cases hs; exact ⟨rfl, Or.inl rfl, Or.inl rfl⟩

omit [DecidableEq τ] in
/-- The consumer exchanges the stub only. -/
theorem popStep_elems (h : Inv s l) (hs : popStep s = some s') :
    elems s'.xchgs = elems s.xchgs := by
  obtain ⟨-, -, hx | ⟨tail, n, cur, hpc, hx⟩⟩ := popStep_frame hs
  · rw [hx]
  · have hn : n = .stub := by
      refine (h.chain.stub_iff none n ?_).mpr rfl
      show Pushes (stubPc s.cons) n
      rw [hpc]
      rfl
    rw [hx, elems_concat, hn]
    exact List.append_nil _

end Steps

-- ── The whole call ───────────────────────────────────────────────────────────

section Calls

variable {s₀ s : State α τ} {l : List (State α τ)}

theorem InCall.mem (h : InCall s₀ l s) : s ∈ l := by
  cases h with
  | enter _ _ => exact List.mem_singleton.mpr rfl
  | step _ _ _ => exact List.mem_cons_self ..

/-- What a call has done so far: nothing was returned before its end, and
    either one of its states is an excuse or the consumer has its knowledge and
    ends by returning a node. -/
structure CallInv (s₀ : State α τ) (l : List (State α τ)) (s : State α τ) : Prop where
  reachable : Reachable s
  rets : s.cons ≠ .idle → s.rets = s₀.rets
  ended : s.rets = s₀.rets ∨ ∃ n, s.rets = s₀.rets ++ [n]
  excuse : (∃ m ∈ l, m.cons ≠ .idle ∧ (Drained m ∨ MidPush m))
    ∨ (Unexcused s ∧ (s.cons = .idle → ∃ n, s.rets = s₀.rets ++ [n]))

/-- **RUN LEMMA**: the calls of all interleavings. -/
theorem inCall_inv (h0 : Reachable s₀) (h : InCall s₀ l s) : CallInv s₀ l s := by
  induction h with
  | @enter s hidle hs =>
      have hs' := hs
      rw [popStep, hidle] at hs'
      cases hs'
      exact ⟨h0.next (e := Act.cons) hs, fun _ => rfl, Or.inl rfl,
        Or.inr ⟨trivial, by rintro ⟨⟩⟩⟩
  | @step l s s' act hcall hne hstep ih =>
      obtain ⟨ch, hinv⟩ := reachable_inv ih.reachable
      have hr' : Reachable s' := ih.reachable.next hstep
      have hrets := ih.rets hne
      have hmono : (∃ m ∈ l, m.cons ≠ .idle ∧ (Drained m ∨ MidPush m)) →
          ∃ m ∈ s' :: l, m.cons ≠ .idle ∧ (Drained m ∨ MidPush m) := by
        rintro ⟨m, hm, hex⟩
        exact ⟨m, List.mem_cons_of_mem _ hm, hex⟩
      cases act with
      | begin t a =>
          obtain ⟨-, -, rfl⟩ := hstep
          refine ⟨hr', fun _ => hrets, Or.inl hrets, ih.excuse.imp hmono fun hu => ?_⟩
          exact ⟨hu.1.frame hinv.consumer rfl rfl (fun q hq => hq), fun hi => absurd hi hne⟩
      | prod t =>
          have hcases := prodStep_cases hinv hstep
          obtain ⟨r, hr, rfl⟩ := hstep
          obtain ⟨-, -, -, -, -, -, -, hcons, -, hsame⟩ := pushStep_chain hinv (i := some t) hr
          refine ⟨hr', fun _ => hsame.trans hrets, Or.inl (hsame.trans hrets), ?_⟩
          have hne' : r.1.cons ≠ .idle := by rw [hcons]; exact hne
          rcases ih.excuse with hex | hu
          · exact Or.inl (hmono hex)
          · rcases hcases with hmid | ⟨-, hkeep⟩
            · exact Or.inl ⟨_, List.mem_cons_self .., hne', Or.inr hmid⟩
            · exact Or.inr ⟨hkeep hu.1, fun hi => absurd hi hne'⟩
      | cons =>
          obtain ⟨-, hend, -⟩ := popStep_frame hstep
          rw [hrets] at hend
          refine ⟨hr', fun hi => hend.resolve_right fun hret => hi hret.1,
            hend.imp_right And.right, ?_⟩
          rcases ih.excuse with hex | hu
          · exact Or.inl (hmono hex)
          · rcases popStep_unexcused hinv hne hu.1 hstep with hex | ⟨hu', hret⟩
            · exact Or.inl (hmono ⟨s, hcall.mem, hne, hex⟩)
            · exact Or.inr ⟨hu', by rw [← hrets]; exact hret⟩

/-- While no producer is seen in the window, no node joins the queue. -/
theorem inCall_quiet (h0 : Reachable s₀) (h : InCall s₀ l s) (hquiet : ∀ m ∈ l, ¬ MidPush m) :
    ∀ m ∈ l, elems m.xchgs = elems s₀.xchgs ∧ (m.cons ≠ .idle → m.rets = s₀.rets) := by
  have hone : ∀ {s l}, InCall s₀ l s → elems s.xchgs = elems s₀.xchgs →
      elems s.xchgs = elems s₀.xchgs ∧ (s.cons ≠ .idle → s.rets = s₀.rets) :=
    fun hcall hx => ⟨hx, (inCall_inv h0 hcall).rets⟩
  induction h with
  | @enter s hidle hs =>
      intro m hm
      rw [List.mem_singleton] at hm
      subst hm
      obtain ⟨ch, hinv⟩ := reachable_inv h0
      exact hone (.enter hidle hs) (popStep_elems hinv hs)
  | @step l s s' act hcall hne hstep ih =>
      have ih := ih fun m hm => hquiet m (List.mem_cons_of_mem _ hm)
      intro m hm
      rcases List.mem_cons.mp hm with rfl | hm
      · refine hone (.step hcall hne hstep) (Eq.trans ?_ (ih s hcall.mem).1)
        obtain ⟨ch, hinv⟩ := reachable_inv (inCall_inv h0 hcall).reachable
        cases act with
        | begin t a =>
            obtain ⟨-, -, rfl⟩ := hstep
            rfl
        | prod t =>
            rcases prodStep_cases hinv hstep with hmid | ⟨hx, -⟩
            · exact absurd hmid (hquiet _ (List.mem_cons_self ..))
            · rw [hx]
        | cons => exact popStep_elems hinv hstep
      · exact ih m hm

/-- A call that returns NULL has an excuse among its states. -/
theorem null_excuse (h0 : Reachable s₀) (h : InCall s₀ l s) (hend : s.cons = .idle)
    (hnull : s.rets = s₀.rets) : ∃ m ∈ l, m.cons ≠ .idle ∧ (Drained m ∨ MidPush m) := by
  rcases (inCall_inv h0 h).excuse with hex | ⟨-, hret⟩
  · exact hex
  · obtain ⟨n, hn⟩ := hret hend
    rw [hnull, eq_comm] at hn
    exact absurd hn (by simp)

/-- Without a producer in the window, NULL means empty. -/
theorem null_iff (h0 : Reachable s₀) (h : InCall s₀ l s) (hend : s.cons = .idle)
    (hquiet : ∀ m ∈ l, ¬ MidPush m) : s.rets = s₀.rets ↔ Drained s₀ := by
  have hsame := inCall_quiet h0 h hquiet
  constructor
  · intro hnull
    obtain ⟨m, hm, hne, hex⟩ := null_excuse h0 h hend hnull
    obtain ⟨hx, hrets⟩ := hsame m hm
    have hdr : elems m.xchgs = m.rets := hex.resolve_right (hquiet m hm)
    exact hx.symm.trans (hdr.trans (hrets hne))
  · intro hdr
    have hinv := inCall_inv h0 h
    obtain ⟨hpre, -⟩ := mpscq_fifo s hinv.reachable
    have hlen := hpre.length_le
    rw [(hsame s h.mem).1, show elems s₀.xchgs = s₀.rets from hdr] at hlen
    rcases hinv.ended with heq | ⟨n, hn⟩
    · exact heq
    · rw [hn, List.length_append, List.length_singleton] at hlen
      omega

end Calls

-- ── The consumer alone ───────────────────────────────────────────────────────

/-- Run a call of `mpscq_pop` to its end, with at most `k` accesses left. -/
def finishPop : Nat → State α τ → Option (State α τ)
  | 0, _ => none
  | k + 1, s => (popStep s).bind fun s' =>
      match s'.cons with
      | .idle => some s'
      | _ => finishPop k s'

/-- `mpscq_pop` with no other thread moving; the longest way through the
    source has 13 accesses. -/
def mpscqPop (s : State α τ) : Option (State α τ) := finishPop 13 s

/-- `k` calls of `mpscq_pop`, one after the other. -/
def mpscqPops : Nat → State α τ → Option (State α τ)
  | 0, s => some s
  | k + 1, s => (mpscqPop s).bind (mpscqPops k)

/-- How many accesses are left when the exchange succeeds at once. -/
def accessesLeft : PopPc α → Nat
  | .idle => 0
  | .loadNext _ => 12
  | .branch _ _ => 11
  | .loadNextAgain _ => 10
  | .tryNext _ _ => 9
  | .compareHead _ _ => 8
  | .pushStub _ (.clear _) => 7
  | .pushStub _ (.load _) => 6
  | .pushStub _ (.cas _ _) => 5
  | .pushStub _ (.link _ _) => 4
  | .pushStub _ .idle => 3
  | .lastTry _ _ => 2
  | .ret _ => 1

/-- `head` is still what the consumer's push loaded. -/
def Fresh (s : State α τ) : Prop := ∀ tail n cur, s.cons = .pushStub tail (.cas n cur) → s.head = cur

section Alone

variable {s₀ s : State α τ} {l : List (State α τ)}

omit [DecidableEq τ] in
/-- Alone, the consumer comes closer to the end with every access. -/
theorem popStep_closer (hf : Fresh s) (hne : s.cons ≠ .idle) :
    ∃ s', popStep s = some s' ∧ Fresh s' ∧ accessesLeft s'.cons < accessesLeft s.cons := by
  have hfresh : ∀ {s' : State α τ}, (∀ tail n cur, s'.cons ≠ .pushStub tail (.cas n cur)) →
      Fresh s' := fun h tail n cur hc => absurd hc (h tail n cur)
  rw [popStep]
  cases hpc : s.cons with
  | idle => exact absurd hpc hne
  | loadNext tail =>
      exact ⟨_, rfl, hfresh (by rintro _ _ _ ⟨⟩), by show 11 < 12; omega⟩
  | branch tail next =>
      by_cases hstub : tail = .stub
      · simp only [if_pos hstub]
        cases next with
        | none => exact ⟨_, rfl, hfresh (by rintro _ _ _ ⟨⟩), by show 0 < 11; omega⟩
        | some q => exact ⟨_, rfl, hfresh (by rintro _ _ _ ⟨⟩), by show 10 < 11; omega⟩
      · simp only [if_neg hstub]
        cases next with
        | none => exact ⟨_, rfl, hfresh (by rintro _ _ _ ⟨⟩), by show 8 < 11; omega⟩
        | some q => exact ⟨_, rfl, hfresh (by rintro _ _ _ ⟨⟩), by show 1 < 11; omega⟩
  | loadNextAgain tail =>
      exact ⟨_, rfl, hfresh (by rintro _ _ _ ⟨⟩), by show 9 < 10; omega⟩
  | tryNext tail next =>
      cases next with
      | none => exact ⟨_, rfl, hfresh (by rintro _ _ _ ⟨⟩), by show 8 < 9; omega⟩
      | some q => exact ⟨_, rfl, hfresh (by rintro _ _ _ ⟨⟩), by show 1 < 9; omega⟩
  | compareHead tail head =>
      by_cases hh : tail ≠ head
      · simp only [if_pos hh]
        exact ⟨_, rfl, hfresh (by rintro _ _ _ ⟨⟩), by show 0 < 8; omega⟩
      · simp only [if_neg hh]
        exact ⟨_, rfl, hfresh (by rintro _ _ _ ⟨⟩), by show 7 < 8; omega⟩
  | pushStub tail pc =>
      cases pc with
      | idle => exact ⟨_, rfl, hfresh (by rintro _ _ _ ⟨⟩), by show 2 < 3; omega⟩
      | clear n => exact ⟨_, rfl, hfresh (by rintro _ _ _ ⟨⟩), by show 6 < 7; omega⟩
      | load n =>
          refine ⟨_, rfl, ?_, by show 5 < 6; omega⟩
          rintro _ _ _ ⟨⟩
          rfl
      | cas n cur =>
          simp only [pushStep, if_pos (hf tail n cur hpc)]
          exact ⟨_, rfl, hfresh (by rintro _ _ _ ⟨⟩), by show 4 < 5; omega⟩
      | link n prev => exact ⟨_, rfl, hfresh (by rintro _ _ _ ⟨⟩), by show 3 < 4; omega⟩
  | lastTry tail next =>
      cases next with
      | none => exact ⟨_, rfl, hfresh (by rintro _ _ _ ⟨⟩), by show 0 < 2; omega⟩
      | some q => exact ⟨_, rfl, hfresh (by rintro _ _ _ ⟨⟩), by show 1 < 2; omega⟩
  | ret n => exact ⟨_, rfl, hfresh (by rintro _ _ _ ⟨⟩), by show 0 < 1; omega⟩

omit [DecidableEq τ] in
theorem finishPop_succ {k : Nat} {s' : State α τ} (hs : popStep s = some s') :
    finishPop (k + 1) s = some s' ∧ s'.cons = .idle
      ∨ finishPop (k + 1) s = finishPop k s' ∧ s'.cons ≠ .idle := by
  rw [finishPop, hs, Option.bind_some]
  cases hpc : s'.cons with
  | idle => exact Or.inl ⟨rfl, rfl⟩
  | _ => exact Or.inr ⟨rfl, by rintro ⟨⟩⟩

/-- A call the consumer is in is finished with the accesses left. -/
theorem finishPop_spec :
    ∀ (k : Nat) (s : State α τ) (l : List (State α τ)), InCall s₀ l s → Fresh s →
      s.cons ≠ .idle → accessesLeft s.cons ≤ k → (∀ m ∈ l, m.prod = s₀.prod) →
      ∃ s' l', finishPop k s = some s' ∧ InCall s₀ l' s' ∧ s'.cons = .idle
        ∧ ∀ m ∈ l', m.prod = s₀.prod := by
  intro k
  induction k with
  | zero =>
      intro s l hcall hf hne hk _
      obtain ⟨s', -, -, hlt⟩ := popStep_closer hf hne
      omega
  | succ k ih =>
      intro s l hcall hf hne hk hprod
      obtain ⟨s', hs, hf', hlt⟩ := popStep_closer hf hne
      have hstep : Step s .cons s' := hs
      have hcall' : InCall s₀ (s' :: l) s' := .step hcall hne hstep
      have hprod' : ∀ m ∈ s' :: l, m.prod = s₀.prod := by
        intro m hm
        rcases List.mem_cons.mp hm with rfl | hm
        · exact (popStep_frame hs).1.trans (hprod s hcall.mem)
        · exact hprod m hm
      rcases finishPop_succ (k := k) hs with ⟨heq, hi⟩ | ⟨heq, hi⟩
      · exact ⟨s', s' :: l, heq, hcall', hi, hprod'⟩
      · rw [heq]
        exact ih s' (s' :: l) hcall' hf' hi (by omega) hprod'

/-- What a call by the consumer alone does. -/
theorem mpscqPop_spec (h : Reachable s) (hidle : s.cons = .idle) (hquiet : ¬ MidPush s) :
    ∃ s', mpscqPop s = some s' ∧ Reachable s' ∧ s'.cons = .idle ∧ ¬ MidPush s'
      ∧ elems s'.xchgs = elems s.xchgs
      ∧ (Drained s ∨ s'.rets.length = s.rets.length + 1) := by
  have hs : popStep s = some { s with cons := .loadNext s.tail } := by rw [popStep, hidle]
  have hcall : InCall s [_] _ := .enter hidle hs
  have hne : ({ s with cons := .loadNext s.tail } : State α τ).cons ≠ .idle := by rintro ⟨⟩
  obtain ⟨s', l, heq, hcall', hend, hprod⟩ := finishPop_spec 12 _ _ hcall
    (by rintro _ _ _ ⟨⟩) hne (Nat.le_refl 12)
    (fun m hm => by rw [List.mem_singleton.mp hm])
  have hquiet' : ∀ m ∈ l, ¬ MidPush m := by
    rintro m hm ⟨t, n, prev, ht⟩
    exact hquiet ⟨t, n, prev, by rw [← hprod m hm]; exact ht⟩
  have hinv := inCall_inv h hcall'
  refine ⟨s', ?_, hinv.reachable, hend, hquiet' s' hcall'.mem,
    (inCall_quiet h hcall' hquiet' s' hcall'.mem).1, ?_⟩
  · rw [mpscqPop]
    rcases finishPop_succ (k := 12) hs with ⟨-, hi⟩ | ⟨heq', -⟩
    · exact absurd hi hne
    · rw [heq', heq]
  · rcases hinv.ended with hnull | ⟨n, hn⟩
    · exact Or.inl ((null_iff h hcall' hend hquiet').mp hnull)
    · exact Or.inr (by rw [hn, List.length_append]; rfl)

/-- As many calls as nodes are pending return them all. -/
theorem mpscqPops_drain :
    ∀ (k : Nat) (s : State α τ), Reachable s → s.cons = .idle → ¬ MidPush s →
      (elems s.xchgs).length = s.rets.length + k →
      ∃ s', mpscqPops k s = some s' ∧ s'.cons = .idle ∧ s'.rets = elems s.xchgs := by
  intro k
  induction k with
  | zero =>
      intro s h hidle _ hlen
      obtain ⟨hpre, -⟩ := mpscq_fifo s h
      exact ⟨s, rfl, hidle, hpre.eq_of_length hlen.symm⟩
  | succ k ih =>
      intro s h hidle hquiet hlen
      obtain ⟨s', heq, h', hidle', hquiet', hx, hcount⟩ := mpscqPop_spec h hidle hquiet
      have hcount' : s'.rets.length = s.rets.length + 1 := by
        refine hcount.resolve_left fun hdr => ?_
        have := congrArg List.length hdr
        omega
      obtain ⟨s'', heq', hidle'', hall⟩ := ih s' h' hidle' hquiet' (by rw [hx]; omega)
      exact ⟨s'', by rw [mpscqPops, heq]; exact heq', hidle'', by rw [hall, hx]⟩

end Alone

/-- **WHEN `mpscq_pop` RETURNS NULL**: a call that returns NULL went through a
    state in which every exchanged node had been returned or a producer stood
    between its exchange and its store to `prev->next`.  Without a producer in
    that window the call returns NULL exactly when the queue was empty, and
    calls by the consumer alone return everything. -/
theorem mpscq_pop_null (s₀ : State α τ) (h : Reachable s₀) :
    (∀ l s, InCall s₀ l s → s.cons = .idle → s.rets = s₀.rets →
        ∃ m ∈ l, m.cons ≠ .idle ∧ (Drained m ∨ MidPush m))
      ∧ (∀ l s, InCall s₀ l s → s.cons = .idle → (∀ m ∈ l, ¬ MidPush m) →
        (s.rets = s₀.rets ↔ Drained s₀))
      ∧ (s₀.cons = .idle → ¬ MidPush s₀ →
        ∃ s, mpscqPops (pending s₀).length s₀ = some s ∧ s.cons = .idle
          ∧ s.rets = elems s₀.xchgs) := by
  refine ⟨fun l s => null_excuse h, fun l s => null_iff h, fun hidle hquiet => ?_⟩
  obtain ⟨hpre, -⟩ := mpscq_fifo s₀ h
  have hlen := hpre.length_le
  refine mpscqPops_drain _ s₀ h hidle hquiet ?_
  rw [pending, List.length_drop]
  omega

/-- A call that finds the link owed returns NULL and has its excuse.  Once the link is
    stored no undisturbed call does, and two calls return both nodes. -/
theorem mpscq_pop_null_two_producers :
    (∃ l s, InCall halfLinked l s ∧ s.cons = .idle ∧ s.rets = halfLinked.rets
        ∧ ∃ m ∈ l, m.cons ≠ .idle ∧ (Drained m ∨ MidPush m))
      ∧ (∀ l s, InCall bothLinked l s → s.cons = .idle → (∀ m ∈ l, ¬ MidPush m) →
          s.rets ≠ bothLinked.rets)
      ∧ ∃ s, mpscqPops 2 bothLinked = some s ∧ s.cons = .idle
          ∧ s.rets = [.elem 0, .elem 1] := by
  have hlinked : Reachable bothLinked := prodSteps_reachable halfLinked_reachable false 1
  have hcall : InCall halfLinked
      [consSteps halfLinked 3, consSteps halfLinked 2, consSteps halfLinked 1]
      (consSteps halfLinked 3) := by
    have hload : (consSteps halfLinked 1).cons ≠ .idle := by
      rw [show (consSteps halfLinked 1).cons = .loadNext .stub from rfl]
      simp
    have hbranch : (consSteps halfLinked 2).cons ≠ .idle := by
      rw [show (consSteps halfLinked 2).cons = .branch .stub none from rfl]
      simp
    have hfirst : InCall halfLinked [consSteps halfLinked 1] (consSteps halfLinked 1) :=
      .enter rfl rfl
    have hsecond : InCall halfLinked [consSteps halfLinked 2, consSteps halfLinked 1]
        (consSteps halfLinked 2) :=
      hfirst.step hload (show Step _ .cons _ from rfl)
    exact hsecond.step hbranch (show Step _ .cons _ from rfl)
  obtain ⟨hexcuse, -, -⟩ := mpscq_pop_null halfLinked halfLinked_reachable
  obtain ⟨-, hnull, hdrain⟩ := mpscq_pop_null bothLinked hlinked
  refine ⟨⟨_, _, hcall, rfl, rfl, hexcuse _ _ hcall rfl rfl⟩, ?_, hdrain rfl ?_⟩
  · intro l s hin hend hquiet heq
    cases (hnull l s hin hend hquiet).mp heq
  · rintro ⟨t, n, prev, ht⟩
    cases t with
    | false => cases (show PushPc.idle = PushPc.link n prev from ht)
    | true => cases (show PushPc.idle = PushPc.link n prev from ht)

end MpscqCall
