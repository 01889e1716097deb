import TreasureHouse.MpscqCallProofs

/-! # A returned node is the caller's alone

    A producer that exchanged `head` long ago may still owe the link from the
    old head, so a node must not leave the queue before its link is written.
    `mpscq_pop` gives a node away only after it read that link.  From then on,
    and until the node is pushed again, it is out of the queue
    (`¬ InQueue`), and no thread has a pointer to it that it will follow
    (`mpscq_reclaim`). -/

namespace MpscqReclaim

open Succession Mpscq MpscqOrder MpscqCall LabelledRun

variable {α τ : Type} [DecidableEq α] [DecidableEq τ]

/-- The nodes of the queue: from `tail` along the links, those in memory and
    those a push still owes. -/
inductive Queued (s : State α τ) : Node α → Prop where
  | tail : Queued s s.tail
  | linked {p q : Node α} : Queued s p → s.next p = some q → Queued s q
  | owed {p q : Node α} {i : Option τ} : Queued s p → pusher s i = .link q p → Queued s q

/-- The node whose `next` field an access of `mpscq_push` reads or writes. -/
def PushTouches (pc : PushPc α) (m : Node α) : Prop :=
  match pc with
  | .clear n => m = n
  | .link _ prev => m = prev
  | _ => False

/-- The same for `mpscq_pop`. -/
def PopTouches (pc : PopPc α) (m : Node α) : Prop :=
  match pc with
  | .loadNext tail => m = tail
  | .loadNextAgain tail => m = tail
  | .pushStub tail .idle => m = tail
  | .pushStub _ pc => PushTouches pc m
  | _ => False

/-- The step reads or writes `m->next`. -/
def Touches (s : State α τ) (act : Act α τ) (m : Node α) : Prop :=
  match act with
  | .begin _ _ => False
  | .prod t => PushTouches (s.prod t) m
  | .cons => PopTouches s.cons m

/-- The memory of node `m` is something else, as after `free`. -/
def setNext (s : State α τ) (m : Node α) (v : Option (Node α)) : State α τ :=
  { s with next := Function.update s.next m v }

/-- No step reads or writes the node, and none depends on what its memory
    holds. -/
def Untouched (s : State α τ) (act : Act α τ) (m : Node α) : Prop :=
  ¬ Touches s act m ∧ ∀ s', Step s act s' →
    s'.next m = s.next m ∧ ∀ v, Step (setNext s m v) act (setNext s' m v)

/-- The steps that do not begin a push of `a`. -/
def NoPushOf (a : α) : State α τ → Act α τ → Prop := fun _ act => ∀ t, act ≠ .begin t a

-- ── What a step does not touch ───────────────────────────────────────────────

section Frame

variable {s s' : State α τ} {m : Node α}

omit [DecidableEq τ] in
theorem pushStep_frame {pc : PushPc α} {r : State α τ × PushPc α} (hm : ¬ PushTouches pc m)
    (hs : pushStep s pc = some r) :
    r.1.next m = s.next m
      ∧ ∀ v, pushStep (setNext s m v) pc = some (setNext r.1 m v, r.2) := by
  cases pc with
  | idle => cases hs
  | clear n =>
      cases hs
      have hmn : m ≠ n := hm
      refine ⟨Function.update_of_ne hmn _ _, fun v => ?_⟩
      rw [pushStep, setNext, setNext]
      simp only [Function.update_comm hmn.symm]
  | load n => cases hs; exact ⟨rfl, fun v => rfl⟩
  | cas n cur =>
      rw [pushStep] at hs
      by_cases hcur : s.head = cur
      · rw [if_pos hcur] at hs
        cases hs
        exact ⟨rfl, fun v => if_pos hcur⟩
      · rw [if_neg hcur] at hs
        cases hs
        exact ⟨rfl, fun v => if_neg hcur⟩
  | link n prev =>
      cases hs
      have hmp : m ≠ prev := hm
      refine ⟨Function.update_of_ne hmp _ _, fun v => ?_⟩
      rw [pushStep, setNext, setNext]
      simp only [Function.update_comm hmp.symm]

omit [DecidableEq τ] in
theorem popStep_untouched (hm : ¬ PopTouches s.cons m) (hs : popStep s = some s') :
    s'.next m = s.next m ∧ ∀ v, popStep (setNext s m v) = some (setNext s' m v) := by
  have hcons : ∀ v, (setNext s m v).cons = s.cons := fun _ => rfl
  rw [popStep] at hs
  simp only [popStep, hcons]
  cases hpc : s.cons with
  | idle => rw [hpc] at hs; cases hs; exact ⟨rfl, fun v => rfl⟩
  | loadNext tail =>
      rw [hpc] at hs hm
      cases hs
      refine ⟨rfl, fun v => ?_⟩
      have hmt : m ≠ tail := hm
      show some { setNext s m v with cons := .branch tail (Function.update s.next m v tail) } = _
      rw [Function.update_of_ne hmt.symm]
      rfl
  | branch tail next =>
      rw [hpc] at hs
      by_cases hstub : tail = .stub
      · simp only [if_pos hstub] at hs ⊢
        cases next <;> cases hs <;> exact ⟨rfl, fun v => rfl⟩
      · simp only [if_neg hstub] at hs ⊢
        cases next <;> cases hs <;> exact ⟨rfl, fun v => rfl⟩
  | loadNextAgain tail =>
      rw [hpc] at hs hm
      cases hs
      refine ⟨rfl, fun v => ?_⟩
      have hmt : m ≠ tail := hm
      show some { setNext s m v with cons := .tryNext tail (Function.update s.next m v tail) } = _
      rw [Function.update_of_ne hmt.symm]
      rfl
  | tryNext tail next =>
      rw [hpc] at hs
      cases next <;> cases hs <;> exact ⟨rfl, fun v => rfl⟩
  | compareHead tail head =>
      rw [hpc] at hs
      by_cases hne : tail ≠ head
      · simp only [if_pos hne] at hs ⊢
        cases hs
        exact ⟨rfl, fun v => rfl⟩
      · simp only [if_neg hne] at hs ⊢
        cases hs
        exact ⟨rfl, fun v => rfl⟩
  | pushStub tail pc =>
      rw [hpc] at hs hm
      -- the stub push is the producers' push
      have hpush : (pushStep s pc).map (fun r => { r.1 with cons := .pushStub tail r.2 }) = some s' →
          ¬ PushTouches pc m → s'.next m = s.next m ∧ ∀ v,
            (pushStep (setNext s m v) pc).map (fun r => { r.1 with cons := .pushStub tail r.2 })
              = some (setNext s' m v) := by
        intro hmap hpm
        obtain ⟨r, hr, rfl⟩ := Option.map_eq_some_iff.mp hmap
        obtain ⟨hnext, hset⟩ := pushStep_frame hpm hr
        exact ⟨hnext, fun v => by rw [hset v]; rfl⟩
      cases pc with
      | idle =>
          cases hs
          refine ⟨rfl, fun v => ?_⟩
          have hmt : m ≠ tail := hm
          show some { setNext s m v with cons := .lastTry tail (Function.update s.next m v tail) } = _
          rw [Function.update_of_ne hmt.symm]
          rfl
      | clear n => exact hpush hs hm
      | load n => exact hpush hs hm
      | cas n cur => exact hpush hs hm
      | link n prev => exact hpush hs hm
  | lastTry tail next =>
      rw [hpc] at hs
      cases next <;> cases hs <;> exact ⟨rfl, fun v => rfl⟩
  | ret n => rw [hpc] at hs; cases hs; exact ⟨rfl, fun v => rfl⟩

/-- A step that does not touch a node works alike whatever the node holds. -/
theorem untouched {act : Act α τ} (hm : ¬ Touches s act m) : Untouched s act m := by
  refine ⟨hm, fun s' hs => ?_⟩
  cases act with
  | begin t a =>
      obtain ⟨hidle, hnew, rfl⟩ := hs
      exact ⟨rfl, fun v => ⟨hidle, hnew, rfl⟩⟩
  | prod t =>
      obtain ⟨r, hr, rfl⟩ := hs
      obtain ⟨hnext, hset⟩ := pushStep_frame hm hr
      exact ⟨hnext, fun v => ⟨_, hset v, rfl⟩⟩
  | cons => exact popStep_untouched hm hs

end Frame

-- ── The nodes of the queue ───────────────────────────────────────────────────

section Queue

variable {s s' : State α τ} {l : List (Node α)}

omit [DecidableEq τ] in
/-- The nodes of the queue are on the chain. -/
theorem Queued.mem_chain (h : Inv s l) {p : Node α} (hp : Queued s p) : p ∈ l := by
  induction hp with
  | tail => exact h.tail_mem
  | @linked p q _ hnext ih =>
      have hne : p ≠ s.head := by
        rintro rfl
        rw [h.chain.ended] at hnext
        cases hnext
      obtain ⟨c, hc⟩ := exists_follows h.chain.last ih hne
      rcases h.chain.linked p c hc with hl | ⟨hl, -⟩
      · rw [hnext] at hl
        cases hl
        exact hc.mem_right
      · rw [hnext] at hl
        cases hl
  | owed _ hi _ => exact (h.chain.owed _ _ _ hi).1.mem_right

omit [DecidableEq τ] in
/-- A node out of the queue is neither on the chain nor being pushed. -/
theorem off_chain (h : Inv s l) {a : α} (hout : ¬ InQueue s (.elem a)) :
    .elem a ∉ l ∧ ∀ i, ¬ Pushes (pusher s i) (.elem a) := by
  rw [InQueue, not_or] at hout
  constructor
  · intro hmem
    refine hout.1 ?_
    rw [h.pending_eq]
    exact List.mem_append.mpr (Or.inr (List.mem_filter.mpr ⟨hmem, by simp⟩))
  · intro i hi
    cases i with
    | none => exact absurd ((h.chain.stub_iff none _ hi).mpr rfl) (by simp)
    | some u => exact hout.2 ⟨u, hi⟩

omit [DecidableEq τ] in
/-- Nobody pushes the front of the chain. -/
theorem front_not_pushed (h : Inv s l) (i : Option τ) : ¬ Pushes (pusher s i) s.tail := by
  intro hi
  obtain ⟨t, rfl⟩ := List.head?_eq_some_iff.mp h.front
  have hunex : ∀ {pc : PushPc α}, Pushes pc s.tail →
      Unexchanged pc s.tail ∨ ∃ prev, pc = .link s.tail prev := by
    intro pc hpc
    cases pc with
    | link n prev => exact Or.inr ⟨prev, by rw [show n = s.tail from hpc]⟩
    | idle => exact hpc.elim
    | _ => exact Or.inl hpc
  rcases hunex hi with hu | ⟨prev, hlink⟩
  · exact h.chain.fresh i _ hu (List.mem_cons_self ..)
  · -- nothing comes before the front
    obtain ⟨hf, -⟩ := h.chain.owed i _ _ hlink
    have hnd := List.nodup_cons.mp h.chain.nodup
    rcases follows_cons.mp hf with ⟨-, hq⟩ | hf
    · exact hnd.1 (List.mem_of_mem_head? hq)
    · exact hnd.1 hf.mem_right

end Queue

-- ── From the return on ───────────────────────────────────────────────────────

/-- The node about to be returned is the first pending one, comes up only once
    among them, and nobody pushes it. -/
def Leaving (s : State α τ) : Prop :=
  ∀ n, s.cons = .ret n → n ∉ (pending s).tail ∧ ∀ t, ¬ Pushes (s.prod t) n

section Return

variable {s s' : State α τ} {l : List (Node α)}

omit [DecidableEq τ] in
/-- A push goes on with its own node. -/
theorem pushStep_pushes {pc : PushPc α} {r : State α τ × PushPc α} (hs : pushStep s pc = some r)
    {m : Node α} (hm : Pushes r.2 m) : Pushes pc m := by
  obtain ⟨n, rfl, rfl⟩ | ⟨n, rfl, rfl⟩ | ⟨n, rfl, rfl⟩ | ⟨n, cur, rfl, -, rfl⟩ |
    ⟨n, prev, -, rfl⟩ := pushStep_cases hs
  · exact hm
  · exact hm
  · exact hm
  · exact hm
  · exact hm.elim

omit [DecidableEq τ] in
/-- Only the exchange of a push adds its node to the history. -/
theorem pushStep_xchgs {pc : PushPc α} {r : State α τ × PushPc α} (hs : pushStep s pc = some r) :
    r.1.xchgs = s.xchgs ∨ ∃ n, Pushes pc n ∧ r.1.xchgs = s.xchgs ++ [n] := by
  obtain ⟨n, -, rfl⟩ | ⟨n, -, rfl⟩ | ⟨n, rfl, rfl⟩ | ⟨n, cur, -, -, rfl⟩ | ⟨n, prev, -, rfl⟩ :=
    pushStep_cases hs
  · exact Or.inl rfl
  · exact Or.inl rfl
  · exact Or.inr ⟨n, rfl, rfl⟩
  · exact Or.inl rfl
  · exact Or.inl rfl

theorem prodStep_frame {t : τ} (h : Inv s l) (hs : Step s (.prod t) s') :
    s'.cons = s.cons ∧ s'.rets = s.rets
      ∧ (∀ u m, Pushes (s'.prod u) m → Pushes (s.prod u) m)
      ∧ (s'.xchgs = s.xchgs ∨ ∃ n, Pushes (s.prod t) n ∧ s'.xchgs = s.xchgs ++ [n]) := by
  obtain ⟨r, hr, rfl⟩ := hs
  obtain ⟨-, -, -, -, -, -, -, hcons, -, hrets⟩ := pushStep_chain h (i := some t) hr
  refine ⟨hcons, hrets, ?_, pushStep_xchgs hr⟩
  intro u m hm
  by_cases hu : u = t
  · subst hu
    have hm' : Pushes (Function.update s.prod u r.2 u) m := hm
    rw [Function.update_self] at hm'
    exact pushStep_pushes hr hm'
  · have hm' : Pushes (Function.update s.prod t r.2 u) m := hm
    rwa [Function.update_of_ne hu] at hm'

omit [DecidableEq τ] in
/-- What is pending after an exchange was pending or is the node exchanged. -/
theorem pending_concat {n : Node α} (hx : s'.xchgs = s.xchgs ++ [n]) (hr : s'.rets = s.rets)
    (hlen : s.rets.length ≤ (elems s.xchgs).length) :
    pending s' = pending s ++ elems [n] := by
  rw [pending, pending, hx, hr, elems_concat, List.drop_append_of_le_length hlen]

/-- A node out of the queue stays out until it is pushed. -/
theorem out_step {a : α} {act : Act α τ} (h : Inv s l) (hout : ¬ InQueue s (.elem a))
    (hact : NoPushOf a s act) (hs : Step s act s') : ¬ InQueue s' (.elem a) := by
  have hlen : s.rets.length ≤ (elems s.xchgs).length := by
    rw [← h.history, List.length_append, List.length_append]
    omega
  rw [InQueue, not_or, not_exists] at hout ⊢
  cases act with
  | begin t b =>
      obtain ⟨-, -, rfl⟩ := hs
      refine ⟨hout.1, fun u => ?_⟩
      by_cases hu : u = t
      · subst hu
        show ¬ Pushes (Function.update s.prod u (.clear (.elem b)) u) _
        rw [Function.update_self]
        intro hb
        have hab : Node.elem b = .elem a := hb
        cases hab
        exact hact u rfl
      · show ¬ Pushes (Function.update s.prod t (.clear (.elem b)) u) _
        rw [Function.update_of_ne hu]
        exact hout.2 u
  | prod t =>
      obtain ⟨-, hrets, hpushes, hx⟩ := prodStep_frame h hs
      refine ⟨?_, fun u hu => hout.2 u (hpushes u _ hu)⟩
      rcases hx with hx | ⟨n, hn, hx⟩
      · rw [pending, hx, hrets]
        exact hout.1
      · rw [pending_concat hx hrets hlen, List.mem_append, not_or]
        refine ⟨hout.1, fun hmem => ?_⟩
        have hna := List.mem_singleton.mp (List.mem_filter.mp hmem).1
        exact hout.2 t (hna ▸ hn)
  | cons =>
      obtain ⟨hprod, hrets, -⟩ := popStep_frame hs
      refine ⟨fun hmem => hout.1 ?_, fun u => by rw [hprod]; exact hout.2 u⟩
      rw [pending, popStep_elems h hs] at hmem
      rcases hrets with hr | ⟨-, n, hr⟩
      · rw [hr] at hmem
        exact hmem
      · rw [hr, List.length_append, List.length_singleton, ← List.drop_drop] at hmem
        exact List.mem_of_mem_drop hmem

omit [DecidableEq τ] in
/-- The consumer comes to a return by taking the front off the chain. -/
theorem popStep_ret {n : Node α} (h : Inv s l) (hs : popStep s = some s') (hn : s'.cons = .ret n) :
    n = s.tail ∧ n ≠ .stub ∧ returning s.cons = [] ∧ s'.rets = s.rets ∧ s'.xchgs = s.xchgs := by
  have hc := h.consumer
  rw [ConsInv] at hc
  rw [popStep] at hs
  cases hpc : s.cons with
  | branch tail next =>
      rw [hpc] at hs hc
      by_cases hstub : tail = .stub
      · simp only [if_pos hstub] at hs
        cases next <;> cases hs <;> cases hn
      · simp only [if_neg hstub] at hs
        cases next with
        | none => cases hs; cases hn
        | some q => cases hs; cases hn; exact ⟨hc.1, hstub, rfl, rfl, rfl⟩
  | tryNext tail next =>
      rw [hpc] at hs hc
      cases next with
      | none => cases hs; cases hn
      | some q => cases hs; cases hn; exact ⟨hc.1, hc.2.1, rfl, rfl, rfl⟩
  | lastTry tail next =>
      rw [hpc] at hs hc
      cases next with
      | none => cases hs; cases hn
      | some q => cases hs; cases hn; exact ⟨hc.1, hc.2.1, rfl, rfl, rfl⟩
  | compareHead tail head =>
      rw [hpc] at hs
      by_cases hne : tail ≠ head
      · simp only [if_pos hne] at hs
        cases hs
        cases hn
      · simp only [if_neg hne] at hs
        cases hs
        cases hn
  | pushStub tail pc =>
      rw [hpc] at hs
      cases pc with
      | idle => cases hs; cases hn
      | _ =>
          obtain ⟨r, -, rfl⟩ := Option.map_eq_some_iff.mp hs
          cases hn
  | _ => rw [hpc] at hs; cases hs; cases hn

/-- **STEP LEMMA** for the node about to be returned. -/
theorem leaving_step {act : Act α τ} (h : Inv s l) (hl : Leaving s) (hs : Step s act s') :
    Leaving s' := by
  intro n hn
  have hlen : s.rets.length ≤ (elems s.xchgs).length := by
    rw [← h.history, List.length_append, List.length_append]
    omega
  cases act with
  | begin t b =>
      obtain ⟨-, hnew, rfl⟩ := hs
      obtain ⟨htail, hpush⟩ := hl n hn
      refine ⟨htail, fun u => ?_⟩
      by_cases hu : u = t
      · subst hu
        show ¬ Pushes (Function.update s.prod u (.clear (.elem b)) u) _
        rw [Function.update_self]
        rintro rfl
        -- the node being returned is still pending
        refine hnew (Or.inl ?_)
        rw [h.pending_eq, show s.cons = .ret (.elem b) from hn]
        exact List.mem_cons_self ..
      · show ¬ Pushes (Function.update s.prod t (.clear (.elem b)) u) _
        rw [Function.update_of_ne hu]
        exact hpush u
  | prod t =>
      obtain ⟨hcons, hrets, hpushes, hx⟩ := prodStep_frame h hs
      rw [hcons] at hn
      obtain ⟨htail, hpush⟩ := hl n hn
      refine ⟨?_, fun u hu => hpush u (hpushes u _ hu)⟩
      rcases hx with hx | ⟨m, hm, hx⟩
      · rw [pending, hx, hrets]
        exact htail
      · have hne : pending s ≠ [] := by
          rw [h.pending_eq, hn]
          exact List.cons_ne_nil _ _
        rw [pending_concat hx hrets hlen, List.tail_append_of_ne_nil hne, List.mem_append, not_or]
        refine ⟨htail, fun hmem => ?_⟩
        have hmn := List.mem_singleton.mp (List.mem_filter.mp hmem).1
        exact hpush t (hmn ▸ hm)
  | cons =>
      obtain ⟨rfl, hstub, hret, hrets, hx⟩ := popStep_ret h hs hn
      obtain ⟨hprod, -, -⟩ := popStep_frame hs
      refine ⟨?_, fun u => by rw [hprod]; exact front_not_pushed h (some u)⟩
      obtain ⟨t, rfl⟩ := List.head?_eq_some_iff.mp h.front
      have he : elems (s.tail :: t) = s.tail :: elems t :=
        List.filter_cons_of_pos (by simpa using hstub)
      have hp : pending s' = s.tail :: elems t := by
        rw [pending, hx, hrets]
        show pending s = _
        rw [h.pending_eq, hret, he]
        rfl
      rw [hp, List.tail_cons]
      exact fun hmem => (List.nodup_cons.mp h.chain.nodup).1 (List.mem_filter.mp hmem).1

/-- **RUN LEMMA** for the node about to be returned. -/
theorem reachable_leaving (h : Reachable s) : Leaving s := by
  refine Reach.invariant (I := Leaving) ?_ ?_ s h
  · rintro s ⟨-, -, -, -, hcons, -⟩ n hn
    rw [hcons] at hn
    cases hn
  · intro s act s' hr hl hs
    obtain ⟨l, hinv⟩ := reachable_inv hr
    exact leaving_step hinv hl hs

/-- Once returned, a node is out of the queue. -/
theorem returned_out {a : α} (h : Reachable s) (hret : s.cons = .ret (.elem a))
    (hs : popStep s = some s') : ¬ InQueue s' (.elem a) := by
  obtain ⟨htail, hpush⟩ := reachable_leaving h _ hret
  rw [popStep, hret] at hs
  cases hs
  rintro (hmem | ⟨t, ht⟩)
  · refine htail ?_
    have hdrop : pending { s with cons := .idle, rets := s.rets ++ [Node.elem a] }
        = (pending s).tail := by
      rw [pending, pending, List.length_append, List.length_singleton, ← List.drop_one,
        List.drop_drop]
    rw [← hdrop]
    exact hmem
  · exact hpush t ht

/-- What holds of a node that is out of the queue: nothing in the queue points
    to it and nobody touches it. -/
theorem out_untouched (h : Inv s l) {a : α} (hout : ¬ InQueue s (.elem a)) :
    s.head ≠ .elem a ∧ s.tail ≠ .elem a ∧ (∀ p, Queued s p → s.next p ≠ some (.elem a))
      ∧ (∀ t n, s.prod t ≠ .link n (.elem a)) ∧ ∀ act, Untouched s act (.elem a) := by
  obtain ⟨hl, hpush⟩ := off_chain h hout
  have hlink : ∀ i n, pusher s i ≠ .link n (.elem a) :=
    fun i n hi => hl (h.chain.owed i n _ hi).1.mem_left
  have hpt : ∀ i, ¬ PushTouches (pusher s i) (.elem a) := by
    intro i hi
    cases hpc : pusher s i with
    | clear n =>
        rw [hpc] at hi
        refine hpush i ?_
        rw [hpc]
        exact (show Node.elem a = n from hi).symm
    | link n prev =>
        rw [hpc] at hi
        exact hlink i n (by rw [hpc, show Node.elem a = prev from hi])
    | _ => rw [hpc] at hi; exact hi
  refine ⟨fun he => hl (he ▸ h.chain.head_mem), fun he => hl (he ▸ h.tail_mem),
    fun p hp he => hl ((hp.linked he).mem_chain h), fun t n => hlink (some t) n, ?_⟩
  intro act
  refine untouched fun ht => ?_
  cases act with
  | begin t b => exact ht
  | prod t => exact hpt (some t) ht
  | cons =>
      have hc := h.consumer
      rw [ConsInv] at hc
      have ht' : PopTouches s.cons (.elem a) := ht
      have hfront : ∀ {tail : Node α}, tail = s.tail → Node.elem a ≠ tail := by
        rintro tail rfl he
        exact hl (he ▸ h.tail_mem)
      cases hpc : s.cons with
      | loadNext tail => rw [hpc] at hc ht'; exact hfront hc ht'
      | loadNextAgain tail => rw [hpc] at hc ht'; exact hfront hc.1 ht'
      | pushStub tail pc =>
          rw [hpc] at hc ht'
          have hpn : pusher s none = pc := by show stubPc s.cons = _; rw [hpc]; rfl
          have hpt' := hpt none
          rw [hpn] at hpt'
          cases pc with
          | idle => exact hfront hc.1 ht'
          | _ => exact hpt' ht'
      | _ => rw [hpc] at ht'; exact ht'

end Return

/-- **SAFE RECLAMATION**: from the return of a node until a push of it begins,
    `head`, `tail` and the links of the queue differ from it, no producer holds
    it as its `prev`, and no step reads or writes it. -/
theorem mpscq_reclaim {s₀ s₁ s : State α τ} {a : α} (h : Reachable s₀)
    (hret : s₀.cons = .ret (.elem a)) (hpop : popStep s₀ = some s₁)
    (hs : Reach (· = s₁) (guarded (NoPushOf a) Step) s) :
    s.head ≠ .elem a ∧ s.tail ≠ .elem a ∧ (∀ p, Queued s p → s.next p ≠ some (.elem a))
      ∧ (∀ t n, s.prod t ≠ .link n (.elem a)) ∧ ∀ act, Untouched s act (.elem a) := by
  have hout : Reachable s ∧ ¬ InQueue s (.elem a) := by
    refine Reach.invariant (I := fun s => Reachable s ∧ ¬ InQueue s (.elem a)) ?_ ?_ s hs
    · rintro s rfl
      exact ⟨h.next (e := Act.cons) hpop, returned_out h hret hpop⟩
    · rintro s act s' - ⟨hr, hout⟩ ⟨hact, hstep⟩
      obtain ⟨l, hinv⟩ := reachable_inv hr
      exact ⟨hr.next hstep, out_step hinv hout hact hstep⟩
  obtain ⟨l, hinv⟩ := reachable_inv hout.1
  exact out_untouched hinv hout.2

/-- The second producer pushes another node and stops in front of its link, and the
    consumer is about to return the first. -/
def returningFirst : State Nat Bool :=
  consSteps (prodSteps (beginPush bothLinked true 2) true 3) 5

/-- The consumer has returned it, and the next call has seen the owed link and returned
    NULL. -/
def returnedFirst : State Nat Bool := consSteps (consSteps returningFirst 1) 4

/-- The memory of the first node can go while a producer is stopped in its push. -/
theorem mpscq_reclaim_two_producers :
    returnedFirst.prod true = .link (.elem 2) (.elem 1) ∧ returnedFirst.rets = [.elem 0]
      ∧ returnedFirst.cons = .idle
      ∧ returnedFirst.head ≠ .elem 0 ∧ returnedFirst.tail ≠ .elem 0
      ∧ (∀ p, Queued returnedFirst p → returnedFirst.next p ≠ some (.elem 0))
      ∧ (∀ t n, returnedFirst.prod t ≠ .link n (.elem 0))
      ∧ ∀ act, Untouched returnedFirst act (.elem 0) := by
  have hlinked : Reachable bothLinked := prodSteps_reachable halfLinked_reachable false 1
  have hnew : ¬ InQueue bothLinked (.elem 2) := by
    rintro (h | ⟨t, h⟩)
    · exact absurd h (by decide)
    · cases t <;> exact h
  have hbegun : Reachable (beginPush bothLinked true 2) :=
    hlinked.next (e := Act.begin true 2) ⟨rfl, hnew, rfl⟩
  have hreturning : Reachable returningFirst :=
    consSteps_reach (fun _ _ h => h) (prodSteps_reachable hbegun true 3) 5
  have hpop : ∀ s s' : State Nat Bool, popStep s = some s' →
      guarded (NoPushOf 0) Step s .cons s' := by
    intro s s' h
    refine ⟨?_, h⟩
    rintro t ⟨⟩
  have hreturn : Reach (· = consSteps returningFirst 1) (guarded (NoPushOf 0) Step)
      (consSteps returningFirst 1) := Reach.start rfl
  have hlater := consSteps_reach hpop hreturn 4
  exact ⟨rfl, rfl, rfl, mpscq_reclaim (a := 0) hreturning rfl rfl hlater⟩

end MpscqReclaim
