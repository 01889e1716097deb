import TreasureHouse.LabelledRunProofs
import TreasureHouse.ReadyStepProofs

/-! # The ready ring — what overlapping insertions leave behind

    Two overlapping insertions lose a coroutine only if both read the tail
    before either stores it, or if the later one stores into the tail's `next`
    before the tail's own insertion does.  `InOrder` excludes the two, and
    `ready_ring` says that the queue is then a ring of everybody, and that it
    never is again after an access out of order (`Spoiled`). -/

namespace ReadyRing

open LabelledRun Succession LinkRing

-- ── A spoiled queue ──────────────────────────────────────────────────────────

/-- What `list_add_tail` has yet to store as the `prev` of its node. -/
def AddPc.toPrev : AddPc → Option Node
  | .setHeadPrev prev => some prev
  | .setNext prev => some prev
  | .setPrev prev => some prev
  | _ => none

/-- The `prev` of the coroutine `x` is `p`, or its insertion is to store it. -/
structure HasPrev (s : State) (x : Nat) (p : Node) : Prop where
  settled : Settled s x
  prev : (∃ t pc, adding s t = some (x, pc) ∧ pc.toPrev = some p)
    ∨ (s.links.prev (.co x) = some p
      ∧ ∀ t pc, adding s t = some (x, pc) → ∃ q, pc = .setPrevNext q)

/-- The coroutine `x` ends the forward links without being the tail: its `next`
    is the head, or its insertion is to store that, and nobody links it on. -/
structure CutOff (s : State) (x : Nat) : Prop where
  settled : Settled s x
  tail : s.links.prev .ready ≠ some (.co x)
  read : ∀ t n pc, adding s t = some (n, pc) → pc.read ≠ some (.co x)
  next : (∃ t q, adding s t = some (x, .setNext q)) ∨ s.links.next (.co x) = some .ready
  stored : ∀ t pc, adding s t = some (x, pc) → pc.needsLink = true

/-- Two coroutines have one `prev`, or one is cut off. -/
def Spoiled (s : State) : Prop :=
  (∃ x y p, x ≠ y ∧ HasPrev s x p ∧ HasPrev s y p) ∨ ∃ x, CutOff s x

section Spoiled

variable {s s' : State} {order : List Nat} {t : Thread} {n : Nat} {pc : AddPc}

theorem Quiet.hasPrev {x : Nat} {p : Node} (q : Quiet s s') (h : HasPrev s x p) :
    HasPrev s' x p where
  settled := q.settled x h.settled
  prev := by
    rcases h.prev with ⟨t, pc, hA, hpc⟩ | ⟨hp, hall⟩
    · exact Or.inl ⟨t, pc, q.keeps t x pc hA, hpc⟩
    · refine Or.inr ⟨by rw [(q.links (.co x) h.settled).2]; exact hp, ?_⟩
      intro t pc hA
      rcases q.starts t x pc hA with hA | ⟨-, hnew, -⟩
      · exact hall t pc hA
      · exact absurd h.settled hnew

theorem Quiet.cutOff {x : Nat} (q : Quiet s s') (h : CutOff s x) : CutOff s' x where
  settled := q.settled x h.settled
  tail := by
    rw [(q.links .ready trivial).2]
    exact h.tail
  read := by
    intro t n pc hA
    rcases q.starts t n pc hA with hA | ⟨rfl, -⟩
    · exact h.read t n pc hA
    · exact fun he => nomatch he
  next := by
    rcases h.next with ⟨t, p, hA⟩ | hn
    · exact Or.inl ⟨t, p, q.keeps t x _ hA⟩
    · refine Or.inr ?_
      rw [(q.links (.co x) h.settled).1]
      exact hn
  stored := by
    intro t pc hA
    rcases q.starts t x pc hA with hA | ⟨-, hnew, -⟩
    · exact h.stored t pc hA
    · exact absurd h.settled hnew

/-- The insertion of a coroutine is where it was if another one moves. -/
theorem adding_moved_ne {x : Nat} (hA : adding s t = some (n, pc)) (hx : x ≠ n) (m : Links)
    (o : Option AddPc) (u : Thread) (pc' : AddPc) :
    adding (moved s t n m o) u = some (x, pc') ↔ adding s u = some (x, pc') := by
  rw [adding_moved]
  rcases Thread.eq_or_other t u with rfl | rfl
  · rw [Function.update_self, hA]
    constructor
    · intro hu
      obtain ⟨pc₁, -, heq⟩ := Option.map_eq_some_iff.mp hu
      cases heq
      exact absurd rfl hx
    · intro hu
      cases hu
      exact absurd rfl hx
  · rw [Function.update_of_ne (Thread.other_ne t)]

/-- The insertion of a coroutine is its own thread's. -/
theorem adding_moved_self (h : QueueInv s) (hA : adding s t = some (n, pc)) {m : Links}
    {o : Option AddPc} {u : Thread} {pc' : AddPc}
    (hu : adding (moved s t n m o) u = some (n, pc')) : o = some pc' := by
  rw [adding_moved] at hu
  rcases update_cases hu with ⟨-, -, ho⟩ | ⟨-, hu⟩
  · exact ho
  · exact absurd rfl (h.apart t n pc hA n pc' hu)

/-- A `prev` that two coroutines have in common they keep. -/
theorem addNext_hasPrev {x : Nat} {p : Node} (h : QueueInv s) (hp : HasPrev s x p)
    (hA : adding s t = some (n, pc)) (hs : addNext s t n pc = some s') : HasPrev s' x p := by
  obtain ⟨m, o, hstep, rfl⟩ := addNext_moved hs
  refine ⟨settled_moved hA m o hp.settled, ?_⟩
  by_cases hx : x = n
  · subst hx
    have hown : (∃ pc', o = some pc' ∧ pc'.toPrev = some p)
        ∨ (m.prev (.co x) = some p ∧ ∀ pc', o = some pc' → ∃ q, pc' = .setPrevNext q) := by
      rcases hp.prev with ⟨u, pc', hu, hto⟩ | ⟨hprev, hall⟩
      · have hpc : pc' = pc := by
          rcases Thread.eq_or_other t u with rfl | rfl
          · rw [hA] at hu
            cases hu
            rfl
          · exact absurd rfl (h.apart t x pc hA x pc' hu)
        subst hpc
        cases pc' with
        | readPrev | setPrevNext q => cases hto
        | setHeadPrev q | setNext q =>
            cases hstep
            exact Or.inl ⟨_, rfl, hto⟩
        | setPrev q =>
            cases hto
            cases hstep
            refine Or.inr ⟨s.links.setPrev_self .., ?_⟩
            intro pc' ho
            cases ho
            exact ⟨_, rfl⟩
      · obtain ⟨q, rfl⟩ := hall t pc hA
        cases hstep
        exact Or.inr ⟨hprev, fun _ ho => nomatch ho⟩
    have hmoved : ∀ pc', o = some pc' →
        adding (moved s t x m o) t = some (x, pc') := by
      rintro pc' rfl
      rw [adding_moved, Function.update_self]
      rfl
    rcases hown with ⟨pc', ho, hto⟩ | ⟨hprev, hall⟩
    · exact Or.inl ⟨t, pc', hmoved pc' ho, hto⟩
    · refine Or.inr ⟨by rw [(moved_fields s t x m o).1]; exact hprev, ?_⟩
      exact fun u pc' hu => hall pc' (adding_moved_self h hA hu)
  · have hm : m.prev (.co x) = s.links.prev (.co x) := by
      have hne : Node.co x ≠ .co n := fun he => hx (Node.co.inj he)
      have hready : Node.co x ≠ .ready := fun he => nomatch he
      cases pc with
      | readPrev =>
          obtain ⟨q, -, heq⟩ := Option.map_eq_some_iff.mp hstep
          cases heq
          rfl
      | setHeadPrev q =>
          cases hstep
          exact s.links.setPrev_ne _ hready
      | setPrev q =>
          cases hstep
          exact s.links.setPrev_ne _ hne
      | setNext q | setPrevNext q =>
          cases hstep
          rfl
    rcases hp.prev with ⟨u, pc', hu, hto⟩ | ⟨hprev, hall⟩
    · exact Or.inl ⟨u, pc', (adding_moved_ne hA hx m o u pc').mpr hu, hto⟩
    · refine Or.inr ⟨by rw [(moved_fields s t n m o).1]; exact hm.trans hprev, ?_⟩
      intro u pc' hu
      exact hall u pc' ((adding_moved_ne hA hx m o u pc').mp hu)

/-- A coroutine that is cut off stays so. -/
theorem addNext_cutOff {x : Nat} (h : QueueInv s) (hc : CutOff s x)
    (hA : adding s t = some (n, pc)) (hs : addNext s t n pc = some s') : CutOff s' x := by
  obtain ⟨m, o, hstep, rfl⟩ := addNext_moved hs
  have hlink : n = x → pc.needsLink = true := by
    rintro rfl
    exact hc.stored t pc hA
  have hread := hc.read t n pc hA
  have hco : ∀ {y : Nat}, Node.ready ≠ .co y := fun he => nomatch he
  have hm : m.prev .ready ≠ some (.co x)
      ∧ (∀ pc', o = some pc' → pc'.read ≠ some (.co x) ∧ (n = x → pc'.needsLink = true))
      ∧ (s.links.next (.co x) = some .ready ∨ (n = x ∧ ∃ q, pc = .setNext q) →
          m.next (.co x) = some .ready) := by
    cases pc with
    | readPrev =>
        obtain ⟨q, hq, heq⟩ := Option.map_eq_some_iff.mp hstep
        cases heq
        refine ⟨hc.tail, ?_, ?_⟩
        · intro pc' ho
          cases ho
          exact ⟨fun he => hc.tail (hq.trans he), fun he => absurd (hlink he) Bool.false_ne_true⟩
        · rintro (hn | ⟨-, q, hq⟩)
          · exact hn
          · cases hq
    | setHeadPrev p =>
        cases hstep
        refine ⟨?_, ?_, ?_⟩
        · rw [s.links.setPrev_self]
          intro he
          cases he
          exact absurd (hlink rfl) Bool.false_ne_true
        · intro pc' ho
          cases ho
          exact ⟨hread, fun _ => rfl⟩
        · rintro (hn | ⟨-, q, hq⟩)
          · exact hn
          · cases hq
    | setNext p =>
        cases hstep
        refine ⟨hc.tail, ?_, ?_⟩
        · intro pc' ho
          cases ho
          exact ⟨hread, fun _ => rfl⟩
        · intro hn
          by_cases hx : x = n
          · rw [hx]
            exact s.links.setNext_self ..
          · rw [s.links.setNext_ne _ fun he => hx (Node.co.inj he)]
            rcases hn with hn | ⟨he, -⟩
            · exact hn
            · exact absurd he.symm hx
    | setPrev p =>
        cases hstep
        refine ⟨?_, ?_, ?_⟩
        · rw [s.links.setPrev_ne _ hco]
          exact hc.tail
        · intro pc' ho
          cases ho
          exact ⟨hread, fun _ => rfl⟩
        · rintro (hn | ⟨-, q, hq⟩)
          · exact hn
          · cases hq
    | setPrevNext p =>
        cases hstep
        refine ⟨hc.tail, (fun _ ho => nomatch ho), ?_⟩
        rintro (hn | ⟨-, q, hq⟩)
        · rw [s.links.setNext_ne _ fun he => hread (congrArg some he.symm)]
          exact hn
        · cases hq
  obtain ⟨htail, hpc, hnext⟩ := hm
  exact {
    settled := settled_moved hA m o hc.settled
    tail := by
      rw [(moved_fields s t n m o).1]
      exact htail
    read := by
      intro u k pc' hu
      rw [adding_moved] at hu
      rcases update_cases hu with ⟨-, -, ho⟩ | ⟨-, hu⟩
      · exact (hpc pc' ho).1
      · exact hc.read _ k pc' hu
    next := by
      rw [(moved_fields s t n m o).1]
      rcases hc.next with ⟨u, q, hu⟩ | hn
      · by_cases hx : x = n
        · refine Or.inr (hnext (Or.inr ⟨hx.symm, ?_⟩))
          rcases Thread.eq_or_other t u with rfl | rfl
          · rw [hA] at hu
            cases hu
            exact ⟨q, rfl⟩
          · exact absurd hx (h.apart t n pc hA x _ hu)
        · exact Or.inl ⟨u, q, (adding_moved_ne hA hx m o u _).mpr hu⟩
      · exact Or.inr (hnext (Or.inl hn))
    stored := by
      intro u pc' hu
      by_cases hx : x = n
      · subst hx
        exact (hpc pc' (adding_moved_self h hA hu)).2 rfl
      · exact hc.stored u pc' ((adding_moved_ne hA hx m o u pc').mp hu) }

/-- **NOTHING MENDS** a spoiled queue. -/
theorem step_spoiled {a : Act} (h : QueueInv s) (hsp : Spoiled s) (hs : step s a = some s') :
    Spoiled s' := by
  rcases step_cases h hs with ⟨-, q⟩ | ⟨t, n, pc, -, hA, hs⟩
  · rcases hsp with ⟨x, y, p, hne, hx, hy⟩ | ⟨x, hx⟩
    · exact Or.inl ⟨x, y, p, hne, q.hasPrev hx, q.hasPrev hy⟩
    · exact Or.inr ⟨x, q.cutOff hx⟩
  · rcases hsp with ⟨x, y, p, hne, hx, hy⟩ | ⟨x, hx⟩
    · exact Or.inl ⟨x, y, p, hne, addNext_hasPrev h hx hA hs, addNext_hasPrev h hy hA hs⟩
    · exact Or.inr ⟨x, addNext_cutOff h hx hA hs⟩

theorem Spoiled.not_readyOk (h : Spoiled s) (hr : s.resumer = .idle) (hs : s.submitter = none) :
    ¬ ReadyOk s := by
  rintro ⟨l, hperm, hnd, hring⟩
  have hnone := adding_idle hr hs
  have hd : (Node.ready :: nodes l).Nodup := chain_nodup hnd
  have hmem : ∀ {x : Nat}, Settled s x → Node.co x ∈ nodes l := fun hx =>
    List.mem_map.mpr ⟨_, hperm.mem_iff.mpr hx.1, rfl⟩
  have hprev : ∀ {x : Nat} {p : Node}, HasPrev s x p → s.links.prev (.co x) = some p := by
    intro x p hx
    rcases hx.prev with ⟨t, pc, hA, -⟩ | ⟨hp, -⟩
    · rw [hnone t] at hA
      cases hA
    · exact hp
  rcases h with ⟨x, y, p, hne, hx, hy⟩ | ⟨x, hx⟩
  · have heq := hring.prev.inj hd (hmem hx.settled) (hmem hy.settled)
      ((hprev hx).trans (hprev hy).symm)
    exact hne (Node.co.inj heq)
  · rcases hx.next with ⟨t, q, hA⟩ | hn
    · rw [hnone t] at hA
      cases hA
    · have hlast := hring.next.last hd (List.mem_cons_of_mem _ (hmem hx.settled)) hn
      exact hx.tail (hring.prev _ _ (follows_closed.mpr (Or.inr ⟨hlast, rfl⟩)))

theorem spoils_cases {a b : Option (Nat × AddPc)} (h : spoils a b = true) :
    (∃ n k p, a = some (n, .readPrev) ∧ b = some (k, .setHeadPrev p))
      ∨ ∃ n k q, a = some (n, .setPrevNext (.co k)) ∧ b = some (k, .setNext q) := by
  rw [spoils.eq_def] at h
  split at h
  · exact Or.inl ⟨_, _, _, rfl, rfl⟩
  · rename_i n p k q
    rw [of_decide_eq_true h]
    exact Or.inr ⟨n, k, q, rfl, rfl⟩
  · cases h

/-- **OUT OF ORDER** an access spoils the queue. -/
theorem spoiled_of_not_inOrder {a : Act} (hq : QueueInv s) (h : ReadyInv s order)
    (hg : ¬ InOrder s a) (hs : step s a = some s') : Spoiled s' := by
  rcases a with co | co | t
  · exact absurd trivial hg
  · exact absurd trivial hg
  rw [InOrder, Bool.not_eq_false] at hg
  rcases spoils_cases hg with ⟨n, k, p, hA, hk⟩ | ⟨n, k, q, hA, hk⟩
  · -- the second reader reads the tail that the first has read
    rw [step_adding hA, addNext, addStep, h.chained.tail p (h.chained.reading _ k p hk)] at hs
    cases hs
    refine Or.inl ⟨n, k, p, (hq.apart t n _ hA k _ hk).symm, ⟨?_, Or.inl ?_⟩, ⟨?_, Or.inl ?_⟩⟩
    · exact settled_moved hA s.links (some (.setHeadPrev p)) (hq.added t n _ hA)
    · refine ⟨t, .setHeadPrev p, ?_, rfl⟩
      exact (congrFun (adding_moved s t n s.links (some (.setHeadPrev p))) t).trans
        (Function.update_self ..)
    · exact settled_moved hA s.links (some (.setHeadPrev p)) (hq.added _ k _ hk)
    · refine ⟨t.other, .setHeadPrev p, ?_, rfl⟩
      refine (congrFun (adding_moved s t n s.links (some (.setHeadPrev p))) t.other).trans ?_
      rw [Function.update_of_ne (Thread.other_ne t)]
      exact hk
  · -- the `next` of `k` is stored over by the insertion of `k`
    have hnd : (order ++ outside s).Nodup := h.entered.nodup_iff.mp hq.nodup.of_append_left
    have hchain : (chain order).Nodup := chain_nodup hnd.of_append_left
    have hkn : Follows (chain order) (.co k) (.co n) := h.chained.linking t n _ _ hA rfl
    have hqk : Follows (chain order) q (.co k) := h.chained.linking _ k _ _ hk rfl
    obtain ⟨m, o, hstep, rfl⟩ := addNext_moved ((step_adding hA).symm.trans hs)
    cases hstep
    have hothers : ∀ u b pc, adding (moved s t n (s.links.setNext (.co k) (some (.co n))) none) u
        = some (b, pc) → pc = .setNext q := by
      intro u b pc hu
      rw [adding_moved] at hu
      rcases update_cases hu with ⟨-, -, ho⟩ | ⟨-, hu⟩
      · cases ho
      · rw [hk] at hu
        cases hu
        rfl
    refine Or.inr ⟨k, ?_⟩
    exact {
      settled := settled_moved hA _ none (hq.added _ k _ hk)
      tail := by
        rw [(moved_fields ..).1]
        obtain ⟨z, hz⟩ := exists_last order
        intro he
        have he' : s.links.prev .ready = some (.co k) := he
        rw [h.chained.tail z hz] at he'
        exact hkn.ne_getLast hchain hz (Option.some.inj he').symm
      read := by
        intro u b pc hu
        rw [hothers u b pc hu]
        intro he
        cases he
        have heq := hqk.unique hchain hkn
        exact hq.apart t n _ hA k _ hk (Node.co.inj heq)
      next := by
        refine Or.inl ⟨t.other, q, ?_⟩
        rw [adding_moved, Function.update_of_ne (Thread.other_ne t)]
        exact hk
      stored := by
        intro u pc hu
        rw [hothers u k pc hu]
        rfl }

end Spoiled

/-- **THE READY QUEUE**: in every run whose accesses are in order no call gets
    stuck, and whenever no call is under way `co_ready_queue` is a ring of
    everybody that was resumed or submitted, each once.  After an access out of
    order it never is again. -/
theorem ready_ring :
    ∀ s, Reach Start (guarded InOrder (fires step)) s →
      (∀ t, Busy s t → ∃ s', step s (.next t) = some s')
        ∧ (s.resumer = .idle → s.submitter = none → ReadyOk s)
        ∧ ∀ a s', step s a = some s' → ¬ InOrder s a →
            ∀ u, Reach (fun u => u = s') (fires step) u →
              u.resumer = .idle → u.submitter = none → ¬ ReadyOk u := by
  intro s hr
  obtain ⟨hq, order, h⟩ : QueueInv s ∧ ∃ order, ReadyInv s order := by
    refine Reach.guarded_invariant (I := fun s => QueueInv s ∧ ∃ order, ReadyInv s order) ?_ ?_ s hr
    · exact fun s hs => ⟨queueInv_start hs, s.entered, readyInv_start hs⟩
    · rintro s a s' - ⟨hq, order, h⟩ hg hs
      exact ⟨step_queueInv hq hs, step_readyInv hq h hg hs⟩
  refine ⟨hq.fires, h.readyOk hq, ?_⟩
  intro a s' hs hg u hu hres hsub
  have hspoiled : QueueInv u ∧ Spoiled u := by
    refine Reach.invariant (I := fun u => QueueInv u ∧ Spoiled u) ?_ ?_ u hu
    · rintro u rfl
      exact ⟨step_queueInv hq hs, spoiled_of_not_inOrder hq h hg hs⟩
    · rintro u b u' - ⟨hq, hsp⟩ hs
      exact ⟨step_queueInv hq hs, step_spoiled hq hsp hs⟩
  exact hspoiled.2.not_readyOk hres hsub

/-- The coroutine 1 sleeps and nobody is ready. -/
def oneSleeper : State where
  links :=
    { next := fun x => match x with
        | .ready => some .ready
        | .queue => some (.co 1)
        | .co _ => some .queue
      prev := fun x => match x with
        | .ready => some .ready
        | .queue => some (.co 1)
        | .co _ => some .queue }
  resumer := .idle
  submitter := none
  sleeping := [1]
  entered := []

theorem oneSleeper_start : Start oneSleeper where
  resumer := rfl
  submitter := rfl
  ready := by
    constructor
    · intro p q hf
      rcases follows_closed.mp hf with hf | ⟨hp, rfl⟩
      · cases hf.mem_tail
      · cases hp
        rfl
    · intro p q hf
      rcases follows_closed.mp hf with hf | ⟨hp, rfl⟩
      · cases hf.mem_tail
      · cases hp
        rfl
  queue := by
    have hpairs : ∀ {p q : Node}, Follows (closed .queue (nodes [1])) p q →
        (p = .queue ∧ q = .co 1) ∨ (p = .co 1 ∧ q = .queue) := by
      intro p q hf
      rcases follows_closed.mp hf with hf | ⟨hp, rfl⟩
      · rcases follows_cons.mp hf with ⟨rfl, hq⟩ | hf
        · cases hq
          exact Or.inl ⟨rfl, rfl⟩
        · cases hf.mem_tail
      · cases hp
        exact Or.inr ⟨rfl, rfl⟩
    constructor
    · intro p q hf
      rcases hpairs hf with ⟨rfl, rfl⟩ | ⟨rfl, rfl⟩ <;> rfl
    · intro p q hf
      rcases hpairs hf with ⟨rfl, rfl⟩ | ⟨rfl, rfl⟩ <;> rfl
  nodup := List.nodup_singleton 1

/-- The coroutine 1 is resumed and 2 is submitted, and the insertions overlap:
    the tail is read after the other thread stored it. -/
theorem ready_ring_overlap : ∃ s, ReadyOk s ∧ s.entered = [1, 2] := by
  have hinit : Reach Start (fires (checked (fun s a => decide (InOrder s a)) step)) oneSleeper :=
    Reach.start oneSleeper_start
  obtain ⟨s, hs, htest⟩ := Reach.exists_of_runList
    [.resume 1, .next .resumer, .next .resumer, .next .resumer, .next .resumer, .next .resumer,
      .next .resumer, .next .resumer, .submit 2, .next .submitter, .next .submitter, .next .resumer,
      .next .resumer, .next .submitter, .next .resumer, .next .resumer, .next .submitter,
      .next .resumer, .next .submitter]
    (fun (s : State) => decide (s.resumer = .idle ∧ s.submitter = none ∧ s.entered = [1, 2])) hinit
    (by decide +kernel)
  obtain ⟨hres, hsub, hent⟩ := of_decide_eq_true htest
  have hr := Reach.guarded_of_checked (fun s a h => of_decide_eq_true h) s hs
  exact ⟨s, (ready_ring s hr).2.1 hres hsub, hent⟩

/-- Both threads read the tail before either stores it: both coroutines are
    linked behind the head. -/
theorem ready_lost :
    ¬ ∀ s, Reach Start (fires step) s → s.resumer = .idle → s.submitter = none → ReadyOk s := by
  intro hall
  have hinit : Reach Start (fires step) oneSleeper := Reach.start oneSleeper_start
  obtain ⟨s, hs, htest⟩ := Reach.exists_of_runList
    [.resume 1, .next .resumer, .next .resumer, .next .resumer, .next .resumer, .next .resumer,
      .next .resumer, .next .resumer, .submit 2, .next .submitter, .next .resumer, .next .submitter,
      .next .resumer, .next .submitter, .next .resumer, .next .submitter, .next .resumer,
      .next .submitter, .next .resumer]
    (fun (s : State) => decide (s.resumer = .idle ∧ s.submitter = none ∧ s.entered = [1, 2]
      ∧ s.links.prev (.co 1) = some .ready ∧ s.links.prev (.co 2) = some .ready)) hinit
    (by decide +kernel)
  obtain ⟨hres, hsub, hent, h₁, h₂⟩ := of_decide_eq_true htest
  obtain ⟨l, hperm, hnd, hring⟩ := hall s hs hres hsub
  rw [hent] at hperm
  have hmem : ∀ x ∈ [1, 2], Node.co x ∈ nodes l := fun x hx =>
    List.mem_map.mpr ⟨x, hperm.mem_iff.mpr hx, rfl⟩
  have heq : Node.co 1 = .co 2 :=
    hring.prev.inj (chain_nodup hnd) (hmem 1 (by simp)) (hmem 2 (by simp)) (h₁.trans h₂.symm)
  cases heq

end ReadyRing
