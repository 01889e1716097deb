import TreasureHouse.MpscqProofs

/-! # The queue is first-in first-out across every interleaving

    The memory of the queue is a chain with gaps.  The chain `l` lists the
    nodes from `tail` to `head` in the order of their exchanges; a node is
    linked to its successor in memory, or the thread that exchanged the
    successor still owes the link (`ChainInv`).  Six lemmas say what one access
    of a push does to the chain and one what the consumer does when it drops
    the front; they do not look at which thread moves.

    `ConsInv` says what the consumer's local variables are worth at each of its
    positions, and `Inv.history` that returned nodes followed by the chain are
    the nodes exchanged.  The results read the prefix property off it. -/

namespace MpscqOrder

open Succession Mpscq LabelledRun

variable {α τ : Type} [DecidableEq α] [DecidableEq τ]

/-- A push of `n` that has not done its exchange. -/
def Unexchanged (pc : PushPc α) (n : Node α) : Prop :=
  match pc with
  | .clear m => m = n
  | .load m => m = n
  | .cas m _ => m = n
  | _ => False

/-- A push of `n` that has cleared `n->next` and not done its exchange. -/
def Cleared (pc : PushPc α) (n : Node α) : Prop :=
  match pc with
  | .load m => m = n
  | .cas m _ => m = n
  | _ => False

omit [DecidableEq α] in
theorem Unexchanged.pushes {pc : PushPc α} {n : Node α} (h : Unexchanged pc n) : Pushes pc n := by
  cases pc <;> first | exact h | exact h.elim

omit [DecidableEq α] in
theorem Cleared.unexchanged {pc : PushPc α} {n : Node α} (h : Cleared pc n) :
    Unexchanged pc n := by
  cases pc <;> first | exact h | exact h.elim

/-- The chain of nodes with the links that are still owed.  `pc` gives the
    position of every thread that can push. -/
structure ChainInv (head : Node α) (next : Node α → Option (Node α))
    (pc : Option τ → PushPc α) (l : List (Node α)) : Prop where
  nodup : l.Nodup
  last : l.getLast? = some head
  linked : ∀ p q, Follows l p q →
    next p = some q ∨ (next p = none ∧ ∃ i, pc i = .link q p)
  ended : next head = none
  owed : ∀ i n prev, pc i = .link n prev → Follows l prev n ∧ next prev = none
  fresh : ∀ i n, Unexchanged (pc i) n → n ∉ l
  cleared : ∀ i n, Cleared (pc i) n → next n = none
  distinct : ∀ i j n, Pushes (pc i) n → Pushes (pc j) n → i = j
  stub_iff : ∀ i n, Pushes (pc i) n → (n = .stub ↔ i = none)

section Chain

variable {head : Node α} {next : Node α → Option (Node α)} {pc : Option τ → PushPc α}
  {l : List (Node α)}

omit [DecidableEq α] [DecidableEq τ] in
theorem ChainInv.head_mem (h : ChainInv head next pc l) : head ∈ l :=
  List.mem_of_getLast? h.last

omit [DecidableEq α] in
/-- Moving a thread between positions of one push keeps the facts about who
    pushes what. -/
theorem distinct_update (h : ChainInv head next pc l) (i : Option τ) (pc' : PushPc α)
    (hp : ∀ n, Pushes pc' n → Pushes (pc i) n) :
    (∀ j k n, Pushes (Function.update pc i pc' j) n → Pushes (Function.update pc i pc' k) n → j = k)
      ∧ ∀ j n, Pushes (Function.update pc i pc' j) n → (n = .stub ↔ j = none) := by
  have hback : ∀ j n, Pushes (Function.update pc i pc' j) n → Pushes (pc j) n := by
    intro j n hj
    by_cases hji : j = i
    · subst hji
      rw [Function.update_self] at hj
      exact hp n hj
    · rwa [Function.update_of_ne hji] at hj
  exact ⟨fun j k n hj hk => h.distinct j k n (hback j n hj) (hback k n hk),
    fun j n hj => h.stub_iff j n (hback j n hj)⟩

/-- What the chain asks of the position of one thread. -/
structure AtChain (next : Node α → Option (Node α)) (l : List (Node α)) (pc : PushPc α) :
    Prop where
  owed : ∀ n prev, pc = .link n prev → Follows l prev n ∧ next prev = none
  fresh : ∀ n, Unexchanged pc n → n ∉ l
  cleared : ∀ n, Cleared pc n → next n = none

omit [DecidableEq α] [DecidableEq τ] in
theorem ChainInv.atChain (h : ChainInv head next pc l) (i : Option τ) : AtChain next l (pc i) :=
  ⟨h.owed i, h.fresh i, h.cleared i⟩

omit [DecidableEq α] in
/-- After a thread moved, its new position and the old ones of the others have
    to fit the chain. -/
theorem atChain_update {i : Option τ} {pc' : PushPc α} (hself : AtChain next l pc')
    (hother : ∀ j, j ≠ i → AtChain next l (pc j)) :
    ∀ j, AtChain next l (Function.update pc i pc' j) :=
  (Function.forall_update_iff pc fun _ => AtChain next l).mpr ⟨hself, hother⟩

omit [DecidableEq α] in
/-- A link that is owed is still owed after another thread moved. -/
theorem owed_update {i : Option τ} {pc' : PushPc α} {q p : Node α}
    (hi : pc i ≠ .link q p) (h : ∃ j, pc j = .link q p) :
    ∃ j, Function.update pc i pc' j = .link q p := by
  obtain ⟨j, hj⟩ := h
  refine ⟨j, ?_⟩
  rw [Function.update_of_ne]
  · exact hj
  · rintro rfl
    exact hi hj

omit [DecidableEq α] in
/-- A push begins: its node is off the chain and nobody else's. -/
theorem ChainInv.begin (h : ChainInv head next pc l) {i : Option τ} {n : Node α}
    (hi : pc i = .idle) (hn : n ∉ l) (hother : ∀ j, ¬ Pushes (pc j) n)
    (hstub : n = .stub ↔ i = none) :
    ChainInv head next (Function.update pc i (.clear n)) l := by
  have hself : AtChain next l (.clear n) := {
    owed := fun _ _ hj => nomatch hj
    fresh := by
      rintro m rfl
      exact hn
    cleared := fun _ hj => hj.elim }
  have hat := atChain_update (i := i) hself fun j _ => h.atChain j
  exact {
    nodup := h.nodup
    last := h.last
    linked := by
      intro p q hf
      refine (h.linked p q hf).imp_right fun ho => ⟨ho.1, owed_update ?_ ho.2⟩
      rw [hi]
      exact fun hc => nomatch hc
    ended := h.ended
    owed := fun j => (hat j).owed
    fresh := fun j => (hat j).fresh
    cleared := fun j => (hat j).cleared
    distinct := by
      intro j k m hj hk
      by_cases hji : j = i <;> by_cases hki : k = i
      · rw [hji, hki]
      · subst hji
        rw [Function.update_self] at hj
        rw [Function.update_of_ne hki] at hk
        cases hj
        exact absurd hk (hother k)
      · subst hki
        rw [Function.update_self] at hk
        rw [Function.update_of_ne hji] at hj
        cases hk
        exact absurd hj (hother j)
      · rw [Function.update_of_ne hji] at hj
        rw [Function.update_of_ne hki] at hk
        exact h.distinct j k m hj hk
    stub_iff := by
      refine (Function.forall_update_iff pc fun j q => ∀ m, Pushes q m → (m = .stub ↔ j = none)).mpr
        ⟨?_, fun j _ => h.stub_iff j⟩
      rintro m rfl
      exact hstub }

/-- `n->next = 0` before the exchange: `n` is off the chain. -/
theorem ChainInv.clear (h : ChainInv head next pc l) {i : Option τ} {n : Node α}
    (hi : pc i = .clear n) :
    ChainInv head (Function.update next n none) (Function.update pc i (.load n)) l := by
  have hn : n ∉ l := h.fresh i n (by rw [hi]; rfl)
  have hoff : ∀ p ∈ l, Function.update next n none p = next p := by
    intro p hp
    refine Function.update_of_ne ?_ _ _
    rintro rfl
    exact hn hp
  obtain ⟨hdist, hstub⟩ := distinct_update h i (.load n)
    (fun m hm => by rw [hi]; exact hm)
  have hself : AtChain (Function.update next n none) l (.load n) := {
    owed := fun _ _ hj => nomatch hj
    fresh := by
      rintro m rfl
      exact hn
    cleared := by
      rintro m rfl
      exact Function.update_self .. }
  have hothers : ∀ j, j ≠ i → AtChain (Function.update next n none) l (pc j) := by
    intro j hji
    refine ⟨?_, h.fresh j, ?_⟩
    · intro m prev hj
      obtain ⟨hf, hnone⟩ := h.owed j m prev hj
      exact ⟨hf, by rw [hoff prev hf.mem_left]; exact hnone⟩
    · intro m hj
      have hm : m ≠ n := by
        rintro rfl
        exact hji (h.distinct j i m hj.unexchanged.pushes (by rw [hi]; rfl))
      rw [Function.update_of_ne hm]
      exact h.cleared j m hj
  have hat := atChain_update hself hothers
  exact {
    nodup := h.nodup
    last := h.last
    linked := by
      intro p q hf
      rw [hoff p hf.mem_left]
      refine (h.linked p q hf).imp_right fun ho => ⟨ho.1, owed_update ?_ ho.2⟩
      rw [hi]
      exact fun hc => nomatch hc
    ended := by rw [hoff head h.head_mem]; exact h.ended
    owed := fun j => (hat j).owed
    fresh := fun j => (hat j).fresh
    cleared := fun j => (hat j).cleared
    distinct := hdist
    stub_iff := hstub }

omit [DecidableEq α] in
/-- A step between `load` and `cas` touches no memory. -/
theorem ChainInv.retry (h : ChainInv head next pc l) {i : Option τ} {n : Node α}
    {pc' : PushPc α} (hi : Cleared (pc i) n) (hpc' : Cleared pc' n) :
    ChainInv head next (Function.update pc i pc') l := by
  have hcl : ∀ {pc : PushPc α} {q p : Node α}, Cleared pc n → pc ≠ .link q p := by
    rintro pc q p hc rfl
    exact hc
  have huniq : ∀ {m}, Pushes pc' m → m = n := by
    intro m hm
    cases pc' <;> first | exact hm.symm.trans hpc' | exact hpc'.elim
  obtain ⟨hdist, hstub⟩ := distinct_update h i pc'
    (fun m hm => by rw [huniq hm]; exact hi.unexchanged.pushes)
  have hself : AtChain next l pc' := {
    owed := fun _ _ hj => absurd hj (hcl hpc')
    fresh := by
      intro m hm
      rw [huniq hm.pushes]
      exact h.fresh i n hi.unexchanged
    cleared := by
      intro m hm
      rw [huniq hm.unexchanged.pushes]
      exact h.cleared i n hi }
  have hat := atChain_update (i := i) hself fun j _ => h.atChain j
  exact {
    nodup := h.nodup
    last := h.last
    linked := by
      intro p q hf
      exact (h.linked p q hf).imp_right fun ho => ⟨ho.1, owed_update (hcl hi) ho.2⟩
    ended := h.ended
    owed := fun j => (hat j).owed
    fresh := fun j => (hat j).fresh
    cleared := fun j => (hat j).cleared
    distinct := hdist
    stub_iff := hstub }

omit [DecidableEq α] in
/-- The exchange: the node joins the chain, and its thread owes the link from
    the old head. -/
theorem ChainInv.exchange (h : ChainInv head next pc l) {i : Option τ} {n : Node α}
    (hi : pc i = .cas n head) :
    ChainInv n next (Function.update pc i (.link n head)) (l ++ [n]) := by
  have hn : n ∉ l := h.fresh i n (by rw [hi]; rfl)
  obtain ⟨hdist, hstub⟩ := distinct_update h i (.link n head)
    (fun m hm => by rw [hi]; exact hm)
  have hself : AtChain next (l ++ [n]) (.link n head) := {
    owed := by
      rintro m prev ⟨⟩
      exact ⟨follows_concat.mpr (Or.inr ⟨h.last, rfl⟩), h.ended⟩
    fresh := fun _ hj => hj.elim
    cleared := fun _ hj => hj.elim }
  have hothers : ∀ j, j ≠ i → AtChain next (l ++ [n]) (pc j) := by
    intro j hji
    refine ⟨?_, ?_, h.cleared j⟩
    · intro m prev hj
      obtain ⟨hf, hnone⟩ := h.owed j m prev hj
      exact ⟨follows_concat.mpr (Or.inl hf), hnone⟩
    · intro m hj
      rw [List.mem_append, List.mem_singleton]
      rintro (hm | rfl)
      · exact h.fresh j m hj hm
      · exact hji (h.distinct j i m hj.pushes (by rw [hi]; rfl))
  have hat := atChain_update hself hothers
  exact {
    nodup := by
      rw [List.nodup_append]
      refine ⟨h.nodup, List.nodup_singleton n, ?_⟩
      intro a ha b hb
      rw [List.mem_singleton] at hb
      rintro rfl
      exact hn (hb ▸ ha)
    last := List.getLast?_concat
    linked := by
      intro p q hf
      rcases follows_concat.mp hf with hf | ⟨hlast, rfl⟩
      · refine (h.linked p q hf).imp_right fun ho => ⟨ho.1, owed_update ?_ ho.2⟩
        rw [hi]
        exact fun hc => nomatch hc
      · have hp : p = head := Option.some.inj (hlast.symm.trans h.last)
        subst hp
        exact Or.inr ⟨h.ended, i, Function.update_self ..⟩
    ended := h.cleared i n (by rw [hi]; rfl)
    owed := fun j => (hat j).owed
    fresh := fun j => (hat j).fresh
    cleared := fun j => (hat j).cleared
    distinct := hdist
    stub_iff := hstub }

/-- `prev->next = n`: the owed link is paid. -/
theorem ChainInv.link (h : ChainInv head next pc l) {i : Option τ} {n prev : Node α}
    (hi : pc i = .link n prev) :
    ChainInv head (Function.update next prev (some n)) (Function.update pc i .idle) l := by
  obtain ⟨hprev, hnone⟩ := h.owed i n prev hi
  have hne : prev ≠ head := hprev.ne_getLast h.nodup h.last
  obtain ⟨hdist, hstub⟩ := distinct_update h i .idle (fun m hm => hm.elim)
  have hself : AtChain (Function.update next prev (some n)) l .idle :=
    ⟨fun _ _ hj => (nomatch hj), fun _ hj => hj.elim, fun _ hj => hj.elim⟩
  have hothers : ∀ j, j ≠ i → AtChain (Function.update next prev (some n)) l (pc j) := by
    intro j hji
    refine ⟨?_, h.fresh j, ?_⟩
    · intro m prev' hj
      obtain ⟨hf, hnone'⟩ := h.owed j m prev' hj
      have hpp : prev' ≠ prev := by
        rintro rfl
        have hmn : m = n := hf.unique h.nodup hprev
        subst hmn
        exact hji (h.distinct j i m (by rw [hj]; rfl) (by rw [hi]; rfl))
      exact ⟨hf, by rw [Function.update_of_ne hpp]; exact hnone'⟩
    · intro m hj
      have hm : m ≠ prev := by
        rintro rfl
        exact h.fresh j m hj.unexchanged hprev.mem_left
      rw [Function.update_of_ne hm]
      exact h.cleared j m hj
  have hat := atChain_update hself hothers
  exact {
    nodup := h.nodup
    last := h.last
    linked := by
      intro p q hf
      by_cases hp : p = prev
      · subst hp
        rw [Function.update_self]
        exact Or.inl (congrArg some (hprev.unique h.nodup hf))
      · rw [Function.update_of_ne hp]
        refine (h.linked p q hf).imp_right fun ho => ⟨ho.1, owed_update ?_ ho.2⟩
        rw [hi]
        rintro ⟨⟩
        exact hp rfl
    ended := by rw [Function.update_of_ne hne.symm]; exact h.ended
    owed := fun j => (hat j).owed
    fresh := fun j => (hat j).fresh
    cleared := fun j => (hat j).cleared
    distinct := hdist
    stub_iff := hstub }

omit [DecidableEq α] [DecidableEq τ] in
/-- The consumer drops the front once the front is linked: nobody owes a link
    from it any more. -/
theorem ChainInv.drop {a : Node α} (h : ChainInv head next pc (a :: l)) {b : Node α}
    (hab : next a = some b) : ∃ t, l = b :: t ∧ ChainInv head next pc l := by
  cases l with
  | nil =>
      have hah : a = head := Option.some.inj h.last
      rw [hah, h.ended] at hab
      cases hab
  | cons c t =>
      have hc : c = b := by
        rcases h.linked a c (follows_front t) with hl | ⟨hl, -⟩
        · exact Option.some.inj (hl.symm.trans hab)
        · rw [hab] at hl
          cases hl
      refine ⟨t, by rw [hc], ?_⟩
      exact {
        nodup := (List.nodup_cons.mp h.nodup).2
        last := by rw [← List.getLast?_cons_cons (a := a)]; exact h.last
        linked := fun p q hf => h.linked p q (follows_cons.mpr (Or.inr hf))
        ended := h.ended
        owed := by
          intro i n prev hi
          obtain ⟨hf, hnone⟩ := h.owed i n prev hi
          rcases follows_cons.mp hf with ⟨rfl, -⟩ | hf
          · rw [hab] at hnone
            cases hnone
          · exact ⟨hf, hnone⟩
        fresh := fun i n hi hn => h.fresh i n hi (List.mem_cons_of_mem _ hn)
        cleared := h.cleared
        distinct := h.distinct
        stub_iff := h.stub_iff }

omit [DecidableEq τ] in
/-- A link in memory from a node of the chain is not touched by a push. -/
theorem ChainInv.linked_stable (h : ChainInv head next pc l) {i : Option τ} {p q : Node α}
    (hp : p ∈ l) (hq : next p = some q) :
    (∀ n, pc i = .clear n → Function.update next n none p = some q)
      ∧ ∀ n prev, pc i = .link n prev → Function.update next prev (some n) p = some q := by
  constructor
  · intro n hi
    rw [Function.update_of_ne, hq]
    rintro rfl
    exact h.fresh i p (by rw [hi]; rfl) hp
  · intro n prev hi
    rw [Function.update_of_ne, hq]
    rintro rfl
    have := (h.owed i n p hi).2
    rw [hq] at this
    cases this

end Chain

-- ── The whole state ──────────────────────────────────────────────────────────

/-- The node the consumer has taken off the chain and is about to return. -/
def returning : PopPc α → List (Node α)
  | .ret n => [n]
  | _ => []

/-- What the consumer's local variables are worth: `tail` is the front of the
    chain, a non-NULL `next` is its link, and past the first test `tail` is a
    client's node. -/
def ConsInv (s : State α τ) (l : List (Node α)) : Prop :=
  match s.cons with
  | .idle => True
  | .loadNext tail => tail = s.tail
  | .branch tail next => tail = s.tail ∧ ∀ q, next = some q → s.next tail = some q
  | .loadNextAgain tail => tail = s.tail ∧ tail ≠ .stub
  | .tryNext tail next =>
      tail = s.tail ∧ tail ≠ .stub ∧ ∀ q, next = some q → s.next tail = some q
  | .compareHead tail head => tail = s.tail ∧ tail ≠ .stub ∧ (tail = head → .stub ∉ l)
  | .pushStub tail _ => tail = s.tail ∧ tail ≠ .stub
  | .lastTry tail next =>
      tail = s.tail ∧ tail ≠ .stub ∧ ∀ q, next = some q → s.next tail = some q
  | .ret n => n ≠ .stub

/-- The invariant: the chain runs from `tail` to `head`, and what was returned,
    what is being returned and the client nodes of the chain are the client
    nodes exchanged, in this order. -/
structure Inv (s : State α τ) (l : List (Node α)) : Prop where
  chain : ChainInv s.head s.next (pusher s) l
  front : l.head? = some s.tail
  history : s.rets ++ returning s.cons ++ elems l = elems s.xchgs
  consumer : ConsInv s l

omit [DecidableEq τ] in
theorem Inv.tail_mem {s : State α τ} {l : List (Node α)} (h : Inv s l) : s.tail ∈ l :=
  List.mem_of_mem_head? h.front

omit [DecidableEq τ] in
/-- The queue `mpscq_create` makes. -/
theorem inv_create {s : State α τ} (h : mpscqCreate s) : Inv s [.stub] := by
  obtain ⟨hhead, htail, hnext, hprod, hcons, hx, hr⟩ := h
  have hidle : ∀ i, pusher s i = .idle := by
    intro i
    cases i with
    | none => show stubPc s.cons = .idle; rw [hcons]; rfl
    | some t => exact hprod t
  refine ⟨?_, by rw [htail]; rfl, by rw [hcons, hx, hr]; rfl, by rw [ConsInv, hcons]; trivial⟩
  exact {
    nodup := List.nodup_singleton _
    last := by rw [hhead]; rfl
    linked := by
      intro p q hf
      rcases follows_cons.mp hf with ⟨-, hq⟩ | hf
      · cases hq
      · exact absurd hf not_follows_nil
    ended := by rw [hhead]; exact hnext
    owed := fun i n prev hi => by rw [hidle i] at hi; cases hi
    fresh := fun i n hi => by rw [hidle i] at hi; exact hi.elim
    cleared := fun i n hi => by rw [hidle i] at hi; exact hi.elim
    distinct := fun i j n hi => by rw [hidle i] at hi; exact hi.elim
    stub_iff := fun i n hi => by rw [hidle i] at hi; exact hi.elim }

omit [DecidableEq τ] in
/-- The nodes pending are the one being returned and those on the chain. -/
theorem Inv.pending_eq {s : State α τ} {l : List (Node α)} (h : Inv s l) :
    pending s = returning s.cons ++ elems l := by
  rw [pending]
  rw [← h.history, List.append_assoc, List.drop_left]

theorem elems_concat (l : List (Node α)) (n : Node α) :
    elems (l ++ [n]) = elems l ++ elems [n] := List.filter_append ..

/-- An exchange adds the same node to the chain and to the history. -/
theorem history_concat {rets ret l xchgs : List (Node α)}
    (h : rets ++ ret ++ elems l = elems xchgs) (n : Node α) :
    rets ++ ret ++ elems (l ++ [n]) = elems (xchgs ++ [n]) := by
  rw [elems_concat, elems_concat, ← h, List.append_assoc (rets ++ ret)]

omit [DecidableEq α] in
theorem pusher_prod (s : State α τ) (t : τ) (pc' : PushPc α) (s' : State α τ)
    (hp : s'.prod = Function.update s.prod t pc') (hc : s'.cons = s.cons) :
    pusher s' = Function.update (pusher s) (some t) pc' := by
  funext i
  cases i with
  | none =>
      rw [Function.update_of_ne (by simp)]
      show stubPc s'.cons = stubPc s.cons
      rw [hc]
  | some u =>
      show s'.prod u = _
      rw [hp]
      by_cases hu : u = t
      · subst hu
        rw [Function.update_self, Function.update_self]
      · rw [Function.update_of_ne hu, Function.update_of_ne (by simpa using hu)]
        rfl

omit [DecidableEq α] in
theorem pusher_cons (s s' : State α τ) (hp : s'.prod = s.prod) :
    pusher s' = Function.update (pusher s) none (stubPc s'.cons) := by
  funext i
  cases i with
  | none => rw [Function.update_self]; rfl
  | some u =>
      rw [Function.update_of_ne (by simp)]
      show s'.prod u = s.prod u
      rw [hp]

omit [DecidableEq α] in
/-- A consumer step outside the push leaves every push where it is. -/
theorem pusher_same (s s' : State α τ) (hp : s'.prod = s.prod)
    (hc : stubPc s'.cons = stubPc s.cons) : pusher s' = pusher s := by
  rw [pusher_cons s s' hp, hc]
  exact Function.update_eq_self ..

omit [DecidableEq τ] in
/-- The accesses of a push: it clears the node's link, loads `head`, exchanges
    `head` or fails to, or links the node. -/
theorem pushStep_cases {s : State α τ} {pc : PushPc α} {r : State α τ × PushPc α}
    (hs : pushStep s pc = some r) :
    (∃ n, pc = .clear n ∧ r = ({ s with next := Function.update s.next n none }, .load n))
      ∨ (∃ n, pc = .load n ∧ r = (s, .cas n s.head))
      ∨ (∃ n, pc = .cas n s.head
          ∧ r = ({ s with head := n, xchgs := s.xchgs ++ [n] }, .link n s.head))
      ∨ (∃ n cur, pc = .cas n cur ∧ s.head ≠ cur ∧ r = (s, .load n))
      ∨ ∃ n prev, pc = .link n prev
          ∧ r = ({ s with next := Function.update s.next prev (some n) }, .idle) := by
  cases pc with
  | idle => cases hs
  | clear n =>
      cases hs
      exact Or.inl ⟨n, rfl, rfl⟩
  | load n =>
      cases hs
      exact Or.inr (Or.inl ⟨n, rfl, rfl⟩)
  | cas n cur =>
      rw [pushStep] at hs
      by_cases hcur : s.head = cur
      · rw [if_pos hcur] at hs
        cases hs
        subst hcur
        exact Or.inr (Or.inr (Or.inl ⟨n, rfl, rfl⟩))
      · rw [if_neg hcur] at hs
        cases hs
        exact Or.inr (Or.inr (Or.inr (Or.inl ⟨n, cur, rfl, hcur, rfl⟩)))
  | link n prev =>
      cases hs
      exact Or.inr (Or.inr (Or.inr (Or.inr ⟨n, prev, rfl, rfl⟩)))

/-- **PUSH STEP**: one access of a push by any thread, seen from the chain. -/
theorem pushStep_chain {s : State α τ} {l : List (Node α)} (h : Inv s l) {i : Option τ}
    {r : State α τ × PushPc α} (hs : pushStep s (pusher s i) = some r) :
    ∃ l', ChainInv r.1.head r.1.next (Function.update (pusher s) i r.2) l'
      ∧ l'.head? = some s.tail
      ∧ s.rets ++ returning s.cons ++ elems l' = elems r.1.xchgs
      ∧ (∀ q, s.next s.tail = some q → r.1.next s.tail = some q)
      ∧ (i ≠ none → .stub ∉ l → .stub ∉ l')
      ∧ r.1.tail = s.tail ∧ r.1.cons = s.cons ∧ r.1.prod = s.prod ∧ r.1.rets = s.rets := by
  obtain ⟨n, hpc, rfl⟩ | ⟨n, hpc, rfl⟩ | ⟨n, hpc, rfl⟩ | ⟨n, cur, hpc, -, rfl⟩ |
    ⟨n, prev, hpc, rfl⟩ := pushStep_cases hs
  · exact ⟨l, h.chain.clear hpc, h.front, h.history,
      fun q hq => (h.chain.linked_stable h.tail_mem hq).1 n hpc, fun _ hl => hl,
      rfl, rfl, rfl, rfl⟩
  · exact ⟨l, h.chain.retry (n := n) (by rw [hpc]; rfl) rfl, h.front, h.history,
      fun q hq => hq, fun _ hl => hl, rfl, rfl, rfl, rfl⟩
  · refine ⟨l ++ [n], h.chain.exchange hpc, ?_, history_concat h.history n,
      fun q hq => hq, ?_, rfl, rfl, rfl, rfl⟩
    · rw [List.head?_append, h.front]
      rfl
    · intro hi hl hmem
      rcases List.mem_append.mp hmem with hm | hm
      · exact hl hm
      · have hstub := h.chain.stub_iff i n (by rw [hpc]; rfl)
        exact hi (hstub.mp (List.mem_singleton.mp hm).symm)
  · exact ⟨l, h.chain.retry (n := n) (by rw [hpc]; rfl) rfl, h.front, h.history,
      fun q hq => hq, fun _ hl => hl, rfl, rfl, rfl, rfl⟩
  · exact ⟨l, h.chain.link hpc, h.front, h.history,
      fun q hq => (h.chain.linked_stable h.tail_mem hq).2 n prev hpc, fun _ hl => hl,
      rfl, rfl, rfl, rfl⟩

omit [DecidableEq α] [DecidableEq τ] in
/-- What the consumer knows survives any step of a producer. -/
theorem ConsInv.frame {s s' : State α τ} {l l' : List (Node α)} (h : ConsInv s l)
    (hcons : s'.cons = s.cons) (htail : s'.tail = s.tail)
    (hnext : ∀ q, s.next s.tail = some q → s'.next s.tail = some q)
    (hstub : .stub ∉ l → .stub ∉ l') : ConsInv s' l' := by
  rw [ConsInv] at h ⊢
  rw [hcons, htail]
  split <;> rename_i heq <;> rw [heq] at h
  · trivial
  · exact h
  · obtain ⟨rfl, h⟩ := h
    exact ⟨rfl, fun q hq => hnext q (h q hq)⟩
  · exact h
  · obtain ⟨rfl, hne, h⟩ := h
    exact ⟨rfl, hne, fun q hq => hnext q (h q hq)⟩
  · exact ⟨h.1, h.2.1, fun hh => hstub (h.2.2 hh)⟩
  · exact h
  · obtain ⟨rfl, hne, h⟩ := h
    exact ⟨rfl, hne, fun q hq => hnext q (h q hq)⟩
  · exact h

/-- The consumer takes the front off the chain and is about to return it. -/
theorem Inv.take {s : State α τ} {l : List (Node α)} (h : Inv s l) {q : Node α}
    (hstub : s.tail ≠ .stub) (hq : s.next s.tail = some q) (hidle : stubPc s.cons = .idle)
    (hret : returning s.cons = []) :
    ∃ l', Inv { s with tail := q, cons := .ret s.tail } l' := by
  obtain ⟨t, rfl⟩ := List.head?_eq_some_iff.mp h.front
  obtain ⟨t', rfl, hchain⟩ := h.chain.drop hq
  refine ⟨q :: t', ?_, rfl, ?_, hstub⟩
  · rw [pusher_same s { s with tail := q, cons := .ret s.tail } rfl hidle.symm]
    exact hchain
  · have hh := h.history
    rw [hret, List.append_nil] at hh
    have he : elems (s.tail :: q :: t') = s.tail :: elems (q :: t') :=
      List.filter_cons_of_pos (by simpa using hstub)
    rw [he] at hh
    show s.rets ++ [s.tail] ++ elems (q :: t') = elems s.xchgs
    rw [List.append_assoc]
    exact hh

/-- A consumer step that only moves the consumer. -/
theorem Inv.move {s : State α τ} {l : List (Node α)} (h : Inv s l) {c : PopPc α}
    (hidle : stubPc c = stubPc s.cons) (hret : returning c = returning s.cons)
    (hc : ConsInv { s with cons := c } l) : Inv { s with cons := c } l where
  chain := by
    rw [pusher_same s { s with cons := c } rfl hidle]
    exact h.chain
  front := h.front
  history := by
    show s.rets ++ returning c ++ elems l = elems s.xchgs
    rw [hret]
    exact h.history
  consumer := hc

omit [DecidableEq τ] in
/-- A chain whose front is its head has one node. -/
theorem Inv.single {s : State α τ} {l : List (Node α)} (h : Inv s l) (hh : s.tail = s.head) :
    l = [s.tail] := by
  obtain ⟨t, rfl⟩ := List.head?_eq_some_iff.mp h.front
  cases t with
  | nil => rfl
  | cons b t =>
      have hlast : (b :: t).getLast? = some s.head := by
        rw [← List.getLast?_cons_cons (a := s.tail)]
        exact h.chain.last
      have hmem : s.tail ∈ b :: t := hh ▸ List.mem_of_getLast? hlast
      exact absurd hmem (List.nodup_cons.mp h.chain.nodup).1

/-- The load of `head` on the way to the stub push. -/
theorem Inv.loadHead {s : State α τ} {l : List (Node α)} (h : Inv s l) {tail : Node α}
    (htail : tail = s.tail) (hstub : tail ≠ .stub) (hidle : stubPc s.cons = .idle)
    (hret : returning s.cons = []) :
    Inv { s with cons := .compareHead tail s.head } l := by
  refine h.move hidle.symm hret.symm ⟨htail, hstub, ?_⟩
  intro hh
  rw [h.single (htail ▸ hh), List.mem_singleton, ← htail]
  exact fun he => hstub he.symm

/-- **POP STEP**: one access of the consumer keeps the invariant. -/
theorem popStep_inv {s s' : State α τ} {l : List (Node α)} (h : Inv s l)
    (hs : popStep s = some s') : ∃ l', Inv s' l' := by
  have hc := h.consumer
  rw [ConsInv] at hc
  rw [popStep] at hs
  cases hpc : s.cons with
  | idle =>
      rw [hpc] at hs
      cases hs
      exact ⟨l, h.move (by rw [hpc]; rfl) (by rw [hpc]; rfl) rfl⟩
  | loadNext tail =>
      rw [hpc] at hs hc
      cases hs
      exact ⟨l, h.move (by rw [hpc]; rfl) (by rw [hpc]; rfl) ⟨hc, fun q hq => hq⟩⟩
  | branch tail next =>
      rw [hpc] at hs hc
      obtain ⟨rfl, hnext⟩ := hc
      have hidle : stubPc s.cons = .idle := by rw [hpc]; rfl
      have hret : returning s.cons = [] := by rw [hpc]; rfl
      by_cases hstub : s.tail = .stub
      · simp only [if_pos hstub] at hs
        cases next with
        | none =>
            cases hs
            exact ⟨l, h.move (by rw [hpc]; rfl) (by rw [hpc]; rfl) trivial⟩
        | some q =>
            cases hs
            -- the stub leaves the chain; its successor is a client's node
            have hq := hnext q rfl
            obtain ⟨t, rfl⟩ := List.head?_eq_some_iff.mp h.front
            obtain ⟨t', rfl, hchain⟩ := h.chain.drop hq
            have hqs : q ≠ .stub := by
              rintro rfl
              exact (List.nodup_cons.mp h.chain.nodup).1 (hstub ▸ List.mem_cons_self ..)
            refine ⟨q :: t', ?_, rfl, ?_, rfl, hqs⟩
            · rw [pusher_same s { s with tail := q, cons := .loadNextAgain q } rfl hidle.symm]
              exact hchain
            · have hh := h.history
              have he : elems (s.tail :: q :: t') = elems (q :: t') :=
                List.filter_cons_of_neg (by simpa using hstub)
              rw [hret, he] at hh
              exact hh
      · simp only [if_neg hstub] at hs
        cases hs
        cases next with
        | none => exact ⟨l, h.loadHead rfl hstub hidle hret⟩
        | some q => exact h.take hstub (hnext q rfl) hidle hret
  | loadNextAgain tail =>
      rw [hpc] at hs hc
      cases hs
      exact ⟨l, h.move (by rw [hpc]; rfl) (by rw [hpc]; rfl) ⟨hc.1, hc.2, fun q hq => hq⟩⟩
  | tryNext tail next =>
      rw [hpc] at hs hc
      obtain ⟨rfl, hstub, hnext⟩ := hc
      have hidle : stubPc s.cons = .idle := by rw [hpc]; rfl
      have hret : returning s.cons = [] := by rw [hpc]; rfl
      cases hs
      cases next with
      | none => exact ⟨l, h.loadHead rfl hstub hidle hret⟩
      | some q => exact h.take hstub (hnext q rfl) hidle hret
  | compareHead tail head =>
      rw [hpc] at hs hc
      obtain ⟨rfl, hstub, hl⟩ := hc
      by_cases hne : s.tail ≠ head
      · simp only [if_pos hne] at hs
        cases hs
        exact ⟨l, h.move (by rw [hpc]; rfl) (by rw [hpc]; rfl) trivial⟩
      · simp only [if_neg hne] at hs
        cases hs
        have hstubl : Node.stub ∉ l := hl (not_not.mp hne)
        have hchain := h.chain.begin (i := none) (n := .stub)
          (by show stubPc s.cons = _; rw [hpc]; rfl) hstubl
          (by
            intro j hj
            have hj' := (h.chain.stub_iff j .stub hj).mp rfl
            subst hj'
            have : pusher s none = .idle := by show stubPc s.cons = _; rw [hpc]; rfl
            rw [this] at hj
            exact hj)
          (by simp)
        refine ⟨l, ?_, h.front, ?_, rfl, hstub⟩
        · rw [pusher_cons s { s with cons := .pushStub s.tail (.clear .stub) } rfl]
          exact hchain
        · have hh := h.history
          rw [hpc] at hh
          exact hh
  | pushStub tail pc =>
      rw [hpc] at hs hc
      obtain ⟨rfl, hstub⟩ := hc
      have hpn : pusher s none = pc := by show stubPc s.cons = _; rw [hpc]; rfl
      have hpush : ∀ {t : State α τ},
          (pushStep s pc).map (fun r => { r.1 with cons := .pushStub s.tail r.2 }) = some t →
          ∃ l', Inv t l' := by
        intro t ht
        obtain ⟨r, hr, rfl⟩ := Option.map_eq_some_iff.mp ht
        rw [← hpn] at hr
        obtain ⟨l', hchain, hfront, hhist, -, -, htail, -, hprod, hrets⟩ := pushStep_chain h hr
        refine ⟨l', ?_, ?_, ?_, ?_⟩
        · rw [pusher_cons s { r.1 with cons := .pushStub s.tail r.2 } hprod]
          exact hchain
        · show l'.head? = some r.1.tail
          rw [htail]
          exact hfront
        · show r.1.rets ++ [] ++ elems l' = elems r.1.xchgs
          rw [hpc] at hhist
          rw [hrets]
          exact hhist
        · exact ⟨htail.symm, hstub⟩
      cases pc with
      | idle =>
          cases hs
          exact ⟨l, h.move (by rw [hpc]; rfl) (by rw [hpc]; rfl) ⟨rfl, hstub, fun q hq => hq⟩⟩
      | clear n => exact hpush hs
      | load n => exact hpush hs
      | cas n cur => exact hpush hs
      | link n prev => exact hpush hs
  | lastTry tail next =>
      rw [hpc] at hs hc
      obtain ⟨rfl, hstub, hnext⟩ := hc
      have hidle : stubPc s.cons = .idle := by rw [hpc]; rfl
      have hret : returning s.cons = [] := by rw [hpc]; rfl
      cases hs
      cases next with
      | none => exact ⟨l, h.move hidle.symm hret.symm trivial⟩
      | some q => exact h.take hstub (hnext q rfl) hidle hret
  | ret n =>
      rw [hpc] at hs
      cases hs
      refine ⟨l, ?_, h.front, ?_, trivial⟩
      · rw [pusher_same s { s with cons := .idle, rets := s.rets ++ [n] } rfl (by rw [hpc]; rfl)]
        exact h.chain
      · have hh := h.history
        rw [hpc] at hh
        show s.rets ++ [n] ++ [] ++ elems l = elems s.xchgs
        rw [List.append_nil]
        exact hh

/-- **STEP LEMMA**: every step of every thread keeps the invariant. -/
theorem step_inv {s s' : State α τ} {act : Act α τ} {l : List (Node α)} (h : Inv s l)
    (hs : Step s act s') : ∃ l', Inv s' l' := by
  cases act with
  | begin t a =>
      obtain ⟨hidle, hnew, rfl⟩ := hs
      have hnl : Node.elem a ∉ l := by
        intro hmem
        refine hnew (Or.inl ?_)
        rw [h.pending_eq]
        exact List.mem_append.mpr (Or.inr (List.mem_filter.mpr ⟨hmem, by simp⟩))
      have hother : ∀ j, ¬ Pushes (pusher s j) (.elem a) := by
        intro j hj
        cases j with
        | none => exact absurd ((h.chain.stub_iff none _ hj).mpr rfl) (by simp)
        | some u => exact hnew (Or.inr ⟨u, hj⟩)
      refine ⟨l, ?_, h.front, h.history, h.consumer.frame rfl rfl (fun q hq => hq) (fun hl => hl)⟩
      rw [pusher_prod s t (.clear (.elem a))
        { s with prod := Function.update s.prod t (.clear (.elem a)) } rfl rfl]
      exact h.chain.begin hidle hnl hother (by simp)
  | prod t =>
      obtain ⟨r, hr, rfl⟩ := hs
      obtain ⟨l', hchain, hfront, hhist, hnext, hstub, htail, hcons, hprod, hrets⟩ :=
        pushStep_chain h (i := some t) hr
      refine ⟨l', ?_, ?_, ?_, ?_⟩
      · rw [pusher_prod s t r.2 { r.1 with prod := Function.update s.prod t r.2 } rfl hcons]
        exact hchain
      · show l'.head? = some r.1.tail
        rw [htail]
        exact hfront
      · show r.1.rets ++ returning r.1.cons ++ elems l' = elems r.1.xchgs
        rw [hrets, hcons]
        exact hhist
      · exact h.consumer.frame hcons htail hnext (hstub (by simp))
  | cons => exact popStep_inv h hs

/-- **RUN LEMMA**: the invariant holds in every reachable state. -/
theorem reachable_inv {s : State α τ} (h : Reachable s) : ∃ l, Inv s l := by
  refine Reach.invariant (I := fun s => ∃ l, Inv s l) ?_ ?_ s h
  · intro s hs
    exact ⟨_, inv_create hs⟩
  · rintro s e s' - ⟨l, hl⟩ hstep
    exact step_inv hl hstep

/-- **FIRST IN, FIRST OUT**: at every moment of every interleaving the nodes
    returned by `mpscq_pop` are a prefix of the client nodes in the order of
    their exchanges on `head`, the stub is never returned, and when no call is
    in progress the nodes not yet returned are exactly those met on the way
    from `tail` to the end of the list in memory. -/
theorem mpscq_fifo (s : State α τ) (h : Reachable s) :
    s.rets <+: elems s.xchgs ∧ .stub ∉ s.rets
      ∧ ((∀ t, s.prod t = .idle) → s.cons = .idle →
          ∃ l, Path s.next (some s.tail) l ∧ elems s.xchgs = s.rets ++ elems l) := by
  obtain ⟨l, hl⟩ := reachable_inv h
  have hpre : s.rets <+: elems s.xchgs :=
    ⟨returning s.cons ++ elems l, by rw [← hl.history, List.append_assoc]⟩
  refine ⟨hpre, ?_, ?_⟩
  · intro hmem
    have := List.mem_filter.mp (hpre.subset hmem)
    simp at this
  · intro hprod hcons
    have hidle : ∀ i, pusher s i = .idle := by
      intro i
      cases i with
      | none => show stubPc s.cons = .idle; rw [hcons]; rfl
      | some t => exact hprod t
    obtain ⟨t, rfl⟩ := List.head?_eq_some_iff.mp hl.front
    refine ⟨s.tail :: t, path_of_follows ?_ ?_, ?_⟩
    · intro p q hf
      rcases hl.chain.linked p q hf with hq | ⟨-, i, hi⟩
      · exact hq
      · rw [hidle i] at hi
        cases hi
    · intro z hz
      rw [hl.chain.last] at hz
      cases hz
      exact hl.chain.ended
    · have hh := hl.history
      rw [hcons] at hh
      simpa [returning] using hh.symm

-- ── Two producers ────────────────────────────────────────────────────────────

/-- Producer `t` calls `mpscq_push` with the node `a`. -/
def beginPush (s : State α τ) (t : τ) (a : α) : State α τ :=
  { s with prod := Function.update s.prod t (.clear (.elem a)) }

/-- The next accesses of producer `t`. -/
def prodSteps (s : State α τ) (t : τ) : Nat → State α τ
  | 0 => s
  | k + 1 =>
      match pushStep s (s.prod t) with
      | some r => prodSteps { r.1 with prod := Function.update s.prod t r.2 } t k
      | none => s

/-- The next accesses of the consumer. -/
def consSteps (s : State α τ) : Nat → State α τ
  | 0 => s
  | k + 1 =>
      match popStep s with
      | some s' => consSteps s' k
      | none => s

theorem prodSteps_reachable {s : State α τ} (h : Reachable s) (t : τ) (k : Nat) :
    Reachable (prodSteps s t k) := by
  induction k generalizing s with
  | zero => exact h
  | succ k ih =>
      rw [prodSteps]
      cases hr : pushStep s (s.prod t) with
      | none => exact h
      | some r => exact ih (h.next (e := Act.prod t) ⟨r, hr, rfl⟩)

omit [DecidableEq τ] in
/-- Also in a run that does not take every step of the producers. -/
theorem consSteps_reach {init : State α τ → Prop} {step : State α τ → Act α τ → State α τ → Prop}
    (hstep : ∀ s s', popStep s = some s' → step s .cons s') {s : State α τ}
    (h : Reach init step s) (k : Nat) : Reach init step (consSteps s k) := by
  induction k generalizing s with
  | zero => exact h
  | succ k ih =>
      rw [consSteps]
      cases hs : popStep s with
      | none => exact h
      | some s' => exact ih (h.next (hstep s s' hs))

/-- The fresh queue. -/
def freshQueue : State Nat Bool where
  head := .stub
  tail := .stub
  next := fun _ => none
  prod := fun _ => .idle
  cons := .idle
  xchgs := []
  rets := []

/-- Both producers have loaded `head`. -/
def bothLoaded : State Nat Bool :=
  prodSteps (beginPush (prodSteps (beginPush freshQueue false 0) false 2) true 1) true 2

/-- The first has done its exchange and stopped in front of its link; the swap of the
    second failed once, and its node is linked behind the other. -/
def halfLinked : State Nat Bool := prodSteps (prodSteps bothLoaded false 1) true 4

/-- The first has stored its link. -/
def bothLinked : State Nat Bool := prodSteps halfLinked false 1

theorem halfLinked_reachable : Reachable halfLinked := by
  have hfresh : Reachable freshQueue :=
    Reach.start ⟨rfl, rfl, rfl, fun _ => rfl, rfl, rfl, rfl⟩
  have hnew : ¬ InQueue freshQueue (.elem 0) := by
    rintro (h | ⟨t, h⟩)
    · cases h
    · exact h
  have hfirst : Reachable (beginPush freshQueue false 0) :=
    hfresh.next (e := Act.begin false 0) ⟨rfl, hnew, rfl⟩
  have hloaded := prodSteps_reachable hfirst false 2
  have hnext : ¬ InQueue (prodSteps (beginPush freshQueue false 0) false 2) (.elem 1) := by
    rintro (h | ⟨t, h⟩)
    · cases h
    · cases t with
      | false => cases (show Node.elem 0 = Node.elem 1 from h)
      | true => exact h
  have hsecond : Reachable (beginPush (prodSteps (beginPush freshQueue false 0) false 2) true 1) :=
    hloaded.next (e := Act.begin true 1) ⟨rfl, hnext, rfl⟩
  have hboth : Reachable bothLoaded := prodSteps_reachable hsecond true 2
  exact prodSteps_reachable (prodSteps_reachable hboth false 1) true 4

/-- A call of the consumer, the link, and two calls. -/
def bothReturned : State Nat Bool :=
  consSteps (prodSteps (consSteps halfLinked 3) false 1) 17

/-- While the link is owed a call returns NULL; then two calls return both nodes in the
    order of their exchanges, the second after pushing the stub. -/
theorem mpscq_fifo_two_producers :
    halfLinked.prod false = .link (.elem 0) .stub
      ∧ (consSteps halfLinked 3).cons = .idle ∧ (consSteps halfLinked 3).rets = []
      ∧ bothReturned.rets = [.elem 0, .elem 1] ∧ .stub ∈ bothReturned.xchgs
      ∧ bothReturned.rets <+: elems bothReturned.xchgs ∧ .stub ∉ bothReturned.rets
      ∧ ((∀ t, bothReturned.prod t = .idle) → bothReturned.cons = .idle →
          ∃ l, Path bothReturned.next (some bothReturned.tail) l
            ∧ elems bothReturned.xchgs = bothReturned.rets ++ elems l) := by
  have hpop : ∀ s s' : State Nat Bool, popStep s = some s' → Step s .cons s' := fun _ _ h => h
  have hnull := consSteps_reach hpop halfLinked_reachable 3
  have hboth := consSteps_reach hpop (prodSteps_reachable hnull false 1) 17
  exact ⟨rfl, rfl, rfl, rfl, by decide, mpscq_fifo bothReturned hboth⟩

end MpscqOrder
