import TreasureHouse.ReadyQueueProofs

/-! # The ready chain — two insertions at the tail

    The coroutines stand in the order in which they were stored as the tail of
    `co_ready_queue`.  `ChainInv` says which of their links are set while the
    insertions are under way, and every access of `list_add_tail` that spoils no
    other insertion keeps it. -/

namespace ReadyRing

open Succession LinkRing

-- ── The chain of insertions ──────────────────────────────────────────────────

/-- The store `new->next = head` is still to come. -/
def AddPc.needsNext : AddPc → Bool
  | .setNext _ => true
  | _ => false

/-- The store `new->prev = prev` is still to come. -/
def AddPc.needsPrev : AddPc → Bool
  | .setNext _ => true
  | .setPrev _ => true
  | _ => false

/-- The tail is stored and `prev->next = new` is still to come, with this
    `prev`. -/
def AddPc.linking : AddPc → Option Node
  | .setNext prev => some prev
  | .setPrev prev => some prev
  | .setPrevNext prev => some prev
  | _ => none

def AddPc.needsLink (pc : AddPc) : Bool := pc.linking.isSome

/-- Some thread adds the coroutine `n` and is where `f` says. -/
def Pending (A : Thread → Option (Nat × AddPc)) (f : AddPc → Bool) (n : Nat) : Prop :=
  ∃ t pc, A t = some (n, pc) ∧ f pc = true

/-- The head of the ready queue and the coroutines in the order in which they
    were stored as its tail. -/
def chain (order : List Nat) : List Node := .ready :: nodes order

/-- The links of the chain, as far as the insertions under way have come. -/
structure ChainInv (m : Links) (A : Thread → Option (Nat × AddPc)) (order : List Nat) : Prop where
  tail : ∀ z, (chain order).getLast? = some z → m.prev .ready = some z
  prev : ∀ p n, Follows (chain order) p (.co n) → ¬ Pending A AddPc.needsPrev n →
    m.prev (.co n) = some p
  next : ∀ p n, Follows (chain order) p (.co n) → ¬ Pending A AddPc.needsLink n →
    m.next p = some (.co n)
  last : ∀ z, (chain order).getLast? = some z →
    (∀ n, z = .co n → ¬ Pending A AddPc.needsNext n) → m.next z = some .ready
  blocked : ∀ n k, Follows (chain order) (.co n) (.co k) → Pending A AddPc.needsNext n →
    Pending A AddPc.needsLink k
  linking : ∀ t n pc p, A t = some (n, pc) → pc.linking = some p →
    Follows (chain order) p (.co n)
  reading : ∀ t n p, A t = some (n, .setHeadPrev p) → (chain order).getLast? = some p
  alone : ∀ t n p k q, A t = some (n, .setHeadPrev p) → A t.other ≠ some (k, .setHeadPrev q)

theorem Thread.other_ne (t : Thread) : t.other ≠ t := by
  cases t with
  | resumer => exact fun h => nomatch h
  | submitter => exact fun h => nomatch h

theorem Thread.other_other (t : Thread) : t.other.other = t := by
  cases t <;> rfl

theorem Thread.eq_or_other (t u : Thread) : u = t ∨ u = t.other := by
  cases t <;> cases u <;> simp [Thread.other]

section Pending

variable {A : Thread → Option (Nat × AddPc)} {f : AddPc → Bool} {t : Thread} {n k : Nat}
  {pc pc' : AddPc}

/-- A step of another coroutine's insertion. -/
theorem pending_ne (hA : A t = some (n, pc)) (hk : k ≠ n) (o : Option AddPc) :
    Pending (Function.update A t (o.map fun pc => (n, pc))) f k ↔ Pending A f k := by
  constructor
  · rintro ⟨u, pc₁, hu, hf⟩
    by_cases hut : u = t
    · subst hut
      rw [Function.update_self] at hu
      obtain ⟨pc₂, -, heq⟩ := Option.map_eq_some_iff.mp hu
      cases heq
      exact absurd rfl hk
    · rw [Function.update_of_ne hut] at hu
      exact ⟨u, pc₁, hu, hf⟩
  · rintro ⟨u, pc₁, hu, hf⟩
    have hut : u ≠ t := by
      rintro rfl
      rw [hA] at hu
      cases hu
      exact hk rfl
    exact ⟨u, pc₁, by rw [Function.update_of_ne hut]; exact hu, hf⟩

/-- A coroutine is added by one thread. -/
theorem pending_self (hother : ∀ k pc, A t.other = some (k, pc) → k ≠ n) (o : Option AddPc) :
    Pending (Function.update A t (o.map fun pc => (n, pc))) f n
      ↔ ∃ pc, o = some pc ∧ f pc = true := by
  constructor
  · rintro ⟨u, pc₁, hu, hf⟩
    rcases Thread.eq_or_other t u with rfl | rfl
    · rw [Function.update_self] at hu
      obtain ⟨pc₂, ho, heq⟩ := Option.map_eq_some_iff.mp hu
      cases heq
      exact ⟨pc₁, ho, hf⟩
    · rw [Function.update_of_ne (Thread.other_ne t)] at hu
      exact absurd rfl (hother n pc₁ hu)
  · rintro ⟨pc₁, rfl, hf⟩
    exact ⟨t, pc₁, by rw [Function.update_self]; rfl, hf⟩

/-- A step that makes no difference to `f`. -/
theorem pending_same (hother : ∀ k pc, A t.other = some (k, pc) → k ≠ n)
    (hA : A t = some (n, pc)) (o : Option AddPc) (hf : o.any f = f pc) (k : Nat) :
    Pending (Function.update A t (o.map fun pc => (n, pc))) f k ↔ Pending A f k := by
  by_cases hk : k = n
  · subst hk
    have hold : Pending A f k ↔ f pc = true := by
      have hself := pending_self (f := f) hother (some pc)
      have hsame : Function.update A t ((some pc).map fun pc => (k, pc)) = A := by
        rw [Option.map_some, ← hA]
        exact Function.update_eq_self t A
      rw [hsame] at hself
      rw [hself]
      simp
    rw [pending_self hother, hold, ← hf, Option.any_eq_true]
  · exact pending_ne hA hk o

end Pending

-- ── The five accesses of `list_add_tail` ─────────────────────────────────────

theorem chain_concat (order : List Nat) (n : Nat) :
    chain (order ++ [n]) = chain order ++ [.co n] := by
  simp [chain, nodes]

theorem mem_chain {order : List Nat} {n : Nat} : Node.co n ∈ chain order ↔ n ∈ order := by
  simp [chain, nodes]

theorem chain_nodup {order : List Nat} (h : order.Nodup) : (chain order).Nodup := by
  refine List.nodup_cons.mpr ⟨by simp [nodes], ?_⟩
  exact h.map fun _ _ he => Node.co.inj he

/-- Every chain has a last node. -/
theorem exists_last (order : List Nat) : ∃ z, (chain order).getLast? = some z :=
  ⟨_, List.getLast?_eq_some_getLast (List.cons_ne_nil _ _)⟩

/-- A thread's insertion is where it was, or is the one that moved. -/
theorem update_cases {A : Thread → Option (Nat × AddPc)} {t u : Thread} {n k : Nat} {pc : AddPc}
    {o : Option AddPc}
    (h : Function.update A t (o.map fun pc => (n, pc)) u = some (k, pc)) :
    (u = t ∧ k = n ∧ o = some pc) ∨ (u = t.other ∧ A t.other = some (k, pc)) := by
  rcases Thread.eq_or_other t u with rfl | rfl
  · rw [Function.update_self] at h
    obtain ⟨pc₁, ho, heq⟩ := Option.map_eq_some_iff.mp h
    cases heq
    exact Or.inl ⟨rfl, rfl, ho⟩
  · rw [Function.update_of_ne (Thread.other_ne t)] at h
    exact Or.inr ⟨rfl, h⟩

section Chain

variable {m m' : Links} {A A' : Thread → Option (Nat × AddPc)} {order : List Nat} {t : Thread}
  {n : Nat} {p : Node}

/-- Only the nodes of the chain matter, and no insertion before its first
    access. -/
theorem ChainInv.frame (h : ChainInv m A order) (hnext : ∀ x ∈ chain order, m'.next x = m.next x)
    (hprev : ∀ x ∈ chain order, m'.prev x = m.prev x)
    (hkeeps : ∀ u n pc, A u = some (n, pc) → A' u = some (n, pc))
    (hstarts : ∀ u n pc, A' u = some (n, pc) → A u = some (n, pc) ∨ pc = .readPrev) :
    ChainInv m' A' order := by
  have hpend : ∀ {f : AddPc → Bool}, f .readPrev = false →
      ∀ k, Pending A' f k ↔ Pending A f k := by
    intro f hf k
    constructor
    · rintro ⟨u, pc, hu, hpc⟩
      rcases hstarts u k pc hu with hu | rfl
      · exact ⟨u, pc, hu, hpc⟩
      · rw [hf] at hpc
        cases hpc
    · rintro ⟨u, pc, hu, hpc⟩
      exact ⟨u, pc, hkeeps u k pc hu, hpc⟩
  exact {
    tail := by
      intro z hz
      rw [hprev _ List.mem_cons_self]
      exact h.tail z hz
    prev := by
      intro p n hf hn
      rw [hpend rfl] at hn
      rw [hprev _ hf.mem_right]
      exact h.prev p n hf hn
    next := by
      intro p n hf hn
      rw [hpend rfl] at hn
      rw [hnext _ hf.mem_left]
      exact h.next p n hf hn
    last := by
      intro z hz hn
      rw [hnext _ (List.mem_of_getLast? hz)]
      refine h.last z hz fun k hk => ?_
      have hk' := hn k hk
      rwa [hpend rfl] at hk'
    blocked := by
      intro n k hf hn
      rw [hpend rfl] at hn ⊢
      exact h.blocked n k hf hn
    linking := by
      intro u n pc p hu hl
      rcases hstarts u n pc hu with hu | rfl
      · exact h.linking u n pc p hu hl
      · cases hl
    reading := by
      intro u n p hu
      rcases hstarts u n _ hu with hu | he
      · exact h.reading u n p hu
      · cases he
    alone := by
      intro u n p k q hu hk
      rcases hstarts u n _ hu with hu | he
      · rcases hstarts _ k _ hk with hk | he
        · exact h.alone u n p k q hu hk
        · cases he
      · cases he }

/-- A thread that moves on in its insertion, or ends it, keeps its place. -/
theorem ChainInv.linking_update (h : ChainInv m A order) {pc : AddPc} (hA : A t = some (n, pc))
    {o : Option AddPc} (ho : ∀ pc', o = some pc' → pc'.linking = none ∨ pc'.linking = pc.linking)
    (u : Thread) (k : Nat) (pc' : AddPc) (q : Node)
    (hu : Function.update A t (o.map fun pc => (n, pc)) u = some (k, pc'))
    (hl : pc'.linking = some q) : Follows (chain order) q (.co k) := by
  rcases update_cases hu with ⟨-, rfl, hpc⟩ | ⟨-, hu⟩
  · rcases ho pc' hpc with hnone | heq
    · rw [hnone] at hl
      cases hl
    · exact h.linking t k pc q hA (heq.symm.trans hl)
  · exact h.linking _ k pc' q hu hl

/-- A thread past its store of the tail is not in the way of a reader. -/
theorem ChainInv.reading_update (h : ChainInv m A order) {o : Option AddPc}
    (ho : ∀ p, o ≠ some (.setHeadPrev p)) (u : Thread) (k : Nat) (q : Node)
    (hu : Function.update A t (o.map fun pc => (n, pc)) u = some (k, .setHeadPrev q)) :
    (chain order).getLast? = some q := by
  rcases update_cases hu with ⟨-, -, hpc⟩ | ⟨-, hu⟩
  · exact absurd hpc (ho q)
  · exact h.reading _ k q hu

theorem alone_update {o : Option AddPc} (ho : ∀ p, o ≠ some (.setHeadPrev p)) (u : Thread)
    (k : Nat) (q : Node) (k' : Nat) (q' : Node)
    (hu : Function.update A t (o.map fun pc => (n, pc)) u = some (k, .setHeadPrev q)) :
    Function.update A t (o.map fun pc => (n, pc)) u.other ≠ some (k', .setHeadPrev q') := by
  intro hu'
  rcases update_cases hu with ⟨-, -, hpc⟩ | ⟨rfl, -⟩
  · exact ho q hpc
  · rw [Thread.other_other] at hu'
    rcases update_cases hu' with ⟨-, -, hpc⟩ | ⟨he, -⟩
    · exact ho q' hpc
    · exact Thread.other_ne t he.symm

/-- **READ** `head->prev`: the tail of the chain. -/
theorem ChainInv.readPrev (h : ChainInv m A order)
    (hother : ∀ k pc, A t.other = some (k, pc) → k ≠ n) (hA : A t = some (n, .readPrev))
    (hg : ∀ k q, A t.other ≠ some (k, .setHeadPrev q)) {z : Node}
    (hz : (chain order).getLast? = some z) :
    ChainInv m (Function.update A t ((some (.setHeadPrev z)).map fun pc => (n, pc))) order where
  tail := h.tail
  prev := by
    intro p k hf hn
    rw [pending_same hother hA _ rfl] at hn
    exact h.prev p k hf hn
  next := by
    intro p k hf hn
    rw [pending_same hother hA _ rfl] at hn
    exact h.next p k hf hn
  last := by
    intro z hz hn
    refine h.last z hz fun k hk => ?_
    have hk' := hn k hk
    rwa [pending_same hother hA _ rfl] at hk'
  blocked := by
    intro a k hf hn
    rw [pending_same hother hA _ rfl] at hn ⊢
    exact h.blocked a k hf hn
  linking := by
    refine h.linking_update hA ?_
    rintro _ ⟨⟩
    exact Or.inl rfl
  reading := by
    intro u k q hu
    rcases update_cases hu with ⟨-, -, ho⟩ | ⟨-, hu⟩
    · cases ho
      exact hz
    · exact absurd hu (hg k q)
  alone := by
    intro u k q k' q' hu hu'
    rcases update_cases hu with ⟨rfl, -, -⟩ | ⟨-, hu⟩
    · rw [Function.update_of_ne (Thread.other_ne u)] at hu'
      exact hg k' q' hu'
    · exact hg k q hu

/-- **STORE** `head->prev`: the new node is the tail of the chain. -/
theorem ChainInv.setHeadPrev (h : ChainInv m A order)
    (hother : ∀ k pc, A t.other = some (k, pc) → k ≠ n) (hA : A t = some (n, .setHeadPrev p))
    (hn : n ∉ order) :
    ChainInv (m.setPrev .ready (some (.co n)))
      (Function.update A t ((some (.setNext p)).map fun pc => (n, pc))) (order ++ [n]) := by
  have hp : (chain order).getLast? = some p := h.reading t n p hA
  have hlast : (chain (order ++ [n])).getLast? = some (.co n) := by
    rw [chain_concat, List.getLast?_concat]
  have hpend : ∀ {f : AddPc → Bool}, f (.setNext p) = true →
      Pending (Function.update A t ((some (.setNext p)).map fun pc => (n, pc))) f n := fun hf =>
    (pending_self hother _).mpr ⟨_, rfl, hf⟩
  have hold : ∀ {x : Node} {k : Nat}, Follows (chain order) x (.co k) → k ≠ n := by
    rintro x k hf rfl
    exact hn (mem_chain.mp hf.mem_right)
  exact {
    tail := by
      intro z hz
      rw [hlast] at hz
      cases hz
      exact m.setPrev_self ..
    prev := by
      intro q k hf hk
      rw [chain_concat] at hf
      rcases follows_concat.mp hf with hf | ⟨-, heq⟩
      · rw [pending_ne hA (hold hf)] at hk
        have hne : Node.co k ≠ .ready := fun he => nomatch he
        rw [m.setPrev_ne _ hne]
        exact h.prev q k hf hk
      · cases heq
        exact absurd (hpend rfl) hk
    next := by
      intro q k hf hk
      rw [chain_concat] at hf
      rcases follows_concat.mp hf with hf | ⟨-, heq⟩
      · rw [pending_ne hA (hold hf)] at hk
        exact h.next q k hf hk
      · cases heq
        exact absurd (hpend rfl) hk
    last := by
      intro z hz hk
      rw [hlast] at hz
      cases hz
      exact absurd (hpend rfl) (hk n rfl)
    blocked := by
      intro a k hf hk
      rw [chain_concat] at hf
      rcases follows_concat.mp hf with hf | ⟨-, heq⟩
      · have ha : a ≠ n := fun he => hn (he ▸ mem_chain.mp hf.mem_left)
        rw [pending_ne hA ha] at hk
        rw [pending_ne hA (hold hf)]
        exact h.blocked a k hf hk
      · cases heq
        exact hpend rfl
    linking := by
      intro u k pc q hu hl
      rw [chain_concat]
      rcases update_cases hu with ⟨-, rfl, ho⟩ | ⟨-, hu⟩
      · cases ho
        cases hl
        exact follows_concat.mpr (Or.inr ⟨hp, rfl⟩)
      · exact follows_concat.mpr (Or.inl (h.linking _ k pc q hu hl))
    reading := by
      intro u k q hu
      rcases update_cases hu with ⟨-, -, ho⟩ | ⟨-, hu⟩
      · cases ho
      · exact absurd hu (h.alone t n p k q hA)
    alone := alone_update (by rintro _ ⟨⟩) }

/-- **STORE** `new->next`: nobody has stored a successor there yet. -/
theorem ChainInv.setNext (h : ChainInv m A order)
    (hother : ∀ k pc, A t.other = some (k, pc) → k ≠ n) (hA : A t = some (n, .setNext p)) :
    ChainInv (m.setNext (.co n) (some .ready))
      (Function.update A t ((some (.setPrev p)).map fun pc => (n, pc))) order := by
  have hpend : Pending A AddPc.needsNext n := ⟨t, _, hA, rfl⟩
  have hdone : ¬ Pending (Function.update A t ((some (.setPrev p)).map fun pc => (n, pc)))
      AddPc.needsNext n := by
    rw [pending_self hother]
    rintro ⟨pc, ho, hf⟩
    cases ho
    cases hf
  exact {
    tail := h.tail
    prev := by
      intro q k hf hk
      rw [pending_same hother hA _ rfl] at hk
      exact h.prev q k hf hk
    next := by
      intro q k hf hk
      rw [pending_same hother hA _ rfl] at hk
      have hne : q ≠ .co n := by
        rintro rfl
        exact hk (h.blocked n k hf hpend)
      rw [m.setNext_ne _ hne]
      exact h.next q k hf hk
    last := by
      intro z hz hk
      by_cases hzn : z = .co n
      · rw [hzn]
        exact m.setNext_self ..
      · rw [m.setNext_ne _ hzn]
        refine h.last z hz fun k hzk => ?_
        have hkn : k ≠ n := by
          rintro rfl
          exact hzn hzk
        have hk' := hk k hzk
        rwa [pending_ne hA hkn] at hk'
    blocked := by
      intro a k hf hk
      have han : a ≠ n := by
        rintro rfl
        exact hdone hk
      rw [pending_ne hA han] at hk
      rw [pending_same hother hA _ rfl]
      exact h.blocked a k hf hk
    linking := by
      refine h.linking_update hA ?_
      rintro _ ⟨⟩
      exact Or.inr rfl
    reading := h.reading_update (by rintro _ ⟨⟩)
    alone := alone_update (by rintro _ ⟨⟩) }

/-- **STORE** `new->prev`. -/
theorem ChainInv.setPrev (h : ChainInv m A order) (hd : order.Nodup)
    (hother : ∀ k pc, A t.other = some (k, pc) → k ≠ n) (hA : A t = some (n, .setPrev p)) :
    ChainInv (m.setPrev (.co n) (some p))
      (Function.update A t ((some (.setPrevNext p)).map fun pc => (n, pc))) order where
  tail := by
    intro z hz
    have hne : Node.ready ≠ .co n := fun he => nomatch he
    rw [m.setPrev_ne _ hne]
    exact h.tail z hz
  prev := by
    intro q k hf hk
    by_cases hkn : k = n
    · subst hkn
      rw [m.setPrev_self]
      rw [(h.linking t k _ p hA rfl).unique_left (chain_nodup hd) hf]
    · rw [pending_ne hA hkn] at hk
      rw [m.setPrev_ne _ fun he => hkn (Node.co.inj he)]
      exact h.prev q k hf hk
  next := by
    intro q k hf hk
    rw [pending_same hother hA _ rfl] at hk
    exact h.next q k hf hk
  last := by
    intro z hz hk
    refine h.last z hz fun k hzk => ?_
    have hk' := hk k hzk
    rwa [pending_same hother hA _ rfl] at hk'
  blocked := by
    intro a k hf hk
    rw [pending_same hother hA _ rfl] at hk ⊢
    exact h.blocked a k hf hk
  linking := by
    refine h.linking_update hA ?_
    rintro _ ⟨⟩
    exact Or.inr rfl
  reading := h.reading_update (by rintro _ ⟨⟩)
  alone := alone_update (by rintro _ ⟨⟩)

/-- **STORE** `prev->next`, which ends the insertion: the guard says that it is
    not stored over again. -/
theorem ChainInv.setPrevNext (h : ChainInv m A order) (hd : order.Nodup)
    (hother : ∀ k pc, A t.other = some (k, pc) → k ≠ n) (hA : A t = some (n, .setPrevNext p))
    (hg : ∀ k q, A t.other = some (k, .setNext q) → p ≠ .co k) :
    ChainInv (m.setNext p (some (.co n)))
      (Function.update A t (none.map fun pc => (n, pc))) order := by
  have hlink : Follows (chain order) p (.co n) := h.linking t n _ p hA rfl
  exact {
    tail := h.tail
    prev := by
      intro q k hf hk
      rw [pending_same hother hA _ rfl] at hk
      exact h.prev q k hf hk
    next := by
      intro q k hf hk
      by_cases hkn : k = n
      · subst hkn
        rw [hlink.unique_left (chain_nodup hd) hf]
        exact m.setNext_self ..
      · have hne : q ≠ p := by
          rintro rfl
          exact hkn (Node.co.inj (hf.unique (chain_nodup hd) hlink))
        rw [pending_ne hA hkn] at hk
        rw [m.setNext_ne _ hne]
        exact h.next q k hf hk
    last := by
      intro z hz hk
      have hne : z ≠ p := (hlink.ne_getLast (chain_nodup hd) hz).symm
      rw [m.setNext_ne _ hne]
      refine h.last z hz fun k hzk => ?_
      have hk' := hk k hzk
      rwa [pending_same hother hA _ rfl] at hk'
    blocked := by
      intro a k hf hk
      rw [pending_same hother hA _ rfl] at hk
      have hkn : k ≠ n := by
        rintro rfl
        obtain ⟨u, pc, hu, hpc⟩ := hk
        have hpa : p = .co a := hlink.unique_left (chain_nodup hd) hf
        rcases Thread.eq_or_other t u with rfl | rfl
        · rw [hA] at hu
          cases hu
          cases hpc
        · cases pc with
          | setNext q => exact hg a q hu hpa
          | _ => cases hpc
      rw [pending_ne hA hkn]
      exact h.blocked a k hf hk
    linking := h.linking_update hA (by rintro _ ⟨⟩)
    reading := h.reading_update (by rintro _ ⟨⟩)
    alone := alone_update (by rintro _ ⟨⟩) }

/-- With no insertion under way the chain is the ring. -/
theorem ChainInv.linked (h : ChainInv m A order) (hA : ∀ t, A t = none) :
    Linked m .ready order := by
  have hnone : ∀ (f : AddPc → Bool) (k : Nat), ¬ Pending A f k := by
    rintro f k ⟨t, pc, ht, -⟩
    rw [hA t] at ht
    cases ht
  have hco : ∀ {x y : Node}, Follows (chain order) x y → ∃ k, y = .co k := by
    intro x y hf
    obtain ⟨k, -, rfl⟩ := List.mem_map.mp hf.mem_tail
    exact ⟨k, rfl⟩
  constructor
  · intro x y hf
    rcases follows_closed.mp hf with hf | ⟨hx, rfl⟩
    · obtain ⟨k, rfl⟩ := hco hf
      exact h.next x k hf (hnone _ k)
    · exact h.last x hx fun k _ => hnone _ k
  · intro x y hf
    rcases follows_closed.mp hf with hf | ⟨hx, rfl⟩
    · obtain ⟨k, rfl⟩ := hco hf
      exact h.prev x k hf (hnone _ k)
    · exact h.tail x hx

/-- And the other way round. -/
theorem chainInv_of_linked (h : Linked m .ready order) (hA : ∀ t, A t = none) :
    ChainInv m A order where
  tail := fun z hz => h.prev z .ready (follows_closed.mpr (Or.inr ⟨hz, rfl⟩))
  prev := fun p k hf _ => h.prev p (.co k) (follows_closed.mpr (Or.inl hf))
  next := fun p k hf _ => h.next p (.co k) (follows_closed.mpr (Or.inl hf))
  last := fun z hz _ => h.next z .ready (follows_closed.mpr (Or.inr ⟨hz, rfl⟩))
  blocked := by
    rintro a k - ⟨t, pc, ht, -⟩
    rw [hA t] at ht
    cases ht
  linking := by
    intro t k pc p ht
    rw [hA t] at ht
    cases ht
  reading := by
    intro t k p ht
    rw [hA t] at ht
    cases ht
  alone := by
    intro t k p k' q ht
    rw [hA t] at ht
    cases ht

end Chain

end ReadyRing
