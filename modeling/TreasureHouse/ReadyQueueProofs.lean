import TreasureHouse.LinkRingProofs

/-! # The ready queue — `sched_co_resume` beside `sched_sched`, pointer by pointer

    The scheduler thread resumes sleeping coroutines, one call of
    `sched_co_resume` after the other: `list_del` from `co_queue`, then
    `list_add_tail` to `co_ready_queue`, without the lock.  Other threads call
    `sched_sched`, which does its `list_add_tail` under `sched->lock`, so one of
    them is in it at a time.  Every read and every write of a `next` or `prev`
    pointer is a step; a poisoned pointer points to no node.

    `delStep_inv` is about the accesses of `list_del`, which only the scheduler
    thread makes. -/

namespace ReadyRing

open LinkRing

/-- A list node: the heads of `co_ready_queue` and `co_queue`, and the `list` of
    a coroutine. -/
inductive Node where
  | ready
  | queue
  | co (n : Nat)
  deriving DecidableEq

structure Links where
  next : Node → Option Node
  prev : Node → Option Node

def Links.setNext (m : Links) (p : Node) (q : Option Node) : Links :=
  { m with next := Function.update m.next p q }

def Links.setPrev (m : Links) (p : Node) (q : Option Node) : Links :=
  { m with prev := Function.update m.prev p q }

@[simp] theorem Links.setNext_self (m : Links) (p : Node) (q : Option Node) :
    (m.setNext p q).next p = q := Function.update_self ..

@[simp] theorem Links.setPrev_self (m : Links) (p : Node) (q : Option Node) :
    (m.setPrev p q).prev p = q := Function.update_self ..

theorem Links.setNext_ne (m : Links) {p x : Node} (q : Option Node) (h : x ≠ p) :
    (m.setNext p q).next x = m.next x := Function.update_of_ne h ..

theorem Links.setPrev_ne (m : Links) {p x : Node} (q : Option Node) (h : x ≠ p) :
    (m.setPrev p q).prev x = m.prev x := Function.update_of_ne h ..

/-- `list_add_tail`, before its read and before each of its writes; `prev` is
    what it read. -/
inductive AddPc where
  | readPrev
  | setHeadPrev (prev : Node)
  | setNext (prev : Node)
  | setPrev (prev : Node)
  | setPrevNext (prev : Node)
  deriving DecidableEq

/-- One access of `list_add_tail(new, head)`. -/
def addStep (m : Links) (new head : Node) : AddPc → Option (Links × Option AddPc)
  | .readPrev => (m.prev head).map fun prev => (m, some (.setHeadPrev prev))
  | .setHeadPrev prev => some (m.setPrev head (some new), some (.setNext prev))
  | .setNext prev => some (m.setNext new (some head), some (.setPrev prev))
  | .setPrev prev => some (m.setPrev new (some prev), some (.setPrevNext prev))
  | .setPrevNext prev => some (m.setNext prev (some new), none)

/-- `list_del`, before its two reads and before each of its writes. -/
inductive DelPc where
  | readPrev
  | readNext (prev : Node)
  | setNextPrev (prev next : Node)
  | setPrevNext (prev next : Node)
  | poisonNext
  | poisonPrev
  deriving DecidableEq

/-- One access of `list_del(entry)`. -/
def delStep (m : Links) (entry : Node) : DelPc → Option (Links × Option DelPc)
  | .readPrev => (m.prev entry).map fun prev => (m, some (.readNext prev))
  | .readNext prev => (m.next entry).map fun next => (m, some (.setNextPrev prev next))
  | .setNextPrev prev next => some (m.setPrev next (some prev), some (.setPrevNext prev next))
  | .setPrevNext prev next => some (m.setNext prev (some next), some .poisonNext)
  | .poisonNext => some (m.setNext entry none, some .poisonPrev)
  | .poisonPrev => some (m.setPrev entry none, none)

/-- The scheduler thread: between calls of `sched_co_resume`, in its `list_del`,
    at the store of CO_RUNNABLE, or in its `list_add_tail`. -/
inductive ResumePc where
  | idle
  | deleting (co : Nat) (pc : DelPc)
  | setRunnable (co : Nat)
  | adding (co : Nat) (pc : AddPc)
  deriving DecidableEq

/-- The pointers and the threads; `submitter` is who holds `sched->lock` in
    `sched_sched`.  `sleeping` are the coroutines on `co_queue` that no call has
    taken, and `entered` those on `co_ready_queue` at first and those of all
    calls so far. -/
structure State where
  links : Links
  resumer : ResumePc
  submitter : Option (Nat × AddPc)
  sleeping : List Nat
  entered : List Nat

inductive Thread where
  | resumer
  | submitter
  deriving DecidableEq

def Thread.other : Thread → Thread
  | .resumer => .submitter
  | .submitter => .resumer

inductive Act where
  | resume (co : Nat)
  | submit (co : Nat)
  | next (t : Thread)
  deriving DecidableEq

/-- The `list_add_tail` a thread is in. -/
def adding (s : State) : Thread → Option (Nat × AddPc)
  | .resumer =>
      match s.resumer with
      | .adding co pc => some (co, pc)
      | _ => none
  | .submitter => s.submitter

/-- A thread goes on in its `list_add_tail`, or ends its call with it. -/
def setAdding (s : State) (o : Option (Nat × AddPc)) : Thread → State
  | .resumer => { s with resumer := match o with
      | some (co, pc) => .adding co pc
      | none => .idle }
  | .submitter => { s with submitter := o }

/-- The next access of a thread in `list_add_tail`. -/
def addNext (s : State) (t : Thread) (co : Nat) (pc : AddPc) : Option State :=
  (addStep s.links (.co co) .ready pc).map fun r =>
    setAdding { s with links := r.1 } (r.2.map fun pc => (co, pc)) t

/-- The next access of the scheduler thread in `list_del`. -/
def delNext (s : State) (co : Nat) (pc : DelPc) : Option State :=
  (delStep s.links (.co co) pc).map fun r =>
    { s with
      links := r.1
      resumer := match r.2 with
        | some pc => .deleting co pc
        | none => .setRunnable co }

def step (s : State) : Act → Option State
  | .resume co =>
      if s.resumer = .idle ∧ co ∈ s.sleeping then
        some { s with
          resumer := .deleting co .readPrev
          sleeping := s.sleeping.erase co
          entered := s.entered ++ [co] }
      else none
  | .submit co =>
      if s.submitter = none ∧ co ∉ s.entered ++ s.sleeping then
        some { s with
          submitter := some (co, .readPrev)
          entered := s.entered ++ [co] }
      else none
  | .next .resumer =>
      match s.resumer with
      | .idle => none
      | .deleting co pc => delNext s co pc
      | .setRunnable co => some { s with resumer := .adding co .readPrev }
      | .adding co pc => addNext s .resumer co pc
  | .next .submitter => s.submitter.bind fun p => addNext s .submitter p.1 p.2

/-- The nodes of a queue. -/
def nodes (l : List Nat) : List Node := l.map Node.co

/-- A well-formed circular list. -/
structure Linked (m : Links) (head : Node) (l : List Nat) : Prop where
  next : NextRing m.next head (nodes l)
  prev : PrevRing m.prev head (nodes l)

/-- Two well-formed queues and no call under way. -/
structure Start (s : State) : Prop where
  resumer : s.resumer = .idle
  submitter : s.submitter = none
  ready : Linked s.links .ready s.entered
  queue : Linked s.links .queue s.sleeping
  nodup : (s.entered ++ s.sleeping).Nodup

/-- `co_ready_queue` is a ring of everybody, each once. -/
def ReadyOk (s : State) : Prop :=
  ∃ l : List Nat, l.Perm s.entered ∧ l.Nodup ∧ Linked s.links .ready l

/-- The next access of the first insertion spoils the second: it reads the tail
    that the second has read and not stored, or it stores into the `next` of the
    second's node before the second does. -/
def spoils : Option (Nat × AddPc) → Option (Nat × AddPc) → Bool
  | some (_, .readPrev), some (_, .setHeadPrev _) => true
  | some (_, .setPrevNext prev), some (k, .setNext _) => prev = .co k
  | _, _ => false

/-- The access spoils no insertion of the other thread. -/
def InOrder (s : State) : Act → Prop
  | .next t => spoils (adding s t) (adding s t.other) = false
  | _ => True

instance (s : State) : (a : Act) → Decidable (InOrder s a)
  | .next _ => inferInstanceAs (Decidable (_ = false))
  | .resume _ => .isTrue trivial
  | .submit _ => .isTrue trivial

/-- The thread is in a call. -/
def Busy (s : State) : Thread → Prop
  | .resumer => s.resumer ≠ .idle
  | .submitter => s.submitter ≠ none

-- ── `list_del` from `co_queue` ───────────────────────────────────────────────

/-- The queue of sleepers while `co` is deleted from between `l₁` and `l₂`. -/
def DelInv (m : Links) (co : Nat) (l₁ l₂ : List Nat) : DelPc → Prop
  | .readPrev => Linked m .queue (l₁ ++ co :: l₂)
  | .readNext prev => Linked m .queue (l₁ ++ co :: l₂)
      ∧ (Node.queue :: nodes l₁).getLast? = some prev
  | .setNextPrev prev next => Linked m .queue (l₁ ++ co :: l₂)
      ∧ (Node.queue :: nodes l₁).getLast? = some prev
      ∧ (nodes l₂ ++ [Node.queue]).head? = some next
  | .setPrevNext prev next => NextRing m.next .queue (nodes (l₁ ++ co :: l₂))
      ∧ PrevRing m.prev .queue (nodes (l₁ ++ l₂))
      ∧ (Node.queue :: nodes l₁).getLast? = some prev
      ∧ (nodes l₂ ++ [Node.queue]).head? = some next
  | .poisonNext => Linked m .queue (l₁ ++ l₂)
  | .poisonPrev => Linked m .queue (l₁ ++ l₂)

/-- The nodes of `co_queue`, with one that is being deleted. -/
def queueNodes (l : List Nat) : List Node := .queue :: nodes l

section Del

variable {m m' : Links} {co : Nat} {l l₁ l₂ : List Nat} {pc : DelPc}

theorem nodes_around : nodes (l₁ ++ co :: l₂) = nodes l₁ ++ .co co :: nodes l₂ := by
  simp [nodes]

theorem nodes_parts : nodes (l₁ ++ l₂) = nodes l₁ ++ nodes l₂ := by
  simp [nodes]

theorem queueNodes_nodup (h : l.Nodup) : (queueNodes l).Nodup := by
  refine List.nodup_cons.mpr ⟨by simp [nodes], ?_⟩
  exact h.map fun _ _ he => Node.co.inj he

theorem Linked.frame (h : Linked m .queue l) (hnext : ∀ x ∈ queueNodes l, m'.next x = m.next x)
    (hprev : ∀ x ∈ queueNodes l, m'.prev x = m.prev x) : Linked m' .queue l where
  next := h.next.congr hnext
  prev := h.prev.congr hprev

/-- The nodes left are among the nodes before. -/
theorem queueNodes_sub {x : Node} (h : x ∈ queueNodes (l₁ ++ l₂)) :
    x ∈ queueNodes (l₁ ++ co :: l₂) := by
  rw [queueNodes, nodes_parts] at h
  rw [queueNodes, nodes_around]
  simp only [List.mem_cons, List.mem_append] at h ⊢
  rcases h with h | h | h
  · exact Or.inl h
  · exact Or.inr (Or.inl h)
  · exact Or.inr (Or.inr (Or.inr h))

/-- Only the nodes of `co_queue` matter. -/
theorem DelInv.frame (h : DelInv m co l₁ l₂ pc)
    (hnext : ∀ x ∈ queueNodes (l₁ ++ co :: l₂), m'.next x = m.next x)
    (hprev : ∀ x ∈ queueNodes (l₁ ++ co :: l₂), m'.prev x = m.prev x) :
    DelInv m' co l₁ l₂ pc := by
  cases pc with
  | readPrev => exact Linked.frame h hnext hprev
  | readNext prev => exact ⟨h.1.frame hnext hprev, h.2⟩
  | setNextPrev prev next => exact ⟨h.1.frame hnext hprev, h.2⟩
  | setPrevNext prev next =>
      exact ⟨h.1.congr hnext, h.2.1.congr fun x hx => hprev x (queueNodes_sub hx), h.2.2⟩
  | poisonNext | poisonPrev =>
      exact Linked.frame h (fun x hx => hnext x (queueNodes_sub hx))
        fun x hx => hprev x (queueNodes_sub hx)

/-- The neighbours of the deleted node are nodes of `co_queue`. -/
theorem neighbour_mem {p n : Node} (hp : (Node.queue :: nodes l₁).getLast? = some p)
    (hn : (nodes l₂ ++ [Node.queue]).head? = some n) :
    p ∈ queueNodes (l₁ ++ l₂) ∧ n ∈ queueNodes (l₁ ++ l₂) := by
  have hp' := List.mem_of_getLast? hp
  have hn' := List.mem_of_mem_head? hn
  rw [queueNodes, nodes_parts]
  simp only [List.mem_cons, List.mem_append, List.not_mem_nil, or_false] at hp' hn' ⊢
  constructor
  · rcases hp' with hp' | hp'
    · exact Or.inl hp'
    · exact Or.inr (Or.inl hp')
  · rcases hn' with hn' | hn'
    · exact Or.inr (Or.inr hn')
    · exact Or.inl hn'

/-- **ONE ACCESS** of `list_del`: it has a result, it writes nodes of `co_queue`
    only, and after the last one the rest is a ring again. -/
theorem delStep_inv (h : DelInv m co l₁ l₂ pc) (hd : (l₁ ++ co :: l₂).Nodup) :
    ∃ r, delStep m (.co co) pc = some r
      ∧ (∀ pc', r.2 = some pc' → DelInv r.1 co l₁ l₂ pc')
      ∧ (r.2 = none → Linked r.1 .queue (l₁ ++ l₂))
      ∧ ∀ x, x ∉ queueNodes (l₁ ++ co :: l₂) →
          r.1.next x = m.next x ∧ r.1.prev x = m.prev x := by
  have hnd : (Node.queue :: (nodes l₁ ++ .co co :: nodes l₂)).Nodup := by
    rw [← nodes_around]
    exact queueNodes_nodup hd
  obtain ⟨p, hp⟩ : ∃ p, (Node.queue :: nodes l₁).getLast? = some p :=
    ⟨_, List.getLast?_eq_some_getLast (List.cons_ne_nil _ _)⟩
  obtain ⟨n, hn⟩ : ∃ n, (nodes l₂ ++ [Node.queue]).head? = some n := by
    cases l₂ with
    | nil => exact ⟨_, rfl⟩
    | cons a l => exact ⟨_, rfl⟩
  have hout : ∀ x, x ∉ queueNodes (l₁ ++ co :: l₂) → x ≠ p ∧ x ≠ n ∧ x ≠ .co co := by
    intro x hx
    obtain ⟨hpm, hnm⟩ := neighbour_mem hp hn
    refine ⟨?_, ?_, ?_⟩
    · exact fun he => hx (queueNodes_sub (he ▸ hpm))
    · exact fun he => hx (queueNodes_sub (he ▸ hnm))
    · rintro rfl
      refine hx (List.mem_cons_of_mem _ ?_)
      rw [nodes_around]
      exact List.mem_append_right _ List.mem_cons_self
  have hnd₁ : ((Node.queue :: nodes l₁) ++ .co co :: nodes l₂).Nodup := hnd
  have hself : ∀ x ∈ queueNodes (l₁ ++ l₂), x ≠ .co co := by
    rintro x hx rfl
    refine (List.nodup_cons.mp (List.nodup_middle.mp hnd₁)).1 ?_
    rwa [queueNodes, nodes_parts] at hx
  cases pc with
  | readPrev =>
      have hring : Linked m .queue (l₁ ++ co :: l₂) := h
      have hprev : m.prev (.co co) = some p := (nodes_around ▸ hring.prev).prev_entry hp
      refine ⟨(m, some (.readNext p)), by rw [delStep, hprev]; rfl, ?_, (fun he => nomatch he),
        fun _ _ => ⟨rfl, rfl⟩⟩
      intro pc' he
      cases he
      exact ⟨hring, hp⟩
  | readNext prev =>
      obtain ⟨hring, hprev⟩ := h
      have hnext : m.next (.co co) = some n := (nodes_around ▸ hring.next).next_entry hn
      refine ⟨(m, some (.setNextPrev prev n)), by rw [delStep, hnext]; rfl, ?_,
        (fun he => nomatch he), fun _ _ => ⟨rfl, rfl⟩⟩
      intro pc' he
      cases he
      exact ⟨hring, hprev, hn⟩
  | setNextPrev prev next =>
      obtain ⟨hring, hprev, hnext⟩ := h
      rw [hp] at hprev
      rw [hn] at hnext
      cases hprev
      cases hnext
      refine ⟨(m.setPrev n (some p), some (.setPrevNext p n)), rfl, ?_, (fun he => nomatch he), ?_⟩
      · intro pc' he
        cases he
        refine ⟨hring.next, ?_, hp, hn⟩
        rw [nodes_parts]
        exact (nodes_around ▸ hring.prev).splice hnd hp hn
      · exact fun x hx => ⟨rfl, m.setPrev_ne _ (hout x hx).2.1⟩
  | setPrevNext prev next =>
      obtain ⟨hring, hback, hprev, hnext⟩ := h
      rw [hp] at hprev
      rw [hn] at hnext
      cases hprev
      cases hnext
      refine ⟨(m.setNext p (some n), some .poisonNext), rfl, ?_, (fun he => nomatch he), ?_⟩
      · intro pc' he
        cases he
        refine ⟨?_, hback⟩
        rw [nodes_parts]
        exact (nodes_around ▸ hring).splice hnd hp hn
      · exact fun x hx => ⟨m.setNext_ne _ (hout x hx).1, rfl⟩
  | poisonNext =>
      have hring : Linked m .queue (l₁ ++ l₂) := h
      refine ⟨(m.setNext (.co co) none, some .poisonPrev), rfl, ?_, (fun he => nomatch he), ?_⟩
      · intro pc' he
        cases he
        exact hring.frame (fun x hx => m.setNext_ne _ (hself x hx)) fun _ _ => rfl
      · exact fun x hx => ⟨m.setNext_ne _ (hout x hx).2.2, rfl⟩
  | poisonPrev =>
      have hring : Linked m .queue (l₁ ++ l₂) := h
      refine ⟨(m.setPrev (.co co) none, none), rfl, (fun _ he => nomatch he), ?_, ?_⟩
      · intro _
        exact hring.frame (fun _ _ => rfl) fun x hx => m.setPrev_ne _ (hself x hx)
      · exact fun x hx => ⟨rfl, m.setPrev_ne _ (hout x hx).2.2⟩

end Del

end ReadyRing
