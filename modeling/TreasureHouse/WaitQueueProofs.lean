import TreasureHouse.LabelledRunProofs
import TreasureHouse.LinkRingProofs

/-! # `coroutine/sched/wait.c` — who is on a wait queue

    `prepare_to_wait_event` hands `list_add` and `list_add_tail` the head of
    the queue as the new node and the entry as the list.  Both then link the
    head into the ring of the entry, so each waiter that arrives takes the
    queue over from those before it.  `prepare_to_wait` goes through
    `_add_wait_queue`, which has the arguments in order.

      • `prepareToWait_order`: the waiters of `prepare_to_wait` are all on the
        queue, the latest first.
      • `prepareToWaitEvent_order_iff`: those of `prepare_to_wait_event` are
        only as long as there is at most one.

    Nodes are of any type; a node is the queue or a waiter's entry.  The spin
    lock is held over each call, so calls are steps.  What
    `coroutine_set_current_state` does to the ready queue is left out. -/

namespace WaitQueue

open LabelledRun LinkRing Succession

variable {α : Type} [DecidableEq α]

-- ── `container/list.h` ───────────────────────────────────────────────────────

/-- The two links of every `struct list_head`. -/
structure Links (α : Type) where
  next : α → α
  prev : α → α

/-- `INIT_LIST_HEAD`. -/
def initListHead (lists : Links α) (list : α) : Links α where
  next := Function.update lists.next list list
  prev := Function.update lists.prev list list

/-- `list_empty`. -/
def listEmpty (lists : Links α) (head : α) : Bool := decide (lists.next head = head)

/-- `__list_add`, its four stores in order. -/
def listInsert (lists : Links α) (new prev next : α) : Links α where
  next := Function.update (Function.update lists.next new next) prev new
  prev := Function.update (Function.update lists.prev next new) new prev

@[simp] theorem listInsert_next (lists : Links α) (new prev next : α) :
    (listInsert lists new prev next).next
      = Function.update (Function.update lists.next new next) prev new := rfl

@[simp] theorem listInsert_prev (lists : Links α) (new prev next : α) :
    (listInsert lists new prev next).prev
      = Function.update (Function.update lists.prev next new) new prev := rfl

/-- `list_add`. -/
def listAdd (lists : Links α) (new head : α) : Links α :=
  listInsert lists new head (lists.next head)

/-- `list_add_tail`. -/
def listAddTail (lists : Links α) (new head : α) : Links α :=
  listInsert lists new (lists.prev head) head

/-- `list_del_init`. -/
def listDelInit (lists : Links α) (entry : α) : Links α :=
  initListHead
    { next := Function.update lists.next (lists.prev entry) (lists.next entry)
      prev := Function.update lists.prev (lists.next entry) (lists.prev entry) } entry

/-- `list_for_each` from `pos` on, within some number of rounds. -/
def listForEach (next : α → α) (head : α) : Nat → α → Option (List α)
  | 0, _ => none
  | k + 1, pos =>
      if pos = head then some []
      else (listForEach next head k (next pos)).map fun l => pos :: l

/-- Traversing the list at `head` visits `l`. -/
def Visits (lists : Links α) (head : α) (l : List α) : Prop :=
  ∃ k, listForEach lists.next head k (lists.next head) = some l

-- ── `wait.c` ─────────────────────────────────────────────────────────────────

/-- `WQ_FLAG_EXCLUSIVE`. -/
def wqFlagExclusive : Nat := 1

/-- `ERESTARTSYS`. -/
def eRestartSys : Int := 512

/-- The links, the `flags` and `private` of the entries, and the status of the
    coroutines. -/
structure Waits (α : Type) where
  lists : Links α
  flags : α → Nat
  owner : α → Nat
  status : Nat → Nat

/-- `init_wait_entry`, called by coroutine `co`. -/
def initWaitEntry (w : Waits α) (wait : α) (flags co : Nat) : Waits α :=
  { w with
    lists := initListHead w.lists wait
    flags := Function.update w.flags wait flags
    owner := Function.update w.owner wait co }

/-- `signal_pending_state`. -/
def signalPendingState (_state _co : Nat) : Bool := false

/-- `coroutine_set_current_state` of coroutine `co`. -/
def setCurrentState (w : Waits α) (co state : Nat) : Waits α :=
  { w with status := Function.update w.status co state }

/-- `wq_entry->flags & WQ_FLAG_EXCLUSIVE`. -/
def exclusive (w : Waits α) (entry : α) : Bool := decide (w.flags entry &&& wqFlagExclusive ≠ 0)

/-- `prepare_to_wait_event`, called by coroutine `co`.  For a pending signal
    the source names a member the entry does not have; its list node is
    meant. -/
def prepareToWaitEvent (head : α) (w : Waits α) (entry : α) (co state : Nat) : Int × Waits α :=
  if signalPendingState state co then
    (eRestartSys, { w with lists := listDelInit w.lists entry })
  else
    let lists :=
      if listEmpty w.lists entry then
        if exclusive w entry then listAddTail w.lists head entry
        else listAdd w.lists head entry
      else w.lists
    (0, setCurrentState { w with lists := lists } co state)

/-- `_add_wait_queue`. -/
def addWaitQueue (head : α) (lists : Links α) (new : α) : Links α := listAdd lists new head

/-- `prepare_to_wait`, called by coroutine `co`. -/
def prepareToWait (head : α) (w : Waits α) (wait : α) (co state : Nat) : Waits α :=
  setCurrentState
    { w with lists := if listEmpty w.lists wait then addWaitQueue head w.lists wait else w.lists }
    co state

-- ── Runs ─────────────────────────────────────────────────────────────────────

/-- A queue with the waiters that came to it, in order. -/
structure Queue (α : Type) where
  waits : Waits α
  arrived : List α

/-- The calls: a new waiter initialises its entry and prepares to wait; one
    that came before, and goes round the loop of `___wait_event`, prepares
    again. -/
inductive Act (α : Type) where
  | arrive (entry : α) (flags co state : Nat)
  | again (entry : α) (state : Nat)

/-- One call, for either way to prepare. -/
def waitStep (prepare : Waits α → α → Nat → Nat → Waits α) (head : α) (q : Queue α) :
    Act α → Option (Queue α)
  | .arrive entry flags co state =>
      if entry ∈ head :: q.arrived then none
      else some {
        waits := prepare (initWaitEntry q.waits entry flags co) entry co state
        arrived := q.arrived ++ [entry] }
  | .again entry state =>
      if entry ∈ q.arrived then
        some { q with waits := prepare q.waits entry (q.waits.owner entry) state }
      else none

/-- An empty queue, to which nobody came. -/
def EmptyQueue (head : α) (q : Queue α) : Prop :=
  q.arrived = [] ∧ q.waits.lists.next head = head ∧ q.waits.lists.prev head = head

/-- The runs of calls of `prepare_to_wait_event`. -/
def EventRun (head : α) (q : Queue α) : Prop :=
  Reach (EmptyQueue head)
    (fires (waitStep (fun w entry co state => (prepareToWaitEvent head w entry co state).2) head)) q

/-- The runs of calls of `prepare_to_wait`. -/
def WaitRun (head : α) (q : Queue α) : Prop :=
  Reach (EmptyQueue head) (fires (waitStep (prepareToWait head) head)) q

/-- The waiters that are not exclusive, the latest first, then the exclusive
    ones in the order they came. -/
def queueOrder (q : Queue α) : List α :=
  (q.arrived.filter fun entry => !exclusive q.waits entry).reverse
    ++ q.arrived.filter fun entry => exclusive q.waits entry

-- ── Traversal ────────────────────────────────────────────────────────────────

theorem listForEach_of_follows {next : α → α} {head : α} : ∀ {l : List α} {p : α},
    (∀ x y, Follows (p :: (l ++ [head])) x y → next x = y) → head ∉ l →
      listForEach next head (l.length + 1) (next p) = some l := by
  intro l
  induction l with
  | nil =>
      intro p h _
      rw [h p head (follows_front []), listForEach, if_pos rfl]
  | cons a l ih =>
      intro p h hhead
      rw [List.mem_cons, not_or] at hhead
      rw [h p a (follows_front (l ++ [head])), List.length_cons, listForEach,
        if_neg (Ne.symm hhead.1),
        ih (fun x y hf => h x y (follows_cons.mpr (Or.inr hf))) hhead.2, Option.map_some]

/-- A ring is visited entry by entry. -/
theorem visits_of_ring {lists : Links α} {head : α} {l : List α}
    (h : NextRing (some ∘ lists.next) head l) (hhead : head ∉ l) : Visits lists head l :=
  ⟨_, listForEach_of_follows (fun x y hf => Option.some.inj (h x y hf)) hhead⟩

theorem listForEach_unique {next : α → α} {head : α} : ∀ {k k' : Nat} {pos : α} {l l' : List α},
    listForEach next head k pos = some l → listForEach next head k' pos = some l' → l = l' := by
  intro k
  induction k with
  | zero =>
      intro k' pos l l' h
      cases h
  | succ k ih =>
      intro k' pos l l' h h'
      cases k' with
      | zero => cases h'
      | succ k' =>
          rw [listForEach] at h h'
          by_cases hpos : pos = head
          · rw [if_pos hpos] at h h'
            cases h
            cases h'
            rfl
          · rw [if_neg hpos, Option.map_eq_some_iff] at h h'
            obtain ⟨t, ht, rfl⟩ := h
            obtain ⟨t', ht', rfl⟩ := h'
            rw [ih ht ht']

theorem Visits.unique {lists : Links α} {head : α} {l l' : List α} (h : Visits lists head l)
    (h' : Visits lists head l') : l = l' := by
  obtain ⟨k, hk⟩ := h
  obtain ⟨k', hk'⟩ := h'
  exact listForEach_unique hk hk'

omit [DecidableEq α] in
theorem queueOrder_perm (q : Queue α) : (queueOrder q).Perm q.arrived :=
  ((List.reverse_perm _).append_right _).trans
    (List.perm_append_comm.trans (List.filter_append_perm _ q.arrived))

/-- What a call does: a fresh entry is initialised and prepared, or one that
    came before is prepared again. -/
theorem waitStep_cases {prepare : Waits α → α → Nat → Nat → Waits α} {head : α}
    {q q' : Queue α} {act : Act α} (h : waitStep prepare head q act = some q') :
    (∃ entry flags co state, entry ∉ head :: q.arrived ∧ q' = {
        waits := prepare (initWaitEntry q.waits entry flags co) entry co state
        arrived := q.arrived ++ [entry] })
      ∨ ∃ entry co state, entry ∈ q.arrived
        ∧ q' = { q with waits := prepare q.waits entry co state } := by
  cases act with
  | arrive entry flags co state =>
      rw [waitStep] at h
      by_cases hmem : entry ∈ head :: q.arrived
      · rw [if_pos hmem] at h
        cases h
      · rw [if_neg hmem] at h
        cases h
        exact Or.inl ⟨entry, flags, co, state, hmem, rfl⟩
  | again entry state =>
      rw [waitStep] at h
      by_cases hmem : entry ∈ q.arrived
      · rw [if_pos hmem] at h
        cases h
        exact Or.inr ⟨entry, _, state, hmem, rfl⟩
      · rw [if_neg hmem] at h
        cases h

/-- What `init_wait_entry` leaves of the links. -/
theorem initWaitEntry_self (w : Waits α) (wait : α) (flags co : Nat) :
    (initWaitEntry w wait flags co).lists.next wait = wait
      ∧ (initWaitEntry w wait flags co).lists.prev wait = wait :=
  ⟨Function.update_self .., Function.update_self ..⟩

theorem initWaitEntry_ne (w : Waits α) {wait e : α} (flags co : Nat) (h : e ≠ wait) :
    (initWaitEntry w wait flags co).lists.next e = w.lists.next e
      ∧ (initWaitEntry w wait flags co).lists.prev e = w.lists.prev e :=
  ⟨Function.update_of_ne h .., Function.update_of_ne h ..⟩

-- ── `prepare_to_wait_event` ──────────────────────────────────────────────────

section Event

variable {head : α} {w : Waits α} {entry : α}

/-- On a fresh entry both calls link the head behind the entry. -/
theorem prepareToWaitEvent_fresh (head : α) (co state : Nat) (hn : w.lists.next entry = entry)
    (hp : w.lists.prev entry = entry) :
    (prepareToWaitEvent head w entry co state).2.lists = listInsert w.lists head entry entry := by
  have hempty : listEmpty w.lists entry = true := decide_eq_true hn
  rw [prepareToWaitEvent, signalPendingState, if_neg Bool.false_ne_true]
  simp only [setCurrentState, if_pos hempty, listAddTail, listAdd, hn, hp, ite_self]

/-- Two nodes are left of the ring: the head and the entry. -/
theorem listInsert_head (lists : Links α) (h : entry ≠ head) :
    (listInsert lists head entry entry).next head = entry
      ∧ (listInsert lists head entry entry).next entry = head
      ∧ ∀ e, e ≠ entry → e ≠ head →
          (listInsert lists head entry entry).next e = lists.next e := by
  rw [listInsert_next]
  refine ⟨?_, Function.update_self .., ?_⟩
  · rw [Function.update_of_ne h.symm, Function.update_self]
  · intro e hne hnh
    rw [Function.update_of_ne hne, Function.update_of_ne hnh]

theorem prepareToWaitEvent_queued (head : α) (co state : Nat)
    (hn : w.lists.next entry ≠ entry) :
    (prepareToWaitEvent head w entry co state).2.lists = w.lists := by
  have hempty : ¬ listEmpty w.lists entry = true := fun h => hn (of_decide_eq_true h)
  rw [prepareToWaitEvent, signalPendingState, if_neg Bool.false_ne_true]
  simp only [setCurrentState, if_neg hempty]

/-- The queue knows the last waiter only, and every entry points to the head. -/
structure TakenOver (head : α) (q : Queue α) : Prop where
  fresh : head ∉ q.arrived
  empty : q.arrived = [] → q.waits.lists.next head = head
  last : ∀ z, q.arrived.getLast? = some z → q.waits.lists.next head = z
  back : ∀ e ∈ q.arrived, q.waits.lists.next e = head

/-- **EVERY ARRIVAL TAKES THE QUEUE OVER.** -/
theorem EventRun.takenOver : ∀ q : Queue α, EventRun head q → TakenOver head q := by
  refine Reach.invariant ?_ ?_
  · rintro q ⟨harr, hnext, -⟩
    exact {
      fresh := by rw [harr]; exact List.not_mem_nil
      empty := fun _ => hnext
      last := by
        intro z hz
        rw [harr] at hz
        cases hz
      back := by
        intro e he
        rw [harr] at he
        cases he }
  · intro q act q' _ h hstep
    obtain ⟨entry, flags, co, state, hnew, rfl⟩ | ⟨entry, co, state, hmem, rfl⟩ :=
      waitStep_cases hstep
    · rw [List.mem_cons, not_or] at hnew
      obtain ⟨hself, hself'⟩ := initWaitEntry_self q.waits entry flags co
      have hlists := prepareToWaitEvent_fresh head co state hself hself'
      obtain ⟨hhead, hentry, hrest⟩ :=
        listInsert_head (initWaitEntry q.waits entry flags co).lists hnew.1
      exact {
        fresh := by
          rw [List.mem_append, List.mem_singleton, not_or]
          exact ⟨h.fresh, Ne.symm hnew.1⟩
        empty := fun h0 => absurd h0 (List.concat_ne_nil _ _)
        last := by
          intro z hz
          rw [List.getLast?_concat] at hz
          cases hz
          rw [hlists, hhead]
        back := by
          intro e he
          rw [hlists]
          rcases List.mem_append.mp he with hold | hlast
          · have hne : e ≠ entry := by
              rintro rfl
              exact hnew.2 hold
            have hnh : e ≠ head := by
              rintro rfl
              exact h.fresh hold
            rw [hrest e hne hnh, (initWaitEntry_ne q.waits flags co hne).1]
            exact h.back e hold
          · rw [List.mem_singleton.mp hlast, hentry] }
    · -- an entry that came before is linked to the head, so nothing is linked
      have hne : q.waits.lists.next entry ≠ entry := by
        rw [h.back entry hmem]
        rintro rfl
        exact h.fresh hmem
      have hlists := prepareToWaitEvent_queued head co state hne
      exact {
        fresh := h.fresh
        empty := by rw [hlists]; exact h.empty
        last := by rw [hlists]; exact h.last
        back := by rw [hlists]; exact h.back }

/-- The traversal visits the last waiter and no other. -/
theorem TakenOver.visits {q : Queue α} (h : TakenOver head q) :
    Visits q.waits.lists head q.arrived.getLast?.toList := by
  cases hz : q.arrived.getLast? with
  | none =>
      refine ⟨1, ?_⟩
      rw [h.empty (List.getLast?_eq_none_iff.mp hz), listForEach, if_pos rfl, Option.toList_none]
  | some z =>
      have hmem : z ∈ q.arrived := List.mem_of_getLast? hz
      have hne : z ≠ head := by
        rintro rfl
        exact h.fresh hmem
      refine ⟨2, ?_⟩
      rw [h.last z hz, listForEach, if_neg hne, h.back z hmem, listForEach, if_pos rfl,
        Option.map_some, Option.toList_some]

/-- **THE ORDER OF THE QUEUE** is right exactly as long as at most one waiter
    came. -/
theorem prepareToWaitEvent_order_iff (head : α) {q : Queue α} (hr : EventRun head q) :
    Visits q.waits.lists head (queueOrder q) ↔ q.arrived.length ≤ 1 := by
  have hvisits := (EventRun.takenOver q hr).visits
  have hperm := queueOrder_perm q
  constructor
  · intro h
    rw [← hperm.length_eq, h.unique hvisits]
    cases q.arrived.getLast? with
    | none => exact Nat.zero_le 1
    | some z => exact Nat.le_refl 1
  · intro hlen
    have horder : queueOrder q = q.arrived.getLast?.toList := by
      match harr : q.arrived, hlen with
      | [], _ =>
          rw [harr] at hperm
          exact List.perm_nil.mp hperm
      | [z], _ =>
          rw [harr] at hperm
          exact List.perm_singleton.mp hperm
    rw [horder]
    exact hvisits

end Event

/-- An empty queue at node 0. -/
def emptyAt : Queue Nat where
  waits := { lists := ⟨id, id⟩, flags := fun _ => 0, owner := fun _ => 0, status := fun _ => 0 }
  arrived := []

theorem emptyAt_empty : EmptyQueue 0 emptyAt := ⟨rfl, rfl, rfl⟩

/-- One waiter that comes and prepares again. -/
theorem prepareToWaitEvent_order_iff_one :
    ∃ q : Queue Nat, EventRun 0 q ∧ q.arrived = [1] ∧ Visits q.waits.lists 0 (queueOrder q) := by
  obtain ⟨q, hr, htest⟩ := Reach.exists_of_runList [.arrive 1 0 7 5, .again 1 5]
    (fun (q : Queue Nat) => decide (q.arrived = [1]))
    (Reach.start emptyAt_empty : EventRun 0 emptyAt) (by decide +kernel)
  have harr : q.arrived = [1] := of_decide_eq_true htest
  refine ⟨q, hr, harr, (prepareToWaitEvent_order_iff 0 hr).mpr ?_⟩
  rw [harr]
  exact Nat.le_refl 1

/-- Of two waiters the first is no longer on the queue. -/
theorem prepareToWaitEvent_loses_first :
    ¬ ∀ (head : Nat) (q : Queue Nat), EventRun head q →
      Visits q.waits.lists head (queueOrder q) := by
  intro h
  obtain ⟨q, hr, htest⟩ := Reach.exists_of_runList [.arrive 1 0 7 5, .arrive 2 0 8 5]
    (fun (q : Queue Nat) => decide (queueOrder q = [2, 1])
      && decide (listForEach q.waits.lists.next 0 2 (q.waits.lists.next 0) = some [2]))
    (Reach.start emptyAt_empty : EventRun 0 emptyAt) (by decide +kernel)
  rw [Bool.and_eq_true, decide_eq_true_eq, decide_eq_true_eq] at htest
  obtain ⟨horder, hwalk⟩ := htest
  have hvisits := h 0 q hr
  rw [horder] at hvisits
  have hlost := hvisits.unique ⟨2, hwalk⟩
  cases hlost

-- ── `prepare_to_wait` ────────────────────────────────────────────────────────

section Wait

variable {head : α}

/-- The waiters form a ring, the latest next to the head. -/
structure Ringed (head : α) (q : Queue α) : Prop where
  nodup : (head :: q.arrived.reverse).Nodup
  next : NextRing (some ∘ q.waits.lists.next) head q.arrived.reverse
  prev : PrevRing (some ∘ q.waits.lists.prev) head q.arrived.reverse

/-- `list_add` of a fresh node puts it in front. -/
theorem listAdd_ring {lists : Links α} {l : List α} {new : α} (hd : (head :: l).Nodup)
    (hfresh : new ∉ head :: l) (hnext : NextRing (some ∘ lists.next) head l)
    (hprev : PrevRing (some ∘ lists.prev) head l) :
    NextRing (some ∘ (listAdd lists new head).next) head (new :: l)
      ∧ PrevRing (some ∘ (listAdd lists new head).prev) head (new :: l) := by
  obtain ⟨n, t, ht⟩ : ∃ n t, l ++ [head] = n :: t :=
    List.exists_cons_of_ne_nil (List.append_ne_nil_of_right_ne_nil l (List.cons_ne_nil head []))
  have hn : (l ++ [head]).head? = some n := by rw [ht, List.head?_cons]
  have hfirst : lists.next head = n := Option.some.inj (hnext.next_head hn)
  rw [listAdd, hfirst, listInsert_next, listInsert_prev, Function.comp_update,
    Function.comp_update, Function.comp_update, Function.comp_update]
  have hnext' : NextRing (some ∘ lists.next) head ([] ++ l) := hnext
  have hprev' : PrevRing (some ∘ lists.prev) head ([] ++ l) := hprev
  exact ⟨hnext'.insert hd hfresh rfl hn, hprev'.insert hd hfresh rfl hn⟩

theorem prepareToWait_fresh {w : Waits α} {wait : α} (head : α) (co state : Nat)
    (hn : w.lists.next wait = wait) :
    (prepareToWait head w wait co state).lists = listAdd w.lists wait head := by
  have hempty : listEmpty w.lists wait = true := decide_eq_true hn
  simp only [prepareToWait, setCurrentState, if_pos hempty, addWaitQueue]

theorem prepareToWait_queued {w : Waits α} {wait : α} (head : α) (co state : Nat)
    (hn : w.lists.next wait ≠ wait) :
    (prepareToWait head w wait co state).lists = w.lists := by
  have hempty : ¬ listEmpty w.lists wait = true := fun h => hn (of_decide_eq_true h)
  simp only [prepareToWait, setCurrentState, if_neg hempty]

theorem WaitRun.ringed : ∀ q : Queue α, WaitRun head q → Ringed head q := by
  refine Reach.invariant ?_ ?_
  · rintro q ⟨harr, hnext, hprev⟩
    exact {
      nodup := by
        rw [harr]
        exact List.nodup_singleton head
      next := by
        rw [harr]
        exact nextRing_nil (congrArg some hnext)
      prev := by
        rw [harr]
        exact prevRing_nil (congrArg some hprev) }
  · intro q act q' _ h hstep
    obtain ⟨entry, flags, co, state, hnew, rfl⟩ | ⟨entry, co, state, hmem, rfl⟩ :=
      waitStep_cases hstep
    · have hfresh : entry ∉ head :: q.arrived.reverse := by
        rw [List.mem_cons, List.mem_reverse, ← List.mem_cons]
        exact hnew
      -- initialising the entry leaves the ring as it is
      have hkeep : ∀ e ∈ head :: q.arrived.reverse,
          (initWaitEntry q.waits entry flags co).lists.next e = q.waits.lists.next e
            ∧ (initWaitEntry q.waits entry flags co).lists.prev e = q.waits.lists.prev e := by
        intro e he
        refine initWaitEntry_ne q.waits flags co ?_
        rintro rfl
        exact hfresh he
      have hlists := prepareToWait_fresh head co state
        (initWaitEntry_self q.waits entry flags co).1
      obtain ⟨hnext, hprev⟩ := listAdd_ring h.nodup hfresh
        (h.next.congr fun e he => congrArg some (hkeep e he).1)
        (h.prev.congr fun e he => congrArg some (hkeep e he).2)
      have hrev : (q.arrived ++ [entry]).reverse = entry :: q.arrived.reverse :=
        List.reverse_concat ..
      exact {
        nodup := by
          rw [hrev]
          exact ((List.Perm.swap entry head _).nodup_iff).mpr
            (List.nodup_cons.mpr ⟨hfresh, h.nodup⟩)
        next := by rw [hrev, hlists]; exact hnext
        prev := by rw [hrev, hlists]; exact hprev }
    · -- an entry on the ring is not linked to itself
      have hne : q.waits.lists.next entry ≠ entry := fun heq =>
        h.next.next_ne h.nodup (List.mem_reverse.mpr hmem) (congrArg some heq)
      have hlists := prepareToWait_queued head co state hne
      exact {
        nodup := h.nodup
        next := by rw [hlists]; exact h.next
        prev := by rw [hlists]; exact h.prev }

/-- **THE SIBLING PATH**: every waiter of `prepare_to_wait` is on the queue,
    the latest first, and is linked both ways. -/
theorem prepareToWait_order (head : α) {q : Queue α} (hr : WaitRun head q) :
    Visits q.waits.lists head q.arrived.reverse
      ∧ PrevRing (some ∘ q.waits.lists.prev) head q.arrived.reverse := by
  have h := WaitRun.ringed q hr
  exact ⟨visits_of_ring h.next (List.nodup_cons.mp h.nodup).1, h.prev⟩

end Wait

end WaitQueue
