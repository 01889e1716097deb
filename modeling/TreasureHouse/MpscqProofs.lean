import TreasureHouse.LabelledRunProofs
import TreasureHouse.SuccessionProofs

/-! # `queue/mpscq.c` — the multi-producer single-consumer queue, step by step

    One step is one access to shared memory, and the steps of all threads
    interleave in any order (sequential consistency).  `mpscq_push` is the
    three accesses of the source with `atm_full_xchg` written out as its loop:
    load `head`, compare-and-swap it, start over when the swap fails.
    `mpscq_pop` is one step for each of its loads and stores, and it runs the
    same push on the stub.

    The set of producer threads `τ` is arbitrary, and a node may be pushed
    again once `mpscq_pop` has returned it.  Two histories are recorded beside
    the memory: `xchgs`, the nodes in the order of their exchanges on `head`,
    and `rets`, the nodes returned by `mpscq_pop`. -/

namespace Mpscq

variable {α τ : Type} [DecidableEq α] [DecidableEq τ]

/-- A node of the queue: the embedded stub or a node of a client. -/
inductive Node (α : Type) where
  | stub
  | elem (a : α)
  deriving DecidableEq

/-- Where a thread stands inside `mpscq_push(self, n)`. -/
inductive PushPc (α : Type) where
  | idle
  | clear (n : Node α)
  | load (n : Node α)
  | cas (n cur : Node α)
  | link (n prev : Node α)

/-- Where the consumer stands inside `mpscq_pop`, with its local variables. -/
inductive PopPc (α : Type) where
  | idle
  | loadNext (tail : Node α)
  | branch (tail : Node α) (next : Option (Node α))
  | loadNextAgain (tail : Node α)
  | tryNext (tail : Node α) (next : Option (Node α))
  | compareHead (tail head : Node α)
  | pushStub (tail : Node α) (pc : PushPc α)
  | lastTry (tail : Node α) (next : Option (Node α))
  | ret (tail : Node α)

/-- `struct mpscq`, the `next` fields, every thread's position and the two
    histories. -/
structure State (α τ : Type) where
  head : Node α
  tail : Node α
  next : Node α → Option (Node α)
  prod : τ → PushPc α
  cons : PopPc α
  xchgs : List (Node α)
  rets : List (Node α)

/-- `mpscq_create`. -/
def mpscqCreate (s : State α τ) : Prop :=
  s.head = .stub ∧ s.tail = .stub ∧ s.next .stub = none
    ∧ (∀ t, s.prod t = .idle) ∧ s.cons = .idle ∧ s.xchgs = [] ∧ s.rets = []

/-- One access of `mpscq_push`: the state after it and where the thread stands
    then. -/
def pushStep (s : State α τ) : PushPc α → Option (State α τ × PushPc α)
  | .idle => none
  | .clear n => some ({ s with next := Function.update s.next n none }, .load n)
  | .load n => some (s, .cas n s.head)
  | .cas n cur =>
      if s.head = cur then some ({ s with head := n, xchgs := s.xchgs ++ [n] }, .link n cur)
      else some (s, .load n)
  | .link n prev => some ({ s with next := Function.update s.next prev (some n) }, .idle)

/-- `if (next) { self->tail = next; return tail; }`, else go on at `other`. -/
def takeNext (s : State α τ) (tail : Node α) (next : Option (Node α))
    (other : State α τ) : State α τ :=
  match next with
  | some q => { s with tail := q, cons := .ret tail }
  | none => other

/-- One access of `mpscq_pop`.  Tests of local variables belong to the access
    that follows them; a `return` of NULL is the step back to `idle`. -/
def popStep (s : State α τ) : Option (State α τ) :=
  match s.cons with
  | .idle => some { s with cons := .loadNext s.tail }
  | .loadNext tail => some { s with cons := .branch tail (s.next tail) }
  | .branch tail next =>
      if tail = .stub then
        match next with
        | none => some { s with cons := .idle }
        | some q => some { s with tail := q, cons := .loadNextAgain q }
      else
        some (takeNext s tail next { s with cons := .compareHead tail s.head })
  | .loadNextAgain tail => some { s with cons := .tryNext tail (s.next tail) }
  | .tryNext tail next =>
      some (takeNext s tail next { s with cons := .compareHead tail s.head })
  | .compareHead tail head =>
      if tail ≠ head then some { s with cons := .idle }
      else some { s with cons := .pushStub tail (.clear .stub) }
  | .pushStub tail pc =>
      match pc with
      | .idle => some { s with cons := .lastTry tail (s.next tail) }
      | pc => (pushStep s pc).map fun r => { r.1 with cons := .pushStub tail r.2 }
  | .lastTry tail next => some (takeNext s tail next { s with cons := .idle })
  | .ret tail => some { s with cons := .idle, rets := s.rets ++ [tail] }

/-- The client nodes among a list of nodes. -/
def elems (l : List (Node α)) : List (Node α) := l.filter (· ≠ .stub)

/-- The nodes exchanged and not yet returned. -/
def pending (s : State α τ) : List (Node α) := (elems s.xchgs).drop s.rets.length

/-- The push at `pc` is of node `n`. -/
def Pushes (pc : PushPc α) (n : Node α) : Prop :=
  match pc with
  | .idle => False
  | .clear m => m = n
  | .load m => m = n
  | .cas m _ => m = n
  | .link m _ => m = n

/-- `n` is in the queue, or on its way into it. -/
def InQueue (s : State α τ) (n : Node α) : Prop :=
  n ∈ pending s ∨ ∃ t, Pushes (s.prod t) n

/-- What a thread can do. -/
inductive Act (α τ : Type) where
  | begin (t : τ) (a : α)
  | prod (t : τ)
  | cons

/-- The steps of all threads.  A producer calls `mpscq_push` only with a node
    that is not in the queue. -/
def Step (s : State α τ) (act : Act α τ) (s' : State α τ) : Prop :=
  match act with
  | .begin t a => s.prod t = .idle ∧ ¬ InQueue s (.elem a)
      ∧ s' = { s with prod := Function.update s.prod t (.clear (.elem a)) }
  | .prod t => ∃ r, pushStep s (s.prod t) = some r
      ∧ s' = { r.1 with prod := Function.update s.prod t r.2 }
  | .cons => popStep s = some s'

/-- The states of all interleavings of any number of producers and one
    consumer. -/
def Reachable (s : State α τ) : Prop := LabelledRun.Reach mpscqCreate Step s

/-- The push the consumer itself is in. -/
def stubPc : PopPc α → PushPc α
  | .pushStub _ pc => pc
  | _ => .idle

/-- All threads that can be inside a push: the producers, and the consumer as
    `none`. -/
def pusher (s : State α τ) : Option τ → PushPc α
  | some t => s.prod t
  | none => stubPc s.cons

end Mpscq
