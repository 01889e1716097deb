import TreasureHouse.ReadyChainProofs

/-! # Ready queue steps — the two queues side by side

    `list_del` writes nodes of `co_queue` and `list_add_tail` writes nodes of
    `co_ready_queue`, and no node is one of both: a step outside `list_add_tail`
    changes nothing that an insertion sees (`Quiet`), and one in it nothing that
    a deletion sees.  `QueueInv` is kept by every step, `ReadyInv` by those in
    order. -/

namespace ReadyRing

open Succession LinkRing

-- ── Both queues ──────────────────────────────────────────────────────────────

/-- The coroutine of a resume that has not come to its `list_add_tail`. -/
def early : ResumePc → List Nat
  | .deleting co _ => [co]
  | .setRunnable co => [co]
  | _ => []

/-- The coroutine being deleted from `co_queue`. -/
def deleted : ResumePc → List Nat
  | .deleting co _ => [co]
  | _ => []

/-- A coroutine on `co_ready_queue` or in a `list_add_tail`. -/
def Settled (s : State) (x : Nat) : Prop := x ∈ s.entered ∧ x ∉ early s.resumer

/-- A node that `list_add_tail` reads and writes. -/
def Front (s : State) : Node → Prop
  | .ready => True
  | .queue => False
  | .co x => Settled s x

/-- What `list_add_tail` has read. -/
def AddPc.read : AddPc → Option Node
  | .readPrev => none
  | .setHeadPrev prev => some prev
  | .setNext prev => some prev
  | .setPrev prev => some prev
  | .setPrevNext prev => some prev

/-- `co_queue` is a ring of the sleepers, or one is being deleted from it. -/
def SleepInv (m : Links) (sleeping : List Nat) : ResumePc → Prop
  | .deleting co pc => ∃ l₁ l₂, sleeping = l₁ ++ l₂ ∧ DelInv m co l₁ l₂ pc
  | _ => Linked m .queue sleeping

/-- What every run keeps, in order or not: the two queues have no node in
    common, and `co_queue` is well-formed. -/
structure QueueInv (s : State) : Prop where
  sleep : SleepInv s.links s.sleeping s.resumer
  nodup : (s.entered ++ s.sleeping).Nodup
  early : ∀ k ∈ early s.resumer, k ∈ s.entered
  added : ∀ t n pc, adding s t = some (n, pc) → Settled s n
  apart : ∀ t n pc, adding s t = some (n, pc) →
    ∀ k pc', adding s t.other = some (k, pc') → k ≠ n
  tail : ∃ p, s.links.prev .ready = some p ∧ Front s p
  read : ∀ t n pc p, adding s t = some (n, pc) → pc.read = some p → Front s p

/-- The coroutine of an insertion that has not stored the tail. -/
def unstored : Option (Nat × AddPc) → List Nat
  | none => []
  | some (n, pc) => if pc.needsLink then [] else [n]

/-- The coroutines of calls under way that are not on the chain yet. -/
def outside (s : State) : List Nat :=
  early s.resumer ++ (unstored (adding s .resumer) ++ unstored (adding s .submitter))

/-- What runs in order keep: the chain has everybody who stored the tail. -/
structure ReadyInv (s : State) (order : List Nat) : Prop where
  chained : ChainInv s.links (adding s) order
  entered : s.entered.Perm (order ++ outside s)

/-- A step outside `list_add_tail`. -/
structure Quiet (s s' : State) : Prop where
  settled : ∀ x, Settled s x → Settled s' x
  links : ∀ x, Front s x → s'.links.next x = s.links.next x ∧ s'.links.prev x = s.links.prev x
  keeps : ∀ u n pc, adding s u = some (n, pc) → adding s' u = some (n, pc)
  starts : ∀ u n pc, adding s' u = some (n, pc) → adding s u = some (n, pc)
    ∨ (pc = .readPrev ∧ ¬ Settled s n ∧ Settled s' n ∧ adding s' u.other = adding s u.other)
  entered : ∀ order : List Nat, s.entered.Perm (order ++ outside s) →
    s'.entered.Perm (order ++ outside s')

section Queue

variable {s s' : State} {order : List Nat} {t : Thread} {n : Nat} {pc : AddPc}

theorem Front.mono (h : ∀ x, Settled s x → Settled s' x) {p : Node} (hp : Front s p) :
    Front s' p := by
  cases p with
  | ready => trivial
  | queue => exact hp.elim
  | co x => exact h x hp

/-- The nodes of `co_queue` are no business of `list_add_tail`. -/
theorem QueueInv.not_front (h : QueueInv s) {x : Node}
    (hx : x ∈ queueNodes (deleted s.resumer ++ s.sleeping)) : ¬ Front s x := by
  rcases List.mem_cons.mp hx with rfl | hx
  · exact id
  · obtain ⟨k, hk, rfl⟩ := List.mem_map.mp hx
    rintro ⟨hent, hearly⟩
    rcases List.mem_append.mp hk with hk | hk
    · refine hearly ?_
      cases hr : s.resumer with
      | deleting co pc =>
          rw [hr] at hk
          exact hk
      | idle | setRunnable co | adding co pc =>
          rw [hr] at hk
          cases hk
    · exact List.disjoint_of_nodup_append h.nodup hent hk

/-- The nodes of the chain are. -/
theorem ReadyInv.front (h : ReadyInv s order) (hq : QueueInv s) {x : Node}
    (hx : x ∈ chain order) : Front s x := by
  have hnd : (order ++ outside s).Nodup := h.entered.nodup_iff.mp hq.nodup.of_append_left
  rcases List.mem_cons.mp hx with rfl | hx
  · trivial
  · obtain ⟨k, hk, rfl⟩ := List.mem_map.mp hx
    refine ⟨h.entered.mem_iff.mpr (List.mem_append_left _ hk), fun hearly => ?_⟩
    exact List.disjoint_of_nodup_append hnd hk (List.mem_append_left _ hearly)

theorem SleepInv.frame {m m' : Links} {sleeping : List Nat} {r : ResumePc}
    (h : SleepInv m sleeping r)
    (hnext : ∀ x ∈ queueNodes (deleted r ++ sleeping), m'.next x = m.next x)
    (hprev : ∀ x ∈ queueNodes (deleted r ++ sleeping), m'.prev x = m.prev x) :
    SleepInv m' sleeping r := by
  cases r with
  | deleting co pc =>
      obtain ⟨l₁, l₂, rfl, hdel⟩ := h
      have hsub : ∀ x ∈ queueNodes (l₁ ++ co :: l₂), x ∈ queueNodes ([co] ++ (l₁ ++ l₂)) := by
        intro x hx
        have hperm : (l₁ ++ co :: l₂).Perm ([co] ++ (l₁ ++ l₂)) := List.perm_middle
        exact ((hperm.map Node.co).cons Node.queue).mem_iff.mp hx
      exact ⟨l₁, l₂, rfl, hdel.frame (fun x hx => hnext x (hsub x hx))
        fun x hx => hprev x (hsub x hx)⟩
  | idle | setRunnable co | adding co pc => exact Linked.frame h hnext hprev

-- ── Steps outside `list_add_tail` ────────────────────────────────────────────

theorem Quiet.queueInv (q : Quiet s s') (h : QueueInv s)
    (hsleep : SleepInv s'.links s'.sleeping s'.resumer) (hnodup : (s'.entered ++ s'.sleeping).Nodup)
    (hearly : ∀ k ∈ early s'.resumer, k ∈ s'.entered) : QueueInv s' where
  sleep := hsleep
  nodup := hnodup
  early := hearly
  added := by
    intro u k pc hu
    rcases q.starts u k pc hu with hu | ⟨-, -, hk, -⟩
    · exact q.settled k (h.added u k pc hu)
    · exact hk
  apart := by
    intro u a pc ha b pc' hb
    rcases q.starts u a pc ha with ha | ⟨-, hnew, -, hother⟩
    · rcases q.starts _ b pc' hb with hb | ⟨-, hnew, -, -⟩
      · exact h.apart u a pc ha b pc' hb
      · rintro rfl
        exact hnew (h.added u b pc ha)
    · rw [hother] at hb
      rintro rfl
      exact hnew (h.added _ b pc' hb)
  tail := by
    obtain ⟨p, hp, hf⟩ := h.tail
    exact ⟨p, by rw [(q.links .ready trivial).2]; exact hp, hf.mono q.settled⟩
  read := by
    intro u k pc p hu hp
    rcases q.starts u k pc hu with hu | ⟨rfl, -⟩
    · exact (h.read u k pc p hu hp).mono q.settled
    · cases hp

theorem Quiet.readyInv (q : Quiet s s') (h : QueueInv s) (hr : ReadyInv s order) :
    ReadyInv s' order where
  chained := by
    refine hr.chained.frame ?_ ?_ q.keeps ?_
    · exact fun x hx => (q.links x (hr.front h hx)).1
    · exact fun x hx => (q.links x (hr.front h hx)).2
    · intro u n pc hu
      rcases q.starts u n pc hu with hu | ⟨hpc, -⟩
      · exact Or.inl hu
      · exact Or.inr hpc
  entered := q.entered order hr.entered

/-- Outside its `list_add_tail` the scheduler thread adds nothing. -/
theorem adding_eq_none (hr : ∀ n pc, s.resumer ≠ .adding n pc) : adding s .resumer = none := by
  rw [adding]
  split
  · rename_i co pc heq
    exact absurd heq (hr co pc)
  · rfl

/-- **ONE ACCESS** of `list_del`. -/
theorem delNext_quiet {co : Nat} {dpc : DelPc} (h : QueueInv s)
    (hr : s.resumer = .deleting co dpc) :
    ∃ s', delNext s co dpc = some s' ∧ QueueInv s' ∧ Quiet s s' := by
  have hsleep := h.sleep
  rw [hr] at hsleep
  obtain ⟨l₁, l₂, hs, hdel⟩ := hsleep
  have hearly : early s.resumer = [co] := by rw [hr]; rfl
  have hent : co ∈ s.entered := h.early co (by rw [hearly]; exact List.mem_singleton.mpr rfl)
  have hnd : (l₁ ++ co :: l₂).Nodup := by
    refine List.nodup_middle.mpr (List.nodup_cons.mpr ⟨?_, ?_⟩)
    · rw [← hs]
      exact List.disjoint_of_nodup_append h.nodup hent
    · rw [← hs]
      exact h.nodup.of_append_right
  obtain ⟨⟨m, o⟩, hstep, hnext, hdone, hframe⟩ := delStep_inv hdel hnd
  have hlinks : ∀ x, Front s x → m.next x = s.links.next x ∧ m.prev x = s.links.prev x := by
    intro x hx
    refine hframe x fun hq => h.not_front ?_ hx
    rw [hr, hs]
    have hperm : (l₁ ++ co :: l₂).Perm ([co] ++ (l₁ ++ l₂)) := List.perm_middle
    exact ((hperm.map Node.co).cons Node.queue).mem_iff.mp hq
  have hnone : adding s .resumer = none := by rw [adding, hr]
  -- whether or not the last store is made, the coroutine is still a sleeper that was taken
  have hquiet : ∀ r, early r = [co] → (∀ n pc, r ≠ .adding n pc) →
      SleepInv m s.sleeping r → QueueInv { s with links := m, resumer := r }
        ∧ Quiet s { s with links := m, resumer := r } := by
    intro r hr₁ hr₂ hsl
    have hadd : adding { s with links := m, resumer := r } = adding s := by
      funext u
      cases u with
      | resumer => rw [hnone]; exact adding_eq_none hr₂
      | submitter => rfl
    have q : Quiet s { s with links := m, resumer := r } := {
      settled := by
        rintro x ⟨hx, hx'⟩
        exact ⟨hx, by rw [hearly] at hx'; rwa [hr₁]⟩
      links := hlinks
      keeps := by
        intro u n pc hu
        rwa [hadd]
      starts := by
        intro u n pc hu
        rw [hadd] at hu
        exact Or.inl hu
      entered := by
        intro order hperm
        rw [outside, hearly] at hperm
        rw [outside, hadd, hr₁]
        exact hperm }
    refine ⟨q.queueInv h hsl h.nodup ?_, q⟩
    intro k hk
    rw [hr₁] at hk
    rw [List.mem_singleton.mp hk]
    exact hent
  refine ⟨_, by rw [delNext, hstep]; rfl, ?_⟩
  cases o with
  | none =>
      refine hquiet _ rfl (fun _ _ he => nomatch he) ?_
      show Linked m .queue s.sleeping
      rw [hs]
      exact hdone rfl
  | some pc' =>
      exact hquiet _ rfl (fun _ _ he => nomatch he) ⟨l₁, l₂, hs, hnext pc' rfl⟩

/-- **THE STORE** of CO_RUNNABLE: the resumed coroutine is to be added. -/
theorem setRunnable_quiet {co : Nat} (h : QueueInv s) (hr : s.resumer = .setRunnable co) :
    QueueInv { s with resumer := .adding co .readPrev }
      ∧ Quiet s { s with resumer := .adding co .readPrev } := by
  have hnone : adding s .resumer = none := by rw [adding, hr]
  have hearly : early s.resumer = [co] := by rw [hr]; rfl
  have hent : co ∈ s.entered := h.early co (by rw [hearly]; exact List.mem_singleton.mpr rfl)
  have q : Quiet s { s with resumer := .adding co .readPrev } := {
    settled := fun x hx => ⟨hx.1, List.not_mem_nil⟩
    links := fun _ _ => ⟨rfl, rfl⟩
    keeps := by
      intro u n pc hu
      cases u with
      | resumer =>
          rw [hnone] at hu
          cases hu
      | submitter => exact hu
    starts := by
      intro u n pc hu
      cases u with
      | resumer =>
          cases hu
          refine Or.inr ⟨rfl, fun hx => hx.2 ?_, ⟨hent, List.not_mem_nil⟩, rfl⟩
          rw [hearly]
          exact List.mem_singleton.mpr rfl
      | submitter => exact Or.inl hu
    entered := by
      intro order hperm
      rw [outside, hnone, hearly] at hperm
      exact hperm }
  have hsleep := h.sleep
  rw [hr] at hsleep
  exact ⟨q.queueInv h hsleep h.nodup fun k hk => absurd hk List.not_mem_nil, q⟩

/-- **A CALL** of `sched_sched`. -/
theorem submit_quiet {co : Nat} (h : QueueInv s) (hs : s.submitter = none)
    (hco : co ∉ s.entered ++ s.sleeping) :
    QueueInv { s with submitter := some (co, .readPrev), entered := s.entered ++ [co] }
      ∧ Quiet s { s with submitter := some (co, .readPrev), entered := s.entered ++ [co] } := by
  have hnone : adding s .submitter = none := hs
  have hent : co ∉ s.entered := fun hm => hco (List.mem_append_left _ hm)
  have q : Quiet s { s with submitter := some (co, .readPrev), entered := s.entered ++ [co] } := {
    settled := fun x hx => ⟨List.mem_append_left _ hx.1, hx.2⟩
    links := fun _ _ => ⟨rfl, rfl⟩
    keeps := by
      intro u n pc hu
      cases u with
      | resumer => exact hu
      | submitter =>
          rw [hnone] at hu
          cases hu
    starts := by
      intro u n pc hu
      cases u with
      | resumer => exact Or.inl hu
      | submitter =>
          cases hu
          refine Or.inr ⟨rfl, fun hx => hent hx.1, ⟨?_, fun hx => hent (h.early co hx)⟩, rfl⟩
          exact List.mem_append_right _ (List.mem_singleton.mpr rfl)
    entered := by
      intro order hperm
      have hall := hperm.append_right [co]
      rw [outside, hnone] at hall
      show (s.entered ++ [co]).Perm
        (order ++ (early s.resumer ++ (unstored (adding s .resumer) ++ [co])))
      simpa only [unstored, List.append_nil, List.append_assoc] using hall }
  refine ⟨q.queueInv h h.sleep ?_ ?_, q⟩
  · show (s.entered ++ [co] ++ s.sleeping).Nodup
    rw [List.append_assoc]
    exact List.nodup_middle.mpr (List.nodup_cons.mpr ⟨hco, h.nodup⟩)
  · exact fun k hk => List.mem_append_left _ (h.early k hk)

/-- **A CALL** of `sched_co_resume`. -/
theorem resume_quiet {co : Nat} (h : QueueInv s) (hr : s.resumer = .idle)
    (hco : co ∈ s.sleeping) :
    QueueInv { s with
      resumer := .deleting co .readPrev
      sleeping := s.sleeping.erase co
      entered := s.entered ++ [co] }
      ∧ Quiet s { s with
        resumer := .deleting co .readPrev
        sleeping := s.sleeping.erase co
        entered := s.entered ++ [co] } := by
  obtain ⟨l₁, l₂, -, hs, herase⟩ := List.exists_erase_eq hco
  have hring : Linked s.links .queue s.sleeping := by
    have hsleep := h.sleep
    rw [hr] at hsleep
    exact hsleep
  have hadd : adding { s with
      resumer := .deleting co .readPrev
      sleeping := s.sleeping.erase co
      entered := s.entered ++ [co] } = adding s := by
    funext u
    cases u with
    | resumer => rw [adding, adding, hr]
    | submitter => rfl
  have q : Quiet s { s with
      resumer := .deleting co .readPrev
      sleeping := s.sleeping.erase co
      entered := s.entered ++ [co] } := {
    settled := by
      rintro x ⟨hx, -⟩
      refine ⟨List.mem_append_left _ hx, fun hm => ?_⟩
      rw [List.mem_singleton.mp hm] at hx
      exact List.disjoint_of_nodup_append h.nodup hx hco
    links := fun _ _ => ⟨rfl, rfl⟩
    keeps := by
      intro u n pc hu
      rwa [hadd]
    starts := by
      intro u n pc hu
      rw [hadd] at hu
      exact Or.inl hu
    entered := by
      intro order hperm
      have hall := hperm.append_right [co]
      rw [outside, hr] at hall
      rw [outside, hadd]
      refine hall.trans ?_
      show (order ++ (unstored (adding s .resumer) ++ unstored (adding s .submitter)) ++ [co]).Perm
        (order ++ ([co] ++ (unstored (adding s .resumer) ++ unstored (adding s .submitter))))
      rw [List.append_assoc]
      exact List.perm_append_comm.append_left order }
  refine ⟨q.queueInv h ⟨l₁, l₂, herase, hs ▸ hring⟩ ?_ ?_, q⟩
  · show (s.entered ++ [co] ++ s.sleeping.erase co).Nodup
    have hperm : (s.entered ++ s.sleeping).Perm (s.entered ++ [co] ++ s.sleeping.erase co) := by
      rw [List.append_assoc]
      exact (List.perm_cons_erase hco).append_left s.entered
    exact hperm.nodup_iff.mp h.nodup
  · exact fun k hk => List.mem_append_right _ hk

-- ── Steps in `list_add_tail` ─────────────────────────────────────────────────

/-- The state after an access of `list_add_tail`. -/
def moved (s : State) (t : Thread) (n : Nat) (m : Links) (o : Option AddPc) : State :=
  setAdding { s with links := m } (o.map fun pc => (n, pc)) t

theorem adding_setAdding (s : State) (o : Option (Nat × AddPc)) (t : Thread) :
    adding (setAdding s o t) = Function.update (adding s) t o := by
  funext u
  cases t with
  | resumer =>
      cases u with
      | resumer =>
          rw [Function.update_self]
          cases o with
          | none => rfl
          | some p => rfl
      | submitter => rfl
  | submitter =>
      cases u with
      | resumer => rfl
      | submitter => rfl

theorem adding_moved (s : State) (t : Thread) (n : Nat) (m : Links) (o : Option AddPc) :
    adding (moved s t n m o) = Function.update (adding s) t (o.map fun pc => (n, pc)) :=
  adding_setAdding { s with links := m } _ t

theorem moved_fields (s : State) (t : Thread) (n : Nat) (m : Links) (o : Option AddPc) :
    (moved s t n m o).links = m ∧ (moved s t n m o).sleeping = s.sleeping
      ∧ (moved s t n m o).entered = s.entered := by
  cases t with
  | resumer => exact ⟨rfl, rfl, rfl⟩
  | submitter => exact ⟨rfl, rfl, rfl⟩

theorem addNext_moved (hs : addNext s t n pc = some s') :
    ∃ m o, addStep s.links (.co n) .ready pc = some (m, o) ∧ s' = moved s t n m o := by
  obtain ⟨⟨m, o⟩, hstep, rfl⟩ := Option.map_eq_some_iff.mp hs
  exact ⟨m, o, hstep, rfl⟩

theorem resumer_of_adding (hA : adding s .resumer = some (n, pc)) : s.resumer = .adding n pc := by
  rw [adding] at hA
  split at hA
  · rename_i co pc' hr
    cases hA
    exact hr
  · cases hA

/-- The next step of a thread in `list_add_tail`. -/
theorem step_adding (hA : adding s t = some (n, pc)) : step s (.next t) = addNext s t n pc := by
  cases t with
  | resumer => rw [step, resumer_of_adding hA]
  | submitter =>
      have hs : s.submitter = some (n, pc) := hA
      rw [step, hs]
      rfl

/-- The scheduler thread deletes nothing while it adds. -/
theorem moved_resumer (hA : adding s t = some (n, pc)) (m : Links) (o : Option AddPc) :
    early (moved s t n m o).resumer = early s.resumer
      ∧ (SleepInv m s.sleeping s.resumer → SleepInv m s.sleeping (moved s t n m o).resumer) := by
  cases t with
  | resumer =>
      rw [resumer_of_adding hA]
      cases o with
      | none => exact ⟨rfl, id⟩
      | some pc' => exact ⟨rfl, id⟩
  | submitter => exact ⟨rfl, id⟩

theorem settled_moved (hA : adding s t = some (n, pc)) (m : Links) (o : Option AddPc) {x : Nat}
    (h : Settled s x) : Settled (moved s t n m o) x := by
  rw [Settled, (moved_fields s t n m o).2.2, (moved_resumer hA m o).1]
  exact h

/-- An access that writes nodes of `co_ready_queue` and of insertions. -/
theorem QueueInv.moved (h : QueueInv s) (hA : adding s t = some (n, pc)) {m : Links}
    {o : Option AddPc}
    (hm : ∀ x, ¬ Front s x → m.next x = s.links.next x ∧ m.prev x = s.links.prev x)
    (htail : ∃ p, m.prev .ready = some p ∧ Front s p)
    (hread : ∀ pc' p, o = some pc' → pc'.read = some p → Front s p) :
    QueueInv (moved s t n m o) := by
  obtain ⟨hlinks, hsleeping, hentered⟩ := moved_fields s t n m o
  obtain ⟨hearly, hres⟩ := moved_resumer hA m o
  have hset : ∀ x, Settled s x → Settled (ReadyRing.moved s t n m o) x := fun x =>
    settled_moved hA m o
  exact {
    sleep := by
      rw [hlinks, hsleeping]
      refine hres (h.sleep.frame ?_ ?_)
      · exact fun x hx => (hm x (h.not_front hx)).1
      · exact fun x hx => (hm x (h.not_front hx)).2
    nodup := by
      rw [hentered, hsleeping]
      exact h.nodup
    early := by
      rw [hearly, hentered]
      exact h.early
    added := by
      intro u k pc' hu
      rw [adding_moved] at hu
      rcases update_cases hu with ⟨-, rfl, -⟩ | ⟨-, hu⟩
      · exact hset k (h.added t k pc hA)
      · exact hset k (h.added _ k pc' hu)
    apart := by
      intro u a pc₁ ha b pc₂ hb
      rw [adding_moved] at ha hb
      rcases update_cases ha with ⟨rfl, rfl, -⟩ | ⟨rfl, ha'⟩
      · rw [Function.update_of_ne (Thread.other_ne u)] at hb
        exact h.apart u a pc hA b pc₂ hb
      · rw [Thread.other_other] at hb
        rcases update_cases hb with ⟨-, rfl, -⟩ | ⟨hne, -⟩
        · exact (h.apart t b pc hA a pc₁ ha').symm
        · exact absurd hne.symm (Thread.other_ne t)
    tail := by
      obtain ⟨p, hp, hf⟩ := htail
      exact ⟨p, by rw [hlinks]; exact hp, hf.mono hset⟩
    read := by
      intro u k pc' p hu hp
      rw [adding_moved] at hu
      rcases update_cases hu with ⟨-, -, ho⟩ | ⟨-, hu⟩
      · exact (hread pc' p ho hp).mono hset
      · exact (h.read _ k pc' p hu hp).mono hset }

/-- **ONE ACCESS** of `list_add_tail` has a result. -/
theorem addNext_fires (h : QueueInv s) (t : Thread) (n : Nat) (pc : AddPc) :
    ∃ s', addNext s t n pc = some s' := by
  cases pc with
  | readPrev =>
      obtain ⟨p, hp, -⟩ := h.tail
      exact ⟨_, by rw [addNext, addStep, hp]; rfl⟩
  | setHeadPrev p | setNext p | setPrev p | setPrevNext p => exact ⟨_, rfl⟩

/-- **ONE ACCESS** of `list_add_tail`, in order or not. -/
theorem addNext_queueInv (h : QueueInv s) (hA : adding s t = some (n, pc))
    (hs : addNext s t n pc = some s') : QueueInv s' := by
  have hn : Front s (.co n) := h.added t n pc hA
  obtain ⟨m, o, hstep, rfl⟩ := addNext_moved hs
  cases pc with
  | readPrev =>
      obtain ⟨p, hp, heq⟩ := Option.map_eq_some_iff.mp hstep
      cases heq
      obtain ⟨p', hp', hf⟩ := h.tail
      rw [hp] at hp'
      cases hp'
      refine h.moved hA (fun _ _ => ⟨rfl, rfl⟩) h.tail ?_
      intro pc' q ho hq
      cases ho
      cases hq
      exact hf
  | setHeadPrev p =>
      cases hstep
      refine h.moved hA ?_ ⟨_, s.links.setPrev_self .., hn⟩ ?_
      · intro x hx
        refine ⟨rfl, s.links.setPrev_ne _ ?_⟩
        rintro rfl
        exact hx trivial
      · intro pc' q ho hq
        cases ho
        exact h.read t n _ q hA hq
  | setNext p =>
      cases hstep
      refine h.moved hA ?_ h.tail ?_
      · intro x hx
        refine ⟨s.links.setNext_ne _ ?_, rfl⟩
        rintro rfl
        exact hx hn
      · intro pc' q ho hq
        cases ho
        exact h.read t n _ q hA hq
  | setPrev p =>
      cases hstep
      refine h.moved hA ?_ ?_ ?_
      · intro x hx
        refine ⟨rfl, s.links.setPrev_ne _ ?_⟩
        rintro rfl
        exact hx hn
      · obtain ⟨q, hq, hf⟩ := h.tail
        have hne : Node.ready ≠ .co n := fun he => nomatch he
        exact ⟨q, by rw [s.links.setPrev_ne _ hne]; exact hq, hf⟩
      · intro pc' q ho hq
        cases ho
        exact h.read t n _ q hA hq
  | setPrevNext p =>
      cases hstep
      refine h.moved hA ?_ h.tail (fun _ _ ho => nomatch ho)
      intro x hx
      refine ⟨s.links.setNext_ne _ ?_, rfl⟩
      rintro rfl
      exact hx (h.read t n _ x hA rfl)

/-- The coroutines outside, those of the thread `t` first. -/
theorem outside_perm (s : State) (t : Thread) :
    (outside s).Perm
      (unstored (adding s t) ++ (early s.resumer ++ unstored (adding s t.other))) := by
  cases t with
  | resumer =>
      show (early s.resumer ++ (_ ++ _)).Perm _
      rw [← List.append_assoc, ← List.append_assoc]
      exact List.perm_append_comm.append_right _
  | submitter =>
      show (early s.resumer ++ (_ ++ _)).Perm _
      rw [← List.append_assoc]
      exact List.perm_append_comm

theorem ReadyInv.moved (h : ReadyInv s order) (hA : adding s t = some (n, pc)) {m : Links}
    {o : Option AddPc} {order' : List Nat}
    (hchain : ChainInv m (Function.update (adding s) t (o.map fun pc => (n, pc))) order')
    (hout : (order ++ unstored (some (n, pc))).Perm
      (order' ++ unstored (o.map fun pc => (n, pc)))) :
    ReadyInv (moved s t n m o) order' where
  chained := by
    rw [adding_moved, (moved_fields s t n m o).1]
    exact hchain
  entered := by
    rw [(moved_fields s t n m o).2.2]
    have hperm := outside_perm (ReadyRing.moved s t n m o) t
    rw [adding_moved, (moved_resumer hA m o).1, Function.update_self,
      Function.update_of_ne (Thread.other_ne t)] at hperm
    have hold := h.entered.trans ((outside_perm s t).append_left order)
    rw [hA] at hold
    refine (hold.trans ?_).trans (hperm.append_left order').symm
    have hall := hout.append_right (early s.resumer ++ unstored (adding s t.other))
    rwa [List.append_assoc, List.append_assoc] at hall

/-- **ONE ACCESS** of `list_add_tail`, in order. -/
theorem addNext_readyInv (hq : QueueInv s) (h : ReadyInv s order) (hA : adding s t = some (n, pc))
    (hg : spoils (some (n, pc)) (adding s t.other) = false) (hs : addNext s t n pc = some s') :
    ∃ order', ReadyInv s' order' := by
  have hother : ∀ k pc', adding s t.other = some (k, pc') → k ≠ n := hq.apart t n pc hA
  have hnd : (order ++ outside s).Nodup := h.entered.nodup_iff.mp hq.nodup.of_append_left
  have hd : order.Nodup := hnd.of_append_left
  obtain ⟨m, o, hstep, rfl⟩ := addNext_moved hs
  cases pc with
  | readPrev =>
      have hread : ∀ k q, adding s t.other ≠ some (k, .setHeadPrev q) := by
        intro k q hk
        rw [hk] at hg
        cases hg
      obtain ⟨z, hz⟩ := exists_last order
      rw [addStep, h.chained.tail z hz] at hstep
      cases hstep
      exact ⟨order, h.moved hA (h.chained.readPrev hother hA hread hz) (List.Perm.refl _)⟩
  | setHeadPrev p =>
      have hn : n ∉ order := by
        intro hn
        refine List.disjoint_of_nodup_append hnd hn ?_
        refine (outside_perm s t).mem_iff.mpr (List.mem_append_left _ ?_)
        rw [hA]
        exact List.mem_singleton.mpr rfl
      cases hstep
      refine ⟨order ++ [n], h.moved hA (h.chained.setHeadPrev hother hA hn) ?_⟩
      show (order ++ [n]).Perm (order ++ [n] ++ [])
      rw [List.append_nil]
  | setNext p =>
      cases hstep
      exact ⟨order, h.moved hA (h.chained.setNext hother hA) (List.Perm.refl _)⟩
  | setPrev p =>
      cases hstep
      exact ⟨order, h.moved hA (h.chained.setPrev hd hother hA) (List.Perm.refl _)⟩
  | setPrevNext p =>
      have hlink : ∀ k q, adding s t.other = some (k, .setNext q) → p ≠ .co k := by
        intro k q hk
        rw [hk] at hg
        exact of_decide_eq_false hg
      cases hstep
      exact ⟨order, h.moved hA (h.chained.setPrevNext hd hother hA hlink) (List.Perm.refl _)⟩

-- ── Runs ─────────────────────────────────────────────────────────────────────

/-- **EVERY STEP** is one outside `list_add_tail` or one in it. -/
theorem step_cases {a : Act} (h : QueueInv s) (hs : step s a = some s') :
    (QueueInv s' ∧ Quiet s s')
      ∨ ∃ t n pc, a = .next t ∧ adding s t = some (n, pc) ∧ addNext s t n pc = some s' := by
  cases a with
  | resume co =>
      rw [step, Option.ite_none_right_eq_some] at hs
      obtain ⟨⟨hr, hco⟩, heq⟩ := hs
      cases heq
      exact Or.inl (resume_quiet h hr hco)
  | submit co =>
      rw [step, Option.ite_none_right_eq_some] at hs
      obtain ⟨⟨hr, hco⟩, heq⟩ := hs
      cases heq
      exact Or.inl (submit_quiet h hr hco)
  | next t =>
      cases t with
      | resumer =>
          rw [step] at hs
          split at hs
          · cases hs
          · rename_i co pc hr
            obtain ⟨s₁, hs₁, hinv⟩ := delNext_quiet h hr
            rw [hs] at hs₁
            cases hs₁
            exact Or.inl hinv
          · rename_i co hr
            cases hs
            exact Or.inl (setRunnable_quiet h hr)
          · rename_i co pc hr
            have hA : adding s .resumer = some (co, pc) := by rw [adding, hr]
            exact Or.inr ⟨.resumer, co, pc, rfl, hA, hs⟩
      | submitter =>
          obtain ⟨⟨co, pc⟩, hA, hs⟩ := Option.bind_eq_some_iff.mp hs
          exact Or.inr ⟨.submitter, co, pc, rfl, hA, hs⟩

theorem step_queueInv {a : Act} (h : QueueInv s) (hs : step s a = some s') : QueueInv s' := by
  rcases step_cases h hs with ⟨h', -⟩ | ⟨t, n, pc, -, hA, hs⟩
  · exact h'
  · exact addNext_queueInv h hA hs

theorem step_readyInv {a : Act} (hq : QueueInv s) (h : ReadyInv s order) (hg : InOrder s a)
    (hs : step s a = some s') : ∃ order', ReadyInv s' order' := by
  rcases step_cases hq hs with ⟨-, q⟩ | ⟨t, n, pc, rfl, hA, hs⟩
  · exact ⟨order, q.readyInv hq h⟩
  · rw [InOrder, hA] at hg
    exact addNext_readyInv hq h hA hg hs

/-- A thread in a call can go on. -/
theorem QueueInv.fires (h : QueueInv s) (t : Thread) (hb : Busy s t) :
    ∃ s', step s (.next t) = some s' := by
  cases t with
  | resumer =>
      rw [step]
      cases hr : s.resumer with
      | idle => exact absurd hr hb
      | deleting co pc =>
          obtain ⟨s', hs', -⟩ := delNext_quiet h hr
          exact ⟨s', hs'⟩
      | setRunnable co => exact ⟨_, rfl⟩
      | adding co pc => exact addNext_fires h .resumer co pc
  | submitter =>
      obtain ⟨⟨co, pc⟩, hp⟩ := Option.ne_none_iff_exists'.mp hb
      obtain ⟨s', hs'⟩ := addNext_fires h .submitter co pc
      exact ⟨s', by rw [step, hp]; exact hs'⟩

theorem adding_idle (hr : s.resumer = .idle) (hs : s.submitter = none) (t : Thread) :
    adding s t = none := by
  cases t with
  | resumer => rw [adding, hr]
  | submitter => exact hs

theorem outside_idle (hr : s.resumer = .idle) (hs : s.submitter = none) : outside s = [] := by
  rw [outside, adding_idle hr hs, adding_idle hr hs, hr]
  rfl

theorem queueInv_start (h : Start s) : QueueInv s := by
  have hnone := adding_idle h.resumer h.submitter
  have hearly : early s.resumer = [] := by rw [h.resumer]; rfl
  exact {
    sleep := by
      rw [h.resumer]
      exact h.queue
    nodup := h.nodup
    early := by
      intro k hk
      rw [hearly] at hk
      cases hk
    added := by
      intro t n pc hA
      rw [hnone t] at hA
      cases hA
    apart := by
      intro t n pc hA
      rw [hnone t] at hA
      cases hA
    tail := by
      obtain ⟨z, hz⟩ := exists_last s.entered
      refine ⟨z, h.ready.prev z .ready (follows_closed.mpr (Or.inr ⟨hz, rfl⟩)), ?_⟩
      rcases List.mem_cons.mp (List.mem_of_getLast? hz) with rfl | hm
      · trivial
      · obtain ⟨k, hk, rfl⟩ := List.mem_map.mp hm
        exact ⟨hk, by rw [hearly]; exact List.not_mem_nil⟩
    read := by
      intro t n pc p hA
      rw [hnone t] at hA
      cases hA }

theorem readyInv_start (h : Start s) : ReadyInv s s.entered where
  chained := chainInv_of_linked h.ready (adding_idle h.resumer h.submitter)
  entered := by rw [outside_idle h.resumer h.submitter, List.append_nil]

theorem ReadyInv.readyOk (h : ReadyInv s order) (hq : QueueInv s) (hr : s.resumer = .idle)
    (hs : s.submitter = none) : ReadyOk s := by
  have hperm := h.entered
  rw [outside_idle hr hs, List.append_nil] at hperm
  refine ⟨order, hperm.symm, ?_, h.chained.linked (adding_idle hr hs)⟩
  exact hperm.nodup_iff.mp hq.nodup.of_append_left

end Queue

end ReadyRing
