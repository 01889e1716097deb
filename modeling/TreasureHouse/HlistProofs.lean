import Mathlib.Data.List.Nodup
import Mathlib.Data.List.Perm.Basic
import Mathlib.Logic.Function.Basic
import TreasureHouse.LabelledRunProofs

/-! # `container/list.h` — the lists with a single pointer head

    The back pointer of a `struct hlist_node` is the address of the pointer that
    points to it: the `first` of a head or the `next` of another node (`Slot`).
    A node is off every list and says so (`hlist_unhashed`) when it has no back
    pointer.

    Going through a null pointer or a poison has no result, so an operation has
    one only if it goes through neither. -/

namespace Hlist

open LabelledRun

variable {η α : Type}

/-- A `struct hlist_node *`. -/
inductive NodePtr (α : Type) where
  | null
  | node (n : α)
  | listPoison1
  deriving DecidableEq

/-- The address of a pointer to a node: `&h->first` or `&n->next`. -/
inductive Slot (η α : Type) where
  | first (h : η)
  | next (n : α)
  deriving DecidableEq

/-- A `struct hlist_node **`. -/
inductive SlotPtr (η α : Type) where
  | null
  | addr (p : Slot η α)
  | listPoison2
  deriving DecidableEq

/-- The `first` of every `struct hlist_head`, the `next` and the `pprev` of every
    `struct hlist_node`. -/
structure Hlists (η α : Type) where
  first : η → NodePtr α
  next : α → NodePtr α
  pprev : α → SlotPtr η α

/-- `*p`. -/
def load (s : Hlists η α) : Slot η α → NodePtr α
  | .first h => s.first h
  | .next n => s.next n

-- ── Chains ───────────────────────────────────────────────────────────────────

/-- From the slot `p` on the nodes are `l`, each with its back pointer. -/
def Chain (s : Hlists η α) : Slot η α → List α → Prop
  | p, [] => load s p = .null
  | p, n :: l => load s p = .node n ∧ s.pprev n = .addr p ∧ Chain s (.next n) l

/-- The part of a chain that stops in front of a slot. -/
def Upto (s : Hlists η α) : Slot η α → List α → Prop
  | _, [] => True
  | p, n :: l => load s p = .node n ∧ s.pprev n = .addr p ∧ Upto s (.next n) l

/-- The slot behind these nodes. -/
def slotAfter : Slot η α → List α → Slot η α
  | p, [] => p
  | _, n :: l => slotAfter (.next n) l

/-- The pointer to what comes first. -/
def headPtr : List α → NodePtr α
  | [] => .null
  | n :: _ => .node n

/-- What an operation may change: the `first` of some heads, and the pointers of
    some nodes. -/
structure Frame (s s' : Hlists η α) (hs : List η) (ns : List α) : Prop where
  first : ∀ h ∉ hs, s'.first h = s.first h
  next : ∀ n ∉ ns, s'.next n = s.next n
  pprev : ∀ n ∉ ns, s'.pprev n = s.pprev n

theorem Frame.trans {s s' s'' : Hlists η α} {hs hs' : List η} {ns ns' : List α}
    (h₁ : Frame s s' hs ns) (h₂ : Frame s' s'' hs' ns') (hhs : hs' ⊆ hs) (hns : ns' ⊆ ns) :
    Frame s s'' hs ns where
  first := fun h hh => (h₂.first h fun h' => hh (hhs h')).trans (h₁.first h hh)
  next := fun n hn => (h₂.next n fun h' => hn (hns h')).trans (h₁.next n hn)
  pprev := fun n hn => (h₂.pprev n fun h' => hn (hns h')).trans (h₁.pprev n hn)

section Chains

variable {s s' : Hlists η α} {p q : Slot η α} {l l₁ l₂ : List α} {h : η} {a n : α}
  {hs : List η} {ns : List α}

theorem chain_append : Chain s p (l₁ ++ l₂) ↔ Upto s p l₁ ∧ Chain s (slotAfter p l₁) l₂ := by
  induction l₁ generalizing p with
  | nil => exact ⟨fun hc => ⟨trivial, hc⟩, fun hc => hc.2⟩
  | cons a l₁ ih => simp only [List.cons_append, Chain, Upto, slotAfter, ih, and_assoc]

/-- The slot behind some nodes is the one in front of them, or one of theirs. -/
theorem slotAfter_cases : (l = [] ∧ slotAfter p l = p) ∨ ∃ a ∈ l, slotAfter p l = .next a := by
  induction l generalizing p with
  | nil => exact Or.inl ⟨rfl, rfl⟩
  | cons b l ih =>
      right
      obtain ⟨-, heq⟩ | ⟨a, ha, heq⟩ := ih (p := .next b)
      · exact ⟨b, List.mem_cons_self, heq⟩
      · exact ⟨a, List.mem_cons_of_mem b ha, heq⟩

theorem Chain.load_eq (hc : Chain s p l) : load s p = headPtr l := by
  cases l with
  | nil => exact hc
  | cons a l => exact hc.1

theorem Chain.congr (hc : Chain s p l) (hp : load s' p = load s p)
    (hn : ∀ a ∈ l, s'.next a = s.next a) (hpp : ∀ a ∈ l, s'.pprev a = s.pprev a) :
    Chain s' p l := by
  induction l generalizing p with
  | nil => exact hp.trans hc
  | cons a l ih =>
      refine ⟨hp.trans hc.1, (hpp a List.mem_cons_self).trans hc.2.1, ih hc.2.2 ?_ ?_ ?_⟩
      · exact hn a List.mem_cons_self
      · exact fun b hb => hn b (List.mem_cons_of_mem a hb)
      · exact fun b hb => hpp b (List.mem_cons_of_mem a hb)

/-- The same nodes from another slot. -/
theorem Chain.redirect (hc : Chain s p l) (hq : load s' q = headPtr l)
    (hhead : ∀ a ∈ l.head?, s'.pprev a = .addr q) (hn : ∀ a ∈ l, s'.next a = s.next a)
    (hpp : ∀ a ∈ l.tail, s'.pprev a = s.pprev a) : Chain s' q l := by
  cases l with
  | nil => exact hq
  | cons a l =>
      refine ⟨hq, hhead a rfl, hc.2.2.congr (hn a List.mem_cons_self) ?_ hpp⟩
      exact fun b hb => hn b (List.mem_cons_of_mem a hb)

/-- The slot behind the nodes does not matter. -/
theorem Upto.congr (hu : Upto s p l) (hp : l ≠ [] → load s' p = load s p)
    (hn : ∀ a ∈ l, slotAfter p l ≠ .next a → s'.next a = s.next a)
    (hpp : ∀ a ∈ l, s'.pprev a = s.pprev a) (hnd : l.Nodup) : Upto s' p l := by
  induction l generalizing p with
  | nil => trivial
  | cons a l ih =>
      obtain ⟨ha, hnd⟩ := List.nodup_cons.mp hnd
      refine ⟨(hp (List.cons_ne_nil a l)).trans hu.1, (hpp a List.mem_cons_self).trans hu.2.1,
        ih hu.2.2 ?_ ?_ ?_ hnd⟩
      · intro hne
        refine hn a List.mem_cons_self ?_
        intro heq
        rw [slotAfter] at heq
        obtain ⟨rfl, -⟩ | ⟨b, hb, hab⟩ := slotAfter_cases (p := (.next a : Slot η α)) (l := l)
        · exact hne rfl
        · rw [hab] at heq
          cases heq
          exact ha hb
      · exact fun b hb hne => hn b (List.mem_cons_of_mem a hb) hne
      · exact fun b hb => hpp b (List.mem_cons_of_mem a hb)

/-- The slot behind a node is its own. -/
theorem slotAfter_concat : slotAfter p (l ++ [a]) = .next a := by
  induction l generalizing p with
  | nil => rfl
  | cons b l ih => exact ih

theorem slotAfter_ne_next (ha : a ∉ l) : slotAfter (.first h) l ≠ .next a := by
  obtain ⟨-, heq⟩ | ⟨b, hb, heq⟩ := slotAfter_cases (p := (.first h : Slot η α)) (l := l)
  · rw [heq]
    exact fun heq => nomatch heq
  · rw [heq]
    rintro ⟨⟩
    exact ha hb

theorem slotAfter_ne_first {k : η} (hk : k ≠ h) : slotAfter (.first h) l ≠ .first k := by
  obtain ⟨-, heq⟩ | ⟨b, hb, heq⟩ := slotAfter_cases (p := (.first h : Slot η α)) (l := l)
  · rw [heq]
    rintro ⟨⟩
    exact hk rfl
  · rw [heq]
    exact fun heq => nomatch heq

/-- What is stored in the slot behind the nodes does not matter to them. -/
theorem Upto.keep (hu : Upto s (.first h) l) (hnd : l.Nodup)
    (hload : ∀ p, p ≠ slotAfter (.first h) l → load s' p = load s p ∨ ∃ a ∉ l, p = .next a)
    (hpp : ∀ a ∈ l, s'.pprev a = s.pprev a) : Upto s' (.first h) l := by
  refine hu.congr ?_ ?_ hpp hnd
  · intro hne
    have hfirst : (.first h : Slot η α) ≠ slotAfter (.first h) l := by
      obtain ⟨hnil, -⟩ | ⟨a, -, heq⟩ := slotAfter_cases (p := (.first h : Slot η α)) (l := l)
      · exact absurd hnil hne
      · rw [heq]
        exact fun heq => nomatch heq
    obtain heq | ⟨a, -, heq⟩ := hload _ hfirst
    · exact heq
    · cases heq
  · intro a ha hne
    obtain heq | ⟨b, hb, heq⟩ := hload (.next a) (Ne.symm hne)
    · exact heq
    · cases heq
      exact absurd ha hb

theorem Chain.frame (hc : Chain s (.first h) l) (hf : Frame s s' hs ns) (hh : h ∉ hs)
    (hl : ∀ a ∈ l, a ∉ ns) : Chain s' (.first h) l :=
  hc.congr (hf.first h hh) (fun a ha => hf.next a (hl a ha)) fun a ha => hf.pprev a (hl a ha)

/-- A node behind others is not the first of the rest. -/
theorem head_ne (hnd : (l₁ ++ n :: l₂).Nodup) :
    (∀ a ∈ l₁, l₂.head? ≠ some a) ∧ l₂.head? ≠ some n ∧ ∀ a ∈ l₂.tail, l₂.head? ≠ some a := by
  obtain ⟨-, hback, hdisj⟩ := List.nodup_append.mp hnd
  obtain ⟨hn, hl₂⟩ := List.nodup_cons.mp hback
  refine ⟨?_, ?_, ?_⟩
  · intro a ha heq
    exact hdisj a ha a (List.mem_cons_of_mem n (List.mem_of_mem_head? heq)) rfl
  · exact fun heq => hn (List.mem_of_mem_head? heq)
  · intro a ha heq
    obtain ⟨t, rfl⟩ := List.head?_eq_some_iff.mp heq
    exact (List.nodup_cons.mp hl₂).1 ha

end Chains

variable [DecidableEq η] [DecidableEq α]

-- ── The operations ───────────────────────────────────────────────────────────

/-- `*p = v`. -/
def store (s : Hlists η α) (p : Slot η α) (v : NodePtr α) : Hlists η α :=
  match p with
  | .first h => { s with first := Function.update s.first h v }
  | .next n => { s with next := Function.update s.next n v }

/-- `n->pprev = v`. -/
def setPprev (s : Hlists η α) (n : α) (v : SlotPtr η α) : Hlists η α :=
  { s with pprev := Function.update s.pprev n v }

/-- `if (p) p->pprev = v`. -/
def setPprevOf (s : Hlists η α) (p : NodePtr α) (v : SlotPtr η α) : Option (Hlists η α) :=
  match p with
  | .null => some s
  | .node n => some (setPprev s n v)
  | .listPoison1 => none

/-- `INIT_HLIST_HEAD`. -/
def initHlistHead (s : Hlists η α) (h : η) : Hlists η α := store s (.first h) .null

/-- `INIT_HLIST_NODE`. -/
def initHlistNode (s : Hlists η α) (h : α) : Hlists η α :=
  setPprev (store s (.next h) .null) h .null

/-- `hlist_unhashed`. -/
def hlistUnhashed (s : Hlists η α) (h : α) : Bool := decide (s.pprev h = .null)

/-- `hlist_empty`. -/
def hlistEmpty (s : Hlists η α) (h : η) : Bool := decide (s.first h = .null)

/-- `__hlist_del`. -/
def hlistUnlink (s : Hlists η α) (n : α) : Option (Hlists η α) :=
  let next := s.next n
  match s.pprev n with
  | .addr pprev => setPprevOf (store s pprev next) next (.addr pprev)
  | _ => none

/-- `hlist_del`. -/
def hlistDel (s : Hlists η α) (n : α) : Option (Hlists η α) :=
  (hlistUnlink s n).map fun s => setPprev (store s (.next n) .listPoison1) n .listPoison2

/-- `hlist_del_init`. -/
def hlistDelInit (s : Hlists η α) (n : α) : Option (Hlists η α) :=
  if !hlistUnhashed s n then (hlistUnlink s n).map fun s => initHlistNode s n else some s

/-- `hlist_add_head`. -/
def hlistAddHead (s : Hlists η α) (n : α) (h : η) : Option (Hlists η α) :=
  let first := s.first h
  let s := store s (.next n) first
  (setPprevOf s first (.addr (.next n))).map fun s =>
    setPprev (store s (.first h) (.node n)) n (.addr (.first h))

/-- `hlist_add_before`. -/
def hlistAddBefore (s : Hlists η α) (n next : α) : Option (Hlists η α) :=
  let s := setPprev s n (s.pprev next)
  let s := store s (.next n) (.node next)
  let s := setPprev s next (.addr (.next n))
  match s.pprev n with
  | .addr p => some (store s p (.node n))
  | _ => none

/-- `hlist_add_behind`. -/
def hlistAddBehind (s : Hlists η α) (n prev : α) : Option (Hlists η α) :=
  let s := store s (.next n) (s.next prev)
  let s := store s (.next prev) (.node n)
  let s := setPprev s n (.addr (.next prev))
  setPprevOf s (s.next n) (.addr (.next n))

/-- `hlist_is_singular_node`. -/
def hlistIsSingularNode (s : Hlists η α) (n : α) (h : η) : Bool :=
  decide (s.next n = .null) && decide (s.pprev n = .addr (.first h))

/-- `hlist_move_list`. -/
def hlistMoveList (s : Hlists η α) (old new : η) : Option (Hlists η α) :=
  let s := store s (.first new) (s.first old)
  (setPprevOf s (s.first new) (.addr (.first new))).map fun s => store s (.first old) .null

/-- `hlist_for_each` from `pos` on, within some number of rounds. -/
def hlistForEach (s : Hlists η α) : Nat → NodePtr α → Option (List α)
  | 0, _ => none
  | _ + 1, .null => some []
  | k + 1, .node n => (hlistForEach s k (s.next n)).map fun l => n :: l
  | _ + 1, .listPoison1 => none

section Stores

variable {s s' : Hlists η α} {p q : Slot η α} {l l₁ l₂ : List α} {h : η} {a n : α}
  {v : NodePtr α} {w : SlotPtr η α}

-- ── Stores ───────────────────────────────────────────────────────────────────

@[simp] theorem load_store_self : load (store s p v) p = v := by
  cases p <;> exact Function.update_self ..

theorem load_store_of_ne (hne : q ≠ p) : load (store s p v) q = load s q := by
  cases p with
  | first h =>
      cases q with
      | first h' => exact Function.update_of_ne (fun heq => hne (congrArg _ heq)) ..
      | next n => rfl
  | next n =>
      cases q with
      | first h => rfl
      | next n' => exact Function.update_of_ne (fun heq => hne (congrArg _ heq)) ..

@[simp] theorem store_pprev : (store s p v).pprev = s.pprev := by
  cases p <;> rfl

omit [DecidableEq η] in
/-- Telling the first node of a list where it is pointed to from. -/
theorem setPprevOf_headPtr (s : Hlists η α) (l : List α) (w : SlotPtr η α) :
    ∃ s', setPprevOf s (headPtr l) w = some s' ∧ load s' = load s
      ∧ (∀ a ∈ l.head?, s'.pprev a = w) ∧ ∀ a, l.head? ≠ some a → s'.pprev a = s.pprev a := by
  cases l with
  | nil =>
      refine ⟨s, rfl, rfl, ?_, fun _ _ => rfl⟩
      intro a ha
      cases ha
  | cons n l =>
      refine ⟨setPprev s n w, rfl, ?_, ?_, ?_⟩
      · funext p
        cases p <;> rfl
      · intro a ha
        cases ha
        exact Function.update_self ..
      · intro a ha
        refine Function.update_of_ne ?_ ..
        rintro rfl
        exact ha rfl

-- ── One list ─────────────────────────────────────────────────────────────────

/-- `__hlist_del` takes a node off its list. -/
theorem hlistUnlink_chain (hc : Chain s (.first h) (l₁ ++ n :: l₂)) (hnd : (l₁ ++ n :: l₂).Nodup) :
    ∃ s', hlistUnlink s n = some s' ∧ Chain s' (.first h) (l₁ ++ l₂)
      ∧ Frame s s' [h] (l₁ ++ n :: l₂) := by
  obtain ⟨hupto, hload, hback, hrest⟩ := chain_append.mp hc
  obtain ⟨hne₁, hnen, hne₂⟩ := head_ne hnd
  obtain ⟨hnd₁, hnd₂, hdisj⟩ := List.nodup_append.mp hnd
  obtain ⟨s', hset, hloads, hhead, hothers⟩ :=
    setPprevOf_headPtr (store s (slotAfter (.first h) l₁) (headPtr l₂)) l₂
      (.addr (slotAfter (.first h) l₁))
  have hkeep : ∀ p, p ≠ slotAfter (.first h) l₁ → load s' p = load s p := by
    intro p hp
    rw [hloads]
    exact load_store_of_ne hp
  have hback' : ∀ a, l₂.head? ≠ some a → s'.pprev a = s.pprev a := by
    intro a ha
    rw [hothers a ha, store_pprev]
  refine ⟨s', ?_, chain_append.mpr ⟨?_, ?_⟩, ?_⟩
  · rw [hlistUnlink, hback]
    dsimp only
    rw [show s.next n = headPtr l₂ from hrest.load_eq]
    exact hset
  · exact hupto.keep hnd₁ (fun p hp => Or.inl (hkeep p hp)) fun a ha => hback' a (hne₁ a ha)
  · refine hrest.redirect ?_ hhead ?_ fun a ha => hback' a (hne₂ a ha)
    · rw [hloads, load_store_self]
    · intro a ha
      refine hkeep (.next a) (slotAfter_ne_next ?_).symm
      exact fun ha₁ => hdisj a ha₁ a (List.mem_cons_of_mem n ha) rfl
  · exact {
      first := by
        intro k hk
        exact hkeep (.first k) (slotAfter_ne_first fun heq => hk (List.mem_singleton.mpr heq)).symm
      next := by
        intro a ha
        exact hkeep (.next a) (slotAfter_ne_next fun h₁ => ha (List.mem_append_left _ h₁)).symm
      pprev := by
        intro a ha
        refine hback' a fun heq => ha (List.mem_append_right _ ?_)
        exact List.mem_cons_of_mem n (List.mem_of_mem_head? heq) }

/-- The pointers of one node. -/
theorem setPprev_store_frame (s : Hlists η α) (n : α) (v : NodePtr α) (w : SlotPtr η α) :
    Frame s (setPprev (store s (.next n) v) n w) [] [n] where
  first := fun _ _ => rfl
  next := fun _ ha => Function.update_of_ne (fun heq => ha (List.mem_singleton.mpr heq)) ..
  pprev := fun _ ha => Function.update_of_ne (fun heq => ha (List.mem_singleton.mpr heq)) ..

/-- A node taken off its list, its own pointers set to something. -/
theorem unlink_chain (hc : Chain s (.first h) (l₁ ++ n :: l₂)) (hnd : (l₁ ++ n :: l₂).Nodup)
    (v : NodePtr α) (w : SlotPtr η α) :
    ∃ s', (hlistUnlink s n).map (fun s => setPprev (store s (.next n) v) n w) = some s'
      ∧ Chain s' (.first h) (l₁ ++ l₂) ∧ Frame s s' [h] (l₁ ++ n :: l₂) ∧ s'.pprev n = w := by
  obtain ⟨s', hs', hc', hf⟩ := hlistUnlink_chain hc hnd
  have hown := setPprev_store_frame s' n v w
  refine ⟨_, by rw [hs', Option.map_some], hc'.frame hown List.not_mem_nil ?_,
    hf.trans hown (List.nil_subset _) ?_, Function.update_self ..⟩
  · intro a ha han
    rw [List.mem_singleton.mp han] at ha
    exact (List.nodup_middle.mp hnd).notMem ha
  · intro a han
    rw [List.mem_singleton.mp han]
    exact List.mem_append_right _ List.mem_cons_self

/-- A node put behind the nodes `l₁`, in front of the nodes `l₂`. -/
theorem Chain.put (hc : Chain s (.first h) (l₁ ++ l₂)) (hnd : (n :: (l₁ ++ l₂)).Nodup)
    (hslot : load s' (slotAfter (.first h) l₁) = .node n) (hnext : s'.next n = headPtr l₂)
    (hload : ∀ p, p ≠ slotAfter (.first h) l₁ → p ≠ .next n → load s' p = load s p)
    (hback : s'.pprev n = .addr (slotAfter (.first h) l₁))
    (hhead : ∀ b ∈ l₂.head?, s'.pprev b = .addr (.next n))
    (hothers : ∀ b, b ≠ n → l₂.head? ≠ some b → s'.pprev b = s.pprev b) :
    Chain s' (.first h) (l₁ ++ n :: l₂) ∧ Frame s s' [h] (n :: (l₁ ++ l₂)) := by
  obtain ⟨hupto, hrest⟩ := chain_append.mp hc
  obtain ⟨hn, hnd'⟩ := List.nodup_cons.mp hnd
  obtain ⟨hnd₁, hnd₂, hdisj⟩ := List.nodup_append.mp hnd'
  have hn₁ : n ∉ l₁ := fun h₁ => hn (List.mem_append_left _ h₁)
  have hn₂ : n ∉ l₂ := fun h₂ => hn (List.mem_append_right _ h₂)
  refine ⟨chain_append.mpr ⟨?_, hslot, hback, ?_⟩, ?_⟩
  · refine hupto.keep hnd₁ ?_ ?_
    · intro p hp
      by_cases hpn : p = .next n
      · exact Or.inr ⟨n, hn₁, hpn⟩
      · exact Or.inl (hload p hp hpn)
    · intro b hb
      refine hothers b ?_ fun heq => hdisj b hb b (List.mem_of_mem_head? heq) rfl
      rintro rfl
      exact hn₁ hb
  · refine hrest.redirect hnext hhead ?_ ?_
    · intro b hb
      refine hload _ (slotAfter_ne_next fun h₁ => hdisj b h₁ b hb rfl).symm ?_
      rintro ⟨⟩
      exact hn₂ hb
    · intro b hb
      refine hothers b ?_ ?_
      · rintro rfl
        exact hn₂ (List.mem_of_mem_tail hb)
      · intro heq
        obtain ⟨t, rfl⟩ := List.head?_eq_some_iff.mp heq
        exact (List.nodup_cons.mp hnd₂).1 hb
  · exact {
      first := by
        intro k hk
        refine hload (.first k) (slotAfter_ne_first ?_).symm fun heq => nomatch heq
        exact fun heq => hk (List.mem_singleton.mpr heq)
      next := by
        intro b hb
        refine hload (.next b) (slotAfter_ne_next ?_).symm ?_
        · exact fun h₁ => hb (List.mem_cons_of_mem n (List.mem_append_left _ h₁))
        · rintro ⟨⟩
          exact hb List.mem_cons_self
      pprev := by
        intro b hb
        refine hothers b ?_ fun heq => ?_
        · rintro rfl
          exact hb List.mem_cons_self
        · exact hb (List.mem_cons_of_mem n (List.mem_append_right _ (List.mem_of_mem_head? heq))) }

/-- `hlist_add_head`. -/
theorem hlistAddHead_chain (hc : Chain s (.first h) l) (hnd : (n :: l).Nodup) :
    ∃ s', hlistAddHead s n h = some s' ∧ Chain s' (.first h) (n :: l)
      ∧ Frame s s' [h] (n :: l) := by
  obtain ⟨t, hset, hloads, hhead, hothers⟩ :=
    setPprevOf_headPtr (store s (.next n) (headPtr l)) l (.addr (.next n))
  refine ⟨setPprev (store t (.first h) (.node n)) n (.addr (.first h)), ?_,
    Chain.put (show Chain s (.first h) ([] ++ l) from hc) hnd ?_ ?_ ?_ ?_ ?_ ?_⟩
  · rw [hlistAddHead, show s.first h = headPtr l from hc.load_eq, hset, Option.map_some]
  · exact Function.update_self ..
  · exact (congrFun hloads (.next n)).trans load_store_self
  · intro p hp hpn
    refine Eq.trans ?_ ((congrFun hloads p).trans (load_store_of_ne hpn))
    exact load_store_of_ne (s := t) hp
  · exact Function.update_self ..
  · intro b hb
    refine (Function.update_of_ne ?_ ..).trans (hhead b hb)
    rintro rfl
    exact (List.nodup_cons.mp hnd).1 (List.mem_of_mem_head? hb)
  · intro b hbn hb
    refine (Function.update_of_ne hbn ..).trans ?_
    rw [store_pprev, hothers b hb, store_pprev]

/-- `hlist_add_before`. -/
theorem hlistAddBefore_chain (hc : Chain s (.first h) (l₁ ++ a :: l₂))
    (hnd : (n :: (l₁ ++ a :: l₂)).Nodup) :
    ∃ s', hlistAddBefore s n a = some s' ∧ Chain s' (.first h) (l₁ ++ n :: a :: l₂)
      ∧ Frame s s' [h] (n :: (l₁ ++ a :: l₂)) := by
  have hn := (List.nodup_cons.mp hnd).1
  have hback : s.pprev a = .addr (slotAfter (.first h) l₁) := (chain_append.mp hc).2.2.1
  have hna : n ≠ a := by
    rintro rfl
    exact hn (List.mem_append_right l₁ List.mem_cons_self)
  have hslot : slotAfter (.first h) l₁ ≠ .next n :=
    slotAfter_ne_next fun h₁ => hn (List.mem_append_left _ h₁)
  have hpn : (setPprev (store (setPprev s n (s.pprev a)) (.next n) (.node a)) a
      (.addr (.next n))).pprev n = .addr (slotAfter (.first h) l₁) := by
    refine (Function.update_of_ne hna ..).trans ?_
    rw [store_pprev, ← hback]
    exact Function.update_self ..
  refine ⟨store (setPprev (store (setPprev s n (s.pprev a)) (.next n) (.node a)) a
    (.addr (.next n))) (slotAfter (.first h) l₁) (.node n), ?_,
    hc.put hnd load_store_self ?_ ?_ ?_ ?_ ?_⟩
  · rw [hlistAddBefore, hpn]
  · exact (load_store_of_ne (q := .next n) hslot.symm).trans (Function.update_self ..)
  · intro p hp hpn
    refine (load_store_of_ne hp).trans ?_
    cases p with
    | first k => rfl
    | next b => exact load_store_of_ne (s := setPprev s n (s.pprev a)) hpn
  · rw [store_pprev]
    exact hpn
  · rintro b ⟨⟩
    rw [store_pprev]
    exact Function.update_self ..
  · intro b hbn hba
    rw [store_pprev]
    refine (Function.update_of_ne (fun heq => hba (congrArg some heq.symm)) ..).trans ?_
    rw [store_pprev]
    exact Function.update_of_ne hbn ..

/-- `hlist_add_behind`. -/
theorem hlistAddBehind_chain (hc : Chain s (.first h) (l₁ ++ a :: l₂))
    (hnd : (n :: (l₁ ++ a :: l₂)).Nodup) :
    ∃ s', hlistAddBehind s n a = some s' ∧ Chain s' (.first h) (l₁ ++ a :: n :: l₂)
      ∧ Frame s s' [h] (n :: (l₁ ++ a :: l₂)) := by
  have hn := (List.nodup_cons.mp hnd).1
  have hna : n ≠ a := by
    rintro rfl
    exact hn (List.mem_append_right l₁ List.mem_cons_self)
  have hnext : s.next a = headPtr l₂ := (chain_append.mp hc).2.2.2.load_eq
  rw [List.append_cons l₁ a l₂] at hc hnd ⊢
  obtain ⟨t, hset, hloads, hhead, hothers⟩ := setPprevOf_headPtr
    (setPprev (store (store s (.next n) (headPtr l₂)) (.next a) (.node n)) n (.addr (.next a)))
    l₂ (.addr (.next n))
  have hload : ∀ p, load t p
      = load (store (store s (.next n) (headPtr l₂)) (.next a) (.node n)) p := by
    intro p
    rw [hloads]
    cases p <;> rfl
  have hnextn : load (store (store s (.next n) (headPtr l₂)) (.next a) (.node n)) (.next n)
      = headPtr l₂ := by
    rw [load_store_of_ne, load_store_self]
    rintro ⟨⟩
    exact hna rfl
  refine ⟨t, ?_, ?_⟩
  · rw [hlistAddBehind, hnext]
    exact (congrArg (fun p => setPprevOf _ p _) hnextn).trans hset
  rw [List.append_cons l₁ a (n :: l₂)]
  refine hc.put hnd ?_ ?_ ?_ ?_ hhead ?_
  · rw [slotAfter_concat, hload, load_store_self]
  · exact (hload (.next n)).trans hnextn
  · intro p hp hpn
    rw [slotAfter_concat] at hp
    rw [hload, load_store_of_ne hp, load_store_of_ne hpn]
  · rw [hothers n, slotAfter_concat]
    · exact Function.update_self ..
    · exact fun heq => (List.nodup_cons.mp hnd).1
        (List.mem_append_right _ (List.mem_of_mem_head? heq))
  · intro b hbn hb
    rw [hothers b hb]
    refine (Function.update_of_ne hbn ..).trans ?_
    rw [store_pprev, store_pprev]

/-- `hlist_move_list` takes over the nodes, and leaves the old head empty. -/
theorem hlistMoveList_chain {k : η} (hc : Chain s (.first h) l) (hhk : h ≠ k) (hnd : l.Nodup) :
    ∃ s', hlistMoveList s h k = some s' ∧ Chain s' (.first k) l ∧ Chain s' (.first h) []
      ∧ Frame s s' [h, k] l := by
  obtain ⟨t, hset, hloads, hhead, hothers⟩ :=
    setPprevOf_headPtr (store s (.first k) (headPtr l)) l (.addr (.first k))
  have hload : ∀ p, p ≠ .first h → load (store t (.first h) .null) p
      = load (store s (.first k) (headPtr l)) p := by
    intro p hp
    rw [load_store_of_ne hp, hloads]
  refine ⟨store t (.first h) .null, ?_, hc.redirect ?_ ?_ ?_ ?_, ?_, ?_⟩
  · rw [hlistMoveList, show s.first h = headPtr l from hc.load_eq]
    rw [show (store s (.first k) (headPtr l)).first k = headPtr l from Function.update_self ..]
    rw [hset, Option.map_some]
  · refine (hload (.first k) ?_).trans load_store_self
    rintro ⟨⟩
    exact hhk rfl
  · intro a ha
    rw [store_pprev]
    exact hhead a ha
  · exact fun a ha => hload (.next a) fun heq => nomatch heq
  · intro a ha
    rw [store_pprev, hothers, store_pprev]
    intro heq
    obtain ⟨l', rfl⟩ := List.head?_eq_some_iff.mp heq
    exact (List.nodup_cons.mp hnd).1 ha
  · exact load_store_self
  · exact {
      first := by
        intro j hj
        refine (hload (.first j) ?_).trans (load_store_of_ne ?_)
        · rintro ⟨⟩
          exact hj List.mem_cons_self
        · rintro ⟨⟩
          exact hj (List.mem_cons_of_mem h List.mem_cons_self)
      next := fun a ha => hload (.next a) fun heq => nomatch heq
      pprev := by
        intro a ha
        rw [store_pprev, hothers a (fun heq => ha (List.mem_of_mem_head? heq)), store_pprev] }

end Stores

end Hlist
