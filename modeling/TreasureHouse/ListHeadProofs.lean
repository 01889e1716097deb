import Mathlib.Logic.Equiv.Basic
import TreasureHouse.LinkCycleProofs
import TreasureHouse.WaitQueueProofs

/-! # `container/list.h` — what each list operation does to its rings

    A list is a ring of its head and its entries.  `Rings lists F` says that
    the links hold the rings of `F` together, whatever else is in memory, so a
    lemma here that takes `Rings lists (c :: F)` to `Rings lists' (c' :: F)`
    says what an operation does to one ring and that it leaves every other one
    alone.  Where a ring begins does not matter (`Rings.rotate`).

    `list_for_each`, `list_add`, `list_add_tail`, `list_del_init`, `list_empty`
    and `INIT_LIST_HEAD` are those of the wait queues.  Each of the others is
    its stores in the order of the source, every pointer read where the source
    reads it.  `LIST_POISON1` and `LIST_POISON2` are whatever two addresses the
    build chooses. -/

namespace ListHead

open LinkCycle WaitQueue

variable {α : Type}

-- ── Rings ────────────────────────────────────────────────────────────────────

/-- The links hold these rings together. -/
def Rings (lists : Links α) (rings : List (List α)) : Prop :=
  Linkage lists.next lists.prev [] rings

section Held

variable {lists : Links α} {F : List (List α)} {c s t : List α} {entry x : α}

theorem Rings.perm {G : List (List α)} (h : Rings lists F) (hp : F.Perm G) : Rings lists G :=
  Linkage.perm h (List.Perm.refl _) hp

theorem Rings.rotate (h : Rings lists ((s ++ t) :: F)) : Rings lists ((t ++ s) :: F) :=
  Linkage.rotate h

theorem Rings.nodup (h : Rings lists F) : F.flatten.Nodup := by
  simpa using Linkage.nodup h

theorem Rings.ring (h : Rings lists (c :: F)) : Cycle lists.next lists.prev c :=
  Linkage.cycle h c List.mem_cons_self

/-- Only the links of the rings matter. -/
theorem Rings.agree {lists' : Links α} (h : Rings lists F)
    (heq : ∀ x ∈ F.flatten, lists'.next x = lists.next x ∧ lists'.prev x = lists.prev x) :
    Rings lists' F :=
  Linkage.agree h (by simpa using heq)

/-- A ring may be given up. -/
theorem Rings.drop (h : Rings lists (c :: F)) : Rings lists F :=
  h.uncycle.drop

theorem not_mem_rotate : x ∉ ((s ++ t) :: F).flatten ↔ x ∉ ((t ++ s) :: F).flatten := by
  simp only [List.flatten_cons, List.mem_append, or_comm (a := x ∈ s)]

/-- What is read from the node a ring is cut behind. -/
theorem Rings.next_last (h : Rings lists ((s ++ t) :: F)) (hx : s.getLast? = some x) :
    (t ++ s).head? = some (lists.next x) := by
  obtain ⟨u, rfl⟩ := List.getLast?_eq_some_iff.mp hx
  have hrot : Rings lists ((x :: (t ++ u)) :: F) := by
    refine Rings.rotate (s := t ++ u) (t := [x]) ?_
    simpa using h.rotate
  simpa using hrot.ring.next_first

/-- What is read from the node a ring is cut in front of. -/
theorem Rings.prev_first (h : Rings lists ((s ++ t) :: F)) (hx : t.head? = some x) :
    (t ++ s).getLast? = some (lists.prev x) := by
  obtain ⟨u, rfl⟩ := List.head?_eq_some_iff.mp hx
  exact h.rotate.ring.prev_first

/-- The first node of a ring may be given up: the others are a path. -/
theorem Rings.behind (h : Rings lists ((x :: s) :: F)) : Linkage lists.next lists.prev [s] F :=
  (Linkage.split (s := [x]) (t := s) h.uncycle).drop

theorem Rings.not_mem (h : Rings lists ((s ++ entry :: t) :: F)) :
    entry ∉ ((s ++ t) :: F).flatten := by
  have hn := h.nodup
  simp only [List.flatten_cons] at hn ⊢
  grind

theorem Rings.swap {d : List α} (h : Rings lists (c :: d :: F)) : Rings lists (d :: c :: F) :=
  h.perm (List.Perm.swap ..)

end Held

variable [DecidableEq α]

-- ── The operations ───────────────────────────────────────────────────────────

/-- `x->next = y`. -/
def setNext (lists : Links α) (x y : α) : Links α :=
  { lists with next := Function.update lists.next x y }

/-- `x->prev = y`. -/
def setPrev (lists : Links α) (x y : α) : Links α :=
  { lists with prev := Function.update lists.prev x y }

/-- `LIST_POISON1` and `LIST_POISON2`. -/
class ListPoison (α : Type) where
  listPoison1 : α
  listPoison2 : α

instance : ListPoison Nat where
  listPoison1 := 0x100
  listPoison2 := 0x122

export ListPoison (listPoison1 listPoison2)

/-- `__list_del`. -/
def listDelBetween (lists : Links α) (prev next : α) : Links α :=
  setNext (setPrev lists next prev) prev next

/-- `__list_del_entry`. -/
def listDelEntry (lists : Links α) (entry : α) : Links α :=
  listDelBetween lists (lists.prev entry) (lists.next entry)

/-- `list_del`. -/
def listDel [ListPoison α] (lists : Links α) (entry : α) : Links α :=
  let lists := listDelEntry lists entry
  let lists := setNext lists entry listPoison1
  setPrev lists entry listPoison2

/-- `list_del_init_careful`; `smp_store_release` stores. -/
def listDelInitCareful (lists : Links α) (entry : α) : Links α :=
  let lists := listDelEntry lists entry
  let lists := setPrev lists entry entry
  setNext lists entry entry

/-- `list_replace`. -/
def listReplace (lists : Links α) (old new : α) : Links α :=
  let lists := setNext lists new (lists.next old)
  let lists := setPrev lists (lists.next new) new
  let lists := setPrev lists new (lists.prev old)
  setNext lists (lists.prev new) new

/-- `list_replace_init`. -/
def listReplaceInit (lists : Links α) (old new : α) : Links α :=
  initListHead (listReplace lists old new) old

/-- `list_swap`. -/
def listSwap [ListPoison α] (lists : Links α) (entry1 entry2 : α) : Links α :=
  let pos := lists.prev entry2
  let lists := listDel lists entry2
  let lists := listReplace lists entry1 entry2
  let pos := if pos = entry1 then entry2 else pos
  listAdd lists entry1 pos

/-- `list_move`. -/
def listMove (lists : Links α) (list head : α) : Links α :=
  listAdd (listDelEntry lists list) list head

/-- `list_move_tail`. -/
def listMoveTail (lists : Links α) (list head : α) : Links α :=
  listAddTail (listDelEntry lists list) list head

/-- `list_bulk_move_tail`. -/
def listBulkMoveTail (lists : Links α) (head first last : α) : Links α :=
  let lists := setNext lists (lists.prev first) (lists.next last)
  let lists := setPrev lists (lists.next last) (lists.prev first)
  let lists := setNext lists (lists.prev head) first
  let lists := setPrev lists first (lists.prev head)
  let lists := setNext lists last head
  setPrev lists head last

/-- `list_is_first`. -/
def listIsFirst (lists : Links α) (list head : α) : Bool := decide (lists.prev list = head)

/-- `list_is_last`. -/
def listIsLast (lists : Links α) (list head : α) : Bool := decide (lists.next list = head)

/-- `list_empty_careful`. -/
def listEmptyCareful (lists : Links α) (head : α) : Bool :=
  let next := lists.next head
  decide (next = head) && decide (next = lists.prev head)

/-- `list_rotate_left`. -/
def listRotateLeft (lists : Links α) (head : α) : Links α :=
  if !listEmpty lists head then
    let first := lists.next head
    listMoveTail lists first head
  else lists

/-- `list_rotate_to_front`. -/
def listRotateToFront (lists : Links α) (list head : α) : Links α := listMoveTail lists head list

/-- `list_is_singular`. -/
def listIsSingular (lists : Links α) (head : α) : Bool :=
  !listEmpty lists head && decide (lists.next head = lists.prev head)

/-- `__list_cut_position`. -/
def listCutAt (lists : Links α) (list head entry : α) : Links α :=
  let newFirst := lists.next entry
  let lists := setNext lists list (lists.next head)
  let lists := setPrev lists (lists.next list) list
  let lists := setPrev lists list entry
  let lists := setNext lists entry list
  let lists := setNext lists head newFirst
  setPrev lists newFirst head

/-- `list_cut_position`. -/
def listCutPosition (lists : Links α) (list head entry : α) : Links α :=
  if listEmpty lists head then lists
  else if listIsSingular lists head ∧ lists.next head ≠ entry ∧ head ≠ entry then lists
  else if entry = head then initListHead lists list
  else listCutAt lists list head entry

/-- `list_cut_before`. -/
def listCutBefore (lists : Links α) (list head entry : α) : Links α :=
  if lists.next head = entry then initListHead lists list
  else
    let lists := setNext lists list (lists.next head)
    let lists := setPrev lists (lists.next list) list
    let lists := setPrev lists list (lists.prev entry)
    let lists := setNext lists (lists.prev list) list
    let lists := setNext lists head entry
    setPrev lists entry head

/-- `__list_splice`. -/
def listSpliceBetween (lists : Links α) (list prev next : α) : Links α :=
  let first := lists.next list
  let last := lists.prev list
  let lists := setPrev lists first prev
  let lists := setNext lists prev first
  let lists := setNext lists last next
  setPrev lists next last

/-- `list_splice`. -/
def listSplice (lists : Links α) (list head : α) : Links α :=
  if !listEmpty lists list then listSpliceBetween lists list head (lists.next head) else lists

/-- `list_splice_tail`. -/
def listSpliceTail (lists : Links α) (list head : α) : Links α :=
  if !listEmpty lists list then listSpliceBetween lists list (lists.prev head) head else lists

/-- `list_splice_init`. -/
def listSpliceInit (lists : Links α) (list head : α) : Links α :=
  if !listEmpty lists list then
    initListHead (listSpliceBetween lists list head (lists.next head)) list
  else lists

/-- `list_splice_tail_init`. -/
def listSpliceTailInit (lists : Links α) (list head : α) : Links α :=
  if !listEmpty lists list then
    initListHead (listSpliceBetween lists list (lists.prev head) head) list
  else lists

section Operations

variable {lists : Links α} {F : List (List α)} {c s t seg : List α}
  {head entry old new list first last p n x : α}

/-- One store into each of the two nodes. -/
def link (lists : Links α) (p q : α) : Links α where
  next := Function.update lists.next p q
  prev := Function.update lists.prev q p

-- ── One ring ─────────────────────────────────────────────────────────────────

/-- `INIT_LIST_HEAD` makes a ring of a node that is on none. -/
theorem initListHead_rings (h : Rings lists F) (hx : x ∉ F.flatten) :
    Rings (initListHead lists x) ([x] :: F) :=
  (Linkage.fresh h (by simpa using hx)).close rfl rfl

/-- `__list_add` between the last and the first node of a ring. -/
theorem listInsert_rings (h : Rings lists (c :: F)) (hnew : new ∉ (c :: F).flatten)
    (hp : c.getLast? = some p) (hn : c.head? = some n) :
    Rings (listInsert lists new p n) ((c ++ [new]) :: F) := by
  have hmem : ∀ y ∈ c, y ≠ new := by
    rintro y hy rfl
    exact hnew (List.mem_append_left _ hy)
  have hlinks : listInsert lists new p n = link (link lists p new) new n := by
    rw [listInsert, link, link, Function.update_comm (hmem p (List.mem_of_getLast? hp)),
      Function.update_comm (hmem n (List.mem_of_mem_head? hn))]
  have hpath := (Linkage.fresh h.uncycle (x := new) (by simpa using hnew)).perm
    (List.Perm.swap ..) (List.Perm.refl _)
  rw [hlinks]
  exact (hpath.join hp rfl).close List.getLast?_concat (by rw [List.head?_append, hn]; rfl)

/-- `list_add` behind any node of a ring. -/
theorem listAdd_rings (h : Rings lists ((s ++ t) :: F)) (hnew : new ∉ ((s ++ t) :: F).flatten)
    (hx : s.getLast? = some x) : Rings (listAdd lists new x) ((s ++ new :: t) :: F) := by
  have hlast : (t ++ s).getLast? = some x := by rw [List.getLast?_append, hx]; rfl
  have hins := listInsert_rings h.rotate (not_mem_rotate.mp hnew) hlast (h.next_last hx)
  rw [List.append_assoc] at hins
  simpa [listAdd] using hins.rotate

/-- `list_add_tail` in front of any node of a ring. -/
theorem listAddTail_rings (h : Rings lists ((s ++ t) :: F))
    (hnew : new ∉ ((s ++ t) :: F).flatten) (hx : t.head? = some x) :
    Rings (listAddTail lists new x) ((s ++ new :: t) :: F) := by
  have hfirst : (t ++ s).head? = some x := by rw [List.head?_append, hx]; rfl
  have hins := listInsert_rings h.rotate (not_mem_rotate.mp hnew) (h.prev_first hx) hfirst
  rw [List.append_assoc] at hins
  simpa [listAddTail] using hins.rotate

/-- `__list_del_entry` takes a node off a ring that others are on. -/
theorem listDelEntry_rings (h : Rings lists ((s ++ entry :: t) :: F)) (hne : t ++ s ≠ []) :
    Rings (listDelEntry lists entry) ((s ++ t) :: F) := by
  have hrot : Rings lists ((entry :: (t ++ s)) :: F) := by simpa using h.rotate
  have hnext := hrot.ring.next_first
  have hprev := hrot.ring.prev_first
  rw [List.head?_append_of_ne_nil _ hne] at hnext
  rw [List.getLast?_cons_of_ne_nil hne] at hprev
  have hdel : listDelEntry lists entry = link lists (lists.prev entry) (lists.next entry) := rfl
  rw [hdel]
  refine Rings.rotate (s := t) (t := s) ?_
  exact hrot.behind.close hprev hnext

/-- `list_del` poisons the node besides. -/
theorem listDel_rings [ListPoison α] (h : Rings lists ((s ++ entry :: t) :: F))
    (hne : t ++ s ≠ []) : Rings (listDel lists entry) ((s ++ t) :: F) := by
  refine (listDelEntry_rings h hne).agree ?_
  intro x hx
  have hxe : x ≠ entry := by
    rintro rfl
    have hn := h.nodup
    simp only [List.flatten_cons] at hx hn
    grind
  exact ⟨Function.update_of_ne hxe .., Function.update_of_ne hxe ..⟩

theorem listReplace_eq (hne : lists.next old ≠ old) :
    listReplace lists old new
      = link (link lists new (lists.next old)) (lists.prev old) new := by
  simp [listReplace, setNext, setPrev, link, Function.update_of_ne hne.symm]

/-- Of a node that is alone only the new one is left. -/
theorem listReplace_alone (heq : lists.next old = old) :
    listReplace lists old new = link (setPrev lists old new) new new := by
  simp [listReplace, setNext, setPrev, link, heq]

/-- `list_replace` puts a node in the place of another, which may be alone. -/
theorem listReplace_rings (h : Rings lists ((s ++ old :: t) :: F))
    (hnew : new ∉ ((s ++ old :: t) :: F).flatten) :
    Rings (listReplace lists old new) ((s ++ new :: t) :: F) := by
  have hrot : Rings lists ((old :: (t ++ s)) :: F) := by simpa using h.rotate
  have hnew' : new ∉ ((old :: (t ++ s)) :: F).flatten := by
    simpa using not_mem_rotate.mp hnew
  have hno : old ≠ new := by
    rintro rfl
    exact hnew' (by simp)
  have hnext := hrot.ring.next_first
  have hprev := hrot.ring.prev_first
  suffices hring : Rings (listReplace lists old new) ((new :: (t ++ s)) :: F) by
    refine Rings.rotate (s := new :: t) (t := s) ?_
    simpa using hring
  by_cases hne : t ++ s = []
  · rw [hne] at hnext hrot hnew' ⊢
    rw [listReplace_alone (by simpa using hnext.symm)]
    have hrest : Rings (setPrev lists old new) F := by
      refine hrot.drop.agree ?_
      intro x hx
      have hxo : x ≠ old := by
        rintro rfl
        obtain ⟨c, hc, hxc⟩ := List.mem_flatten.mp hx
        exact Linkage.not_mem_cycles hrot List.mem_cons_self c hc hxc
      exact ⟨rfl, Function.update_of_ne hxo ..⟩
    have hx : new ∉ F.flatten := fun hx => hnew' (List.mem_append_right _ hx)
    exact (Linkage.fresh hrest (by simpa using hx)).close rfl rfl
  · rw [List.head?_append_of_ne_nil _ hne] at hnext
    rw [List.getLast?_cons_of_ne_nil hne] at hprev
    have hnn : lists.next old ≠ old := by
      intro heq
      rw [heq] at hnext
      have hn := hrot.nodup
      rw [List.flatten_cons, List.cons_append, List.nodup_cons] at hn
      exact hn.1 (List.mem_append_left _ (List.mem_of_mem_head? hnext))
    have hx : new ∉ ((t ++ s) :: F).flatten := fun hx => hnew' (List.mem_cons_of_mem _ hx)
    have hpath := hrot.behind.fresh (x := new) (by simpa using hx)
    rw [listReplace_eq hnn]
    refine (hpath.join rfl hnext).close ?_ rfl
    rw [List.getLast?_append_of_ne_nil _ hne, hprev]

-- ── Two rings, and parts of one ──────────────────────────────────────────────

theorem listBulkMoveTail_eq (hne : lists.prev first ≠ last) :
    listBulkMoveTail lists head first last
      = link (link (link lists (lists.prev first) (lists.next last))
          ((link lists (lists.prev first) (lists.next last)).prev head) first) last head := by
  simp [listBulkMoveTail, setNext, setPrev, link, Function.update_of_ne hne.symm]

/-- `list_bulk_move_tail`. -/
theorem listBulkMoveTail_rings (h : Rings lists ((s ++ (seg ++ t)) :: F))
    (hs : s.head? = some head) (hf : seg.head? = some first) (hl : seg.getLast? = some last) :
    Rings (listBulkMoveTail lists head first last) ((s ++ (t ++ seg)) :: F) := by
  have hns : s ≠ [] := by
    rintro rfl
    cases hs
  have hseg : seg ≠ [] := by
    rintro rfl
    cases hf
  have hprev : (t ++ s).getLast? = some (lists.prev first) := by
    have := h.prev_first (by rw [List.head?_append, hf]; rfl)
    rwa [List.append_assoc, List.getLast?_append_of_ne_nil _
      (List.append_ne_nil_of_right_ne_nil t hns)] at this
  have hnext : (t ++ s).head? = some (lists.next last) := by
    have hcut : Rings lists ((s ++ seg ++ t) :: F) := by simpa using h
    have := hcut.next_last (by rw [List.getLast?_append, hl]; rfl)
    rwa [← List.append_assoc, List.head?_append_of_ne_nil _
      (List.append_ne_nil_of_right_ne_nil t hns)] at this
  have hne : lists.prev first ≠ last := by
    have hn := h.nodup
    have hp := List.mem_of_getLast? hprev
    have hm := List.mem_of_getLast? hl
    simp only [List.flatten_cons] at hn
    grind
  rw [listBulkMoveTail_eq hne]
  -- without the segment the ring is closed first, and opened in front of the head then
  have hrot : Rings lists (((t ++ s) ++ seg) :: F) := by
    refine Rings.rotate (s := seg) (t := t ++ s) ?_
    have := h.rotate
    simpa using this
  have hclosed : Linkage _ _ [seg] ((s ++ t) :: F) :=
    ((Linkage.split hrot.uncycle).close hprev hnext).rotate
  have hlast := (hclosed.cycle _ List.mem_cons_self).rotate
  have hback : (s ++ t).getLast?
      = some ((link lists (lists.prev first) (lists.next last)).prev head) := by
    obtain ⟨u, rfl⟩ := List.head?_eq_some_iff.mp hs
    exact Cycle.prev_first (hclosed.cycle _ List.mem_cons_self)
  have hjoin := (hclosed.uncycle.join hback hf).close (a := last) (b := head)
    (by rw [List.getLast?_append_of_ne_nil _ hseg, hl])
    (by rw [List.append_assoc, List.head?_append, hs]; rfl)
  rw [List.append_assoc] at hjoin
  exact hjoin

/-- Three links cut a ring in two. -/
theorem cut_rings {e : α} (h : Rings lists ((head :: (s ++ t)) :: F))
    (hlist : list ∉ ((head :: (s ++ t)) :: F).flatten) (hf : s.head? = some first)
    (he : s.getLast? = some e) (hn : (t ++ [head]).head? = some n) :
    Rings (link (link (link lists list first) e list) head n)
      ((head :: t) :: (list :: s) :: F) := by
  have hrot : Rings lists ((s ++ (t ++ [head])) :: F) := by
    have := Rings.rotate (s := [head]) (t := s ++ t) h
    simpa using this
  have hfresh := (Linkage.split hrot.uncycle).fresh (x := list) (by
    simp only [List.flatten_cons, List.mem_append, List.mem_cons, List.flatten_nil,
      List.append_nil] at hlist ⊢
    tauto)
  have hcut := ((hfresh.join rfl hf).close (a := e) (b := list) (by
    rw [List.getLast?_append, he]; rfl) rfl).close (a := head) List.getLast?_concat hn
  exact Rings.rotate (s := t) (t := [head]) hcut

theorem listCutAt_eq : listCutAt lists list head entry
    = link (link (link lists list (lists.next head)) entry list) head (lists.next entry) := by
  simp [listCutAt, setNext, setPrev, link]

/-- `__list_cut_position`: the entries up to `entry` go to `list`. -/
theorem listCutAt_rings (h : Rings lists ((head :: (s ++ t)) :: F))
    (hlist : list ∉ ((head :: (s ++ t)) :: F).flatten) (he : s.getLast? = some entry) :
    Rings (listCutAt lists list head entry) ((head :: t) :: (list :: s) :: F) := by
  have hns : s ≠ [] := by
    rintro rfl
    cases he
  rw [listCutAt_eq]
  refine cut_rings h hlist ?_ he ?_
  · have := h.ring.next_first
    rwa [List.append_assoc, List.head?_append_of_ne_nil _ hns] at this
  · have hcut : Rings lists (((head :: s) ++ t) :: F) := h
    have := hcut.next_last (by rw [List.getLast?_cons_of_ne_nil hns, he])
    simpa [List.head?_append] using this

theorem listCutBefore_eq (hne : lists.next head ≠ entry) :
    listCutBefore lists list head entry
      = link (link (link lists list (lists.next head)) (lists.prev entry) list) head entry := by
  simp [listCutBefore, setNext, setPrev, link, hne, Function.update_of_ne hne.symm]

/-- `list_cut_before`: the entries in front of `entry` go to `list`. -/
theorem listCutBefore_rings (h : Rings lists ((head :: (s ++ t)) :: F))
    (hlist : list ∉ ((head :: (s ++ t)) :: F).flatten) (hns : s ≠ [])
    (he : (t ++ [head]).head? = some entry) :
    Rings (listCutBefore lists list head entry) ((head :: t) :: (list :: s) :: F) := by
  have hnext : s.head? = some (lists.next head) := by
    have := h.ring.next_first
    rwa [List.append_assoc, List.head?_append_of_ne_nil _ hns] at this
  have hne : lists.next head ≠ entry := by
    have hn := h.nodup
    have hm := List.mem_of_mem_head? hnext
    have hm' := List.mem_of_mem_head? he
    simp only [List.flatten_cons] at hn
    grind
  have hprev : s.getLast? = some (lists.prev entry) := by
    have hrot : Rings lists ((s ++ (t ++ [head])) :: F) := by
      have := Rings.rotate (s := [head]) (t := s ++ t) h
      simpa using this
    have := hrot.prev_first he
    rwa [List.getLast?_append_of_ne_nil _ hns] at this
  rw [listCutBefore_eq hne]
  exact cut_rings h hlist hnext hprev he

/-- `__list_splice` between the last and the first node of a ring. -/
theorem listSpliceBetween_rings (h : Rings lists ((list :: s) :: c :: F)) (hns : s ≠ [])
    (hp : c.getLast? = some p) (hn : c.head? = some n) :
    Rings (listSpliceBetween lists list p n) ((c ++ s) :: F) := by
  have hfirst := h.ring.next_first
  have hlast := h.ring.prev_first
  rw [List.head?_append_of_ne_nil _ hns] at hfirst
  rw [List.getLast?_cons_of_ne_nil hns] at hlast
  have hsplice : listSpliceBetween lists list p n
      = link (link lists p (lists.next list)) (lists.prev list) n := rfl
  rw [hsplice]
  exact (h.behind.uncycle.join hp hfirst).close
    (by rw [List.getLast?_append_of_ne_nil _ hns, hlast]) (by rw [List.head?_append, hn]; rfl)

-- ── `list_swap` ──────────────────────────────────────────────────────────────

variable [ListPoison α] {entry1 entry2 : α}

/-- `list_swap` of two nodes of a ring; they may be neighbours, either way. -/
theorem listSwap_rings (h : Rings lists ((entry1 :: (s ++ entry2 :: t)) :: F)) :
    Rings (listSwap lists entry1 entry2) ((entry2 :: (s ++ entry1 :: t)) :: F) := by
  have hcut : Rings lists (((entry1 :: s) ++ entry2 :: t) :: F) := h
  have hn := h.nodup
  simp only [List.flatten_cons] at hn
  have hpos : (entry1 :: s).getLast? = some (lists.prev entry2) := by
    have := hcut.prev_first (t := entry2 :: t) rfl
    rwa [List.getLast?_append_of_ne_nil _ (List.cons_ne_nil _ _)] at this
  have hdel : Rings (listDel lists entry2) ((entry1 :: (s ++ t)) :: F) :=
    listDel_rings hcut (List.append_ne_nil_of_right_ne_nil t (List.cons_ne_nil _ _))
  have hrep : Rings (listReplace (listDel lists entry2) entry1 entry2)
      (((entry2 :: s) ++ t) :: F) := by
    refine listReplace_rings (s := []) (t := s ++ t) hdel ?_
    simp only [List.flatten_cons]
    grind
  refine listAdd_rings (s := entry2 :: s) (t := t) hrep ?_ ?_
  · simp only [List.flatten_cons]
    grind
  · -- with nothing in between, the first entry's place is where the second one is now
    cases s with
    | nil =>
        have heq : entry1 = lists.prev entry2 := Option.some.inj hpos
        rw [if_pos heq.symm]
        rfl
    | cons a s =>
        rw [List.getLast?_cons_cons] at hpos ⊢
        have hne : lists.prev entry2 ≠ entry1 := by
          have hm := List.mem_of_getLast? hpos
          grind
        rw [if_neg hne, hpos]

/-- `list_swap` of nodes of two rings. -/
theorem listSwap_rings_other (h : Rings lists ((entry1 :: s) :: (entry2 :: t) :: F))
    (hne : t ≠ []) :
    Rings (listSwap lists entry1 entry2) ((entry2 :: s) :: (entry1 :: t) :: F) := by
  have hn := h.nodup
  simp only [List.flatten_cons] at hn
  have hpos : t.getLast? = some (lists.prev entry2) := by
    have := h.swap.ring.prev_first
    rwa [List.getLast?_cons_of_ne_nil hne] at this
  have hdel : Rings (listDel lists entry2) (t :: (entry1 :: s) :: F) :=
    listDel_rings (s := []) h.swap (by simpa using hne)
  have hfresh : entry2 ∉ (([] ++ entry1 :: s) :: t :: F).flatten := by
    simp only [List.flatten_cons]
    grind
  have hrep := (listReplace_rings (s := []) (t := s) hdel.swap hfresh).swap
  have hpos' : lists.prev entry2 ≠ entry1 := by
    have hm := List.mem_of_getLast? hpos
    grind
  have hfresh' : entry1 ∉ ((t ++ []) :: ([] ++ entry2 :: s) :: F).flatten := by
    simp only [List.flatten_cons]
    grind
  have hadd := listAdd_rings (s := t) (t := []) (by simpa using hrep) hfresh' hpos
  have hswap : listSwap lists entry1 entry2
      = listAdd (listReplace (listDel lists entry2) entry1 entry2) entry1 (lists.prev entry2) := by
    rw [listSwap, if_neg hpos']
  rw [hswap]
  exact (Rings.rotate (s := t) (t := [entry1]) hadd).swap

omit [ListPoison α] in
theorem map_swap_eq_self (h₁ : entry1 ∉ c) (h₂ : entry2 ∉ c) :
    c.map (Equiv.swap entry1 entry2) = c := by
  have hkeep : ∀ y ∈ c, Equiv.swap entry1 entry2 y = y := by
    intro y hy
    refine Equiv.swap_apply_of_ne_of_ne ?_ ?_
    · rintro rfl
      exact h₁ hy
    · rintro rfl
      exact h₂ hy
  rw [List.map_congr_left hkeep, List.map_id']

/-- Wherever on a ring two nodes are, `list_swap` exchanges them. -/
theorem listSwap_ring_map (h : Rings lists (c :: F)) (h₁ : entry1 ∈ c) (h₂ : entry2 ∈ c)
    (hne : entry1 ≠ entry2) :
    Rings (listSwap lists entry1 entry2) (c.map (Equiv.swap entry1 entry2) :: F) := by
  obtain ⟨a, b, rfl⟩ := List.append_of_mem h₁
  have hrot : Rings lists ((entry1 :: (b ++ a)) :: F) := h.rotate
  have hm : entry2 ∈ b ++ a := by
    simp only [List.mem_append, List.mem_cons] at h₂ ⊢
    tauto
  obtain ⟨u, v, huv⟩ := List.append_of_mem hm
  have hnd := hrot.nodup
  rw [List.flatten_cons] at hnd
  have hmap : (b ++ a).map (Equiv.swap entry1 entry2) = u ++ entry1 :: v := by
    rw [huv] at hnd ⊢
    rw [List.map_append, List.map_cons, Equiv.swap_apply_right,
      map_swap_eq_self (c := u) (by grind) (by grind),
      map_swap_eq_self (c := v) (by grind) (by grind)]
  have hswap := listSwap_rings (s := u) (t := v) (by rw [← huv]; exact hrot)
  rw [List.map_append, List.map_cons, Equiv.swap_apply_left]
  refine Rings.rotate (s := entry2 :: b.map (Equiv.swap entry1 entry2)) ?_
  rw [List.cons_append, ← List.map_append, hmap]
  exact hswap

/-- Wherever on two rings two nodes are, `list_swap` exchanges them, if the
    second one is not alone. -/
theorem listSwap_rings_map {d : List α} (h : Rings lists (c :: d :: F)) (h₁ : entry1 ∈ c)
    (h₂ : entry2 ∈ d) (hd : d ≠ [entry2]) :
    Rings (listSwap lists entry1 entry2)
      (c.map (Equiv.swap entry1 entry2) :: d.map (Equiv.swap entry1 entry2) :: F) := by
  obtain ⟨a, b, rfl⟩ := List.append_of_mem h₁
  obtain ⟨u, v, rfl⟩ := List.append_of_mem h₂
  have hrot : Rings lists ((entry1 :: (b ++ a)) :: (entry2 :: (v ++ u)) :: F) := by
    have hfirst : Rings lists ((entry1 :: (b ++ a)) :: (u ++ entry2 :: v) :: F) := h.rotate
    exact (Rings.rotate (t := entry2 :: v) hfirst.swap).swap
  have hvu : v ++ u ≠ [] := by
    rintro hnil
    obtain ⟨rfl, rfl⟩ := List.append_eq_nil_iff.mp hnil
    exact hd rfl
  have hnd := hrot.nodup
  simp only [List.flatten_cons] at hnd
  have hswap := listSwap_rings_other hrot hvu
  have hback : Rings (listSwap lists entry1 entry2)
      ((a ++ entry2 :: b) :: (u ++ entry1 :: v) :: F) := by
    have hfirst := Rings.rotate (s := entry2 :: b) (t := a) hswap
    exact (Rings.rotate (s := entry1 :: v) (t := u) hfirst.swap).swap
  simp only [List.map_append, List.map_cons, Equiv.swap_apply_left, Equiv.swap_apply_right]
  rw [map_swap_eq_self (c := a) (by grind) (by grind), map_swap_eq_self (c := b) (by grind)
    (by grind), map_swap_eq_self (c := u) (by grind) (by grind),
    map_swap_eq_self (c := v) (by grind) (by grind)]
  exact hback

omit [ListPoison α] in
theorem map_map_swap_eq_self (h₁ : ∀ r ∈ F, entry1 ∉ r) (h₂ : ∀ r ∈ F, entry2 ∉ r) :
    F.map (List.map (Equiv.swap entry1 entry2)) = F := by
  rw [List.map_congr_left fun r hr => map_swap_eq_self (h₁ r hr) (h₂ r hr), List.map_id']

/-- **LIST_SWAP**: two nodes change places, on one ring or on two, and every
    other ring stays. -/
theorem listSwap_family {d : List α} (h : Rings lists F) (hc : c ∈ F) (hd : d ∈ F)
    (h₁ : entry1 ∈ c) (h₂ : entry2 ∈ d) (hne : entry1 ≠ entry2) (halone : d ≠ [entry2]) :
    Rings (listSwap lists entry1 entry2) (F.map (List.map (Equiv.swap entry1 entry2))) := by
  have hperm := List.perm_cons_erase hc
  have hfront := h.perm hperm
  refine Rings.perm ?_ (hperm.map _).symm
  rw [List.map_cons]
  by_cases hdc : d = c
  · subst hdc
    rw [map_map_swap_eq_self (Linkage.not_mem_cycles hfront h₁)
      (Linkage.not_mem_cycles hfront h₂)]
    exact listSwap_ring_map hfront h₁ h₂ hne
  · have hperm' := List.perm_cons_erase ((List.mem_erase_of_ne hdc).mpr hd)
    have hfront' := hfront.perm (hperm'.cons c)
    refine Rings.perm ?_ ((hperm'.map _).cons _).symm
    rw [List.map_cons, map_map_swap_eq_self (Linkage.not_mem_cycles hfront'.swap.drop h₁)
      (Linkage.not_mem_cycles hfront'.drop h₂)]
    exact listSwap_rings_map hfront' h₁ h₂ halone

end Operations

end ListHead
