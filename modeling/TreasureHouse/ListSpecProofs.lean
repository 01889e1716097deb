import Mathlib.Data.List.Rotate
import Mathlib.Logic.Equiv.Basic
import TreasureHouse.ListHeadProofs

/-! # `container/list.h` — what the operations are for

    It can be said without links: there are heads, each with the list of its
    entries, and a call changes a list or two (`listSpec`).  The calls are those
    the comments of the source allow: an entry is on a list, a new node is on
    none.  `Holds lists F` says that the links hold the lists of `F`, and the
    lemmas here, one or two for each kind of call, that the links hold the
    lists that the call is for once it is made. -/

namespace ListHead

open LinkCycle WaitQueue

variable {α : Type}

-- ── Lists and rings ──────────────────────────────────────────────────────────

/-- The heads, each with its entries in order. -/
abbrev Heads (α : Type) : Type := List (α × List α)

/-- The links hold the lists of these heads. -/
def Holds (lists : Links α) (F : Heads α) : Prop := Rings lists (F.map fun c => c.1 :: c.2)

/-- `x` is on none of the lists. -/
def Off (F : Heads α) (x : α) : Prop := x ∉ (F.map fun c => c.1 :: c.2).flatten

section Held

variable {lists : Links α} {F G : Heads α} {c : α × List α} {l m : List α}
  {head list x : α}

theorem Holds.perm (h : Holds lists F) (hp : F.Perm G) : Holds lists G :=
  Rings.perm h (hp.map _)

theorem Off.perm (h : Off F x) (hp : F.Perm G) : Off G x := fun hx =>
  h (((hp.map _).flatten).mem_iff.mpr hx)

theorem Holds.tail (h : Holds lists (c :: F)) : Holds lists F := Rings.drop h

theorem Holds.off (h : Holds lists (c :: F)) (hx : x ∈ c.1 :: c.2) : Off F x := by
  intro hx'
  obtain ⟨r, hr, hxr⟩ := List.mem_flatten.mp hx'
  exact Linkage.not_mem_cycles h hx r hr hxr

theorem off_cons : Off (c :: F) x ↔ x ∉ c.1 :: c.2 ∧ Off F x := by
  simp only [Off, List.map_cons, List.flatten_cons, List.mem_append, not_or]

theorem Holds.head_not_mem (h : Holds lists ((head, l) :: F)) : head ∉ l ∧ l.Nodup := by
  have hnd := Rings.nodup h
  simp only [List.map_cons, List.flatten_cons] at hnd
  exact List.nodup_cons.mp hnd.of_append_left

theorem Holds.next_head (h : Holds lists ((head, l) :: F)) :
    (l ++ [head]).head? = some (lists.next head) :=
  (Rings.ring h).next_first

/-- What comes behind an entry. -/
theorem Holds.next_entry {s t : List α} (h : Holds lists ((head, s ++ x :: t) :: F)) :
    (t ++ [head]).head? = some (lists.next x) := by
  have hring : Rings lists (((head :: (s ++ [x])) ++ t) :: F.map fun c => c.1 :: c.2) := by
    simpa [Holds] using h
  have hnext := hring.next_last (by rw [← List.cons_append]; exact List.getLast?_concat)
  cases t with
  | nil => exact hnext
  | cons b t => exact hnext

theorem Holds.prev_head (h : Holds lists ((head, l) :: F)) :
    (head :: l).getLast? = some (lists.prev head) :=
  (Rings.ring h).prev_first

theorem next_head_eq_iff (h : Holds lists ((head, l) :: F)) : lists.next head = head ↔ l = [] := by
  have hnext := h.next_head
  cases l with
  | nil => exact iff_of_true (Option.some.inj hnext).symm rfl
  | cons a l =>
      refine iff_of_false ?_ (List.cons_ne_nil a l)
      rw [← Option.some.inj hnext]
      rintro rfl
      exact h.head_not_mem.1 List.mem_cons_self

/-- Two lists joined do not hold the other head. -/
theorem Holds.list_off (h : Holds lists ((list, l) :: (head, m) :: F)) :
    Off ((head, l ++ m) :: F) list ∧ Off ((head, m ++ l) :: F) list := by
  have hnot := h.head_not_mem.1
  have hoff := off_cons.mp (h.off List.mem_cons_self)
  simp only [off_cons, List.mem_cons, List.mem_append] at hoff ⊢
  tauto

end Held

variable [DecidableEq α]

-- ── What the calls are for ───────────────────────────────────────────────────

/-- The entries in front of `x`. -/
def before (x : α) (l : List α) : List α := l.take (l.idxOf x)

/-- The entries behind `x`. -/
def behind (x : α) (l : List α) : List α := l.drop (l.idxOf x + 1)

/-- The list that `x` is on, as its head or as an entry. -/
def listOf (F : Heads α) (x : α) : Option (α × List α) :=
  F.find? fun c => decide (x ∈ c.1 :: c.2)

/-- `x` is on no list, or is the head of an empty one. -/
def Spare (F : Heads α) (x : α) : Prop := listOf F x = none ∨ listOf F x = some (x, [])

instance (F : Heads α) (x : α) : Decidable (Spare F x) := inferInstanceAs (Decidable (_ ∨ _))

/-- `new` comes behind `x`. -/
def addBehind (x new : α) (c : α × List α) : α × List α :=
  if x = c.1 then (c.1, new :: c.2) else (c.1, before x c.2 ++ x :: new :: behind x c.2)

/-- `new` comes in front of `x`, or at the end if that is the head. -/
def addBefore (x new : α) (c : α × List α) : α × List α :=
  if x = c.1 then (c.1, c.2 ++ [new]) else (c.1, before x c.2 ++ new :: x :: behind x c.2)

/-- The head and the entries under another name for `old`. -/
def rename (old new : α) (c : α × List α) : α × List α :=
  let name := fun x => if x = old then new else x
  (name c.1, c.2.map name)

/-- The calls. -/
inductive Call (α : Type) where
  | initListHead (list : α)
  | listAdd (new head : α)
  | listAddTail (new head : α)
  | listDel (entry : α)
  | listDelInit (entry : α)
  | listDelInitCareful (entry : α)
  | listReplace (old new : α)
  | listReplaceInit (old new : α)
  | listSwap (entry1 entry2 : α)
  | listMove (list head : α)
  | listMoveTail (list head : α)
  | listBulkMoveTail (head first last : α)
  | listRotateLeft (head : α)
  | listRotateToFront (list head : α)
  | listCutPosition (list head entry : α)
  | listCutBefore (list head entry : α)
  | listSplice (list head : α)
  | listSpliceTail (list head : α)
  | listSpliceInit (list head : α)
  | listSpliceTailInit (list head : α)

/-- The call as it is made, on the links. -/
def listApply [ListPoison α] (lists : Links α) : Call α → Links α
  | .initListHead list => WaitQueue.initListHead lists list
  | .listAdd new head => WaitQueue.listAdd lists new head
  | .listAddTail new head => WaitQueue.listAddTail lists new head
  | .listDel entry => ListHead.listDel lists entry
  | .listDelInit entry => WaitQueue.listDelInit lists entry
  | .listDelInitCareful entry => ListHead.listDelInitCareful lists entry
  | .listReplace old new => ListHead.listReplace lists old new
  | .listReplaceInit old new => ListHead.listReplaceInit lists old new
  | .listSwap entry1 entry2 => ListHead.listSwap lists entry1 entry2
  | .listMove list head => ListHead.listMove lists list head
  | .listMoveTail list head => ListHead.listMoveTail lists list head
  | .listBulkMoveTail head first last => ListHead.listBulkMoveTail lists head first last
  | .listRotateLeft head => ListHead.listRotateLeft lists head
  | .listRotateToFront list head => ListHead.listRotateToFront lists list head
  | .listCutPosition list head entry => ListHead.listCutPosition lists list head entry
  | .listCutBefore list head entry => ListHead.listCutBefore lists list head entry
  | .listSplice list head => ListHead.listSplice lists list head
  | .listSpliceTail list head => ListHead.listSpliceTail lists list head
  | .listSpliceInit list head => ListHead.listSpliceInit lists list head
  | .listSpliceTailInit list head => ListHead.listSpliceTailInit lists list head

/-- A new node is spare; what it was the head of is forgotten. -/
def takeSpare (F : Heads α) (new : α) : Option (Heads α) :=
  if Spare F new then some (F.erase (new, [])) else none

/-- Some change to the list that `x` is on. -/
def onListOf (F : Heads α) (x : α) (f : α × List α → α × List α) : Option (Heads α) :=
  (listOf F x).map fun c => f c :: F.erase c

/-- An entry leaves its list. -/
def takeEntry (F : Heads α) (entry : α) : Option (Heads α) :=
  (listOf F entry).bind fun c =>
    if entry = c.1 then none
    else some ((c.1, before entry c.2 ++ behind entry c.2) :: F.erase c)

/-- The entries of `head`, and the other lists. -/
def takeHead (F : Heads α) (head : α) : Option (List α × Heads α) :=
  (listOf F head).bind fun c => if head = c.1 then some (c.2, F.erase c) else none

/-- The lists without the one of `list`, which may not be an entry. -/
def giveUp (F : Heads α) (list : α) : Option (Heads α) :=
  match listOf F list with
  | none => some F
  | some c => if list = c.1 then some (F.erase c) else none

/-- The entries of `list` and of `head`, and the other lists. -/
def takeHeads (F : Heads α) (list head : α) : Option (List α × List α × Heads α) := do
  let (l, F) ← takeHead F list
  let (m, F) ← takeHead F head
  some (l, m, F)

/-- What a call is for, as far as the lists go. -/
def listSpec (F : Heads α) : Call α → Option (Heads α)
  | .initListHead list => if listOf F list = none then some ((list, []) :: F) else none
  | .listAdd new head => do
      let F ← takeSpare F new
      onListOf F head (addBehind head new)
  | .listAddTail new head => do
      let F ← takeSpare F new
      onListOf F head (addBefore head new)
  | .listDel entry => takeEntry F entry
  | .listDelInit entry => (takeEntry F entry).map fun F => (entry, []) :: F
  | .listDelInitCareful entry => (takeEntry F entry).map fun F => (entry, []) :: F
  | .listReplace old new => do
      let F ← takeSpare F new
      onListOf F old (rename old new)
  | .listReplaceInit old new => do
      let F ← takeSpare F new
      let F ← onListOf F old (rename old new)
      some ((old, []) :: F)
  | .listSwap entry1 entry2 =>
      if entry1 ≠ entry2 ∧ (takeEntry F entry1).isSome ∧ (takeEntry F entry2).isSome then
        some (F.map fun c => (c.1, c.2.map (Equiv.swap entry1 entry2)))
      else none
  | .listMove list head => do
      let F ← takeEntry F list
      onListOf F head (addBehind head list)
  | .listMoveTail list head => do
      let F ← takeEntry F list
      onListOf F head (addBefore head list)
  | .listBulkMoveTail head first last => do
      let (l, F) ← takeHead F head
      let rest := first :: behind first l
      if first ∈ l ∧ last ∈ rest then
        some ((head, before first l ++ (behind last rest ++ (before last rest ++ [last]))) :: F)
      else none
  | .listRotateLeft head => do
      let (l, F) ← takeHead F head
      some ((head, l.rotate 1) :: F)
  | .listRotateToFront list head => do
      let (l, F) ← takeHead F head
      if list ∈ l then some ((head, l.rotate (l.idxOf list)) :: F) else none
  | .listCutPosition list head entry => do
      let G ← giveUp F list
      let (l, G) ← takeHead G head
      if entry ∉ head :: l then none
      else if l = [] then some F
      else if entry = head then some ((list, []) :: (head, l) :: G)
      else some ((list, before entry l ++ [entry]) :: (head, behind entry l) :: G)
  | .listCutBefore list head entry => do
      let G ← giveUp F list
      let (l, G) ← takeHead G head
      if entry = head then some ((list, l) :: (head, []) :: G)
      else if entry ∈ l then
        some ((list, before entry l) :: (head, entry :: behind entry l) :: G)
      else none
  | .listSplice list head => do
      let (l, m, G) ← takeHeads F list head
      if l = [] then some F else some ((head, l ++ m) :: G)
  | .listSpliceTail list head => do
      let (l, m, G) ← takeHeads F list head
      if l = [] then some F else some ((head, m ++ l) :: G)
  | .listSpliceInit list head => do
      let (l, m, G) ← takeHeads F list head
      some ((list, []) :: (head, l ++ m) :: G)
  | .listSpliceTailInit list head => do
      let (l, m, G) ← takeHeads F list head
      some ((list, []) :: (head, m ++ l) :: G)

-- ── One call ─────────────────────────────────────────────────────────────────

section Lists

variable {lists : Links α} {F G : Heads α} {c : α × List α} {l m : List α}
  {x new old head list entry first last : α}

/-- An entry splits its list. -/
theorem before_behind (hx : x ∈ l) : before x l ++ x :: behind x l = l := by
  have hlt : l.idxOf x < l.length := List.idxOf_lt_length_of_mem hx
  have hdrop : l.drop (l.idxOf x) = x :: behind x l := by
    rw [List.drop_eq_getElem_cons hlt, List.getElem_idxOf hlt, behind]
  rw [before, ← hdrop, List.take_append_drop]

theorem listOf_some (h : listOf F x = some c) : c ∈ F ∧ x ∈ c.1 :: c.2 := by
  have htest := List.find?_some h
  exact ⟨List.mem_of_find?_eq_some h, of_decide_eq_true htest⟩

theorem listOf_none (h : listOf F x = none) : Off F x := by
  intro hx
  obtain ⟨r, hr, hxr⟩ := List.mem_flatten.mp hx
  obtain ⟨c, hc, rfl⟩ := List.mem_map.mp hr
  exact List.find?_eq_none.mp h c hc (decide_eq_true hxr)

/-- The list of a node, with the others. -/
theorem Holds.front (h : Holds lists F) (hx : listOf F x = some c) : Holds lists (c :: F.erase c) :=
  h.perm (List.perm_cons_erase (listOf_some hx).1)

/-- A spare node is on no list that counts. -/
theorem takeSpare_holds (h : Holds lists F) (ht : takeSpare F new = some G) :
    Holds lists G ∧ Off G new := by
  rw [takeSpare, Option.ite_none_right_eq_some] at ht
  obtain ⟨hspare, hG⟩ := ht
  cases hG
  rcases hspare with hnone | hsome
  · have hoff := listOf_none hnone
    have hnot : (new, []) ∉ F := fun hmem =>
      hoff (List.mem_flatten.mpr ⟨[new], List.mem_map.mpr ⟨_, hmem, rfl⟩, List.mem_cons_self⟩)
    rw [List.erase_of_not_mem hnot]
    exact ⟨h, hoff⟩
  · have hfront := h.front hsome
    exact ⟨hfront.tail, hfront.off List.mem_cons_self⟩

/-- The list given up is held no more. -/
theorem giveUp_holds (h : Holds lists F) (hg : giveUp F list = some G) :
    Holds lists G ∧ Off G list := by
  rw [giveUp] at hg
  cases hof : listOf F list with
  | none =>
      rw [hof] at hg
      cases hg
      exact ⟨h, listOf_none hof⟩
  | some c =>
      rw [hof] at hg
      simp only [Option.ite_none_right_eq_some, Option.some.injEq] at hg
      obtain ⟨rfl, rfl⟩ := hg
      exact ⟨(h.front hof).tail, (h.front hof).off List.mem_cons_self⟩

theorem takeHead_perm (ht : takeHead F head = some (l, G)) : F.Perm ((head, l) :: G) := by
  rw [takeHead, Option.bind_eq_some_iff] at ht
  obtain ⟨c, hof, hc⟩ := ht
  rw [Option.ite_none_right_eq_some] at hc
  obtain ⟨rfl, heq⟩ := hc
  cases heq
  exact List.perm_cons_erase (listOf_some hof).1

theorem takeHeads_perm (ht : takeHeads F list head = some (l, m, G)) :
    F.Perm ((list, l) :: (head, m) :: G) := by
  simp only [takeHeads, Option.bind_eq_bind, Option.bind_eq_some_iff, Option.some.injEq,
    Prod.exists, Prod.mk.injEq] at ht
  obtain ⟨l', G', hl, m', G'', hm, rfl, rfl, rfl⟩ := ht
  exact (takeHead_perm hl).trans ((takeHead_perm hm).cons _)

/-- An entry that leaves its list is on none. -/
theorem takeEntry_holds (h : Holds lists F) (ht : takeEntry F entry = some G) :
    Holds (listDelEntry lists entry) G ∧ Off G entry := by
  rw [takeEntry, Option.bind_eq_some_iff] at ht
  obtain ⟨c, hof, hc⟩ := ht
  rw [Option.ite_none_left_eq_some] at hc
  obtain ⟨hne, heq⟩ := hc
  cases heq
  have hmem : entry ∈ c.2 := (List.mem_cons.mp (listOf_some hof).2).resolve_left hne
  have hring : Rings lists (((c.1 :: before entry c.2) ++ entry :: behind entry c.2)
      :: (F.erase c).map fun c => c.1 :: c.2) := by
    rw [List.cons_append, before_behind hmem]
    exact h.front hof
  exact ⟨listDelEntry_rings hring (List.append_ne_nil_of_right_ne_nil _ (List.cons_ne_nil _ _)),
    hring.not_mem⟩

theorem addBehind_holds (h : Holds lists F) (hnew : Off F new)
    (ht : onListOf F x (addBehind x new) = some G) : Holds (listAdd lists new x) G := by
  rw [onListOf, Option.map_eq_some_iff] at ht
  obtain ⟨c, hof, rfl⟩ := ht
  have hfront := h.front hof
  have hoff : Off (c :: F.erase c) new := hnew.perm (List.perm_cons_erase (listOf_some hof).1)
  rw [addBehind]
  by_cases hx : x = c.1
  · subst hx
    rw [if_pos rfl]
    exact listAdd_rings (s := [c.1]) (t := c.2) hfront hoff rfl
  · rw [if_neg hx]
    have hmem : x ∈ c.2 := (List.mem_cons.mp (listOf_some hof).2).resolve_left hx
    have hsplit : c.1 :: c.2 = (c.1 :: (before x c.2 ++ [x])) ++ behind x c.2 := by
      rw [List.cons_append, List.append_assoc]
      exact congrArg _ (before_behind hmem).symm
    have hadd := listAdd_rings (s := c.1 :: (before x c.2 ++ [x])) (t := behind x c.2)
      (by rw [← hsplit]; exact hfront) (by rw [← hsplit]; exact hoff)
      (by rw [← List.cons_append]; exact List.getLast?_concat)
    simpa [Holds] using hadd

theorem addBefore_holds (h : Holds lists F) (hnew : Off F new)
    (ht : onListOf F x (addBefore x new) = some G) : Holds (listAddTail lists new x) G := by
  rw [onListOf, Option.map_eq_some_iff] at ht
  obtain ⟨c, hof, rfl⟩ := ht
  have hfront := h.front hof
  have hoff : Off (c :: F.erase c) new := hnew.perm (List.perm_cons_erase (listOf_some hof).1)
  rw [addBefore]
  by_cases hx : x = c.1
  · subst hx
    rw [if_pos rfl]
    have hadd := listAddTail_rings (s := []) (t := c.1 :: c.2) hfront hoff rfl
    exact Rings.rotate (s := [new]) (t := c.1 :: c.2) hadd
  · rw [if_neg hx]
    have hmem : x ∈ c.2 := (List.mem_cons.mp (listOf_some hof).2).resolve_left hx
    have hsplit : c.1 :: c.2 = (c.1 :: before x c.2) ++ x :: behind x c.2 := by
      rw [List.cons_append, before_behind hmem]
    exact listAddTail_rings (s := c.1 :: before x c.2) (t := x :: behind x c.2)
      (by rw [← hsplit]; exact hfront) (by rw [← hsplit]; exact hoff) rfl

/-- The new node takes the name of the old one, which is on no list then. -/
theorem rename_holds (h : Holds lists F) (hnew : Off F new)
    (ht : onListOf F old (rename old new) = some G) :
    Holds (listReplace lists old new) G ∧ Off G old := by
  rw [onListOf, Option.map_eq_some_iff] at ht
  obtain ⟨c, hof, rfl⟩ := ht
  have hfront := h.front hof
  have hoff : Off (c :: F.erase c) new := hnew.perm (List.perm_cons_erase (listOf_some hof).1)
  have hold : Off (F.erase c) old := hfront.off (listOf_some hof).2
  obtain ⟨s, t, hst⟩ := List.append_of_mem (listOf_some hof).2
  have hring : Rings lists ((s ++ old :: t) :: (F.erase c).map fun c => c.1 :: c.2) := by
    rw [← hst]
    exact hfront
  have hnot : old ∉ s ++ t := fun hm => hring.not_mem (List.mem_append_left _ hm)
  rw [List.mem_append, not_or] at hnot
  have hnn : old ≠ new := by
    rintro rfl
    exact hoff (List.mem_append_left _ (listOf_some hof).2)
  have hname : (rename old new c).1 :: (rename old new c).2 = s ++ new :: t := by
    have hkeep : ∀ r : List α, old ∉ r → (r.map fun x => if x = old then new else x) = r := by
      intro r hr
      have hself : ∀ y ∈ r, (if y = old then new else y) = y := by
        intro y hy
        refine if_neg ?_
        rintro rfl
        exact hr hy
      rw [List.map_congr_left hself, List.map_id']
    have hmap : (rename old new c).1 :: (rename old new c).2
        = (c.1 :: c.2).map fun x => if x = old then new else x := rfl
    rw [hmap, hst, List.map_append, List.map_cons, hkeep s hnot.1, hkeep t hnot.2, if_pos rfl]
  constructor
  · rw [Holds, List.map_cons, hname]
    refine listReplace_rings hring ?_
    rw [← hst]
    exact hoff
  · rw [off_cons, hname]
    refine ⟨?_, hold⟩
    rw [List.mem_append, List.mem_cons]
    tauto

theorem takeEntry_mem (ht : (takeEntry F entry).isSome = true) :
    ∃ c ∈ F, entry ≠ c.1 ∧ entry ∈ c.2 := by
  obtain ⟨G, hG⟩ := Option.isSome_iff_exists.mp ht
  rw [takeEntry, Option.bind_eq_some_iff] at hG
  obtain ⟨c, hof, hc⟩ := hG
  rw [Option.ite_none_left_eq_some] at hc
  exact ⟨c, (listOf_some hof).1, hc.1,
    (List.mem_cons.mp (listOf_some hof).2).resolve_left hc.1⟩

/-- `list_swap` of two entries. -/
theorem swap_holds [ListPoison α] {e₁ e₂ : α} (h : Holds lists F) (hne : e₁ ≠ e₂)
    (h₁ : ∃ c ∈ F, e₁ ≠ c.1 ∧ e₁ ∈ c.2) (h₂ : ∃ c ∈ F, e₂ ≠ c.1 ∧ e₂ ∈ c.2) :
    Holds (listSwap lists e₁ e₂) (F.map fun c => (c.1, c.2.map (Equiv.swap e₁ e₂))) := by
  -- an entry is not the head of any list
  have hhead : ∀ e, (∃ c ∈ F, e ≠ c.1 ∧ e ∈ c.2) → ∀ d ∈ F, d.1 ≠ e := by
    rintro e ⟨c, hc, hec, hmem⟩ d hd rfl
    have hfront := h.perm (List.perm_cons_erase hc)
    have hdc : d ≠ c := by
      rintro rfl
      exact hec rfl
    refine hfront.off (List.mem_cons_of_mem _ hmem) (List.mem_flatten.mpr ⟨d.1 :: d.2, ?_,
      List.mem_cons_self⟩)
    exact List.mem_map.mpr ⟨d, (List.mem_erase_of_ne hdc).mpr hd, rfl⟩
  have hrings : (F.map fun c => (c.1, c.2.map (Equiv.swap e₁ e₂))).map (fun c => c.1 :: c.2)
      = (F.map fun c => c.1 :: c.2).map (List.map (Equiv.swap e₁ e₂)) := by
    rw [List.map_map, List.map_map]
    refine List.map_congr_left ?_
    intro c hc
    simp only [Function.comp_apply, List.map_cons]
    rw [Equiv.swap_apply_of_ne_of_ne (hhead e₁ h₁ c hc) (hhead e₂ h₂ c hc)]
  obtain ⟨c, hc, -, hm₁⟩ := h₁
  obtain ⟨d, hd, hne₂, hm₂⟩ := h₂
  rw [Holds, hrings]
  refine listSwap_family h (List.mem_map.mpr ⟨c, hc, rfl⟩) (List.mem_map.mpr ⟨d, hd, rfl⟩)
    (List.mem_cons_of_mem _ hm₁) (List.mem_cons_of_mem _ hm₂) hne ?_
  intro hone
  exact hne₂ (List.cons.inj hone).1.symm

-- ── Heads ────────────────────────────────────────────────────────────────────

theorem listEmpty_eq (h : Holds lists ((head, l) :: F)) : listEmpty lists head = decide (l = []) :=
  decide_eq_decide.mpr (next_head_eq_iff h)

/-- One entry is both the first and the last. -/
theorem listIsSingular_eq (h : Holds lists ((head, l) :: F)) :
    listIsSingular lists head = decide (l.length = 1) := by
  have hnext := h.next_head
  have hprev := h.prev_head
  have hnd := h.head_not_mem.2
  rw [listIsSingular, listEmpty_eq h]
  match l with
  | [] => rfl
  | [a] =>
      have heq : lists.next head = lists.prev head :=
        (Option.some.inj hnext).symm.trans (Option.some.inj hprev)
      simp [heq]
  | a :: b :: l =>
      have hne : lists.next head ≠ lists.prev head := by
        rw [← Option.some.inj hnext]
        rintro rfl
        rw [List.getLast?_cons_cons, List.getLast?_cons_cons] at hprev
        exact (List.nodup_cons.mp hnd).1 (List.mem_of_getLast? hprev)
      simp [hne]

theorem bulk_holds (h : Holds lists ((head, l) :: F)) (hf : first ∈ l)
    (hl : last ∈ first :: behind first l) :
    Holds (listBulkMoveTail lists head first last) ((head, before first l
      ++ (behind last (first :: behind first l)
        ++ (before last (first :: behind first l) ++ [last]))) :: F) := by
  have hcut := before_behind hl
  have hring : Rings lists (((head :: before first l)
      ++ ((before last (first :: behind first l) ++ [last])
        ++ behind last (first :: behind first l))) :: F.map fun c => c.1 :: c.2) := by
    rw [List.append_assoc, List.singleton_append, hcut, List.cons_append, before_behind hf]
    exact h
  refine listBulkMoveTail_rings hring rfl ?_ List.getLast?_concat
  have hfirst : (before last (first :: behind first l)
      ++ last :: behind last (first :: behind first l)).head? = some first := by
    rw [hcut]
    rfl
  rw [List.head?_append] at hfirst ⊢
  exact hfirst

theorem rotateLeft_holds (h : Holds lists ((head, l) :: F)) :
    Holds (listRotateLeft lists head) ((head, l.rotate 1) :: F) := by
  have hnext := h.next_head
  rw [listRotateLeft, listEmpty_eq h]
  cases l with
  | nil => exact h
  | cons a l =>
      rw [decide_eq_false (List.cons_ne_nil a l), Bool.not_false, if_pos rfl,
        ← Option.some.inj hnext, List.rotate_cons_succ, List.rotate_zero]
      have hring : Rings lists (([head] ++ a :: l) :: F.map fun c => c.1 :: c.2) := h
      have hdel := listDelEntry_rings hring (List.append_ne_nil_of_right_ne_nil l
        (List.cons_ne_nil head []))
      have hadd := listAddTail_rings (s := []) (t := head :: l) hdel hring.not_mem rfl
      exact Rings.rotate (s := [a]) (t := head :: l) hadd

theorem rotateToFront_holds (h : Holds lists ((head, l) :: F)) (hx : list ∈ l) :
    Holds (listRotateToFront lists list head) ((head, l.rotate (l.idxOf list)) :: F) := by
  have hrot : l.rotate (l.idxOf list) = list :: behind list l ++ before list l := by
    have hlen : (before list l).length = l.idxOf list :=
      List.length_take_of_le (List.idxOf_le_length ..)
    calc l.rotate (l.idxOf list)
        = (before list l ++ list :: behind list l).rotate (before list l).length := by
          rw [before_behind hx, hlen]
      _ = list :: behind list l ++ before list l := List.rotate_append_length_eq ..
  have hring : Rings lists (([] ++ head :: l) :: F.map fun c => c.1 :: c.2) := h
  have hne : l ++ [] ≠ [] := by
    rw [List.append_nil]
    exact List.ne_nil_of_mem hx
  have hdel := listDelEntry_rings hring hne
  have hnot := hring.not_mem
  rw [List.nil_append, ← before_behind hx] at hdel hnot
  have hadd := listAddTail_rings hdel hnot rfl
  rw [hrot]
  exact Rings.rotate (s := before list l) (t := head :: list :: behind list l) hadd

/-- What `list_cut_position` does to a list it cuts. -/
theorem cutPosition_holds (h : Holds lists ((head, l) :: F))
    (hlist : Off ((head, l) :: F) list) (hl : l ≠ []) (he : entry ∈ head :: l) :
    Holds (listCutPosition lists list head entry)
      (if entry = head then (list, []) :: (head, l) :: F
      else (list, before entry l ++ [entry]) :: (head, behind entry l) :: F) := by
  have hnext := h.next_head
  -- an entry of a singular list is its first one
  have hsing : ¬ (listIsSingular lists head ∧ lists.next head ≠ entry ∧ head ≠ entry) := by
    rintro ⟨hone, hne, hne'⟩
    rw [listIsSingular_eq h] at hone
    obtain ⟨a, rfl⟩ := List.length_eq_one_iff.mp (of_decide_eq_true hone)
    rcases List.mem_cons.mp he with rfl | he
    · exact hne' rfl
    · rw [List.mem_singleton.mp he] at hne
      exact hne (Option.some.inj hnext).symm
  rw [listCutPosition, listEmpty_eq h, decide_eq_false hl, if_neg Bool.false_ne_true,
    if_neg hsing]
  by_cases heh : entry = head
  · rw [if_pos heh, if_pos heh]
    exact initListHead_rings h hlist
  · rw [if_neg heh, if_neg heh]
    have hmem : entry ∈ l := (List.mem_cons.mp he).resolve_left heh
    have hsplit : (before entry l ++ [entry]) ++ behind entry l = l := by
      rw [List.append_assoc]
      exact before_behind hmem
    exact Rings.swap (listCutAt_rings (by rw [hsplit]; exact h) (by rw [hsplit]; exact hlist)
      List.getLast?_concat)

/-- What `list_cut_before` does. -/
theorem cutBefore_holds (h : Holds lists ((head, l) :: F))
    (hlist : Off ((head, l) :: F) list) (he : entry ∈ head :: l) :
    Holds (listCutBefore lists list head entry)
      (if entry = head then (list, l) :: (head, []) :: F
      else (list, before entry l) :: (head, entry :: behind entry l) :: F) := by
  have hnext := h.next_head
  -- with nothing in front of the entry, only `list` is initialised
  have hinit : lists.next head = entry →
      Holds (listCutBefore lists list head entry) ((list, []) :: (head, l) :: F) := by
    intro heq
    rw [listCutBefore, if_pos heq]
    exact initListHead_rings h hlist
  by_cases heh : entry = head
  · rw [if_pos heh]
    by_cases hl : l = []
    · rw [hl] at hinit ⊢
      exact hinit (by rw [heh, next_head_eq_iff h, hl])
    · refine Rings.swap (listCutBefore_rings (s := l) (t := []) ?_ ?_ hl ?_)
      · rw [List.append_nil]
        exact h
      · rw [List.append_nil]
        exact hlist
      · rw [heh]
        rfl
  · rw [if_neg heh]
    have hmem : entry ∈ l := (List.mem_cons.mp he).resolve_left heh
    have hsplit : before entry l ++ entry :: behind entry l = l := before_behind hmem
    by_cases hb : before entry l = []
    · rw [hb, List.nil_append] at hsplit
      rw [hb, hsplit]
      refine hinit ?_
      rw [← hsplit] at hnext
      exact (Option.some.inj hnext).symm
    · exact Rings.swap (listCutBefore_rings (by rw [hsplit]; exact h)
        (by rw [hsplit]; exact hlist) hb rfl)

/-- Where the entries of `list` go in front of those of `head`. -/
theorem spliceFront_holds (h : Holds lists ((list, l) :: (head, m) :: F)) (hl : l ≠ []) :
    Holds (listSpliceBetween lists list head (lists.next head)) ((head, l ++ m) :: F) := by
  have hhead : Holds lists ((head, m) :: F) := h.tail
  have hring : Rings lists ((list :: l) :: (m ++ [head]) :: F.map fun c => c.1 :: c.2) :=
    (Rings.rotate (s := [head]) (t := m) (Rings.swap h)).swap
  have hsplice := listSpliceBetween_rings hring hl List.getLast?_concat hhead.next_head
  rw [List.append_assoc] at hsplice
  exact Rings.rotate (s := m) (t := [head] ++ l) hsplice

/-- Where they go behind them. -/
theorem spliceBack_holds (h : Holds lists ((list, l) :: (head, m) :: F)) (hl : l ≠ []) :
    Holds (listSpliceBetween lists list (lists.prev head) head) ((head, m ++ l) :: F) := by
  have hhead : Holds lists ((head, m) :: F) := h.tail
  exact listSpliceBetween_rings h hl hhead.prev_head rfl

end Lists

end ListHead
