import TreasureHouse.ListRunProofs

/-! # `container/list.h` — laws between the operations, and safe traversal

    Some operations are others, done faster or undone.  What they leave is the
    same link by link, on every node of every list.

      • `bulk_is_moves`: `list_bulk_move_tail` is `list_move_tail` of the
        entries, one after the other.
      • `cut_splice`: `list_splice_init` takes back what `list_cut_position`
        has cut.
      • `rotate_is_lefts`: `list_rotate_to_front` is `list_rotate_left` until
        the entry is the first.

    `list_for_each_safe` reads the next entry before its body runs.  So the body
    may take the entry off the list (`safe_loop_dels`) or put it on another
    (`safe_loop_moves`), and the loop still meets every entry once. -/

namespace ListHead

open LabelledRun LinkCycle WaitQueue

variable {α : Type} [DecidableEq α] {lists lists' : Links α} {F : Heads α} {l m : List α}
  {head list entry first last x : α}

/-- Two pairs of links agree on every node of these lists. -/
def SameOn (F : Heads α) (lists lists' : Links α) : Prop :=
  ∀ x ∈ (F.map fun c => c.1 :: c.2).flatten,
    lists.next x = lists'.next x ∧ lists.prev x = lists'.prev x

omit [DecidableEq α] in
/-- Links that hold the same lists are the same on them. -/
theorem Holds.same (h : Holds lists F) (h' : Holds lists' F) : SameOn F lists lists' :=
  fun _ hx => Linkage.unique h h' hx

/-- Links for four entries and an empty list, as calls leave them. -/
theorem exists_holds : ∃ lists : Links Nat, Holds lists [(0, [1, 2, 3, 4]), (9, [])] := by
  have hstart : Reach Blank (fires listStep)
      ({ links := { next := id, prev := id }, heads := [] } : Lists Nat) := Reach.start rfl
  obtain ⟨s, hs, htest⟩ := Reach.exists_of_runList
    ([.initListHead 9, .initListHead 0, .listAddTail 2 0, .listAddTail 3 0, .listAddTail 4 0,
      .listAdd 1 0] : List (Call Nat))
    (fun s : Lists Nat => decide (s.heads = [(0, [1, 2, 3, 4]), (9, [])])) hstart
    (by decide +kernel)
  refine ⟨s.links, ?_⟩
  rw [← of_decide_eq_true htest]
  exact Run.holds s hs

-- ── `list_bulk_move_tail` ────────────────────────────────────────────────────

/-- The entries from `first` to `last`. -/
def segment (first last : α) (l : List α) : List α :=
  before last (first :: behind first l) ++ [last]

/-- `list_move_tail` of each of these entries to the end of their list. -/
def moveEach (lists : Links α) (head : α) (es : List α) : Links α :=
  es.foldl (fun lists e => listMoveTail lists e head) lists

theorem moveTail_holds {s t : List α} (h : Holds lists ((head, s ++ entry :: t) :: F)) :
    Holds (listMoveTail lists entry head) ((head, s ++ t ++ [entry]) :: F) := by
  have hring : Rings lists (((head :: s) ++ entry :: t) :: F.map fun c => c.1 :: c.2) := h
  have hdel := listDelEntry_rings hring (List.append_ne_nil_of_right_ne_nil t
    (List.cons_ne_nil head s))
  have hadd := listAddTail_rings (s := []) hdel hring.not_mem rfl
  exact Rings.rotate (s := [entry]) (t := head :: (s ++ t)) hadd

/-- Moved one by one, the entries of a segment end up behind all others. -/
theorem moveEach_holds {s : List α} : ∀ {es t : List α} {lists : Links α},
    Holds lists ((head, s ++ (es ++ t)) :: F) →
      Holds (moveEach lists head es) ((head, s ++ (t ++ es)) :: F) := by
  intro es
  induction es with
  | nil =>
      intro t lists h
      simpa [moveEach] using h
  | cons e es ih =>
      intro t lists h
      have hmove := moveTail_holds (s := s) (t := es ++ t) h
      rw [List.append_assoc, List.append_assoc] at hmove
      simpa [moveEach] using ih hmove

/-- **BULK**: `list_bulk_move_tail` leaves every link as moving the entries one
    by one does. -/
theorem bulk_is_moves (h : Holds lists ((head, l) :: F)) (hf : first ∈ l)
    (hl : last ∈ first :: behind first l) :
    SameOn ((head, l) :: F) (listBulkMoveTail lists head first last)
      (moveEach lists head (segment first last l)) := by
  have hcut : segment first last l ++ behind last (first :: behind first l)
      = first :: behind first l := by
    rw [segment, List.append_assoc]
    exact before_behind hl
  have hsplit : before first l ++ (segment first last l ++ behind last (first :: behind first l))
      = l := by
    rw [hcut]
    exact before_behind hf
  have hbulk : Holds (listBulkMoveTail lists head first last) ((head, before first l
      ++ (behind last (first :: behind first l) ++ segment first last l)) :: F) :=
    bulk_holds h hf hl
  have hmoves := moveEach_holds (s := before first l) (by rw [hsplit]; exact h)
  intro x hx
  refine hbulk.same hmoves x ?_
  -- the nodes are the same in another order
  have hmem : x ∈ before first l ++ (segment first last l
      ++ behind last (first :: behind first l)) ↔ x ∈ l := by rw [hsplit]
  simp only [List.map_cons, List.flatten_cons, List.mem_append, List.mem_cons] at hx hmem ⊢
  tauto

theorem bulk_is_moves_two : ∃ lists : Links Nat, SameOn [(0, [1, 2, 3, 4]), (9, [])]
    (listBulkMoveTail lists 0 2 3) (moveEach lists 0 [2, 3]) := by
  obtain ⟨lists, h⟩ := exists_holds
  exact ⟨lists, bulk_is_moves h (by decide) (by decide)⟩

-- ── `list_cut_position` and `list_splice_init` ───────────────────────────────

/-- **CUT, THEN SPLICE**: every link of every list is as it was, and `list` is an
    empty list. -/
theorem cut_splice (h : Holds lists ((head, l) :: F)) (hlist : Off ((head, l) :: F) list)
    (hl : l ≠ []) (he : entry ∈ head :: l) :
    SameOn ((head, l) :: F) lists
        (listSpliceInit (listCutPosition lists list head entry) list head)
      ∧ listEmpty (listSpliceInit (listCutPosition lists list head entry) list head) list
        = true := by
  have hcut := cutPosition_holds h hlist hl he
  by_cases heh : entry = head
  · rw [if_pos heh] at hcut
    have hempty := listEmpty_eq hcut
    rw [listSpliceInit, hempty]
    exact ⟨h.same hcut.tail, hempty⟩
  · rw [if_neg heh] at hcut
    have hmem : entry ∈ l := (List.mem_cons.mp he).resolve_left heh
    have hne : before entry l ++ [entry] ≠ [] :=
      List.append_ne_nil_of_right_ne_nil _ (List.cons_ne_nil entry [])
    have hsplice := spliceFront_holds hcut hne
    have hinit : Holds (listSpliceInit (listCutPosition lists list head entry) list head)
        ((list, []) :: (head, before entry l ++ [entry] ++ behind entry l) :: F) := by
      rw [listSpliceInit, listEmpty_eq hcut, decide_eq_false hne]
      exact initListHead_rings hsplice hcut.list_off.1
    rw [List.append_assoc, List.singleton_append, before_behind hmem] at hinit
    exact ⟨h.same hinit.tail, listEmpty_eq hinit⟩

theorem cut_splice_two : ∃ lists : Links Nat, SameOn [(0, [1, 2, 3, 4]), (9, [])] lists
      (listSpliceInit (listCutPosition lists 5 0 2) 5 0)
    ∧ listEmpty (listSpliceInit (listCutPosition lists 5 0 2) 5 0) 5 = true := by
  obtain ⟨lists, h⟩ := exists_holds
  exact ⟨lists, cut_splice h (by simp [Off]) (by decide) (by decide)⟩

-- ── `list_rotate_to_front` and `list_rotate_left` ────────────────────────────

/-- `n` times `list_rotate_left`. -/
theorem rotateLeft_iterate (h : Holds lists ((head, l) :: F)) (n : Nat) :
    Holds ((fun lists => listRotateLeft lists head)^[n] lists) ((head, l.rotate n) :: F) := by
  induction n with
  | zero =>
      rw [List.rotate_zero]
      exact h
  | succ n ih =>
      rw [Function.iterate_succ_apply', ← List.rotate_rotate]
      exact rotateLeft_holds ih

/-- **ROTATE**: bringing an entry to the front at once leaves every link as
    bringing it there step by step. -/
theorem rotate_is_lefts (h : Holds lists ((head, l) :: F)) (hx : list ∈ l) :
    SameOn ((head, l) :: F) (listRotateToFront lists list head)
      ((fun lists => listRotateLeft lists head)^[l.idxOf list] lists) := by
  intro x hxm
  refine (rotateToFront_holds h hx).same (rotateLeft_iterate h _) x ?_
  simpa [List.mem_rotate] using hxm

theorem rotate_is_lefts_two : ∃ lists : Links Nat, SameOn [(0, [1, 2, 3, 4]), (9, [])]
    (listRotateToFront lists 3 0) (listRotateLeft (listRotateLeft lists 0) 0) := by
  obtain ⟨lists, h⟩ := exists_holds
  exact ⟨lists, rotate_is_lefts h (by decide)⟩

-- ── Traversal ────────────────────────────────────────────────────────────────

/-- `list_for_each_safe` from `pos` on, with `n` behind it, within some number of
    rounds: the entries met, and the links that the body leaves. -/
def listForEachSafe (body : Links α → α → Links α) (head : α) :
    Nat → α → α → Links α → Option (List α × Links α)
  | 0, _, _, _ => none
  | k + 1, pos, n, lists =>
      if pos = head then some ([], lists)
      else
        let lists := body lists pos
        (listForEachSafe body head k n (lists.next n) lists).map fun r => (pos :: r.1, r.2)

/-- The loop from its start meets `l` and leaves `lists'`. -/
def SafelyMeets (body : Links α → α → Links α) (head : α) (lists : Links α) (l : List α)
    (lists' : Links α) : Prop :=
  ∃ k, listForEachSafe body head k (lists.next head) (lists.next (lists.next head)) lists
    = some (l, lists')

/-- A loop that is done with `u` and goes on with `v`.  Of `u` the list has what
    the body kept, and the other lists are those of `G u`. -/
theorem safe_loop {body : Links α → α → Links α} {keep : α → Bool} {G : List α → Heads α}
    (hbody : ∀ u e v lists, Holds lists ((head, u.filter keep ++ e :: v) :: G u) →
      Holds (body lists e) ((head, (u ++ [e]).filter keep ++ v) :: G (u ++ [e]))) :
    ∀ {v u : List α} {pos n : α} {lists : Links α},
      Holds lists ((head, u.filter keep ++ v) :: G u) → (v ++ [head]).head? = some pos →
        n = lists.next pos →
          ∃ lists', Holds lists' ((head, (u ++ v).filter keep) :: G (u ++ v))
            ∧ listForEachSafe body head (v.length + 1) pos n lists = some (v, lists') := by
  intro v
  induction v with
  | nil =>
      intro u pos n lists h hpos _
      rw [List.append_nil] at h ⊢
      have hph : head = pos := Option.some.inj hpos
      exact ⟨lists, h, by rw [List.length_nil, listForEachSafe, if_pos hph.symm]⟩
  | cons e v ih =>
      intro u pos n lists h hpos hn
      have hpe : e = pos := Option.some.inj hpos
      subst hpe
      have hne : e ≠ head := by
        rintro rfl
        exact h.head_not_mem.1 (by simp)
      -- the entry behind was read before the body ran
      have hnext : (v ++ [head]).head? = some n := by
        rw [hn]
        exact h.next_entry
      obtain ⟨lists', h', hloop⟩ := ih (hbody u e v lists h) hnext rfl
      refine ⟨lists', by rw [List.append_assoc] at h'; exact h', ?_⟩
      rw [List.length_cons, listForEachSafe, if_neg hne]
      dsimp only
      rw [hloop]
      rfl

/-- A loop from the start of its list. -/
theorem safe_loop_start {body : Links α → α → Links α} {keep : α → Bool} {G : List α → Heads α}
    (hbody : ∀ u e v lists, Holds lists ((head, u.filter keep ++ e :: v) :: G u) →
      Holds (body lists e) ((head, (u ++ [e]).filter keep ++ v) :: G (u ++ [e])))
    (h : Holds lists ((head, l) :: G [])) :
    ∃ lists', SafelyMeets body head lists l lists'
      ∧ Holds lists' ((head, l.filter keep) :: G l) := by
  obtain ⟨lists', h', hloop⟩ := safe_loop hbody (v := l) (u := []) h h.next_head rfl
  exact ⟨lists', ⟨_, hloop⟩, h'⟩

/-- **SAFE TRAVERSAL, REMOVING**: a loop that takes the entries that fail a test
    off its list with `list_del` meets every entry once, and leaves the others. -/
theorem safe_loop_dels [ListPoison α] (keep : α → Bool) (h : Holds lists ((head, l) :: F)) :
    ∃ lists', SafelyMeets (fun lists e => if keep e then lists else listDel lists e)
        head lists l lists' ∧ Holds lists' ((head, l.filter keep) :: F) := by
  refine safe_loop_start (G := fun _ => F) ?_ h
  intro u e v lists h
  rw [List.filter_append, List.append_assoc]
  by_cases hk : keep e = true
  · rw [if_pos hk, List.filter_cons_of_pos hk]
    exact h
  · rw [if_neg hk, List.filter_cons_of_neg hk, List.filter_nil, List.nil_append]
    exact listDel_rings (s := head :: u.filter keep) h
      (List.append_ne_nil_of_right_ne_nil v (List.cons_ne_nil _ _))

theorem safe_loop_dels_odd : ∃ lists lists' : Links Nat, SafelyMeets
      (fun lists e => if e % 2 == 0 then lists else listDel lists e) 0 lists [1, 2, 3, 4] lists'
    ∧ Holds lists' [(0, [2, 4]), (9, [])] := by
  obtain ⟨lists, h⟩ := exists_holds
  exact ⟨lists, safe_loop_dels (fun e => e % 2 == 0) h⟩

/-- **SAFE TRAVERSAL, SORTING OUT**: a loop that moves the entries that fail a
    test behind another list with `list_move_tail` meets every entry once, and
    parts its list in two, in order. -/
theorem safe_loop_moves (keep : α → Bool) {other : α}
    (h : Holds lists ((head, l) :: (other, m) :: F)) :
    ∃ lists', SafelyMeets (fun lists e => if keep e then lists else listMoveTail lists e other)
        head lists l lists'
      ∧ Holds lists' ((head, l.filter keep)
          :: (other, m ++ l.filter fun e => !keep e) :: F) := by
  refine safe_loop_start (G := fun u => (other, m ++ u.filter fun e => !keep e) :: F) ?_
    (by simpa using h)
  intro u e v lists h
  rw [List.filter_append, List.filter_append, List.append_assoc]
  by_cases hk : keep e = true
  · have hnk : ¬ (!keep e) = true := by simp [hk]
    rw [if_pos hk, List.filter_cons_of_pos hk,
      List.filter_cons_of_neg (p := fun e => !keep e) hnk, List.filter_nil, List.filter_nil,
      List.append_nil]
    exact h
  · have hnk : (!keep e) = true := by simp [hk]
    rw [if_neg hk, List.filter_cons_of_neg hk,
      List.filter_cons_of_pos (p := fun e => !keep e) hnk, List.filter_nil, List.filter_nil,
      List.nil_append, ← List.append_assoc]
    have hdel : Holds (listDelEntry lists e) ((head, u.filter keep ++ v)
        :: (other, m ++ u.filter fun e => !keep e) :: F) :=
      listDelEntry_rings (s := head :: u.filter keep) h
        (List.append_ne_nil_of_right_ne_nil v (List.cons_ne_nil _ _))
    have hoff := Rings.not_mem (s := head :: u.filter keep) h
    have hadd := listAddTail_rings (s := []) (Rings.swap hdel)
      (by
        simp only [List.map_cons, List.flatten_cons, List.mem_append, List.mem_cons,
          List.not_mem_nil, false_or] at hoff ⊢
        tauto) rfl
    exact (Rings.rotate (s := [e]) hadd).swap

theorem safe_loop_moves_odd : ∃ lists lists' : Links Nat, SafelyMeets
      (fun lists e => if e % 2 == 0 then lists else listMoveTail lists e 9) 0 lists [1, 2, 3, 4]
      lists'
    ∧ Holds lists' [(0, [2, 4]), (9, [1, 3])] := by
  obtain ⟨lists, h⟩ := exists_holds
  exact ⟨lists, safe_loop_moves (fun e => e % 2 == 0) h⟩

end ListHead
