import TreasureHouse.LabelledRunProofs
import TreasureHouse.ListSpecProofs

/-! # `container/list.h` — runs of calls

    A run makes calls on the links and keeps, beside them, the lists that the
    calls are for.

      • `listStep_holds`: one call keeps the links and the lists together.
      • `list_ops_refine`: after any run, going through a list either way meets
        the entries of its head in order, and `list_empty`, `list_empty_careful`,
        `list_is_singular`, `list_is_first` and `list_is_last` answer as the
        entries say. -/

namespace ListHead

open LabelledRun LinkCycle LinkRing Succession WaitQueue

variable {α : Type} [DecidableEq α] [ListPoison α]

/-- The links, and the lists they should hold. -/
structure Lists (α : Type) where
  links : Links α
  heads : Heads α

/-- One call. -/
def listStep (s : Lists α) (call : Call α) : Option (Lists α) :=
  (listSpec s.heads call).map fun heads => { links := listApply s.links call, heads := heads }

/-- `list_del` leaves the links of every other node as `__list_del_entry` does. -/
theorem listDel_holds {lists : Links α} {F : Heads α} {entry : α}
    (h : Holds (listDelEntry lists entry) F) (hoff : Off F entry) :
    Holds (listDel lists entry) F := by
  refine Rings.agree h ?_
  intro x hx
  have hne : x ≠ entry := by
    rintro rfl
    exact hoff hx
  exact ⟨Function.update_of_ne hne .., Function.update_of_ne hne ..⟩

/-- **ONE CALL** keeps the links and the lists together. -/
theorem listStep_holds {s s' : Lists α} {call : Call α} (h : Holds s.links s.heads)
    (hs : listStep s call = some s') : Holds s'.links s'.heads := by
  obtain ⟨G, hspec, rfl⟩ := Option.map_eq_some_iff.mp hs
  show Holds (listApply s.links call) G
  cases call with
  | initListHead list =>
      rw [listSpec, Option.ite_none_right_eq_some] at hspec
      obtain ⟨hnone, heq⟩ := hspec
      cases heq
      exact initListHead_rings h (listOf_none hnone)
  | listAdd new head =>
      obtain ⟨F, hF, hG⟩ := Option.bind_eq_some_iff.mp hspec
      obtain ⟨hF', hoff⟩ := takeSpare_holds h hF
      exact addBehind_holds hF' hoff hG
  | listAddTail new head =>
      obtain ⟨F, hF, hG⟩ := Option.bind_eq_some_iff.mp hspec
      obtain ⟨hF', hoff⟩ := takeSpare_holds h hF
      exact addBefore_holds hF' hoff hG
  | listDel entry =>
      obtain ⟨hG, hoff⟩ := takeEntry_holds h hspec
      exact listDel_holds hG hoff
  | listDelInit entry | listDelInitCareful entry =>
      obtain ⟨F, hF, rfl⟩ := Option.map_eq_some_iff.mp hspec
      obtain ⟨hF', hoff⟩ := takeEntry_holds h hF
      exact initListHead_rings hF' hoff
  | listReplace old new =>
      obtain ⟨F, hF, hG⟩ := Option.bind_eq_some_iff.mp hspec
      obtain ⟨hF', hoff⟩ := takeSpare_holds h hF
      exact (rename_holds hF' hoff hG).1
  | listReplaceInit old new =>
      obtain ⟨F, hF, hspec'⟩ := Option.bind_eq_some_iff.mp hspec
      obtain ⟨F', hF', hG⟩ := Option.bind_eq_some_iff.mp hspec'
      cases hG
      obtain ⟨hheld, hoff⟩ := takeSpare_holds h hF
      obtain ⟨hheld', hold⟩ := rename_holds hheld hoff hF'
      exact initListHead_rings hheld' hold
  | listSwap entry1 entry2 =>
      rw [listSpec, Option.ite_none_right_eq_some] at hspec
      obtain ⟨⟨hne, h₁, h₂⟩, heq⟩ := hspec
      cases heq
      exact swap_holds h hne (takeEntry_mem h₁) (takeEntry_mem h₂)
  | listMove list head =>
      obtain ⟨F, hF, hG⟩ := Option.bind_eq_some_iff.mp hspec
      obtain ⟨hF', hoff⟩ := takeEntry_holds h hF
      exact addBehind_holds hF' hoff hG
  | listMoveTail list head =>
      obtain ⟨F, hF, hG⟩ := Option.bind_eq_some_iff.mp hspec
      obtain ⟨hF', hoff⟩ := takeEntry_holds h hF
      exact addBefore_holds hF' hoff hG
  | listBulkMoveTail head first last =>
      obtain ⟨⟨l, F⟩, hF, hG⟩ := Option.bind_eq_some_iff.mp hspec
      rw [Option.ite_none_right_eq_some] at hG
      obtain ⟨⟨hf, hl⟩, heq⟩ := hG
      cases heq
      exact bulk_holds (h.perm (takeHead_perm hF)) hf hl
  | listRotateLeft head =>
      obtain ⟨⟨l, F⟩, hF, hG⟩ := Option.bind_eq_some_iff.mp hspec
      cases hG
      exact rotateLeft_holds (h.perm (takeHead_perm hF))
  | listRotateToFront list head =>
      obtain ⟨⟨l, F⟩, hF, hG⟩ := Option.bind_eq_some_iff.mp hspec
      rw [Option.ite_none_right_eq_some] at hG
      obtain ⟨hmem, heq⟩ := hG
      cases heq
      exact rotateToFront_holds (h.perm (takeHead_perm hF)) hmem
  | listCutPosition list head entry =>
      obtain ⟨F, hF, hspec'⟩ := Option.bind_eq_some_iff.mp hspec
      obtain ⟨⟨l, F'⟩, hF', hG⟩ := Option.bind_eq_some_iff.mp hspec'
      obtain ⟨hheld, hoff⟩ := giveUp_holds h hF
      have hhead := hheld.perm (takeHead_perm hF')
      have hoff' := hoff.perm (takeHead_perm hF')
      rw [Option.ite_none_left_eq_some, not_not] at hG
      obtain ⟨hmem, hG⟩ := hG
      by_cases hl : l = []
      · rw [if_pos hl] at hG
        cases hG
        rw [listApply, listCutPosition, listEmpty_eq hhead, decide_eq_true hl, if_pos rfl]
        exact h
      · have hcut := cutPosition_holds hhead hoff' hl hmem
        rw [if_neg hl, ← apply_ite some] at hG
        cases hG
        exact hcut
  | listCutBefore list head entry =>
      obtain ⟨F, hF, hspec'⟩ := Option.bind_eq_some_iff.mp hspec
      obtain ⟨⟨l, F'⟩, hF', hG⟩ := Option.bind_eq_some_iff.mp hspec'
      obtain ⟨hheld, hoff⟩ := giveUp_holds h hF
      have hhead := hheld.perm (takeHead_perm hF')
      have hoff' := hoff.perm (takeHead_perm hF')
      dsimp only at hG
      by_cases heh : entry = head
      · have hcut := cutBefore_holds hhead hoff' (List.mem_cons.mpr (Or.inl heh))
        rw [if_pos heh] at hG hcut
        cases hG
        exact hcut
      · rw [if_neg heh, Option.ite_none_right_eq_some] at hG
        obtain ⟨hmem, heq⟩ := hG
        cases heq
        have hcut := cutBefore_holds hhead hoff' (List.mem_cons_of_mem _ hmem)
        rw [if_neg heh] at hcut
        exact hcut
  | listSplice list head =>
      obtain ⟨⟨l, m, F⟩, hF, hG⟩ := Option.bind_eq_some_iff.mp hspec
      have hheld := h.perm (takeHeads_perm hF)
      dsimp only at hG
      rw [listApply, listSplice, listEmpty_eq hheld]
      by_cases hl : l = []
      · rw [if_pos hl] at hG
        cases hG
        rw [decide_eq_true hl]
        exact h
      · rw [if_neg hl] at hG
        cases hG
        rw [decide_eq_false hl]
        exact spliceFront_holds hheld hl
  | listSpliceTail list head =>
      obtain ⟨⟨l, m, F⟩, hF, hG⟩ := Option.bind_eq_some_iff.mp hspec
      have hheld := h.perm (takeHeads_perm hF)
      dsimp only at hG
      rw [listApply, listSpliceTail, listEmpty_eq hheld]
      by_cases hl : l = []
      · rw [if_pos hl] at hG
        cases hG
        rw [decide_eq_true hl]
        exact h
      · rw [if_neg hl] at hG
        cases hG
        rw [decide_eq_false hl]
        exact spliceBack_holds hheld hl
  | listSpliceInit list head =>
      obtain ⟨⟨l, m, F⟩, hF, hG⟩ := Option.bind_eq_some_iff.mp hspec
      cases hG
      have hheld := h.perm (takeHeads_perm hF)
      rw [listApply, listSpliceInit, listEmpty_eq hheld]
      by_cases hl : l = []
      · rw [decide_eq_true hl, hl]
        rw [hl] at hheld
        exact hheld
      · rw [decide_eq_false hl]
        exact initListHead_rings (spliceFront_holds hheld hl) hheld.list_off.1
  | listSpliceTailInit list head =>
      obtain ⟨⟨l, m, F⟩, hF, hG⟩ := Option.bind_eq_some_iff.mp hspec
      cases hG
      have hheld := h.perm (takeHeads_perm hF)
      rw [listApply, listSpliceTailInit, listEmpty_eq hheld]
      by_cases hl : l = []
      · rw [decide_eq_true hl, hl, List.append_nil]
        rw [hl] at hheld
        exact hheld
      · rw [decide_eq_false hl]
        exact initListHead_rings (spliceBack_holds hheld hl) hheld.list_off.2

-- ── What the links show ──────────────────────────────────────────────────────

section Shown

variable {lists : Links α} {F : Heads α} {head x : α} {l : List α}

omit [ListPoison α] in
/-- `list_for_each_prev` from the head visits `l`. -/
def VisitsBack (lists : Links α) (head : α) (l : List α) : Prop :=
  ∃ k, listForEach lists.prev head k (lists.prev head) = some l

/-- A list is met by going through it either way, and asked about truly. -/
structure Shown (lists : Links α) (head : α) (l : List α) : Prop where
  forwards : Visits lists head l
  backwards : VisitsBack lists head l.reverse
  empty : listEmpty lists head = decide (l = [])
  emptyCareful : listEmptyCareful lists head = decide (l = [])
  singular : listIsSingular lists head = decide (l.length = 1)
  first : ∀ x ∈ l, listIsFirst lists x head = decide (l.head? = some x)
  last : ∀ x ∈ l, listIsLast lists x head = decide (l.getLast? = some x)

omit [ListPoison α] in
theorem listIsFirst_eq (h : Holds lists ((head, l) :: F)) (hx : x ∈ l) :
    listIsFirst lists x head = decide (l.head? = some x) := by
  obtain ⟨hhead, hnd⟩ := h.head_not_mem
  obtain ⟨s, t, rfl⟩ := List.append_of_mem hx
  have hring : Rings lists (((head :: s) ++ x :: t) :: F.map fun c => c.1 :: c.2) := h
  have hprev := hring.prev_first rfl
  rw [List.getLast?_append_of_ne_nil _ (List.cons_ne_nil head s)] at hprev
  refine decide_eq_decide.mpr ?_
  cases s with
  | nil => exact iff_of_true (Option.some.inj hprev).symm rfl
  | cons a s =>
      rw [List.getLast?_cons_cons] at hprev
      have hmem := List.mem_of_getLast? hprev
      refine iff_of_false ?_ ?_
      · intro heq
        rw [heq] at hmem
        exact hhead (List.mem_append_left _ hmem)
      · intro heq
        cases heq
        exact (List.nodup_cons.mp hnd).1 (List.mem_append_right _ List.mem_cons_self)

omit [ListPoison α] in
theorem listIsLast_eq (h : Holds lists ((head, l) :: F)) (hx : x ∈ l) :
    listIsLast lists x head = decide (l.getLast? = some x) := by
  obtain ⟨hhead, hnd⟩ := h.head_not_mem
  obtain ⟨s, t, rfl⟩ := List.append_of_mem hx
  have hring : Rings lists (((head :: s ++ [x]) ++ t) :: F.map fun c => c.1 :: c.2) := by
    have hcut : (head :: s ++ [x]) ++ t = head :: (s ++ x :: t) := by simp
    rw [hcut]
    exact h
  have hnext := hring.next_last List.getLast?_concat
  refine decide_eq_decide.mpr ?_
  cases t with
  | nil => exact iff_of_true (Option.some.inj hnext).symm List.getLast?_concat
  | cons b t =>
      have hb : b = lists.next x := Option.some.inj hnext
      refine iff_of_false ?_ ?_
      · intro heq
        rw [heq] at hb
        rw [hb] at hhead
        exact hhead (by simp)
      · intro heq
        rw [List.getLast?_append_of_ne_nil _ (List.cons_ne_nil _ _), List.getLast?_cons_cons] at heq
        exact (List.nodup_cons.mp hnd.of_append_right).1 (List.mem_of_getLast? heq)

omit [ListPoison α] in
theorem Holds.shown (h : Holds lists ((head, l) :: F)) : Shown lists head l := by
  obtain ⟨hhead, hnd⟩ := h.head_not_mem
  have hround := (Rings.ring h).round
  exact {
    forwards := by
      refine ⟨_, listForEach_of_follows ?_ hhead⟩
      intro x y hf
      exact (hround.follows hf).1
    backwards := by
      have hback : Path lists.prev lists.next (head :: (l.reverse ++ [head])) := by
        simpa using hround.reverse
      refine ⟨_, listForEach_of_follows ?_ (fun hm => hhead (List.mem_reverse.mp hm))⟩
      intro x y hf
      exact (hback.follows hf).1
    empty := listEmpty_eq h
    emptyCareful := by
      have hprev := h.prev_head
      rw [listEmptyCareful]
      by_cases hl : l = []
      · have hnext := (next_head_eq_iff h).mpr hl
        rw [hl] at hprev
        have hself : head = lists.prev head := Option.some.inj hprev
        rw [hnext, decide_eq_true rfl, decide_eq_true hself, decide_eq_true hl]
        rfl
      · have hnext : lists.next head ≠ head := fun heq => hl ((next_head_eq_iff h).mp heq)
        rw [decide_eq_false hnext, decide_eq_false hl, Bool.false_and]
    singular := listIsSingular_eq h
    first := fun x hx => listIsFirst_eq h hx
    last := fun x hx => listIsLast_eq h hx }

end Shown

/-- No head yet. -/
def Blank (s : Lists α) : Prop := s.heads = []

/-- No node stands twice, and every list is shown by the links. -/
structure Faithful (s : Lists α) : Prop where
  nodup : (s.heads.map fun c => c.1 :: c.2).flatten.Nodup
  shown : ∀ c ∈ s.heads, Shown s.links c.1 c.2

theorem Run.holds : ∀ s : Lists α, Reach Blank (fires listStep) s → Holds s.links s.heads := by
  refine Reach.invariant ?_ ?_
  · intro s hs
    rw [Blank] at hs
    rw [hs]
    exact {
      nodup := List.nodup_nil
      path := fun _ h => nomatch h
      cycle := fun _ h => nomatch h }
  · intro s call s' _ h hs
    exact listStep_holds h hs

/-- **REFINEMENT**: after any run of calls the links show, for every head, the
    list that the calls are for. -/
theorem list_ops_refine {s : Lists α} (hr : Reach Blank (fires listStep) s) : Faithful s where
  nodup := Rings.nodup (Run.holds s hr)
  shown := by
    intro c hc
    exact ((Run.holds s hr).perm (List.perm_cons_erase hc)).shown

/-- Three entries; the neighbours 2 and 3 change places, a part is cut off and
    comes back, 4 leaves. -/
theorem list_ops_refine_run :
    ∃ s : Lists Nat, Faithful s ∧ s.heads = [(0, [2, 3]), (1, [])] := by
  have hstart : Reach Blank (fires listStep)
      ({ links := { next := id, prev := id }, heads := [] } : Lists Nat) := Reach.start rfl
  obtain ⟨s, hs, htest⟩ := Reach.exists_of_runList
    ([.initListHead 0, .initListHead 1, .listAddTail 2 0, .listAddTail 3 0, .listAdd 4 0,
      .listSwap 3 2, .listCutPosition 1 0 4, .listSpliceTailInit 1 0, .listRotateToFront 4 0,
      .listBulkMoveTail 0 4 3, .listDel 4] : List (Call Nat))
    (fun s : Lists Nat => decide (s.heads = [(0, [2, 3]), (1, [])])) hstart (by decide +kernel)
  exact ⟨s, list_ops_refine hs, of_decide_eq_true htest⟩

end ListHead
