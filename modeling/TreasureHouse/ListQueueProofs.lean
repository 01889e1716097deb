import TreasureHouse.ListRunProofs

/-! # `container/list.h` — lists used as queues

    What the rest of the program does with a list is little: it initialises a
    head, puts a node at one of the ends, takes the first node off or another,
    and goes through the list.  One lemma for each, with the other lists aside. -/

namespace ListHead

open WaitQueue

variable {α : Type} {lists : Links α} {F : Heads α} {l : List α} {head x : α}

/-- The first entry. -/
theorem Holds.first (h : Holds lists ((head, x :: l) :: F)) : lists.next head = x :=
  (Option.some.inj h.next_head).symm

/-- Links of no list. -/
theorem holds_nil (lists : Links α) : Holds lists [] where
  nodup := List.nodup_nil
  path := by simp
  cycle := by simp

variable [DecidableEq α]

/-- `INIT_LIST_HEAD` of a new head. -/
theorem Holds.init (h : Holds lists F) (hx : Off F x) :
    Holds (initListHead lists x) ((x, []) :: F) :=
  initListHead_rings h hx

/-- `INIT_LIST_HEAD` of a node on no list. -/
theorem Holds.init_node (h : Holds lists F) (hx : Off F x) : Holds (initListHead lists x) F :=
  (h.init hx).tail

/-- `list_add` to a head. -/
theorem Holds.push (h : Holds lists ((head, l) :: F)) (hx : Off ((head, l) :: F) x) :
    Holds (listAdd lists x head) ((head, x :: l) :: F) :=
  listAdd_rings (s := [head]) h hx rfl

/-- `list_add_tail` to a head. -/
theorem Holds.append (h : Holds lists ((head, l) :: F)) (hx : Off ((head, l) :: F) x) :
    Holds (listAddTail lists x head) ((head, l ++ [x]) :: F) :=
  Rings.rotate (s := [x]) (t := head :: l) (listAddTail_rings (s := []) h hx rfl)

/-- `list_del`. -/
theorem Holds.del [ListPoison α] (h : Holds lists ((head, l) :: F)) (hx : x ∈ l) :
    Holds (listDel lists x) ((head, l.erase x) :: F) := by
  obtain ⟨s, t, hs, rfl, heq⟩ := List.exists_erase_eq hx
  rw [heq]
  exact listDel_rings (s := head :: s) h (List.append_ne_nil_of_right_ne_nil t
    (List.cons_ne_nil head s))

end ListHead
