import Mathlib.Logic.Function.Basic
import TreasureHouse.SuccessionProofs

/-! # Link rings — circular doubly linked lists

    A ring runs from its head through the entries of a list and back to the
    head.  Its neighbours are the pairs of `closed head l`; `NextRing` says that
    every one is linked forwards and `PrevRing` that every one is linked
    backwards.  The two maps are kept apart because an entry leaves the ring by
    one store into each of them (`PrevRing.splice`, `NextRing.splice`), and
    enters it by two (`PrevRing.insert`, `NextRing.insert`). -/

namespace LinkRing

open Succession

variable {α : Type}

/-- The entries in order, between the head and the head. -/
def closed (head : α) (l : List α) : List α := head :: l ++ [head]

/-- Every neighbour is linked forwards. -/
def NextRing (next : α → Option α) (head : α) (l : List α) : Prop :=
  ∀ p q, Follows (closed head l) p q → next p = some q

/-- Every neighbour is linked backwards. -/
def PrevRing (prev : α → Option α) (head : α) (l : List α) : Prop :=
  ∀ p q, Follows (closed head l) p q → prev q = some p

/-- The pairs of a ring: those of its list, and the last entry with the head. -/
theorem follows_closed {head : α} {l : List α} {p q : α} :
    Follows (closed head l) p q
      ↔ Follows (head :: l) p q ∨ ((head :: l).getLast? = some p ∧ q = head) :=
  follows_concat

/-- The pairs of a ring around one entry. -/
theorem follows_around {head a : α} {l₁ l₂ : List α} {p q : α} :
    Follows (closed head (l₁ ++ a :: l₂)) p q
      ↔ Follows (head :: l₁) p q
        ∨ ((p = a ∧ (l₂ ++ [head]).head? = some q) ∨ Follows (l₂ ++ [head]) p q)
        ∨ ((head :: l₁).getLast? = some p ∧ q = a) := by
  have hsplit : closed head (l₁ ++ a :: l₂) = (head :: l₁) ++ a :: (l₂ ++ [head]) := by
    simp [closed]
  rw [hsplit, follows_append, follows_cons (a := a), List.head?_cons]
  simp only [Option.some.injEq, eq_comm (a := a)]

/-- The pairs of a ring in two parts. -/
theorem follows_parts {head : α} {l₁ l₂ : List α} {p q : α} :
    Follows (closed head (l₁ ++ l₂)) p q
      ↔ Follows (head :: l₁) p q ∨ Follows (l₂ ++ [head]) p q
        ∨ ((head :: l₁).getLast? = some p ∧ (l₂ ++ [head]).head? = some q) := by
  have hsplit : closed head (l₁ ++ l₂) = (head :: l₁) ++ (l₂ ++ [head]) := by
    simp [closed]
  rw [hsplit, follows_append]

section Ring

variable {next next' prev prev' : α → Option α} {head a p n : α} {l l₁ l₂ : List α}

theorem follows_closed_nil {p q : α} : Follows (closed head []) p q ↔ p = head ∧ q = head := by
  rw [follows_closed, follows_cons]
  simp [not_follows_nil, eq_comm]

/-- Alone the head is linked to itself. -/
theorem nextRing_nil (h : next head = some head) : NextRing next head [] := by
  intro p q hf
  obtain ⟨rfl, rfl⟩ := follows_closed_nil.mp hf
  exact h

theorem prevRing_nil (h : prev head = some head) : PrevRing prev head [] := by
  intro p q hf
  obtain ⟨rfl, rfl⟩ := follows_closed_nil.mp hf
  exact h

/-- Only the forward links of the head and the entries matter. -/
theorem NextRing.congr (h : NextRing next head l) (heq : ∀ x ∈ head :: l, next' x = next x) :
    NextRing next' head l := by
  intro x y hf
  rw [heq x hf.mem_front]
  exact h x y hf

/-- Only the backward links of the head and the entries matter. -/
theorem PrevRing.congr (h : PrevRing prev head l) (heq : ∀ x ∈ head :: l, prev' x = prev x) :
    PrevRing prev' head l := by
  intro x y hf
  have hy : y ∈ head :: l := by
    rcases List.mem_append.mp (Follows.mem_tail hf) with hy | hy
    · exact List.mem_cons_of_mem head hy
    · rw [List.mem_singleton.mp hy]
      exact List.mem_cons_self
  rw [heq y hy]
  exact h x y hf

theorem NextRing.next_entry (h : NextRing next head (l₁ ++ a :: l₂))
    (hn : (l₂ ++ [head]).head? = some n) : next a = some n :=
  h a n (follows_around.mpr (Or.inr (Or.inl (Or.inl ⟨rfl, hn⟩))))

/-- The head is linked to the first entry, or to itself. -/
theorem NextRing.next_head (h : NextRing next head l) (hn : (l ++ [head]).head? = some n) :
    next head = some n := by
  obtain ⟨t, ht⟩ := List.head?_eq_some_iff.mp hn
  refine h head n ?_
  rw [closed, List.cons_append, ht]
  exact follows_front t

/-- No entry is linked to itself. -/
theorem NextRing.next_ne (h : NextRing next head l) (hd : (head :: l).Nodup) {x : α}
    (hx : x ∈ l) : next x ≠ some x := by
  obtain ⟨l₁, l₂, rfl⟩ := List.append_of_mem hx
  intro heq
  obtain ⟨n, t, ht⟩ : ∃ n t, l₂ ++ [head] = n :: t :=
    List.exists_cons_of_ne_nil (List.append_ne_nil_of_right_ne_nil l₂ (List.cons_ne_nil head []))
  have hn := h.next_entry (show (l₂ ++ [head]).head? = some n by rw [ht, List.head?_cons])
  rw [heq] at hn
  cases hn
  have hmem : x ∈ l₂ ++ [head] := by
    rw [ht]
    exact List.mem_cons_self
  have hd' : (l₁ ++ x :: l₂).Nodup := (List.nodup_cons.mp hd).2
  rcases List.mem_append.mp hmem with hm | hm
  · exact (List.nodup_cons.mp hd'.of_append_right).1 hm
  · rw [List.mem_singleton.mp hm] at hd
    exact (List.nodup_cons.mp hd).1 (List.mem_append_right l₁ List.mem_cons_self)

theorem PrevRing.prev_entry (h : PrevRing prev head (l₁ ++ a :: l₂))
    (hp : (head :: l₁).getLast? = some p) : prev a = some p :=
  h p a (follows_around.mpr (Or.inr (Or.inr ⟨hp, rfl⟩)))

/-- Every entry comes after the head or after an entry. -/
theorem exists_before (head : α) {x : α} (hx : x ∈ l) : ∃ p, Follows (head :: l) p x := by
  obtain ⟨l₁, l₂, rfl⟩ := List.append_of_mem hx
  refine ⟨(head :: l₁).getLast (List.cons_ne_nil _ _), ?_⟩
  rw [← List.cons_append]
  refine follows_append.mpr (Or.inr (Or.inr ⟨?_, rfl⟩))
  exact List.getLast?_eq_some_getLast _

/-- Two entries do not link back to the same node. -/
theorem PrevRing.inj (h : PrevRing prev head l) (hd : (head :: l).Nodup) {x y : α} (hx : x ∈ l)
    (hy : y ∈ l) (heq : prev x = prev y) : x = y := by
  obtain ⟨p, hp⟩ := exists_before head hx
  obtain ⟨q, hq⟩ := exists_before head hy
  rw [h p x (follows_closed.mpr (Or.inl hp)), h q y (follows_closed.mpr (Or.inl hq))] at heq
  cases heq
  exact hp.unique hd hq

/-- Only the last node is linked to the head. -/
theorem NextRing.last (h : NextRing next head l) (hd : (head :: l).Nodup) {x : α}
    (hx : x ∈ head :: l) (hn : next x = some head) : (head :: l).getLast? = some x := by
  obtain ⟨z, hz⟩ : ∃ z, (head :: l).getLast? = some z :=
    ⟨_, List.getLast?_eq_some_getLast (List.cons_ne_nil _ _)⟩
  by_cases hxz : x = z
  · rw [hz, hxz]
  · obtain ⟨q, hq⟩ := exists_follows hz hx hxz
    rw [h x q (follows_closed.mpr (Or.inl hq))] at hn
    cases hn
    exact absurd hq.mem_tail (List.nodup_cons.mp hd).1

variable [DecidableEq α]

/-- **SPLICE, FORWARDS**: one store takes an entry out of the forward links. -/
theorem NextRing.splice (h : NextRing next head (l₁ ++ a :: l₂))
    (hd : (head :: (l₁ ++ a :: l₂)).Nodup) (hp : (head :: l₁).getLast? = some p)
    (hn : (l₂ ++ [head]).head? = some n) :
    NextRing (Function.update next p (some n)) head (l₁ ++ l₂) := by
  have hd' : ((head :: l₁) ++ a :: l₂).Nodup := hd
  have hp₁ : p ∈ head :: l₁ := List.mem_of_getLast? hp
  intro x y hf
  rcases follows_parts.mp hf with hf | hf | ⟨hx, hy⟩
  · have hne : x ≠ p := hf.ne_getLast hd'.of_append_left hp
    rw [Function.update_of_ne hne]
    exact h x y (follows_around.mpr (Or.inl hf))
  · have hne : x ≠ p := by
      rintro rfl
      exact List.disjoint_of_nodup_append hd' hp₁ (List.mem_cons_of_mem a hf.mem_front)
    rw [Function.update_of_ne hne]
    exact h x y (follows_around.mpr (Or.inr (Or.inl (Or.inr hf))))
  · rw [hp] at hx
    rw [hn] at hy
    cases hx
    cases hy
    exact Function.update_self ..

/-- **SPLICE, BACKWARDS**: one store takes an entry out of the backward links. -/
theorem PrevRing.splice (h : PrevRing prev head (l₁ ++ a :: l₂))
    (hd : (head :: (l₁ ++ a :: l₂)).Nodup) (hp : (head :: l₁).getLast? = some p)
    (hn : (l₂ ++ [head]).head? = some n) :
    PrevRing (Function.update prev n (some p)) head (l₁ ++ l₂) := by
  have hd' : ((head :: l₁) ++ a :: l₂).Nodup := hd
  have hback : (l₂ ++ [head]).Nodup := by
    have hperm : (l₂ ++ [head]).Perm (head :: l₂) := List.perm_append_singleton head l₂
    refine hperm.nodup_iff.mpr (List.nodup_cons.mpr ⟨?_, ?_⟩)
    · intro hm
      refine (List.nodup_cons.mp hd).1 (List.mem_append_right _ (List.mem_cons_of_mem a hm))
    · exact (List.nodup_cons.mp hd'.of_append_right).2
  intro x y hf
  rcases follows_parts.mp hf with hf | hf | ⟨hx, hy⟩
  · have hne : y ≠ n := by
      rintro rfl
      have hy₁ : y ∈ l₁ := hf.mem_tail
      rcases List.mem_append.mp (List.mem_of_mem_head? hn) with hy₂ | hy₂
      · exact List.disjoint_of_nodup_append hd' (List.mem_cons_of_mem head hy₁)
          (List.mem_cons_of_mem a hy₂)
      · rw [List.mem_singleton.mp hy₂] at hy₁
        exact (List.nodup_cons.mp hd).1 (List.mem_append_left _ hy₁)
    rw [Function.update_of_ne hne]
    exact h x y (follows_around.mpr (Or.inl hf))
  · have hne : y ≠ n := by
      rintro rfl
      obtain ⟨t, ht⟩ := List.head?_eq_some_iff.mp hn
      rw [ht] at hf hback
      exact (List.nodup_cons.mp hback).1 hf.mem_tail
    rw [Function.update_of_ne hne]
    exact h x y (follows_around.mpr (Or.inr (Or.inl (Or.inr hf))))
  · rw [hp] at hx
    rw [hn] at hy
    cases hx
    cases hy
    exact Function.update_self ..

/-- **INSERT, FORWARDS**: two stores put a fresh entry between two
    neighbours. -/
theorem NextRing.insert (h : NextRing next head (l₁ ++ l₂)) (hd : (head :: (l₁ ++ l₂)).Nodup)
    (ha : a ∉ head :: (l₁ ++ l₂)) (hp : (head :: l₁).getLast? = some p)
    (hn : (l₂ ++ [head]).head? = some n) :
    NextRing (Function.update (Function.update next a (some n)) p (some a)) head
      (l₁ ++ a :: l₂) := by
  have hd' : ((head :: l₁) ++ l₂).Nodup := hd
  have hp₁ : p ∈ head :: l₁ := List.mem_of_getLast? hp
  have hfront : ∀ x ∈ head :: l₁, x ≠ a := by
    rintro x hx rfl
    exact ha (List.mem_append_left l₂ hx)
  intro x y hf
  rcases follows_around.mp hf with hf | (⟨rfl, hy⟩ | hf) | ⟨hx, rfl⟩
  · have hne : x ≠ p := hf.ne_getLast hd'.of_append_left hp
    rw [Function.update_of_ne hne, Function.update_of_ne (hfront x hf.mem_left)]
    exact h x y (follows_parts.mpr (Or.inl hf))
  · rw [hn] at hy
    cases hy
    rw [Function.update_of_ne (hfront p hp₁).symm, Function.update_self]
  · have hx₂ : x ∈ l₂ := hf.mem_front
    have hne : x ≠ p := by
      rintro rfl
      exact List.disjoint_of_nodup_append hd' hp₁ hx₂
    have hxa : x ≠ a := by
      rintro rfl
      exact ha (List.mem_append_right (head :: l₁) hx₂)
    rw [Function.update_of_ne hne, Function.update_of_ne hxa]
    exact h x y (follows_parts.mpr (Or.inr (Or.inl hf)))
  · rw [hp] at hx
    cases hx
    exact Function.update_self ..

/-- **INSERT, BACKWARDS**: two stores put a fresh entry between two
    neighbours. -/
theorem PrevRing.insert (h : PrevRing prev head (l₁ ++ l₂)) (hd : (head :: (l₁ ++ l₂)).Nodup)
    (ha : a ∉ head :: (l₁ ++ l₂)) (hp : (head :: l₁).getLast? = some p)
    (hn : (l₂ ++ [head]).head? = some n) :
    PrevRing (Function.update (Function.update prev n (some a)) a (some p)) head
      (l₁ ++ a :: l₂) := by
  have hd' : ((head :: l₁) ++ l₂).Nodup := hd
  have hback : (l₂ ++ [head]).Nodup := by
    have hperm : (l₂ ++ [head]).Perm (head :: l₂) := List.perm_append_singleton head l₂
    refine hperm.nodup_iff.mpr (List.nodup_cons.mpr ⟨?_, hd'.of_append_right⟩)
    intro hm
    exact (List.nodup_cons.mp hd).1 (List.mem_append_right _ hm)
  have hne : ∀ x ∈ head :: (l₁ ++ l₂), x ≠ a := by
    rintro x hx rfl
    exact ha hx
  have htail : ∀ x ∈ l₂ ++ [head], x ≠ a := by
    intro x hx
    rcases List.mem_append.mp hx with hx | hx
    · exact hne x (List.mem_append_right (head :: l₁) hx)
    · rw [List.mem_singleton.mp hx]
      exact hne head List.mem_cons_self
  intro x y hf
  rcases follows_around.mp hf with hf | (⟨rfl, hy⟩ | hf) | ⟨hx, rfl⟩
  · have hy₁ : y ∈ l₁ := hf.mem_tail
    have hyn : y ≠ n := by
      rintro rfl
      rcases List.mem_append.mp (List.mem_of_mem_head? hn) with hy₂ | hy₂
      · exact List.disjoint_of_nodup_append hd' (List.mem_cons_of_mem head hy₁) hy₂
      · rw [List.mem_singleton.mp hy₂] at hy₁
        exact (List.nodup_cons.mp hd).1 (List.mem_append_left _ hy₁)
    rw [Function.update_of_ne (hne y (List.mem_append_left l₂ hf.mem_right)),
      Function.update_of_ne hyn]
    exact h x y (follows_parts.mpr (Or.inl hf))
  · rw [hn] at hy
    cases hy
    rw [Function.update_of_ne (htail n (List.mem_of_mem_head? hn)), Function.update_self]
  · have hyn : y ≠ n := by
      rintro rfl
      obtain ⟨t, ht⟩ := List.head?_eq_some_iff.mp hn
      rw [ht] at hf hback
      exact (List.nodup_cons.mp hback).1 hf.mem_tail
    rw [Function.update_of_ne (htail y hf.mem_right), Function.update_of_ne hyn]
    exact h x y (follows_parts.mpr (Or.inr (Or.inl hf)))
  · rw [hp] at hx
    cases hx
    exact Function.update_self ..

end Ring

end LinkRing
