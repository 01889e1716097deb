import Mathlib.Data.List.Basic

/-! # Condition variables over a list of threads

    A thread is a position in a list and its entry says what it is doing; one
    entry means asleep on the condition variable and one means woken.
    `pthread_cond_signal` wakes one sleeper and does nothing when nobody
    sleeps; a wake-up of more than one, which POSIX allows, is a signal
    followed by spurious wake-ups.  The lemmas say what a signal and a
    broadcast do to the entries and to the number of threads of a kind. -/

namespace CondVar

variable {α : Type} [DecidableEq α]

/-- `pthread_cond_signal`: `some v` wakes the sleeper `v`, and `none` is the
    outcome when nobody sleeps. -/
def signal (asleep awake : α) (l : List α) : Option Nat → Option (List α)
  | none => if asleep ∈ l then none else some l
  | some v => if l[v]? = some asleep then some (l.set v awake) else none

/-- `pthread_cond_broadcast`. -/
def broadcast (asleep awake : α) (l : List α) : List α :=
  l.map fun t => if t = asleep then awake else t

/-- The two outcomes of a signal. -/
theorem signal_cases {asleep awake : α} {l l' : List α} {v : Option Nat}
    (h : signal asleep awake l v = some l') :
    (asleep ∉ l ∧ l' = l) ∨ ∃ i, l[i]? = some asleep ∧ l' = l.set i awake := by
  cases v with
  | none =>
      rw [signal, Option.ite_none_left_eq_some] at h
      obtain ⟨hm, h⟩ := h
      cases h
      exact Or.inl ⟨hm, rfl⟩
  | some i =>
      rw [signal, Option.ite_none_right_eq_some] at h
      obtain ⟨hi, h⟩ := h
      cases h
      exact Or.inr ⟨i, hi, rfl⟩

omit [DecidableEq α] in
/-- Counting after one thread moved. -/
theorem countP_set (p : α → Bool) {l : List α} {i : Nat} {a b : α} (h : l[i]? = some a) :
    (l.set i b).countP p + (p a).toNat = l.countP p + (p b).toNat := by
  induction l generalizing i with
  | nil => cases h
  | cons x l ih =>
      cases i with
      | zero =>
          cases h
          rw [List.set_cons_zero, List.countP_cons, List.countP_cons]
          cases p a <;> cases p b <;> rfl
      | succ i =>
          have := ih h
          rw [List.set_cons_succ, List.countP_cons, List.countP_cons]
          omega

omit [DecidableEq α] in
/-- Who is where after one thread moved. -/
theorem getElem?_set_iff {l : List α} {i j : Nat} {a b c : α} (h : l[i]? = some a) :
    (l.set i b)[j]? = some c ↔ (j = i ∧ c = b) ∨ (j ≠ i ∧ l[j]? = some c) := by
  have hi : i < l.length := (List.getElem?_eq_some_iff.mp h).1
  by_cases hji : j = i
  · subst hji
    rw [List.getElem?_set_self hi]
    constructor
    · intro hc
      exact Or.inl ⟨rfl, (Option.some.inj hc).symm⟩
    · rintro (⟨-, rfl⟩ | ⟨hne, -⟩)
      · rfl
      · exact absurd rfl hne
  · rw [List.getElem?_set_ne (Ne.symm hji)]
    constructor
    · exact fun hc => Or.inr ⟨hji, hc⟩
    · rintro (⟨heq, -⟩ | ⟨-, hc⟩)
      · exact absurd heq hji
      · exact hc

/-- The threads whose entry is `c` are the same in both lists. -/
def Unmoved (c : α) (l l' : List α) : Prop := ∀ j : Nat, l'[j]? = some c ↔ l[j]? = some c

omit [DecidableEq α] in
theorem Unmoved.mem_iff {c : α} {l l' : List α} (h : Unmoved c l l') : c ∈ l' ↔ c ∈ l := by
  rw [List.mem_iff_getElem?, List.mem_iff_getElem?]
  exact exists_congr h

omit [DecidableEq α] in
/-- A thread that moves from `a` to `b` leaves the others where they are. -/
theorem set_unmoved {l : List α} {i : Nat} {a b c : α} (h : l[i]? = some a) (ha : c ≠ a)
    (hb : c ≠ b) : Unmoved c l (l.set i b) := by
  intro j
  rw [getElem?_set_iff h]
  constructor
  · rintro (⟨-, rfl⟩ | ⟨-, hc⟩)
    · exact absurd rfl hb
    · exact hc
  · intro hc
    refine Or.inr ⟨?_, hc⟩
    rintro rfl
    rw [h] at hc
    exact ha (Option.some.inj hc).symm

omit [DecidableEq α] in
/-- A new thread leaves the others where they are. -/
theorem append_unmoved {l : List α} {b c : α} (hb : c ≠ b) : Unmoved c l (l ++ [b]) := by
  intro j
  rw [List.getElem?_append]
  by_cases hj : j < l.length
  · rw [if_pos hj]
  · rw [if_neg hj, List.getElem?_eq_none (Nat.le_of_not_lt hj)]
    refine iff_of_false ?_ (by simp)
    intro hc
    have hm := List.mem_of_getElem? hc
    exact hb (List.mem_singleton.mp hm)

/-- A signal moves nobody but a sleeper. -/
theorem signal_unmoved {asleep awake c : α} {l l' : List α} {v : Option Nat}
    (h : signal asleep awake l v = some l') (hs : c ≠ asleep) (hw : c ≠ awake) :
    Unmoved c l l' := by
  rcases signal_cases h with ⟨-, rfl⟩ | ⟨i, hi, rfl⟩
  · exact fun _ => Iff.rfl
  · exact set_unmoved hi hs hw

/-- A signal keeps the number of threads of a kind that does not tell sleepers
    from woken ones. -/
theorem signal_countP {asleep awake : α} {l l' : List α} {v : Option Nat} (p : α → Bool)
    (h : signal asleep awake l v = some l') (hp : p asleep = p awake) :
    l'.countP p = l.countP p := by
  rcases signal_cases h with ⟨-, rfl⟩ | ⟨i, hi, rfl⟩
  · rfl
  · have := countP_set p (b := awake) hi
    rw [hp] at this
    omega

theorem broadcast_unmoved {asleep awake c : α} (l : List α) (hs : c ≠ asleep) (hw : c ≠ awake) :
    Unmoved c l (broadcast asleep awake l) := by
  intro j
  rw [broadcast, List.getElem?_map]
  rcases l[j]? with _ | t
  · rfl
  · rw [Option.map_some, Option.some.injEq, Option.some.injEq]
    by_cases ht : t = asleep
    · rw [if_pos ht]
      subst ht
      exact iff_of_false (Ne.symm hw) (Ne.symm hs)
    · rw [if_neg ht]

theorem broadcast_countP {asleep awake : α} (l : List α) (p : α → Bool) (hp : p asleep = p awake) :
    (broadcast asleep awake l).countP p = l.countP p := by
  rw [broadcast, List.countP_map]
  refine List.countP_congr fun t _ => ?_
  rw [Function.comp_apply]
  by_cases ht : t = asleep
  · rw [if_pos ht, ht, hp]
  · rw [if_neg ht]

/-- After a broadcast nobody sleeps. -/
theorem asleep_notMem_broadcast {asleep awake : α} (h : awake ≠ asleep) (l : List α) :
    asleep ∉ broadcast asleep awake l := by
  rw [broadcast, List.mem_map]
  rintro ⟨t, -, ht⟩
  by_cases hts : t = asleep
  · rw [if_pos hts] at ht
    exact h ht
  · rw [if_neg hts] at ht
    exact hts ht

end CondVar
