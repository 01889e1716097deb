import Mathlib.Data.List.Basic
import Mathlib.Data.List.Nodup

/-! # Succession in a list, and paths of a pointer map

    `Follows l p q` says that `q` stands right after `p` in `l`.  A linked
    structure under construction is described by a list and a relation every
    pair of neighbours satisfies; the lemmas here say which pairs appear and
    disappear when the list grows at its end or loses its front.

    `Path next s l` says that `l` is what one visits from the pointer `s` along
    `next` until the end. -/

namespace Succession

variable {α : Type}

/-- `q` stands right after `p` in `l`. -/
def Follows (l : List α) (p q : α) : Prop := ∃ l₁ l₂, l = l₁ ++ p :: q :: l₂

theorem Follows.mem_left {l : List α} {p q : α} (h : Follows l p q) : p ∈ l := by
  obtain ⟨l₁, l₂, rfl⟩ := h
  simp

theorem Follows.mem_right {l : List α} {p q : α} (h : Follows l p q) : q ∈ l := by
  obtain ⟨l₁, l₂, rfl⟩ := h
  simp

theorem not_follows_nil {p q : α} : ¬ Follows [] p q := by
  rintro ⟨l₁, l₂, h⟩
  simp at h

/-- The pairs of a list with a front. -/
theorem follows_cons {a : α} {l : List α} {p q : α} :
    Follows (a :: l) p q ↔ (p = a ∧ l.head? = some q) ∨ Follows l p q := by
  constructor
  · rintro ⟨l₁, l₂, h⟩
    cases l₁ with
    | nil =>
        rw [List.nil_append, List.cons.injEq] at h
        exact Or.inl ⟨h.1.symm, by rw [h.2]; rfl⟩
    | cons b l₁ =>
        rw [List.cons_append, List.cons.injEq] at h
        exact Or.inr ⟨l₁, l₂, h.2⟩
  · rintro (⟨rfl, h⟩ | ⟨l₁, l₂, rfl⟩)
    · obtain ⟨l₂, rfl⟩ := List.head?_eq_some_iff.mp h
      exact ⟨[], l₂, rfl⟩
    · exact ⟨a :: l₁, l₂, rfl⟩

/-- The pairs of a list after one entry is appended. -/
theorem follows_concat {l : List α} {n p q : α} :
    Follows (l ++ [n]) p q ↔ Follows l p q ∨ (l.getLast? = some p ∧ q = n) := by
  induction l with
  | nil =>
      rw [List.nil_append, follows_cons]
      simp [not_follows_nil]
  | cons a l ih =>
      rw [List.cons_append, follows_cons, ih, follows_cons]
      cases l with
      | nil => simp [not_follows_nil, eq_comm]
      | cons b l =>
          rw [List.cons_append, List.head?_cons, List.head?_cons,
            List.getLast?_cons_cons]
          exact or_assoc.symm

/-- Without repetitions an entry has one successor. -/
theorem Follows.unique {l : List α} (hn : l.Nodup) {p q q' : α} (h : Follows l p q)
    (h' : Follows l p q') : q = q' := by
  induction l with
  | nil => exact absurd h not_follows_nil
  | cons a l ih =>
      obtain ⟨ha, hn⟩ := List.nodup_cons.mp hn
      rcases follows_cons.mp h with ⟨hp, hq⟩ | h
      · rcases follows_cons.mp h' with ⟨-, hq'⟩ | h'
        · exact Option.some.inj (hq.symm.trans hq')
        · exact absurd (hp ▸ h'.mem_left) ha
      · rcases follows_cons.mp h' with ⟨hp, -⟩ | h'
        · exact absurd (hp ▸ h.mem_left) ha
        · exact ih hn h h'

/-- Without repetitions the last entry has no successor. -/
theorem Follows.ne_getLast {l : List α} (hn : l.Nodup) {p q z : α} (h : Follows l p q)
    (hz : l.getLast? = some z) : p ≠ z := by
  induction l with
  | nil => exact absurd h not_follows_nil
  | cons a l ih =>
      obtain ⟨ha, hn⟩ := List.nodup_cons.mp hn
      cases l with
      | nil =>
          rcases follows_cons.mp h with ⟨-, hq⟩ | h
          · cases hq
          · exact absurd h not_follows_nil
      | cons b l =>
          rw [List.getLast?_cons_cons] at hz
          rcases follows_cons.mp h with ⟨rfl, -⟩ | h
          · rintro rfl
            exact ha (List.mem_of_getLast? hz)
          · exact ih hn h hz

/-- The pairs of two lists put together. -/
theorem follows_append {l₁ l₂ : List α} {p q : α} :
    Follows (l₁ ++ l₂) p q
      ↔ Follows l₁ p q ∨ Follows l₂ p q ∨ (l₁.getLast? = some p ∧ l₂.head? = some q) := by
  induction l₁ with
  | nil => simp [not_follows_nil]
  | cons a l ih =>
      rw [List.cons_append, follows_cons, ih, follows_cons]
      cases l with
      | nil =>
          simp only [List.nil_append, List.getLast?_singleton, List.getLast?_nil, List.head?_nil,
            not_follows_nil, Option.some.injEq, reduceCtorEq, false_and, and_false, false_or,
            or_false]
          rw [or_comm, eq_comm (a := p)]
      | cons b l =>
          rw [List.cons_append, List.head?_cons, List.head?_cons, List.getLast?_cons_cons]
          exact or_assoc.symm

/-- What has a successor is not only the last entry. -/
theorem Follows.mem_front {l : List α} {z p q : α} (h : Follows (l ++ [z]) p q) : p ∈ l := by
  rcases follows_concat.mp h with h | ⟨hp, -⟩
  · exact h.mem_left
  · exact List.mem_of_getLast? hp

/-- What is a successor is not only the first entry. -/
theorem Follows.mem_tail {l : List α} {a p q : α} (h : Follows (a :: l) p q) : q ∈ l := by
  rcases follows_cons.mp h with ⟨-, hq⟩ | h
  · exact List.mem_of_mem_head? hq
  · exact h.mem_right

/-- Without repetitions an entry has one predecessor. -/
theorem Follows.unique_left {l : List α} (hn : l.Nodup) {p p' q : α} (h : Follows l p q)
    (h' : Follows l p' q) : p = p' := by
  induction l with
  | nil => exact absurd h not_follows_nil
  | cons a l ih =>
      obtain ⟨ha, hn⟩ := List.nodup_cons.mp hn
      cases l with
      | nil =>
          rcases follows_cons.mp h with ⟨-, hq⟩ | h
          · cases hq
          · exact absurd h not_follows_nil
      | cons b l =>
          have hb : ∀ {x : α}, Follows (b :: l) x b → False := fun hf =>
            (List.nodup_cons.mp hn).1 hf.mem_tail
          rcases follows_cons.mp h with ⟨rfl, hq⟩ | h
          · cases hq
            rcases follows_cons.mp h' with ⟨rfl, -⟩ | h'
            · rfl
            · exact absurd h' hb
          · rcases follows_cons.mp h' with ⟨-, hq⟩ | h'
            · cases hq
              exact absurd h hb
            · exact ih hn h h'

/-- A front with something behind it has a successor. -/
theorem follows_front {a b : α} (l : List α) : Follows (a :: b :: l) a b := ⟨[], l, rfl⟩

/-- Every entry but the last has a successor. -/
theorem exists_follows {l : List α} {p z : α} (hz : l.getLast? = some z) (hp : p ∈ l)
    (hne : p ≠ z) : ∃ q, Follows l p q := by
  induction l with
  | nil => cases hp
  | cons a l ih =>
      cases l with
      | nil =>
          have haz : a = z := Option.some.inj hz
          exact absurd ((List.mem_singleton.mp hp).trans haz) hne
      | cons b l =>
          rcases List.mem_cons.mp hp with rfl | hp
          · exact ⟨b, follows_front l⟩
          · rw [List.getLast?_cons_cons] at hz
            obtain ⟨q, hq⟩ := ih hz hp
            exact ⟨q, follows_cons.mpr (Or.inr hq)⟩

-- ── Paths of a pointer map ───────────────────────────────────────────────────

/-- The entries visited from `s` along `next`, up to the end of the path. -/
def Path (next : α → Option α) : Option α → List α → Prop
  | s, [] => s = none
  | s, a :: l => s = some a ∧ Path next (next a) l

/-- A list whose neighbours are linked and whose last entry ends is a path. -/
theorem path_of_follows {next : α → Option α} :
    ∀ {a : α} {l : List α}, (∀ p q, Follows (a :: l) p q → next p = some q) →
      (∀ z, (a :: l).getLast? = some z → next z = none) → Path next (some a) (a :: l) := by
  intro a l
  induction l generalizing a with
  | nil =>
      intro _ hz
      exact ⟨rfl, hz a rfl⟩
  | cons b l ih =>
      intro hf hz
      refine ⟨rfl, ?_⟩
      rw [hf a b (follows_front l)]
      refine ih ?_ ?_
      · intro p q h
        exact hf p q (follows_cons.mpr (Or.inr h))
      · intro z h
        exact hz z (by rw [List.getLast?_cons_cons]; exact h)

end Succession
