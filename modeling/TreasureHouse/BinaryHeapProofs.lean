import Mathlib.Data.List.Basic
import Mathlib.Data.Multiset.Basic

/-! # Binary heaps in level order — one-node violations and how swaps repair them

    A list is read as a complete binary tree: the parent of `i` is
    `(i - 1) / 2`.  A sift starts from a tree that is in order but for one
    node.  `UpReady` says the only bad edge enters that node, `DownReady` that
    the only bad edges leave it; both also say that the node's parent is below
    the node's children, which is what makes a swap safe.  Each swap moves the
    violation one level (`UpReady.swap`, `DownReady.swap`), and a sift that
    stops has no violation left (`UpReady.done`, `DownReady.done`).

    Entries are read as `l[i]?`, so no bound is carried around. -/

namespace BinaryHeap

variable {α : Type}

/-- The parent position in level order. -/
def parent (i : Nat) : Nat := (i - 1) / 2

theorem parent_lt {i : Nat} (h : 0 < i) : parent i < i := by
  rw [parent]
  omega

/-- The children of `p` are at `2 p + 1` and `2 p + 2`. -/
theorem child_cases {c p : Nat} (h0 : 0 < c) (h : parent c = p) :
    c = 2 * p + 1 ∨ c = 2 * p + 2 := by
  rw [parent] at h
  omega

theorem parent_left (p : Nat) : parent (2 * p + 1) = p := by
  rw [parent]
  omega

theorem parent_right (p : Nat) : parent (2 * p + 1 + 1) = p := by
  rw [parent]
  omega

/-- Exchange the entries `a` at `i` and `b` at `j`. -/
def swapAt (l : List α) (i j : Nat) (a b : α) : List α := (l.set i b).set j a

theorem swapAt_length (l : List α) (i j : Nat) (a b : α) :
    (swapAt l i j a b).length = l.length := by
  simp [swapAt]

/-- What each position holds after an exchange. -/
theorem swapAt_get {l : List α} {i j : Nat} {a b : α}
    (hi : l[i]? = some a) (hj : l[j]? = some b) (k : Nat) :
    (swapAt l i j a b)[k]? = if k = j then some a else if k = i then some b else l[k]? := by
  obtain ⟨hil, -⟩ := List.getElem?_eq_some_iff.mp hi
  obtain ⟨hjl, -⟩ := List.getElem?_eq_some_iff.mp hj
  rw [swapAt]
  by_cases hkj : k = j
  · subst hkj
    rw [if_pos rfl, List.getElem?_set_self (by simpa using hjl)]
  · rw [if_neg hkj, List.getElem?_set_ne (Ne.symm hkj)]
    by_cases hki : k = i
    · subst hki
      rw [if_pos rfl, List.getElem?_set_self hil]
    · rw [if_neg hki, List.getElem?_set_ne (Ne.symm hki)]

/-- An exchange is a permutation. -/
theorem swapAt_perm {l : List α} {i j : Nat} {a b : α}
    (hi : l[i]? = some a) (hj : l[j]? = some b) : (swapAt l i j a b).Perm l := by
  obtain ⟨hil, rfl⟩ := List.getElem?_eq_some_iff.mp hi
  obtain ⟨hjl, rfl⟩ := List.getElem?_eq_some_iff.mp hj
  exact List.set_set_perm hil hjl

section Order

variable (le : α → α → Prop)

/-- Every parent is below its children. -/
def HeapOrdered (l : List α) : Prop :=
  ∀ i a b, 0 < i → l[parent i]? = some a → l[i]? = some b → le a b

/-- The parent of `i` is below the children of `i`. -/
def GrandOrdered (l : List α) (i : Nat) : Prop :=
  ∀ c a b, 0 < i → 0 < c → parent c = i → l[parent i]? = some a → l[c]? = some b → le a b

/-- In order but for the edge that enters `i`. -/
structure UpReady (l : List α) (i : Nat) : Prop where
  except : ∀ j a b, 0 < j → j ≠ i → l[parent j]? = some a → l[j]? = some b → le a b
  grand : GrandOrdered le l i

/-- In order but for the edges that leave `i`. -/
structure DownReady (l : List α) (i : Nat) : Prop where
  except : ∀ j a b, 0 < j → parent j ≠ i → l[parent j]? = some a → l[j]? = some b → le a b
  grand : GrandOrdered le l i

variable {le}

/-- An upward sift that stops at `i` leaves a heap. -/
theorem UpReady.done {l : List α} {i : Nat} (h : UpReady le l i)
    (hstop : ∀ a b, 0 < i → l[parent i]? = some a → l[i]? = some b → le a b) :
    HeapOrdered le l := by
  intro j a b hj ha hb
  by_cases hji : j = i
  · subst hji
    exact hstop a b hj ha hb
  · exact h.except j a b hj hji ha hb

/-- A downward sift that stops at `i` leaves a heap. -/
theorem DownReady.done {l : List α} {i : Nat} (h : DownReady le l i)
    (hstop : ∀ c a b, 0 < c → parent c = i → l[i]? = some a → l[c]? = some b → le a b) :
    HeapOrdered le l := by
  intro j a b hj ha hb
  by_cases hji : parent j = i
  · rw [hji] at ha
    exact hstop j a b hj hji ha hb
  · exact h.except j a b hj hji ha hb

/-- Swapping a node with its larger parent moves the violation to the parent. -/
theorem UpReady.swap (htrans : ∀ a b c, le a b → le b c → le a c) {l : List α} {i : Nat}
    {p x : α} (h : UpReady le l i) (hi : 0 < i) (hp : l[parent i]? = some p)
    (hx : l[i]? = some x) (hle : le x p) :
    UpReady le (swapAt l i (parent i) x p) (parent i) := by
  have hlt : parent i < i := parent_lt hi
  constructor
  · intro j a b hj hji ha hb
    rw [swapAt_get hx hp] at ha hb
    rw [if_neg hji] at hb
    by_cases hpj : parent j = parent i
    · rw [if_pos hpj] at ha
      cases ha
      by_cases hj' : j = i
      · rw [if_pos hj'] at hb
        cases hb
        exact hle
      · rw [if_neg hj'] at hb
        -- a sibling of `i`: above the old parent, hence above `x`
        exact htrans _ _ _ hle (h.except j p b hj hj' (hpj ▸ hp) hb)
    · rw [if_neg hpj] at ha
      by_cases hj' : j = i
      · exact absurd (congrArg parent hj') hpj
      · rw [if_neg hj'] at hb
        by_cases hpi : parent j = i
        · rw [if_pos hpi] at ha
          cases ha
          exact h.grand j p b hi hj hpi hp hb
        · rw [if_neg hpi] at ha
          exact h.except j a b hj hj' ha hb
  · intro c a b hp0 hc hcp ha hb
    have hgp : parent (parent i) < parent i := parent_lt hp0
    rw [swapAt_get hx hp] at ha hb
    rw [if_neg (by omega), if_neg (by omega)] at ha
    have hap : le a p := h.except (parent i) a p hp0 (by omega) ha hp
    have hcp' : parent c < c := parent_lt hc
    rw [if_neg (by omega)] at hb
    by_cases hci : c = i
    · rw [if_pos hci] at hb
      cases hb
      exact hap
    · rw [if_neg hci] at hb
      exact htrans _ _ _ hap (h.except c p b hc hci (hcp ▸ hp) hb)

/-- Swapping a node with its smallest child moves the violation to that
    child. -/
theorem DownReady.swap {l : List α} {i c : Nat} {x y : α} (h : DownReady le l i)
    (hc : 0 < c) (hci : parent c = i) (hx : l[i]? = some x) (hy : l[c]? = some y)
    (hle : le y x)
    (hmin : ∀ d b, 0 < d → parent d = i → l[d]? = some b → le y b) :
    DownReady le (swapAt l c i y x) c := by
  have hlt : i < c := hci ▸ parent_lt hc
  constructor
  · intro j a b hj hjc ha hb
    have hpj : parent j < j := parent_lt hj
    rw [swapAt_get hy hx] at ha hb
    by_cases hji : j = i
    · rw [if_pos hji] at hb
      cases hb
      rw [if_neg (by omega), if_neg (by omega)] at ha
      subst hji
      exact h.grand c a y hj hc hci ha hy
    · rw [if_neg hji] at hb
      rw [if_neg hjc] at ha
      by_cases hpi : parent j = i
      · rw [if_pos hpi] at ha
        cases ha
        by_cases hjc' : j = c
        · rw [if_pos hjc'] at hb
          cases hb
          exact hle
        · rw [if_neg hjc'] at hb
          exact hmin j b hj hpi hb
      · rw [if_neg hpi] at ha
        rw [if_neg (by rintro rfl; exact hpi hci)] at hb
        exact h.except j a b hj hpi ha hb
  · intro d a b _ hd hdc ha hb
    have hpd : parent d < d := parent_lt hd
    rw [swapAt_get hy hx] at ha hb
    rw [if_pos hci] at ha
    cases ha
    rw [if_neg (by omega), if_neg (by omega)] at hb
    exact h.except d y b hd (by omega) (hdc ▸ hy) hb

/-- The root is below every entry: follow the parents up to position `0`. -/
theorem HeapOrdered.root_le (hrefl : ∀ a, le a a)
    (htrans : ∀ a b c, le a b → le b c → le a c) {l : List α} (h : HeapOrdered le l)
    {r : α} (hr : l[0]? = some r) : ∀ b ∈ l, le r b := by
  have key : ∀ (i : Nat) (b : α), l[i]? = some b → le r b := by
    intro i
    induction i using Nat.strongRecOn with
    | ind i ih =>
        intro b hb
        by_cases hi : i = 0
        · subst hi
          rw [hr] at hb
          cases hb
          exact hrefl r
        · have hlt : parent i < i := parent_lt (by omega)
          obtain ⟨hil, -⟩ := List.getElem?_eq_some_iff.mp hb
          have hp : l[parent i]? = some (l[parent i]) := List.getElem?_eq_getElem (by omega)
          exact htrans _ _ _ (ih (parent i) hlt _ hp) (h i _ b (by omega) hp hb)
  intro b hb
  obtain ⟨i, hi⟩ := List.mem_iff_getElem?.mp hb
  exact key i b hi

/-- Appending one entry to a heap leaves it ready to sift that entry up. -/
theorem HeapOrdered.append {l : List α} (h : HeapOrdered le l) (x : α) :
    UpReady le (l ++ [x]) l.length := by
  constructor
  · intro j a b hj hne ha hb
    have hjl : j < (l ++ [x]).length := (List.getElem?_eq_some_iff.mp hb).1
    have hlt : j < l.length := by
      rw [List.length_append] at hjl
      simp only [List.length_cons, List.length_nil] at hjl
      omega
    have hpl : parent j < l.length := Nat.lt_trans (parent_lt hj) hlt
    rw [List.getElem?_append_left hpl] at ha
    rw [List.getElem?_append_left hlt] at hb
    exact h j a b hj ha hb
  · intro c a b _ hc hcp _ hb
    have hcl : c < (l ++ [x]).length := (List.getElem?_eq_some_iff.mp hb).1
    have := parent_lt hc
    simp only [List.length_append, List.length_cons, List.length_nil] at hcl
    omega

/-- Dropping the last entry and overwriting the root leaves a heap ready to
    sift the root down. -/
theorem HeapOrdered.replace_root {a z : α} {l : List α} (h : HeapOrdered le (a :: l ++ [z])) :
    DownReady le (z :: l) 0 := by
  constructor
  · intro j u v hj hpj hu hv
    obtain ⟨j', rfl⟩ := Nat.exists_eq_succ_of_ne_zero (Nat.pos_iff_ne_zero.mp hj)
    obtain ⟨p', hp'⟩ := Nat.exists_eq_succ_of_ne_zero hpj
    have hlt : parent (j' + 1) < j' + 1 := parent_lt hj
    refine h (j' + 1) u v hj ?_ ?_
    · rw [hp'] at hu ⊢
      rw [List.getElem?_append_left (by
        have := (List.getElem?_eq_some_iff.mp hu).1
        simpa using this)]
      simpa using hu
    · rw [List.getElem?_append_left (by
        have := (List.getElem?_eq_some_iff.mp hv).1
        simpa using this)]
      simpa using hv
  · intro c u v h0
    exact absurd h0 (Nat.lt_irrefl 0)

end Order

end BinaryHeap
