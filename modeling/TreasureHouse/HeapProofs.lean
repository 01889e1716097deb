import TreasureHouse.BinaryHeapProofs
import TreasureHouse.MachineIntProofs

/-! # `container/heap.c` — the array heap and its two sifts

    The `elements` block is an array of slots; a slot that was never stored to
    holds no value.  A load or store outside the block, a load of a slot that
    holds nothing, and an overflow of `int` have no result (`none`), so a
    result is at the same time a proof that none of these happened.

    The names are the source's: `sift_down` moves a freshly pushed element
    towards the root, `sift_up` moves the element placed at the root towards
    the leaves.

    `siftDown_spec` and `siftUp_spec` say what the loops do for EVERY
    comparison function (they end, stay inside the elements they may touch and
    permute them), and what they restore when its sign goes with an order on
    the elements present (`Decides`). -/

namespace HeapC

open BinaryHeap MachineInt

variable {α : Type}

/-- `HEAP_INIT_CAP`. -/
def heapInitCap : Nat := 16

/-- `sizeof(void *)`. -/
def sizeofVoidP : Nat := 8

/-- `_heap_t`.  NULL is never stored: elements are values of `α`. -/
structure Heap (α : Type) where
  elements : Array (Option α)
  cmpFn : α → α → Int
  elemSize : Nat
  elemNum : Nat
  cap : Nat

/-- A block of `bytes` bytes from `malloc`, as pointer-sized slots. -/
def malloc (bytes : Nat) : Array (Option α) := Array.replicate (bytes / sizeofVoidP) none

/-- `realloc`, assumed to succeed: the common part is kept. -/
def realloc (elements : Array (Option α)) (bytes : Nat) : Array (Option α) :=
  elements.take (bytes / sizeofVoidP)
    ++ Array.replicate (bytes / sizeofVoidP - elements.size) none

/-- Read `elements[i]`. -/
def load (elements : Array (Option α)) (i : Nat) : Option α := (elements[i]?).join

/-- Write `elements[i]`. -/
def store (elements : Array (Option α)) (i : Nat) (v : α) : Option (Array (Option α)) :=
  if i < elements.size then some (elements.setIfInBounds i (some v)) else none

def heapCreate (cmpFn : α → α → Int) : Heap α where
  elements := malloc (sizeofVoidP * heapInitCap)
  cmpFn := cmpFn
  elemSize := sizeofVoidP
  elemNum := 0
  cap := heapInitCap

/-- The loop of `sift_down`. -/
def siftDownLoop (cmp : α → α → Int) (elements : Array (Option α)) (last : Nat) :
    Option (Array (Option α)) :=
  if 0 < last then do
    let parentPos := (last - 1) / 2
    let p ← load elements parentPos
    let tmp ← load elements last
    if cmp p tmp ≤ 0 then
      some elements
    else
      let elements ← store elements last p
      let elements ← store elements parentPos tmp
      siftDownLoop cmp elements parentPos
  else
    some elements
termination_by last
decreasing_by omega

/-- `sift_down`; a negative `int last` leaves the loop at once. -/
def siftDown (cmp : α → α → Int) (elements : Array (Option α)) (last : Int) :
    Option (Array (Option α)) :=
  siftDownLoop cmp elements last.toNat

/-- The child `sift_up` compares with: the right one when it exists and is
    strictly smaller. -/
def pickChild (cmp : α → α → Int) (elements : Array (Option α)) (last childPos : Nat) :
    Option Nat :=
  let rightPos := childPos + 1
  if rightPos < last then do
    let r ← load elements rightPos
    let c ← load elements childPos
    if cmp r c < 0 then some rightPos else some childPos
  else
    some childPos

theorem pickChild_cases {cmp : α → α → Int} {elements : Array (Option α)} {last childPos c : Nat}
    (h : pickChild cmp elements last childPos = some c) :
    c = childPos ∨ c = childPos + 1 ∧ childPos + 1 < last := by
  simp only [pickChild, Option.bind_eq_bind] at h
  split at h
  · rename_i hlt
    obtain ⟨r, -, h⟩ := Option.bind_eq_some_iff.mp h
    obtain ⟨c', -, h⟩ := Option.bind_eq_some_iff.mp h
    split at h
    · cases h
      exact Or.inr ⟨rfl, hlt⟩
    · cases h
      exact Or.inl rfl
  · cases h
    exact Or.inl rfl

/-- The loop of `sift_up`.  `(child_pos << 1) + 1` has no result beyond the
    range of `int`. -/
def siftUpLoop (cmp : α → α → Int) (elements : Array (Option α)) (last parentPos childPos : Nat) :
    Option (Array (Option α)) :=
  if childPos < last then
    match _hpick : pickChild cmp elements last childPos with
    | none => none
    | some c => do
        let tmp ← load elements c
        let p ← load elements parentPos
        if cmp tmp p ≥ 0 then
          some elements
        else
          let elements ← store elements c p
          let elements ← store elements parentPos tmp
          if 2 * c + 1 < 2 ^ 31 then siftUpLoop cmp elements last c (2 * c + 1) else none
  else
    some elements
termination_by last - childPos
decreasing_by
  have := pickChild_cases _hpick
  omega

/-- `sift_up`: overwrite the root with the element at `last`, then sift it
    towards the leaves of the first `last` slots. -/
def siftUp (cmp : α → α → Int) (elements : Array (Option α)) (last : Int) :
    Option (Array (Option α)) :=
  if last ≤ 0 then
    some elements
  else do
    let z ← load elements last.toNat
    let elements ← store elements 0 z
    siftUpLoop cmp elements last.toNat 0 1

/-- The growth step of `heap_push`: both products are of `uint32_t`. -/
def heapGrow (ht : Heap α) : Heap α :=
  if ht.cap = ht.elemNum then
    let cap := (ht.cap + heapInitCap) % 2 ^ 32
    { ht with cap := cap, elements := realloc ht.elements ((ht.elemSize * cap) % 2 ^ 32) }
  else
    ht

/-- `heap_push`; it always returns 0, so only the heap is returned here. -/
def heapPush (heap : Heap α) (elem : α) : Option (Heap α) := do
  let ht := heapGrow heap
  let elements ← store ht.elements ht.elemNum elem
  let elemNum : Nat := (ht.elemNum + 1) % 2 ^ 32
  let elements ← siftDown ht.cmpFn elements (toSigned 32 (toUnsigned 32 ((elemNum : Int) - 1)))
  some { ht with elements := elements, elemNum := elemNum }

/-- `heap_pop`: the popped pointer (NULL as `none`) and the heap after it. -/
def heapPop (ht : Heap α) : Option (Option α × Heap α) :=
  if ht.elemNum = 0 then
    some (none, ht)
  else do
    let top ← load ht.elements 0
    let elemNum := ht.elemNum - 1
    let elements ← siftUp ht.cmpFn ht.elements (toSigned 32 elemNum)
    some (some top, { ht with elements := elements, elemNum := elemNum })

def heapTop (ht : Heap α) : Option (Option α) :=
  if ht.elemNum = 0 then some none else (load ht.elements 0).map some

/-- `heap_pop` takes one element off, if there is one. -/
theorem heapPop_elemNum {ht : Heap α} {r : Option α × Heap α} (h : heapPop ht = some r) :
    r.2.elemNum = ht.elemNum - 1 := by
  rw [heapPop] at h
  by_cases h0 : ht.elemNum = 0
  · rw [if_pos h0] at h
    cases h
    show ht.elemNum = ht.elemNum - 1
    omega
  · rw [if_neg h0] at h
    obtain ⟨top, -, h⟩ := Option.bind_eq_some_iff.mp h
    obtain ⟨elements, -, h⟩ := Option.bind_eq_some_iff.mp h
    cases h
    rfl

-- ── The block as a list ──────────────────────────────────────────────────────

/-- The first slots of the block hold the list `l`. -/
def Holds (elements : Array (Option α)) (l : List α) : Prop :=
  ∀ i, i < l.length → load elements i = l[i]?

theorem Holds.load_eq {elements : Array (Option α)} {l : List α} (h : Holds elements l)
    {i : Nat} {a : α} (ha : l[i]? = some a) : load elements i = some a := by
  rw [h i (List.getElem?_eq_some_iff.mp ha).1, ha]

/-- A slot that holds a value lies inside the block. -/
theorem lt_size_of_load {elements : Array (Option α)} {i : Nat} {a : α}
    (h : load elements i = some a) : i < elements.size := by
  rw [load] at h
  by_contra hlt
  rw [Array.getElem?_eq_none (by omega)] at h
  cases h

theorem Holds.lt_size {elements : Array (Option α)} {l : List α} (h : Holds elements l)
    {i : Nat} (hi : i < l.length) : i < elements.size :=
  lt_size_of_load (h.load_eq (List.getElem?_eq_getElem hi))

/-- What a slot holds after a store. -/
theorem load_setIfInBounds {elements : Array (Option α)} {i : Nat} (hi : i < elements.size)
    (v : α) (j : Nat) :
    load (elements.setIfInBounds i (some v)) j = if j = i then some v else load elements j := by
  rw [load]
  by_cases hji : j = i
  · subst hji
    rw [if_pos rfl, Array.getElem?_setIfInBounds_self_of_lt hi]
    rfl
  · rw [if_neg hji, Array.getElem?_setIfInBounds_ne (Ne.symm hji), load]

/-- A store to an element in use updates the list. -/
theorem Holds.store_set {elements : Array (Option α)} {l : List α} (h : Holds elements l)
    {i : Nat} (hi : i < l.length) (v : α) :
    ∃ elements', store elements i v = some elements' ∧ elements'.size = elements.size
      ∧ Holds elements' (l.set i v) := by
  refine ⟨elements.setIfInBounds i (some v), if_pos (h.lt_size hi), by simp, ?_⟩
  intro j hj
  rw [load_setIfInBounds (h.lt_size hi)]
  rw [List.length_set] at hj
  by_cases hji : j = i
  · subst hji
    rw [if_pos rfl, List.getElem?_set_self hi]
  · rw [if_neg hji, List.getElem?_set_ne (Ne.symm hji)]
    exact h j hj

/-- A store to the first slot not in use appends to the list. -/
theorem Holds.store_append {elements : Array (Option α)} {l : List α} (h : Holds elements l)
    (hlt : l.length < elements.size) (v : α) :
    ∃ elements', store elements l.length v = some elements' ∧ elements'.size = elements.size
      ∧ Holds elements' (l ++ [v]) := by
  refine ⟨elements.setIfInBounds l.length (some v), if_pos hlt, by simp, ?_⟩
  intro j hj
  rw [load_setIfInBounds hlt]
  by_cases hjl : j = l.length
  · subst hjl
    rw [if_pos rfl, List.getElem?_concat_length]
  · have hj' : j < l.length := by
      rw [List.length_append, List.length_singleton] at hj
      omega
    rw [if_neg hjl, List.getElem?_append_left hj']
    exact h j hj'

/-- The two stores of an exchange. -/
theorem Holds.store_swap {elements : Array (Option α)} {l : List α} (h : Holds elements l)
    {i j : Nat} {a b : α} (hi : l[i]? = some a) (hj : l[j]? = some b) :
    ∃ e₁ e₂, store elements i b = some e₁ ∧ store e₁ j a = some e₂
      ∧ e₂.size = elements.size ∧ Holds e₂ (swapAt l i j a b) := by
  obtain ⟨hil, -⟩ := List.getElem?_eq_some_iff.mp hi
  obtain ⟨hjl, -⟩ := List.getElem?_eq_some_iff.mp hj
  obtain ⟨e₁, h₁, hs₁, hh₁⟩ := h.store_set hil b
  obtain ⟨e₂, h₂, hs₂, hh₂⟩ := hh₁.store_set (i := j) (by simpa using hjl) a
  exact ⟨e₁, e₂, h₁, h₂, by omega, hh₂⟩

/-- A prefix of what the block holds. -/
theorem Holds.take_left {elements : Array (Option α)} {l₁ l₂ : List α}
    (h : Holds elements (l₁ ++ l₂)) : Holds elements l₁ := by
  intro i hi
  rw [h i (by rw [List.length_append]; omega), List.getElem?_append_left hi]

-- ── The comparison function ──────────────────────────────────────────────────

/-- `cmp` is a total preorder read through its sign: `a ≤ b` is
    `cmp a b ≤ 0`. -/
structure LawfulCmp (cmp : α → α → Int) : Prop where
  sign_antisymm : ∀ a b, (cmp a b).sign = -(cmp b a).sign
  trans : ∀ a b c, cmp a b ≤ 0 → cmp b c ≤ 0 → cmp a c ≤ 0

/-- The order a comparison function stands for. -/
def cmpLe (cmp : α → α → Int) (a b : α) : Prop := cmp a b ≤ 0

theorem LawfulCmp.le_refl {cmp : α → α → Int} (h : LawfulCmp cmp) (a : α) : cmpLe cmp a a := by
  have := h.sign_antisymm a a
  have h0 : (cmp a a).sign = 0 := by omega
  rw [Int.sign_eq_zero_iff_zero] at h0
  exact Int.le_of_eq h0

/-- Totality, in the direction a sift uses it. -/
theorem LawfulCmp.le_of_pos {cmp : α → α → Int} (h : LawfulCmp cmp) {a b : α}
    (hab : 0 ≤ cmp a b) : cmpLe cmp b a := by
  have hs := h.sign_antisymm b a
  have h1 : 0 ≤ (cmp a b).sign := Int.sign_nonneg_iff.mpr hab
  exact Int.sign_nonpos_iff.mp (by omega)

/-- On the elements of `l` the sign of `cmp` goes with the order `le`.  A sift
    of these elements needs no more, whatever `cmp` does on others. -/
structure Decides (cmp : α → α → Int) (le : α → α → Prop) (l : List α) : Prop where
  refl : ∀ a, le a a
  trans : ∀ a b c, le a b → le b c → le a c
  of_nonpos : ∀ a ∈ l, ∀ b ∈ l, cmp a b ≤ 0 → le a b
  of_nonneg : ∀ a ∈ l, ∀ b ∈ l, 0 ≤ cmp a b → le b a

theorem LawfulCmp.decides {cmp : α → α → Int} (h : LawfulCmp cmp) (l : List α) :
    Decides cmp (cmpLe cmp) l where
  refl := h.le_refl
  trans := h.trans
  of_nonpos := fun _ _ _ _ hab => hab
  of_nonneg := fun _ _ _ _ hab => h.le_of_pos hab

/-- Fewer elements are decided too. -/
theorem Decides.sub {cmp : α → α → Int} {le : α → α → Prop} {l l' : List α}
    (h : Decides cmp le l) (hs : ∀ a ∈ l', a ∈ l) : Decides cmp le l' where
  refl := h.refl
  trans := h.trans
  of_nonpos := fun a ha b hb => h.of_nonpos a (hs a ha) b (hs b hb)
  of_nonneg := fun a ha b hb => h.of_nonneg a (hs a ha) b (hs b hb)

theorem Decides.perm {cmp : α → α → Int} {le : α → α → Prop} {l l' : List α}
    (h : Decides cmp le l) (hp : l'.Perm l) : Decides cmp le l' :=
  h.sub fun _ ha => hp.mem_iff.mp ha

-- ── The sifts ────────────────────────────────────────────────────────────────

/-- The loop of `sift_down` ends, touches only the first `last + 1` slots and
    permutes them; where the comparison decides an order the heap is
    restored. -/
theorem siftDownLoop_spec (cmp : α → α → Int) :
    ∀ (last : Nat) (elements : Array (Option α)) (l : List α),
      Holds elements l → last < l.length →
      ∃ elements' l', siftDownLoop cmp elements last = some elements'
        ∧ elements'.size = elements.size ∧ Holds elements' l' ∧ l'.Perm l
        ∧ (∀ le, Decides cmp le l → UpReady le l last → HeapOrdered le l') := by
  intro last
  induction last using Nat.strongRecOn with
  | ind last ih =>
      intro elements l hh hlt
      rw [siftDownLoop]
      by_cases h0 : 0 < last
      · rw [if_pos h0]
        have hpl : parent last < last := parent_lt h0
        have hp : l[parent last]? = some l[parent last] := List.getElem?_eq_getElem (by omega)
        have hx : l[last]? = some l[last] := List.getElem?_eq_getElem hlt
        generalize l[parent last] = p at hp
        generalize l[last] = x at hx
        have hpe : load elements ((last - 1) / 2) = some p := hh.load_eq hp
        simp only [Option.bind_eq_bind, hpe, hh.load_eq hx, Option.bind_some]
        by_cases hc : cmp p x ≤ 0
        · rw [if_pos hc]
          refine ⟨elements, l, rfl, rfl, hh, List.Perm.refl _, ?_⟩
          intro le hdec hup
          refine hup.done ?_
          intro a b _ ha hb
          rw [hp] at ha
          rw [hx] at hb
          cases ha
          cases hb
          exact hdec.of_nonpos p (List.mem_of_getElem? hp) x (List.mem_of_getElem? hx) hc
        · rw [if_neg hc]
          obtain ⟨e₁, e₂, h₁, h₂, hs, hh₂⟩ := hh.store_swap hx hp
          have h₂' : store e₁ ((last - 1) / 2) x = some e₂ := h₂
          simp only [h₁, h₂', Option.bind_some]
          obtain ⟨e', l', he', hs', hh', hperm, hord⟩ :=
            ih (parent last) hpl e₂ _ hh₂ (by rw [swapAt_length]; omega)
          refine ⟨e', l', he', by omega, hh', hperm.trans (swapAt_perm hx hp), ?_⟩
          intro le hdec hup
          have hle : le x p :=
            hdec.of_nonneg p (List.mem_of_getElem? hp) x (List.mem_of_getElem? hx) (by omega)
          exact hord le (hdec.perm (swapAt_perm hx hp)) (hup.swap hdec.trans h0 hp hx hle)
      · rw [if_neg h0]
        refine ⟨elements, l, rfl, rfl, hh, List.Perm.refl _, ?_⟩
        intro _ _ hup
        exact hup.done fun _ _ h => absurd h h0

/-- `pick_child` finds a child that no other child is below. -/
theorem pickChild_spec (cmp : α → α → Int) {elements : Array (Option α)} {l : List α}
    (hh : Holds elements l) {parentPos : Nat} (hc : 2 * parentPos + 1 < l.length) :
    ∃ c y, pickChild cmp elements l.length (2 * parentPos + 1) = some c
      ∧ 0 < c ∧ parent c = parentPos ∧ l[c]? = some y
      ∧ (∀ le, Decides cmp le l →
          ∀ d b, 0 < d → parent d = parentPos → l[d]? = some b → le y b) := by
  have hy : l[2 * parentPos + 1]? = some l[2 * parentPos + 1] := List.getElem?_eq_getElem hc
  generalize l[2 * parentPos + 1] = y at hy
  rw [pickChild]
  by_cases hr : 2 * parentPos + 1 + 1 < l.length
  · have hz : l[2 * parentPos + 1 + 1]? = some l[2 * parentPos + 1 + 1] :=
      List.getElem?_eq_getElem hr
    generalize l[2 * parentPos + 1 + 1] = z at hz
    have hym := List.mem_of_getElem? hy
    have hzm := List.mem_of_getElem? hz
    simp only [if_pos hr, Option.bind_eq_bind, hh.load_eq hz, hh.load_eq hy, Option.bind_some]
    by_cases hlt : cmp z y < 0
    · rw [if_pos hlt]
      refine ⟨_, z, rfl, by omega, parent_right parentPos, hz, ?_⟩
      intro le hdec d b hd hpd hb
      rcases child_cases hd hpd with rfl | rfl
      · rw [hy] at hb
        cases hb
        exact hdec.of_nonpos z hzm y hym (Int.le_of_lt hlt)
      · rw [hz] at hb
        cases hb
        exact hdec.refl z
    · rw [if_neg hlt]
      refine ⟨_, y, rfl, by omega, parent_left parentPos, hy, ?_⟩
      intro le hdec d b hd hpd hb
      rcases child_cases hd hpd with rfl | rfl
      · rw [hy] at hb
        cases hb
        exact hdec.refl y
      · rw [hz] at hb
        cases hb
        exact hdec.of_nonneg z hzm y hym (by omega)
  · simp only [if_neg hr]
    refine ⟨_, y, rfl, by omega, parent_left parentPos, hy, ?_⟩
    intro le hdec d b hd hpd hb
    rcases child_cases hd hpd with rfl | rfl
    · rw [hy] at hb
      cases hb
      exact hdec.refl y
    · exact absurd (List.getElem?_eq_some_iff.mp hb).1 hr

/-- The loop of `sift_up` ends, touches only the first `last` slots, does not
    overflow and permutes them; where the comparison decides an order the heap
    is restored. -/
theorem siftUpLoop_spec (cmp : α → α → Int) :
    ∀ (k parentPos : Nat) (elements : Array (Option α)) (l : List α),
      l.length - (2 * parentPos + 1) ≤ k → Holds elements l → parentPos < l.length →
      l.length ≤ 2 ^ 30 →
      ∃ elements' l',
        siftUpLoop cmp elements l.length parentPos (2 * parentPos + 1) = some elements'
        ∧ elements'.size = elements.size ∧ Holds elements' l' ∧ l'.Perm l
        ∧ (∀ le, Decides cmp le l → DownReady le l parentPos → HeapOrdered le l') := by
  intro k
  -- the distance of the child to the end shrinks with every round
  induction k with
  | zero =>
      intro parentPos elements l hk hh hp hmax
      rw [siftUpLoop, if_neg (by omega)]
      refine ⟨elements, l, rfl, rfl, hh, List.Perm.refl _, ?_⟩
      intro _ _ hdown
      refine hdown.done ?_
      intro c a b hc hpc _ hb
      have := (List.getElem?_eq_some_iff.mp hb).1
      have := child_cases hc hpc
      omega
  | succ k ih =>
      intro parentPos elements l hk hh hp hmax
      rw [siftUpLoop]
      by_cases hlt : 2 * parentPos + 1 < l.length
      · rw [if_pos hlt]
        obtain ⟨c, y, hpick, hc0, hpc, hy, hmin⟩ := pickChild_spec cmp hh hlt
        have hx : l[parentPos]? = some l[parentPos] := List.getElem?_eq_getElem hp
        generalize l[parentPos] = x at hx
        have hcl : c < l.length := (List.getElem?_eq_some_iff.mp hy).1
        have hcase := child_cases hc0 hpc
        split
        · rename_i hnone
          rw [hpick] at hnone
          cases hnone
        · rename_i c' hsome
          rw [hpick] at hsome
          cases hsome
          simp only [Option.bind_eq_bind, hh.load_eq hy, hh.load_eq hx, Option.bind_some]
          by_cases hge : cmp y x ≥ 0
          · rw [if_pos hge]
            refine ⟨elements, l, rfl, rfl, hh, List.Perm.refl _, ?_⟩
            intro le hdec hdown
            refine hdown.done ?_
            intro d a b hd hpd ha hb
            rw [hx] at ha
            cases ha
            have hle : le x y :=
              hdec.of_nonneg y (List.mem_of_getElem? hy) x (List.mem_of_getElem? hx) hge
            exact hdec.trans _ _ _ hle (hmin le hdec d b hd hpd hb)
          · rw [if_neg hge]
            obtain ⟨e₁, e₂, h₁, h₂, hs, hh₂⟩ := hh.store_swap hy hx
            simp only [h₁, h₂, Option.bind_some]
            rw [if_pos (by omega)]
            have hlen : (swapAt l c parentPos y x).length = l.length := swapAt_length ..
            obtain ⟨e', l', he', hs', hh', hperm, hord⟩ :=
              ih c e₂ (swapAt l c parentPos y x) (by omega) hh₂ (by omega) (by omega)
            rw [hlen] at he'
            refine ⟨e', l', he', by omega, hh', hperm.trans (swapAt_perm hy hx), ?_⟩
            intro le hdec hdown
            have hle : le y x :=
              hdec.of_nonpos y (List.mem_of_getElem? hy) x (List.mem_of_getElem? hx) (by omega)
            exact hord le (hdec.perm (swapAt_perm hy hx))
              (hdown.swap hc0 hpc hx hy hle (hmin le hdec))
      · rw [if_neg hlt]
        refine ⟨elements, l, rfl, rfl, hh, List.Perm.refl _, ?_⟩
        intro _ _ hdown
        refine hdown.done ?_
        intro c a b hc hpc _ hb
        have := (List.getElem?_eq_some_iff.mp hb).1
        have := child_cases hc hpc
        omega

end HeapC
