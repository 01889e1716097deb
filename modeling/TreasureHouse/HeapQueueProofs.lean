import TreasureHouse.HeapProofs
import Mathlib.Data.List.ReduceOption
import Mathlib.Data.Multiset.Basic
import Mathlib.Data.Multiset.ZeroCons

/-! # The heap is a priority queue

    The abstract object is a multiset of the elements pushed and not yet
    popped, with the operations of a priority queue (`PqStep`).  `HeapRep` ties
    the C structure to the list its slots hold; `heapPush_spec` and
    `heapPop_spec` are what one call does to that list, for every comparison
    function, and `heapStep_refines` turns a call under a lawful comparison
    into one abstract step.  The run result is the induction over the calls. -/

namespace HeapQueue

open BinaryHeap MachineInt HeapC

variable {α : Type}

/-- The calls a client makes.  `heap_push` takes a non-NULL element. -/
inductive HeapOp (α : Type) where
  | push (elem : α)
  | pop
  | top

/-- One call: the pointer it returns (NULL as `none`; `heap_push` returns no
    pointer) and the heap after it. -/
def heapStep (ht : Heap α) : HeapOp α → Option (Option α × Heap α)
  | .push elem => (heapPush ht elem).map fun ht' => (none, ht')
  | .pop => heapPop ht
  | .top => (heapTop ht).map fun a => (a, ht)

/-- A sequence of calls, with the pointers returned. -/
def heapRun : Heap α → List (HeapOp α) → Option (List (Option α) × Heap α)
  | ht, [] => some ([], ht)
  | ht, op :: ops => do
      let (out, ht) ← heapStep ht op
      let (outs, ht) ← heapRun ht ops
      some (out :: outs, ht)

/-- The elements in the first `elem_num` slots. -/
def contents (ht : Heap α) : Multiset α :=
  ((ht.elements.toList.take ht.elemNum).reduceOption : List α)

-- ── The abstract priority queue ──────────────────────────────────────────────

/-- One operation of a priority queue over a multiset: what it returns and
    which multiset it leaves. -/
inductive PqStep (le : α → α → Prop) : Multiset α → HeapOp α → Option α → Multiset α → Prop where
  | push (m : Multiset α) (a : α) : PqStep le m (.push a) none (a ::ₘ m)
  | popNull : PqStep le 0 .pop none 0
  | pop (m : Multiset α) (a : α) : (∀ b ∈ a ::ₘ m, le a b) → PqStep le (a ::ₘ m) .pop (some a) m
  | topNull : PqStep le 0 .top none 0
  | top (m : Multiset α) (a : α) : a ∈ m → (∀ b ∈ m, le a b) → PqStep le m .top (some a) m

/-- A sequence of priority queue operations. -/
inductive PqRun (le : α → α → Prop) :
    Multiset α → List (HeapOp α) → List (Option α) → Multiset α → Prop where
  | nil (m : Multiset α) : PqRun le m [] [] m
  | cons {m m' m'' : Multiset α} {op : HeapOp α} {ops : List (HeapOp α)} {out : Option α}
      {outs : List (Option α)} : PqStep le m op out m' → PqRun le m' ops outs m'' →
      PqRun le m (op :: ops) (out :: outs) m''

/-- How many elements are present after a call on a queue of `n`. -/
def presentAfter (n : Nat) : HeapOp α → Nat
  | .push _ => n + 1
  | .pop => n - 1
  | .top => n

/-- At most `b` elements are present at any time of a sequence of calls that
    starts with `n`. -/
def BoundedBy (b : Nat) : Nat → List (HeapOp α) → Prop
  | n, [] => n ≤ b
  | n, op :: ops => n ≤ b ∧ BoundedBy b (presentAfter n op) ops

theorem BoundedBy.head {b n : Nat} {ops : List (HeapOp α)} (h : BoundedBy b n ops) : n ≤ b := by
  cases ops with
  | nil => exact h
  | cons op ops => exact h.1

-- ── The C structure ──────────────────────────────────────────────────────────

/-- The most elements a heap has room for: the next growth step would ask
    `realloc` for 2^32 bytes, which is 0 as a `uint32_t`. -/
def heapRoom : Nat := 2 ^ 29 - heapInitCap

/-- The heap holds the list `l`, in a block of `cap` slots. -/
structure HeapRep (ht : Heap α) (l : List α) : Prop where
  num : ht.elemNum = l.length
  holds : Holds ht.elements l
  elem_size : ht.elemSize = sizeofVoidP
  block : ht.elements.size = ht.cap
  num_le_cap : ht.elemNum ≤ ht.cap
  cap_le : ht.cap ≤ heapRoom
  cap_mod : ht.cap % heapInitCap = 0

theorem heapCreate_rep (cmp : α → α → Int) : HeapRep (heapCreate cmp) ([] : List α) where
  num := rfl
  holds := fun _ h => absurd h (Nat.not_lt_zero _)
  elem_size := rfl
  block := Array.size_replicate
  num_le_cap := Nat.zero_le _
  cap_le := by
    show heapInitCap ≤ heapRoom
    decide
  cap_mod := Nat.mod_self _

/-- A represented heap holds no more than there is room for. -/
theorem HeapRep.length_le {ht : Heap α} {l : List α} (h : HeapRep ht l) : l.length ≤ heapRoom := by
  have h1 := h.num
  have h2 := h.num_le_cap
  have h3 := h.cap_le
  omega

/-- The multiset of a represented heap is the list's. -/
theorem HeapRep.contents_eq {ht : Heap α} {l : List α} (h : HeapRep ht l) :
    contents ht = (l : Multiset α) := by
  have hmap : ht.elements.toList.take ht.elemNum = l.map some := by
    refine List.ext_getElem? ?_
    intro i
    rw [h.num, List.getElem?_take, List.getElem?_map]
    by_cases hi : i < l.length
    · rw [if_pos hi, Array.getElem?_toList]
      have hl := h.holds i hi
      rw [List.getElem?_eq_getElem hi] at hl ⊢
      rw [load, Option.join_eq_some_iff] at hl
      rw [hl]
      rfl
    · rw [if_neg hi, List.getElem?_eq_none (by omega)]
      rfl
  rw [contents, hmap]
  simp [List.reduceOption]

/-- Growing the block keeps what it holds. -/
theorem Holds.realloc {elements : Array (Option α)} {l : List α} (h : Holds elements l)
    {bytes : Nat} (hle : elements.size ≤ bytes / sizeofVoidP) :
    Holds (HeapC.realloc elements bytes) l := by
  intro i hi
  have hlt : i < elements.size := h.lt_size hi
  rw [← h i hi, HeapC.realloc, load, load]
  rw [Array.getElem?_append_left (by simp; omega)]
  rw [Array.take_eq_extract, Array.getElem?_extract_of_lt (by omega), Array.getElem?_eq_getElem hlt]
  simp

theorem realloc_size (elements : Array (Option α)) {bytes : Nat}
    (hle : elements.size ≤ bytes / sizeofVoidP) :
    (HeapC.realloc elements bytes).size = bytes / sizeofVoidP := by
  rw [HeapC.realloc]
  simp
  omega

/-- The growth step makes room for one element and keeps the rest. -/
theorem HeapRep.grow {ht : Heap α} {l : List α} (h : HeapRep ht l) (hlt : l.length < heapRoom) :
    HeapRep (heapGrow ht) l ∧ l.length < (heapGrow ht).cap
      ∧ (heapGrow ht).cmpFn = ht.cmpFn := by
  have hnum := h.num
  have hle := h.num_le_cap
  have hblock := h.block
  have hmod := h.cap_mod
  have hcaple := h.cap_le
  rw [heapRoom, heapInitCap] at hlt hcaple
  rw [heapInitCap] at hmod
  rw [heapGrow]
  by_cases hfull : ht.cap = ht.elemNum
  · rw [if_pos hfull]
    have hcap : (ht.cap + heapInitCap) % 2 ^ 32 = ht.cap + 16 := by
      rw [heapInitCap]
      omega
    have hbytes : (ht.elemSize * (ht.cap + 16)) % 2 ^ 32 / sizeofVoidP = ht.cap + 16 := by
      rw [h.elem_size, sizeofVoidP]
      omega
    simp only [hcap]
    refine ⟨?_, by omega, trivial⟩
    exact {
      num := h.num
      holds := Holds.realloc h.holds (by omega)
      elem_size := h.elem_size
      block := (realloc_size _ (by omega)).trans hbytes
      num_le_cap := Nat.le_trans hle (Nat.le_add_right _ _)
      cap_le := by
        show ht.cap + 16 ≤ heapRoom
        rw [heapRoom, heapInitCap]
        omega
      cap_mod := by
        show (ht.cap + 16) % heapInitCap = 0
        rw [heapInitCap]
        omega }
  · rw [if_neg hfull]
    exact ⟨h, by omega, rfl⟩

/-- `heap_push` up to the sift: the element is in the first slot not in use,
    and what is left is the loop. -/
theorem heapPush_eq {ht : Heap α} {l : List α} (h : HeapRep ht l) (hlt : l.length < heapRoom)
    (elem : α) :
    ∃ e₁, Holds e₁ (l ++ [elem])
      ∧ heapPush ht elem = (siftDownLoop ht.cmpFn e₁ l.length).map
          (fun e => { heapGrow ht with elements := e, elemNum := l.length + 1 })
      ∧ ∀ (e : Array (Option α)) (l' : List α), e.size = e₁.size → Holds e l' →
          l'.length = l.length + 1 →
          HeapRep { heapGrow ht with elements := e, elemNum := l.length + 1 } l' := by
  obtain ⟨hg, hroom, hcmp⟩ := h.grow hlt
  obtain ⟨e₁, hstore, hs₁, hh₁⟩ := hg.holds.store_append (by rw [hg.block]; exact hroom) elem
  rw [heapRoom, heapInitCap] at hlt
  have hnum : (l.length + 1) % 2 ^ 32 = l.length + 1 := Nat.mod_eq_of_lt (by omega)
  have hlast : toSigned 32 (toUnsigned 32 (((l.length + 1 : Nat) : Int) - 1)) = l.length := by
    rw [show ((l.length + 1 : Nat) : Int) - 1 = (l.length : Int) by omega,
      toUnsigned_natCast (by omega), toSigned_natCast (by omega) (by omega)]
  refine ⟨e₁, hh₁, ?_, ?_⟩
  · rw [heapPush, ← hcmp]
    simp only [hg.num, hstore, Option.bind_eq_bind, Option.bind_some, hnum, hlast, siftDown,
      Int.toNat_natCast, Option.map_eq_bind]
    rfl
  · intro e l' hsize hh hlen
    exact {
      num := hlen.symm
      holds := hh
      elem_size := hg.elem_size
      block := (hsize.trans hs₁).trans hg.block
      num_le_cap := hroom
      cap_le := hg.cap_le
      cap_mod := hg.cap_mod }

/-- **PUSH**: one element more, for every comparison function; one that decides
    an order on the elements keeps the heap order. -/
theorem heapPush_spec {ht : Heap α} {l : List α} (h : HeapRep ht l) (hlt : l.length < heapRoom)
    (elem : α) :
    ∃ ht' l', heapPush ht elem = some ht' ∧ HeapRep ht' l' ∧ ht'.cmpFn = ht.cmpFn
      ∧ l'.Perm (elem :: l)
      ∧ (∀ le, Decides ht.cmpFn le (elem :: l) → HeapOrdered le l → HeapOrdered le l') := by
  obtain ⟨-, -, hcmp⟩ := h.grow hlt
  obtain ⟨e₁, hh₁, heq, hrep⟩ := heapPush_eq h hlt elem
  have hlen : (l ++ [elem]).length = l.length + 1 := by simp
  have happ : (l ++ [elem]).Perm (elem :: l) := List.perm_append_singleton elem l
  obtain ⟨e₂, l', hsift, hs₂, hh₂, hperm, hord⟩ :=
    siftDownLoop_spec ht.cmpFn l.length e₁ (l ++ [elem]) hh₁ (by omega)
  have hl' : l'.length = l.length + 1 := by rw [hperm.length_eq, hlen]
  refine ⟨_, l', by rw [heq, hsift]; rfl, hrep e₂ l' hs₂ hh₂ hl', hcmp, hperm.trans happ, ?_⟩
  intro le hdec ho
  exact hord le (hdec.perm happ) (ho.append elem)

/-- A push below a parent that the comparison does not put above it. -/
theorem heapPush_stays {ht : Heap α} {l : List α} (h : HeapRep ht l) (hlt : l.length < heapRoom)
    {p elem : α} (h0 : 0 < l.length) (hp : l[parent l.length]? = some p)
    (hcmp : ht.cmpFn p elem ≤ 0) :
    ∃ ht', heapPush ht elem = some ht' ∧ HeapRep ht' (l ++ [elem]) := by
  obtain ⟨e₁, hh₁, heq, hrep⟩ := heapPush_eq h hlt elem
  have hpl : parent l.length < l.length := parent_lt h0
  have hpe : load e₁ ((l.length - 1) / 2) = some p := by
    refine hh₁.load_eq ?_
    show (l ++ [elem])[parent l.length]? = some p
    rw [List.getElem?_append_left hpl]
    exact hp
  have hxe : load e₁ l.length = some elem := hh₁.load_eq List.getElem?_concat_length
  have hsift : siftDownLoop ht.cmpFn e₁ l.length = some e₁ := by
    rw [siftDownLoop, if_pos h0]
    simp only [Option.bind_eq_bind, hpe, hxe, Option.bind_some]
    rw [if_pos hcmp]
  exact ⟨_, by rw [heq, hsift]; rfl, hrep e₁ _ rfl hh₁ (by simp)⟩

/-- A heap with all the elements there is room for asks for 2^32 bytes, which
    is 0 as a `uint32_t`. -/
theorem heapGrow_full {ht : Heap α} {l : List α} (h : HeapRep ht l)
    (hfull : l.length = heapRoom) : (heapGrow ht).elements.size = 0 := by
  have hnum := h.num
  have hle := h.num_le_cap
  have hcaple := h.cap_le
  have hcap : ht.cap = ht.elemNum := by omega
  have hbytes : (ht.elemSize * ((ht.cap + heapInitCap) % 2 ^ 32)) % 2 ^ 32 = 0 := by
    rw [h.elem_size, hcap, hnum, hfull]
    rfl
  rw [heapGrow, if_pos hcap]
  simp only [hbytes, HeapC.realloc]
  simp

/-- Past the last element there is room for, the store of a push is outside the
    block. -/
theorem heapPush_full {ht : Heap α} {l : List α} (h : HeapRep ht l) (hfull : l.length = heapRoom)
    (elem : α) : heapPush ht elem = none := by
  have hstore : ∀ i, store (heapGrow ht).elements i elem = none := by
    intro i
    rw [store, heapGrow_full h hfull]
    exact if_neg (Nat.not_lt_zero i)
  rw [heapPush, Option.bind_eq_bind, hstore, Option.bind_none]

/-- A push that has a result had room. -/
theorem HeapRep.room {ht ht' : Heap α} {l : List α} (h : HeapRep ht l) {elem : α}
    (hpush : heapPush ht elem = some ht') : l.length < heapRoom := by
  refine Nat.lt_of_le_of_ne h.length_le fun hfull => ?_
  rw [heapPush_full h hfull] at hpush
  cases hpush

/-- What a push that has a result did. -/
theorem heapPush_some {ht ht' : Heap α} {l : List α} (h : HeapRep ht l) {elem : α}
    (hpush : heapPush ht elem = some ht') :
    ∃ l', HeapRep ht' l' ∧ ht'.cmpFn = ht.cmpFn ∧ l'.Perm (elem :: l)
      ∧ (∀ le, Decides ht.cmpFn le (elem :: l) → HeapOrdered le l → HeapOrdered le l') := by
  obtain ⟨ht₁, l', hpush₁, hdid⟩ := heapPush_spec h (h.room hpush) elem
  rw [hpush] at hpush₁
  cases hpush₁
  exact ⟨l', hdid⟩

/-- **POP**: the root leaves, everything else stays, for every comparison
    function; one that decides an order on the elements keeps the heap order. -/
theorem heapPop_spec {ht : Heap α} {a : α} {l : List α} (h : HeapRep ht (a :: l)) :
    ∃ ht' l', heapPop ht = some (some a, ht') ∧ HeapRep ht' l' ∧ ht'.cmpFn = ht.cmpFn
      ∧ l'.Perm l
      ∧ (∀ le, Decides ht.cmpFn le (a :: l) → HeapOrdered le (a :: l) → HeapOrdered le l') := by
  have hnum : ht.elemNum = l.length + 1 := h.num
  have hle : l.length + 1 ≤ 2 ^ 29 - 16 := h.length_le
  have htop : load ht.elements 0 = some a := h.holds.load_eq rfl
  rw [heapPop]
  rw [if_neg (by omega)]
  have hsub : ht.elemNum - 1 = l.length := by omega
  have hlast : toSigned 32 ((ht.elemNum - 1 : Nat) : Int) = (l.length : Int) := by
    rw [hsub, toSigned_natCast (by omega) (by omega)]
  simp only [Option.bind_eq_bind, htop, Option.bind_some, hlast]
  have hcap := h.num_le_cap
  rw [siftUp]
  by_cases hl : l = []
  · subst hl
    rw [if_pos (by simp)]
    refine ⟨_, [], rfl, ?_, rfl, List.Perm.refl _, ?_⟩
    · exact {
        num := hsub
        holds := fun _ hi => absurd hi (Nat.not_lt_zero _)
        elem_size := h.elem_size
        block := h.block
        num_le_cap := Nat.le_trans (Nat.sub_le _ _) h.num_le_cap
        cap_le := h.cap_le
        cap_mod := h.cap_mod }
    · intro _ _ _ i u v _ hu _
      cases hu
  · -- the last element replaces the root, and the stale last slot is left out
    obtain ⟨t, z, rfl⟩ := l.eq_nil_or_concat'.resolve_left hl
    have hlen : (t ++ [z]).length = t.length + 1 := by simp
    have hz : load ht.elements (t.length + 1) = some z :=
      h.holds.load_eq (by simp)
    have hfull : Holds ht.elements ((a :: t) ++ [z]) := h.holds
    have hpre : Holds ht.elements (a :: t) := hfull.take_left
    obtain ⟨e₁, hstore, hs₁, hh₁⟩ := hpre.store_set (i := 0) (by simp) z
    have hh₁' : Holds e₁ (z :: t) := hh₁
    obtain ⟨e₂, l', hsift, hs₂, hh₂, hperm, hord⟩ :=
      siftUpLoop_spec ht.cmpFn (t.length + 1) 0 e₁ (z :: t) (by simp) hh₁' (by simp)
        (by simp only [List.length_cons]; omega)
    rw [List.length_cons, Nat.mul_zero, Nat.zero_add] at hsift
    have hl' : l'.length = t.length + 1 := hperm.length_eq
    rw [if_neg (by omega)]
    simp only [hlen, Option.bind_eq_bind, Int.toNat_natCast, hz, Option.bind_some, hstore, hsift]
    have hblock := h.block
    refine ⟨_, l', rfl, ?_, rfl, ?_, ?_⟩
    · exact {
        num := (hsub.trans hlen).trans hl'.symm
        holds := hh₂
        elem_size := h.elem_size
        block := (hs₂.trans hs₁).trans h.block
        num_le_cap := Nat.le_trans (Nat.sub_le _ _) h.num_le_cap
        cap_le := h.cap_le
        cap_mod := h.cap_mod }
    · exact hperm.trans (List.perm_append_singleton z t).symm
    · intro le hdec ho
      have hsub' : ∀ b ∈ z :: t, b ∈ a :: (t ++ [z]) := by
        intro b hb
        rw [List.mem_cons, List.mem_append, List.mem_singleton]
        rcases List.mem_cons.mp hb with hb | hb
        · exact Or.inr (Or.inr hb)
        · exact Or.inr (Or.inl hb)
      have ho' : HeapOrdered le (a :: t ++ [z]) := by simpa using ho
      exact hord le (hdec.sub hsub') ho'.replace_root

/-- The root of a lawful heap is below everything in it. -/
theorem root_min {cmp : α → α → Int} (hlaw : LawfulCmp cmp) {a : α} {l : List α}
    (ho : HeapOrdered (cmpLe cmp) (a :: l)) : ∀ b ∈ a :: l, cmpLe cmp a b :=
  ho.root_le hlaw.le_refl hlaw.trans rfl

/-- **REFINEMENT STEP**: a call on a represented, ordered heap is one step of
    the priority queue over the multiset it holds. -/
theorem heapStep_refines {cmp : α → α → Int} (hlaw : LawfulCmp cmp) {ht : Heap α} {l : List α}
    (hcmp : ht.cmpFn = cmp) (h : HeapRep ht l) (ho : HeapOrdered (cmpLe cmp) l)
    (op : HeapOp α) (hb : presentAfter l.length op ≤ 2 ^ 28) :
    ∃ out ht' l', heapStep ht op = some (out, ht') ∧ ht'.cmpFn = cmp ∧ HeapRep ht' l'
      ∧ HeapOrdered (cmpLe cmp) l' ∧ l'.length = presentAfter l.length op
      ∧ PqStep (cmpLe cmp) (l : Multiset α) op out (l' : Multiset α) := by
  cases op with
  | push elem =>
      obtain ⟨ht', l', hpush, hrep, hc, hperm, hord⟩ :=
        heapPush_spec h (Nat.lt_of_lt_of_le hb (by decide)) elem
      have hm : (l' : Multiset α) = elem ::ₘ (l : Multiset α) := Multiset.coe_eq_coe.mpr hperm
      rw [hcmp] at hord
      refine ⟨none, ht', l', by rw [heapStep, hpush]; rfl, hc.trans hcmp, hrep,
        hord _ (hlaw.decides _) ho, hperm.length_eq, ?_⟩
      rw [hm]
      exact PqStep.push _ _
  | pop =>
      cases l with
      | nil =>
          refine ⟨none, ht, [], ?_, hcmp, h, ho, rfl, PqStep.popNull⟩
          have h0 : ht.elemNum = 0 := h.num
          rw [heapStep, heapPop, if_pos h0]
      | cons a l =>
          obtain ⟨ht', l', hpop, hrep, hc, hperm, hord⟩ := heapPop_spec h
          have hm : (l' : Multiset α) = (l : Multiset α) := Multiset.coe_eq_coe.mpr hperm
          rw [hcmp] at hord
          refine ⟨some a, ht', l', hpop, hc.trans hcmp, hrep, hord _ (hlaw.decides _) ho,
            hperm.length_eq, ?_⟩
          rw [hm]
          exact PqStep.pop (l : Multiset α) a fun b hb =>
            root_min hlaw ho b (Multiset.mem_coe.mp hb)
  | top =>
      cases l with
      | nil =>
          refine ⟨none, ht, [], ?_, hcmp, h, ho, rfl, PqStep.topNull⟩
          have h0 : ht.elemNum = 0 := h.num
          rw [heapStep, heapTop, if_pos h0]
          rfl
      | cons a l =>
          refine ⟨some a, ht, a :: l, ?_, hcmp, h, ho, rfl, PqStep.top _ _ (by simp) ?_⟩
          · rw [heapStep, heapTop, if_neg (by rw [h.num]; simp),
              h.holds.load_eq (a := a) rfl]
            rfl
          · exact fun b hb => root_min hlaw ho b (Multiset.mem_coe.mp hb)

/-- The refinement along a sequence of calls. -/
theorem heapRun_refines {cmp : α → α → Int} (hlaw : LawfulCmp cmp) :
    ∀ (ops : List (HeapOp α)) (ht : Heap α) (l : List α), ht.cmpFn = cmp → HeapRep ht l →
      HeapOrdered (cmpLe cmp) l → BoundedBy (2 ^ 28) l.length ops →
      ∃ outs ht' l', heapRun ht ops = some (outs, ht') ∧ HeapRep ht' l'
        ∧ PqRun (cmpLe cmp) (l : Multiset α) ops outs (l' : Multiset α) := by
  intro ops
  induction ops with
  | nil =>
      intro ht l _ h _ _
      exact ⟨[], ht, l, rfl, h, PqRun.nil _⟩
  | cons op ops ih =>
      intro ht l hcmp h ho hb
      obtain ⟨out, ht₁, l₁, hstep, hcmp₁, h₁, ho₁, hlen₁, hpq⟩ :=
        heapStep_refines hlaw hcmp h ho op hb.2.head
      obtain ⟨outs, ht₂, l₂, hrun, h₂, hpqs⟩ := ih ht₁ l₁ hcmp₁ h₁ ho₁ (hlen₁ ▸ hb.2)
      refine ⟨out :: outs, ht₂, l₂, ?_, h₂, PqRun.cons hpq hpqs⟩
      simp only [heapRun, hstep, hrun, Option.bind_eq_bind, Option.bind_some]

/-- **THE HEAP IS A PRIORITY QUEUE**: under a lawful comparison, every sequence
    of calls on a fresh heap that keeps at most 2^28 elements present runs to
    its end, and what it returns and leaves is a run of the priority queue over
    the multiset of elements present. -/
theorem heap_is_priority_queue (cmp : α → α → Int) (hlaw : LawfulCmp cmp)
    (ops : List (HeapOp α)) (hb : BoundedBy (2 ^ 28) 0 ops) :
    ∃ outs ht, heapRun (heapCreate cmp) ops = some (outs, ht)
      ∧ PqRun (cmpLe cmp) 0 ops outs (contents ht) := by
  obtain ⟨outs, ht, l, hrun, hrep, hpq⟩ :=
    heapRun_refines hlaw ops (heapCreate cmp) [] rfl (heapCreate_rep cmp)
      (fun i u v _ hu _ => by cases hu) hb
  exact ⟨outs, ht, hrun, by rw [hrep.contents_eq]; exact hpq⟩

/-- Subtraction of integers is a lawful comparison. -/
theorem lawfulCmp_sub : LawfulCmp (fun a b : Int => a - b) where
  sign_antisymm := by
    intro a b
    show (a - b).sign = -(b - a).sign
    rw [← Int.sign_neg, show -(b - a) = a - b by omega]
  trans := by
    intro a b c hab hbc
    show a - c ≤ 0
    omega

theorem heap_is_priority_queue_sub :
    LawfulCmp (fun a b : Int => a - b)
      ∧ BoundedBy (2 ^ 28) 0 [HeapOp.push (10 : Int), .push 2, .pop, .top]
      ∧ ∃ outs ht, heapRun (heapCreate fun a b : Int => a - b) [.push 10, .push 2, .pop, .top]
          = some (outs, ht)
        ∧ PqRun (cmpLe fun a b : Int => a - b) 0 [.push 10, .push 2, .pop, .top] outs
          (contents ht) := by
  have hb : BoundedBy (2 ^ 28) 0 [HeapOp.push (10 : Int), .push 2, .pop, .top] := by
    simp [BoundedBy, presentAfter]
  exact ⟨lawfulCmp_sub, hb, heap_is_priority_queue _ lawfulCmp_sub _ hb⟩

end HeapQueue
