import TreasureHouse.HeapQueueProofs

/-! # `container/heap.c` — what the block is good for

    Two questions about memory, apart from any order on the elements:

    * the sifts for a comparison function about which nothing is known (the
      timer comparison narrows a difference and is no order): they end, touch
      only the elements and permute them (`heap_memory_safe`);
    * the growth step, whose byte count is a product of two `uint32_t`: the
      block is large enough as long as at most `heapRoom` elements are ever
      present, and no longer (`buffer_holds_iff`). -/

namespace HeapBounds

open HeapC HeapQueue

variable {α : Type}

-- ── Only the first slots are touched ─────────────────────────────────────────

/-- A load that has a result has the same one in a longer block. -/
theorem load_append {e : Array (Option α)} {i : Nat} {a : α} (h : load e i = some a)
    (r : Array (Option α)) : load (e ++ r) i = some a := by
  have hi : i < e.size := lt_size_of_load h
  rw [load, Array.getElem?_append_left hi]
  exact h

/-- A store inside a block leaves what lies behind it as it is. -/
theorem store_append {e e' : Array (Option α)} {i : Nat} {v : α} (h : store e i v = some e')
    (r : Array (Option α)) : store (e ++ r) i v = some (e' ++ r) := by
  rw [store] at h
  by_cases hi : i < e.size
  · rw [if_pos hi] at h
    cases h
    have hlt : i < (e ++ r).size := by
      rw [Array.size_append]
      omega
    rw [store, if_pos hlt, Array.setIfInBounds_append_left hi]
  · rw [if_neg hi] at h
    cases h

theorem pickChild_append {cmp : α → α → Int} {e : Array (Option α)} {last childPos c : Nat}
    (h : pickChild cmp e last childPos = some c) (r : Array (Option α)) :
    pickChild cmp (e ++ r) last childPos = some c := by
  simp only [pickChild, Option.bind_eq_bind] at h ⊢
  by_cases hr : childPos + 1 < last
  · rw [if_pos hr] at h ⊢
    obtain ⟨x, hx, h⟩ := Option.bind_eq_some_iff.mp h
    obtain ⟨y, hy, h⟩ := Option.bind_eq_some_iff.mp h
    rw [load_append hx, Option.bind_some, load_append hy, Option.bind_some]
    exact h
  · rw [if_neg hr] at h ⊢
    exact h

theorem siftDownLoop_append (cmp : α → α → Int) (r : Array (Option α)) :
    ∀ (last : Nat) (e e' : Array (Option α)), siftDownLoop cmp e last = some e' →
      siftDownLoop cmp (e ++ r) last = some (e' ++ r) := by
  intro last
  induction last using Nat.strongRecOn with
  | ind last ih =>
      intro e e' h
      rw [siftDownLoop] at h ⊢
      by_cases h0 : 0 < last
      · rw [if_pos h0] at h ⊢
        simp only [Option.bind_eq_bind] at h ⊢
        obtain ⟨p, hp, h⟩ := Option.bind_eq_some_iff.mp h
        obtain ⟨x, hx, h⟩ := Option.bind_eq_some_iff.mp h
        rw [load_append hp, Option.bind_some, load_append hx, Option.bind_some]
        by_cases hc : cmp p x ≤ 0
        · rw [if_pos hc] at h ⊢
          cases h
          rfl
        · rw [if_neg hc] at h ⊢
          obtain ⟨e₁, h₁, h⟩ := Option.bind_eq_some_iff.mp h
          obtain ⟨e₂, h₂, h⟩ := Option.bind_eq_some_iff.mp h
          rw [store_append h₁, Option.bind_some, store_append h₂, Option.bind_some]
          exact ih _ (by omega) e₂ e' h
      · rw [if_neg h0] at h ⊢
        cases h
        rfl

theorem siftUpLoop_append (cmp : α → α → Int) (r : Array (Option α)) (last : Nat) :
    ∀ (k parentPos childPos : Nat) (e e' : Array (Option α)), last - childPos ≤ k →
      siftUpLoop cmp e last parentPos childPos = some e' →
      siftUpLoop cmp (e ++ r) last parentPos childPos = some (e' ++ r) := by
  intro k
  -- the distance of the child to the end shrinks with every round
  induction k with
  | zero =>
      intro parentPos childPos e e' hk h
      rw [siftUpLoop, if_neg (by omega)] at h ⊢
      cases h
      rfl
  | succ k ih =>
      intro parentPos childPos e e' hk h
      rw [siftUpLoop] at h ⊢
      by_cases hlt : childPos < last
      · rw [if_pos hlt] at h ⊢
        split at h
        · cases h
        · rename_i c hc
          have hcase := pickChild_cases hc
          split
          · rename_i hnone
            rw [pickChild_append hc] at hnone
            cases hnone
          · rename_i c' hc'
            rw [pickChild_append hc] at hc'
            cases hc'
            simp only [Option.bind_eq_bind] at h ⊢
            obtain ⟨x, hx, h⟩ := Option.bind_eq_some_iff.mp h
            obtain ⟨p, hp, h⟩ := Option.bind_eq_some_iff.mp h
            rw [load_append hx, Option.bind_some, load_append hp, Option.bind_some]
            by_cases hge : cmp x p ≥ 0
            · rw [if_pos hge] at h ⊢
              cases h
              rfl
            · rw [if_neg hge] at h ⊢
              obtain ⟨e₁, h₁, h⟩ := Option.bind_eq_some_iff.mp h
              obtain ⟨e₂, h₂, h⟩ := Option.bind_eq_some_iff.mp h
              rw [store_append h₁, Option.bind_some, store_append h₂, Option.bind_some]
              by_cases hint : 2 * c + 1 < 2 ^ 31
              · rw [if_pos hint] at h ⊢
                exact ih c (2 * c + 1) e₂ e' (by omega) h
              · rw [if_neg hint] at h
                cases h
      · rw [if_neg hlt] at h ⊢
        cases h
        rfl

theorem siftDown_append {cmp : α → α → Int} {e e' : Array (Option α)} {last : Int}
    (h : siftDown cmp e last = some e') (r : Array (Option α)) :
    siftDown cmp (e ++ r) last = some (e' ++ r) :=
  siftDownLoop_append cmp r last.toNat e e' h

theorem siftUp_append {cmp : α → α → Int} {e e' : Array (Option α)} {last : Int}
    (h : siftUp cmp e last = some e') (r : Array (Option α)) :
    siftUp cmp (e ++ r) last = some (e' ++ r) := by
  rw [siftUp] at h ⊢
  by_cases h0 : last ≤ 0
  · rw [if_pos h0] at h ⊢
    cases h
    rfl
  · rw [if_neg h0] at h ⊢
    simp only [Option.bind_eq_bind] at h ⊢
    obtain ⟨z, hz, h⟩ := Option.bind_eq_some_iff.mp h
    obtain ⟨e₁, h₁, h⟩ := Option.bind_eq_some_iff.mp h
    rw [load_append hz, Option.bind_some, store_append h₁, Option.bind_some]
    exact siftUpLoop_append cmp r last.toNat _ 0 1 e₁ e' (Nat.le_refl _) h

/-- A loop over the block that ends and touches only the first `n` slots: on a
    block of just these slots, where every other access has no result, it has
    one; and the rest of the block stays as it is. -/
def TouchesOnly (n : Nat) (f : Array (Option α) → Option (Array (Option α)))
    (elements : Array (Option α)) : Prop :=
  ∃ e, f (elements.extract 0 n) = some e ∧ e.size = n
    ∧ f elements = some (e ++ elements.extract n elements.size)

/-- The two parts of a block. -/
theorem extract_append_rest (elements : Array (Option α)) {n : Nat} (h : n ≤ elements.size) :
    elements.extract 0 n ++ elements.extract n elements.size = elements := by
  rw [Array.extract_append_extract, Nat.zero_min, Nat.max_eq_right h, Array.extract_size]

/-- A loop that does the same on a longer block touches only the block it needs. -/
theorem TouchesOnly.of_append {n : Nat} {f : Array (Option α) → Option (Array (Option α))}
    {elements e : Array (Option α)} (hn : n ≤ elements.size)
    (happ : ∀ e₀ e₁ r, f e₀ = some e₁ → f (e₀ ++ r) = some (e₁ ++ r))
    (h : f (elements.extract 0 n) = some e) (hsize : e.size = n) : TouchesOnly n f elements := by
  refine ⟨e, h, hsize, ?_⟩
  have happ' := happ _ _ (elements.extract n elements.size) h
  rw [extract_append_rest elements hn] at happ'
  exact happ'

/-- The first slots of a block hold what they held. -/
theorem Holds.extract {elements : Array (Option α)} {l : List α} (h : Holds elements l) :
    Holds (elements.extract 0 l.length) l ∧ l.length ≤ elements.size := by
  have hsize : l.length ≤ elements.size := by
    by_contra hgt
    have := h.lt_size (i := elements.size) (by omega)
    omega
  refine ⟨?_, hsize⟩
  intro i hi
  rw [← h i hi, load, load, Array.getElem?_extract_of_lt (by omega),
    Array.getElem?_eq_getElem (by omega)]
  simp

theorem siftDown_touches (cmp : α → α → Int) {elements : Array (Option α)} {l : List α}
    (h : Holds elements l) (last : Nat) (hlast : l.length = last + 1) :
    TouchesOnly (last + 1) (fun e => siftDown cmp e last) elements := by
  obtain ⟨hh, hsize⟩ := Holds.extract h
  rw [hlast] at hh hsize
  obtain ⟨e, l', he, hs, -⟩ := siftDownLoop_spec cmp last _ l hh (by omega)
  refine TouchesOnly.of_append hsize (fun _ _ r h => siftDown_append h r) he ?_
  rw [hs, Array.size_extract]
  omega

theorem siftUp_touches (cmp : α → α → Int) {elements : Array (Option α)} {l : List α}
    (h : Holds elements l) (last : Nat) (hlast : l.length = last + 1) (hmax : last ≤ 2 ^ 30) :
    TouchesOnly (last + 1) (fun e => siftUp cmp e last) elements := by
  obtain ⟨hh, hsize⟩ := Holds.extract h
  rw [hlast] at hh hsize
  have hext : (elements.extract 0 (last + 1)).size = last + 1 := by
    rw [Array.size_extract]
    omega
  suffices hsift : ∃ e, siftUp cmp (elements.extract 0 (last + 1)) last = some e
      ∧ e.size = last + 1 by
    obtain ⟨e, he, hs⟩ := hsift
    exact TouchesOnly.of_append hsize (fun _ _ r h => siftUp_append h r) he hs
  rw [siftUp]
  by_cases h0 : (last : Int) ≤ 0
  · rw [if_pos h0]
    exact ⟨_, rfl, hext⟩
  · -- the last of the slots is read once; the loop stays in those before it
    rw [if_neg h0]
    obtain ⟨t, z, rfl⟩ := l.eq_nil_or_concat'.resolve_left (by rintro rfl; cases hlast)
    have hlen : t.length = last := by simpa using hlast
    have hz : load (elements.extract 0 (last + 1)) last = some z :=
      hh.load_eq (by rw [← hlen, List.getElem?_concat_length])
    obtain ⟨e₁, hstore, hs₁, hh₁⟩ := hh.take_left.store_set (i := 0) (by omega) z
    have hset : (t.set 0 z).length = last := by rw [List.length_set, hlen]
    obtain ⟨e₂, l', hloop, hs₂, -⟩ :=
      siftUpLoop_spec cmp last 0 e₁ (t.set 0 z) (by omega) hh₁ (by omega) (by omega)
    rw [hset, Nat.mul_zero, Nat.zero_add] at hloop
    refine ⟨e₂, ?_, by omega⟩
    simp only [Option.bind_eq_bind, Int.toNat_natCast, hz, Option.bind_some, hstore, hloop]

-- ── Every heap a client can have ─────────────────────────────────────────────

/-- Some sequence of calls on a fresh heap, each inside the block, leads to `ht`. -/
def Created (cmp : α → α → Int) (ht : Heap α) : Prop :=
  ∃ ops outs, heapRun (heapCreate cmp) ops = some (outs, ht)

/-- A call that finds room ends, and its heap is represented again. -/
theorem heapStep_ends {ht : Heap α} {l : List α} (h : HeapRep ht l) (op : HeapOp α)
    (hroom : ∀ elem, op = .push elem → l.length < heapRoom) :
    ∃ out ht' l', heapStep ht op = some (out, ht') ∧ HeapRep ht' l'
      ∧ l'.length = presentAfter l.length op := by
  cases op with
  | push elem =>
      obtain ⟨ht', l', hpush, hrep, -, hperm, -⟩ := heapPush_spec h (hroom elem rfl) elem
      exact ⟨none, ht', l', by rw [heapStep, hpush]; rfl, hrep, hperm.length_eq⟩
  | pop =>
      cases l with
      | nil =>
          have h0 : ht.elemNum = 0 := h.num
          exact ⟨none, ht, [], by rw [heapStep, heapPop, if_pos h0], h, rfl⟩
      | cons a l =>
          obtain ⟨ht', l', hpop, hrep, -, hperm, -⟩ := heapPop_spec h
          exact ⟨some a, ht', l', hpop, hrep, hperm.length_eq⟩
  | top =>
      cases l with
      | nil =>
          have h0 : ht.elemNum = 0 := h.num
          exact ⟨none, ht, [], by rw [heapStep, heapTop, if_pos h0]; rfl, h, rfl⟩
      | cons a l =>
          have h0 : ht.elemNum = l.length + 1 := h.num
          refine ⟨some a, ht, a :: l, ?_, h, rfl⟩
          rw [heapStep, heapTop, if_neg (by omega), h.holds.load_eq (a := a) rfl]
          rfl

/-- A call that has a result found room, so it leads to a represented heap. -/
theorem heapStep_rep {ht ht' : Heap α} {l : List α} {op : HeapOp α} {out : Option α}
    (h : HeapRep ht l) (hstep : heapStep ht op = some (out, ht')) :
    ∃ l', HeapRep ht' l' ∧ l'.length = presentAfter l.length op := by
  have hroom : ∀ elem, op = .push elem → l.length < heapRoom := by
    rintro elem rfl
    obtain ⟨ht₂, hpush, -⟩ := Option.map_eq_some_iff.mp hstep
    exact h.room hpush
  obtain ⟨out₁, ht₁, l', hstep₁, hrep, hlen⟩ := heapStep_ends h op hroom
  rw [hstep] at hstep₁
  cases hstep₁
  exact ⟨l', hrep, hlen⟩

theorem heapRun_rep :
    ∀ (ops : List (HeapOp α)) (ht ht' : Heap α) (l : List α) (outs : List (Option α)),
      HeapRep ht l → heapRun ht ops = some (outs, ht') → ∃ l', HeapRep ht' l' := by
  intro ops
  induction ops with
  | nil =>
      intro ht ht' l outs h hrun
      cases hrun
      exact ⟨l, h⟩
  | cons op ops ih =>
      intro ht ht' l outs h hrun
      simp only [heapRun, Option.bind_eq_bind] at hrun
      obtain ⟨⟨out, ht₁⟩, hstep, hrun⟩ := Option.bind_eq_some_iff.mp hrun
      obtain ⟨⟨outs₁, ht₂⟩, hrun₁, heq⟩ := Option.bind_eq_some_iff.mp hrun
      cases heq
      obtain ⟨l₁, h₁, -⟩ := heapStep_rep h hstep
      exact ih ht₁ ht₂ l₁ outs₁ h₁ hrun₁

theorem Created.rep {cmp : α → α → Int} {ht : Heap α} (h : Created cmp ht) :
    ∃ l, HeapRep ht l := by
  obtain ⟨ops, outs, hrun⟩ := h
  exact heapRun_rep ops _ ht [] outs (heapCreate_rep cmp) hrun

/-- **MEMORY SAFETY WITHOUT AN ORDER**: for every comparison function, on a
    block whose first slots hold up to 2^28 elements both sifts end without an
    overflow of `int` and touch only the slots `0..last`; a push and a pop on a
    heap with that many elements end, add the pushed element to the multiset
    present and take the popped one away. -/
theorem heap_memory_safe (cmp : α → α → Int) :
    (∀ (elements : Array (Option α)) (l : List α) (last : Nat), Holds elements l →
      l.length ≤ 2 ^ 28 → l.length = last + 1 →
      TouchesOnly (last + 1) (fun e => siftDown cmp e last) elements
        ∧ TouchesOnly (last + 1) (fun e => siftUp cmp e last) elements)
    ∧ ∀ ht, Created cmp ht → ht.elemNum ≤ 2 ^ 28 →
      (∀ elem, ∃ ht', heapPush ht elem = some ht' ∧ contents ht' = elem ::ₘ contents ht)
        ∧ (ht.elemNum = 0 → heapPop ht = some (none, ht))
        ∧ (0 < ht.elemNum → ∃ a ht', heapPop ht = some (some a, ht')
            ∧ contents ht = a ::ₘ contents ht') := by
  refine ⟨?_, ?_⟩
  · intro elements l last hh hmax hlast
    exact ⟨siftDown_touches cmp hh last hlast, siftUp_touches cmp hh last hlast (by omega)⟩
  · intro ht hc hmax
    obtain ⟨l, h⟩ := hc.rep
    rw [h.num] at hmax
    refine ⟨?_, ?_, ?_⟩
    · intro elem
      obtain ⟨ht', l', hpush, hrep, -, hperm, -⟩ :=
        heapPush_spec h (Nat.lt_of_le_of_lt hmax (by decide)) elem
      refine ⟨ht', hpush, ?_⟩
      rw [hrep.contents_eq, h.contents_eq]
      exact Multiset.coe_eq_coe.mpr hperm
    · intro h0
      rw [heapPop, if_pos h0]
    · intro h0
      rw [h.num] at h0
      obtain ⟨a, l, rfl⟩ := List.exists_cons_of_length_pos h0
      obtain ⟨ht', l', hpop, hrep, -, hperm, -⟩ := heapPop_spec h
      refine ⟨a, ht', hpop, ?_⟩
      rw [hrep.contents_eq, h.contents_eq]
      exact Multiset.coe_eq_coe.mpr (hperm.symm.cons a)

/-- A comparison that puts every element after every other one. -/
theorem heap_memory_safe_unordered :
    TouchesOnly 2 (fun e => siftDown (fun _ _ : Nat => 1) e 1) #[some 5, some 3, none]
      ∧ ∃ ht', heapPush (heapCreate fun _ _ : Nat => 1) 7 = some ht'
        ∧ contents ht' = 7 ::ₘ contents (heapCreate fun _ _ : Nat => 1) := by
  obtain ⟨hsift, hcalls⟩ := heap_memory_safe fun _ _ : Nat => 1
  have hh : Holds #[some 5, some 3, none] [5, 3] := by
    intro i hi
    match i, hi with
    | 0, _ => rfl
    | 1, _ => rfl
  exact ⟨(hsift _ [5, 3] 1 hh (by decide) rfl).1, (hcalls _ ⟨[], [], rfl⟩ (by decide)).1 7⟩

-- ── The size of the block ────────────────────────────────────────────────────

/-- The block has a slot for each element, in bytes and as `cap` counts them. -/
structure BufferOk (ht : Heap α) : Prop where
  bytes : sizeofVoidP * ht.elemNum ≤ sizeofVoidP * ht.elements.size
  num_le_cap : ht.elemNum ≤ ht.cap

/-- Along a sequence of calls: `BufferOk` before each call and after the last,
    and every store of `heap_push` is inside the block it has after the growth
    step. -/
def BufferHolds : Heap α → List (HeapOp α) → Prop
  | ht, [] => BufferOk ht
  | ht, op :: ops =>
      BufferOk ht
        ∧ (∀ elem, op = .push elem → (heapGrow ht).elemNum < (heapGrow ht).elements.size)
        ∧ ∀ out ht', heapStep ht op = some (out, ht') → BufferHolds ht' ops

theorem HeapRep.bufferOk {ht : Heap α} {l : List α} (h : HeapRep ht l) : BufferOk ht where
  bytes := by
    rw [h.block]
    exact Nat.mul_le_mul_left _ h.num_le_cap
  num_le_cap := h.num_le_cap

/-- A push stores inside the block exactly when there is room for one more. -/
theorem HeapRep.store_inside_iff {ht : Heap α} {l : List α} (h : HeapRep ht l) :
    (heapGrow ht).elemNum < (heapGrow ht).elements.size ↔ l.length < heapRoom := by
  constructor
  · intro hin
    refine Nat.lt_of_le_of_ne h.length_le ?_
    intro hfull
    rw [heapGrow_full h hfull] at hin
    exact absurd hin (Nat.not_lt_zero _)
  · intro hlt
    obtain ⟨hg, hroom, -⟩ := h.grow hlt
    rw [hg.block, hg.num]
    exact hroom

/-- What `BufferHolds` says of the calls still to come. -/
theorem HeapRep.bufferHolds_iff :
    ∀ (ops : List (HeapOp α)) (ht : Heap α) (l : List α), HeapRep ht l →
      (BufferHolds ht ops ↔ BoundedBy heapRoom l.length ops) := by
  intro ops
  induction ops with
  | nil =>
      intro ht l h
      exact ⟨fun _ => h.length_le, fun _ => HeapRep.bufferOk h⟩
  | cons op ops ih =>
      intro ht l h
      constructor
      · intro hb
        obtain ⟨-, hstore, hnext⟩ := hb
        refine ⟨h.length_le, ?_⟩
        obtain ⟨out, ht', l', hstep, hrep, hlen⟩ := heapStep_ends h op fun elem hop =>
          (HeapRep.store_inside_iff h).mp (hstore elem hop)
        rw [← hlen]
        exact (ih ht' l' hrep).mp (hnext out ht' hstep)
      · intro hb
        refine ⟨HeapRep.bufferOk h, ?_, ?_⟩
        · rintro elem rfl
          exact (HeapRep.store_inside_iff h).mpr hb.2.head
        · intro out ht' hstep
          obtain ⟨l', hrep, hlen⟩ := heapStep_rep h hstep
          refine (ih ht' l' hrep).mpr ?_
          rw [hlen]
          exact hb.2

/-- **ROOM FOR 2^29 - 16**: along a sequence of calls the block is large enough
    for its elements, and every push stores inside it, exactly when at most
    2^29 - 16 elements are present at any time. -/
theorem buffer_holds_iff (cmp : α → α → Int) (ops : List (HeapOp α)) :
    BufferHolds (heapCreate cmp) ops ↔ BoundedBy heapRoom 0 ops :=
  HeapRep.bufferHolds_iff ops _ [] (heapCreate_rep cmp)

theorem boundedBy_pushes (b : Nat) (elem : α) :
    ∀ k n, BoundedBy b n (List.replicate k (.push elem)) ↔ n + k ≤ b := by
  intro k
  induction k with
  | zero =>
      intro n
      exact Iff.rfl
  | succ k ih =>
      intro n
      rw [List.replicate_succ]
      constructor
      · intro h
        have := (ih (n + 1)).mp h.2
        omega
      · intro h
        exact ⟨by omega, (ih (n + 1)).mpr (by omega)⟩

/-- 2^29 - 15 pushes: the last one stores outside a block of no bytes. -/
theorem buffer_overrun :
    BoundedBy (2 ^ 32 - 17) 0 (List.replicate (heapRoom + 1) (HeapOp.push 7))
      ∧ ¬ BufferHolds (heapCreate fun _ _ : Nat => 0)
          (List.replicate (heapRoom + 1) (HeapOp.push 7)) := by
  refine ⟨?_, ?_⟩
  · rw [boundedBy_pushes, heapRoom, heapInitCap]
    omega
  · rw [HeapRep.bufferHolds_iff _ _ [] (heapCreate_rep _), boundedBy_pushes]
    rw [List.length_nil]
    omega

end HeapBounds
