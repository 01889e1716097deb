import TreasureHouse.MempoolInvProofs

/-! # One call — what `mempool_alloc` and `mempool_free` do to the invariant

    Each function gets one lemma that says what it returns and changes under
    `PoolInv`; `mempoolAlloc_spec` and `mempoolFree_spec` put them together,
    with what later invariants need to know about `cur` and the lists.
    `step_inv` and `reachable_inv` carry the invariant over runs. -/

namespace MempoolStep

open MachineInt LabelledRun Mempool MempoolGeometry MempoolList MempoolSlab MempoolInv

theorem add64_eq {x y : Nat} (h : x + y < 2 ^ 64) : add64 x y = x + y := Nat.mod_eq_of_lt h

theorem add64_lt (x y : Nat) : add64 x y < 2 ^ 64 := Nat.mod_lt _ (by decide)

theorem sub64_lt (x y : Nat) : sub64 x y < 2 ^ 64 := toUnsigned_lt 64 _

theorem sub64_eq {x y : Nat} (h : y ≤ x) (hx : x < 2 ^ 64) : sub64 x y = x - y := by
  rw [sub64, show (x : Int) - y = ((x - y : Nat) : Int) by omega, toUnsigned_natCast (by omega)]

theorem sub64_zero {x : Nat} (hx : x < 2 ^ 64) : sub64 x 0 = x := sub64_eq (Nat.zero_le x) hx

theorem sub64_succ (x k : Nat) : sub64 (sub64 x k) 1 = sub64 x (k + 1) := by
  simp only [sub64, toUnsigned]
  omega

/-- A borrow that is paid back. -/
theorem add64_sub64 {x k y z : Nat} (h : x + y = z + k) (hz : z < 2 ^ 64) :
    add64 (sub64 x k) y = z := by
  simp only [add64, sub64, toUnsigned]
  omega

/-- The same pool with another `cur`. -/
def setCur (pool : Pool) (cur : Option Nat) : Pool :=
  { pool with slabs := { pool.slabs with cur := cur } }

theorem setCur_self {pool : Pool} {cur : Option Nat} (h : pool.slabs.cur = cur) :
    setCur pool cur = pool := by
  rw [← h]
  rfl

section Calls

variable {objSize : Nat} {st : PoolState} {ch : Nat → List Nat}

/-- The invariant does not read `cur`. -/
theorem PoolInv.setCur (h : PoolInv objSize st ch) (cur : Option Nat) :
    PoolInv objSize ⟨setCur st.pool cur, st.live⟩ ch where
  ok := h.ok.congr ⟨rfl, rfl, rfl, rfl⟩ rfl (fun d => by cases d <;> rfl)
  live_nodup := h.live_nodup
  live_iff := h.live_iff
  slabs_eq := h.slabs_eq
  total_eq := h.total_eq
  used_eq := h.used_eq
  free_eq := h.free_eq

-- ── A new slab ───────────────────────────────────────────────────────────────

/-- What `mallocOk` says of a block. -/
theorem mallocOk_some {pool : Pool} {a base : Nat}
    (h : mallocOk pool (some a) (some base) = true) :
    a ∉ pool.slabs.held ∧ 0 < base ∧ base + pool.slabSize ≤ 2 ^ 64
      ∧ ∀ b ∈ pool.slabs.held, disjointFrom pool base b = true := by
  simp only [mallocOk, Bool.and_eq_true, decide_eq_true_eq, List.all_eq_true] at h
  exact ⟨h.1, h.2.1.1, h.2.1.2, h.2.2⟩

/-- What `slab_alloc` changes. -/
structure Grown (pool : Pool) (a base : Nat) (pool' : Pool) : Prop where
  consts : SameConsts pool pool'
  mem : pool'.mem = Function.update pool.mem a (some (newSlab pool base))
  perm : pool'.slabs.held.Perm (a :: pool.slabs.held)
  lists : ∀ b d, b ∈ listOf pool'.slabs d ↔ (b = a ∧ d = .emptyList) ∨ b ∈ listOf pool.slabs d
  cur : pool'.slabs.cur = some a
  slabNums : pool'.slabs.slabNums = add64 pool.slabs.slabNums 1
  totalObjs : pool'.slabs.totalObjs = add64 pool.slabs.totalObjs pool.numPerSlab
  usedObjs : pool'.slabs.usedObjs = pool.slabs.usedObjs
  freeObjs : pool'.slabs.freeObjs = add64 pool.slabs.freeObjs pool.numPerSlab

theorem slabAlloc_eq (pool : Pool) (a base : Nat) :
    ∃ pool', slabAlloc pool (some a) (some base) = some (a, pool') ∧ Grown pool a base pool' := by
  refine ⟨_, rfl, ?_⟩
  exact {
    consts := ⟨rfl, rfl, rfl, rfl⟩
    mem := rfl
    perm := listAdd_held pool.slabs a .emptyList
    lists := fun b d => @mem_listAdd pool.slabs a b .emptyList d
    cur := rfl
    slabNums := rfl
    totalObjs := rfl
    usedObjs := rfl
    freeObjs := rfl }

/-- A new slab keeps the invariant; all its objects are free. -/
theorem Grown.inv (h : PoolInv objSize st ch) {a base : Nat} {pool' : Pool}
    (hok : mallocOk st.pool (some a) (some base) = true) (hg : Grown st.pool a base pool') :
    PoolInv objSize ⟨pool', st.live⟩
      (Function.update ch a (List.range st.pool.numPerSlab)) := by
  obtain ⟨hfresh, hpos, hle, hdisj⟩ := mallocOk_some hok
  have hok' : PoolOk objSize pool' (Function.update ch a (List.range st.pool.numPerSlab)) := by
    refine h.ok.grow hg.consts hfresh hg.mem hg.perm ?_ (newSlab_inv h.ok.geo hpos hle) rfl ?_
    · intro b
      rw [hg.lists]
      exact or_congr_left (and_iff_left rfl)
    · intro b t ht
      have := hdisj b ((h.ok.held_iff b).mpr ⟨t, ht⟩)
      simp only [disjointFrom, ht, Bool.or_eq_true, decide_eq_true_eq] at this
      exact this
  have hlen : pool'.slabs.held.length = st.pool.slabs.held.length + 1 := hg.perm.length_eq
  have hmul : st.pool.numPerSlab * (st.pool.slabs.held.length + 1)
      = st.pool.numPerSlab * st.pool.slabs.held.length + st.pool.numPerSlab := Nat.mul_succ ..
  obtain ⟨hb1, hb2⟩ := hok'.num_bound
  rw [hlen, hg.consts.num, hmul] at hb2
  rw [hlen] at hb1
  have hadd := h.free_add
  have hslabs := h.slabs_eq
  have htotal := h.total_eq
  have hnum := hg.consts.num
  refine PoolInv.of_free_add hok' h.live_nodup ?_ ?_ ?_ ?_ ?_
  · -- neither the old pool nor the new slab has an object in use at `a`
    intro x
    rw [h.live_iff, inUse_iff _ _ a, inUse_iff _ _ a, inUseOff_update hg.consts hg.mem]
    refine or_congr_left ⟨?_, ?_⟩
    · rintro ⟨s, i, hs, -⟩
      exact absurd ((h.ok.held_iff a).mpr ⟨s, hs⟩) hfresh
    · rintro ⟨s, i, -, hi, hni, -⟩
      rw [Function.update_self, List.mem_range] at hni
      rw [hnum] at hi
      exact absurd hi hni
  · show pool'.slabs.slabNums = pool'.slabs.held.length
    rw [hg.slabNums, hlen, add64_eq (by omega), hslabs]
  · show pool'.slabs.totalObjs = pool'.numPerSlab * pool'.slabs.held.length
    rw [hg.totalObjs, hlen, hnum, hmul, add64_eq (by omega), htotal]
  · exact hg.usedObjs.trans h.used_eq
  · show st.live.length + pool'.slabs.freeObjs = pool'.numPerSlab * pool'.slabs.held.length
    rw [hg.freeObjs, hlen, hnum, hmul, add64_eq (by omega)]
    omega

-- ── Taking an object ─────────────────────────────────────────────────────────

theorem allocMoves_held {slabs : SlabsInfo} {a : Nat} (freeIdx lastFreeIdx : Int) (used : Nat)
    (ha : a ∈ slabs.held) :
    ∃ slabs', allocMoves slabs a freeIdx lastFreeIdx used = some slabs' ∧ a ∈ slabs'.held := by
  obtain ⟨s1, h1, ha1⟩ : ∃ s1, (if freeIdx = lastFreeIdx then moveList slabs a .fullList
      else some slabs) = some s1 ∧ a ∈ s1.held := by
    by_cases hlast : freeIdx = lastFreeIdx
    · rw [if_pos hlast]
      exact moveList_held .fullList ha
    · rw [if_neg hlast]
      exact ⟨slabs, rfl, ha⟩
  rw [allocMoves, h1, Option.bind_some]
  by_cases hone : used = 1
  · rw [if_pos hone]
    exact moveList_held .partialList ha1
  · rw [if_neg hone]
    exact ⟨s1, rfl, ha1⟩

/-- `alloc_obj_from_slab` on a slab that has a free index and is on a list. -/
theorem allocObjFromSlab_some {pool : Pool} {a : Nat} {s : Slab} (hs : pool.mem a = some s)
    (hidx : 0 ≤ s.freeIdx) (ha : a ∈ pool.slabs.held) : ∃ r, allocObjFromSlab pool a = some r := by
  obtain ⟨slabs', hmoves, -⟩ :=
    allocMoves_held s.freeIdx (takeIdx s).lastFreeIdx (takeIdx s).used ha
  rw [allocObjFromSlab, hs, Option.bind_eq_bind, Option.bind_some, if_neg (by omega)]
  simp only [hmoves, Option.bind_eq_bind, Option.bind_some]
  exact ⟨_, rfl⟩

/-- The steps of `alloc_obj_from_slab` when it has a result. -/
theorem allocObjFromSlab_cases {pool : Pool} {a : Nat} {s : Slab} {r : Nat × Pool}
    (hs : pool.mem a = some s) (h : allocObjFromSlab pool a = some r) :
    0 ≤ s.freeIdx ∧ ∃ slabs,
      allocMoves pool.slabs a s.freeIdx (takeIdx s).lastFreeIdx (takeIdx s).used = some slabs
      ∧ r = ((s.objBase + toUnsigned 32 (s.freeIdx * pool.size)) % 2 ^ 64, { pool with
          mem := Function.update pool.mem a (some (takeIdx s))
          slabs := { slabs with
            freeObjs := sub64 slabs.freeObjs 1
            usedObjs := add64 slabs.usedObjs 1 } }) := by
  rw [allocObjFromSlab, hs, Option.bind_eq_bind, Option.bind_some] at h
  by_cases hneg : s.freeIdx < 0
  · rw [if_pos hneg] at h
    cases h
  · rw [if_neg hneg] at h
    obtain ⟨slabs, hmoves, h⟩ := Option.bind_eq_some_iff.mp h
    cases h
    exact ⟨by omega, slabs, hmoves, rfl⟩

/-- What `alloc_obj_from_slab` changes. -/
structure Taken (pool : Pool) (a : Nat) (s : Slab) (pool' : Pool) : Prop where
  consts : SameConsts pool pool'
  mem : pool'.mem = Function.update pool.mem a (some (takeIdx s))
  lists : Relisted a pool.slabs pool'.slabs
  empty : a ∉ listOf pool'.slabs .emptyList
  cur : pool'.slabs.cur = pool.slabs.cur
  slabNums : pool'.slabs.slabNums = pool.slabs.slabNums
  totalObjs : pool'.slabs.totalObjs = pool.slabs.totalObjs
  usedObjs : pool'.slabs.usedObjs = add64 pool.slabs.usedObjs 1
  freeObjs : pool'.slabs.freeObjs = sub64 pool.slabs.freeObjs 1

/-- The moves are defined and take a slab off the empty list when it gets its
    first object. -/
theorem allocMoves_spec {slabs : SlabsInfo} {a used : Nat} (freeIdx lastFreeIdx : Int)
    (hnd : slabs.held.Nodup) (ha : a ∈ slabs.held)
    (hempty : a ∈ listOf slabs .emptyList → used = 1) :
    ∃ slabs', allocMoves slabs a freeIdx lastFreeIdx used = some slabs'
      ∧ Relisted a slabs slabs' ∧ SameBooks slabs slabs' ∧ a ∉ listOf slabs' .emptyList := by
  -- the first move
  have hfirst : ∃ s1, (if freeIdx = lastFreeIdx then moveList slabs a .fullList else some slabs)
        = some s1 ∧ Relisted a slabs s1 ∧ SameBooks slabs s1
        ∧ (a ∈ listOf s1 .emptyList → used = 1) := by
    by_cases hlast : freeIdx = lastFreeIdx
    · rw [if_pos hlast]
      obtain ⟨s1, h1, hrel, hat, hbooks⟩ := moveList_spec .fullList hnd ha
      refine ⟨s1, h1, hrel, hbooks, fun hmem => ?_⟩
      cases (hat .emptyList).mp hmem
    · rw [if_neg hlast]
      exact ⟨slabs, rfl, Relisted.refl a slabs, SameBooks.refl slabs, hempty⟩
  obtain ⟨s1, h1, hrel, hbooks, hempty1⟩ := hfirst
  rw [allocMoves, h1, Option.bind_some]
  by_cases hone : used = 1
  · rw [if_pos hone]
    obtain ⟨s2, h2, hrel2, hat, hbooks2⟩ := moveList_spec .partialList
      (hrel.perm.nodup_iff.mpr hnd) (hrel.perm.mem_iff.mpr ha)
    refine ⟨s2, h2, hrel.trans hrel2, hbooks.trans hbooks2, fun hmem => ?_⟩
    cases (hat .emptyList).mp hmem
  · rw [if_neg hone]
    exact ⟨s1, rfl, hrel, hbooks, fun hmem => hone (hempty1 hmem)⟩

/-- What `alloc_obj_from_slab` did to a held slab. -/
theorem taken_of_alloc {pool pool' : Pool} {a x : Nat} {s : Slab} (hs : pool.mem a = some s)
    (hnd : pool.slabs.held.Nodup) (ha : a ∈ pool.slabs.held)
    (hempty : a ∈ listOf pool.slabs .emptyList → (takeIdx s).used = 1)
    (h : allocObjFromSlab pool a = some (x, pool')) :
    x = (s.objBase + toUnsigned 32 (s.freeIdx * pool.size)) % 2 ^ 64 ∧ Taken pool a s pool' := by
  obtain ⟨-, slabs, hmoves, heq⟩ := allocObjFromSlab_cases hs h
  obtain ⟨slabs', hmoves', hrel, hbooks, hne⟩ :=
    allocMoves_spec s.freeIdx (takeIdx s).lastFreeIdx hnd ha hempty
  rw [hmoves] at hmoves'
  cases hmoves'
  cases heq
  exact ⟨rfl, {
    consts := ⟨rfl, rfl, rfl, rfl⟩
    mem := rfl
    lists := hrel.rebook (fun d => by cases d <;> rfl)
    empty := hne
    cur := hbooks.cur
    slabNums := hbooks.slabNums
    totalObjs := hbooks.totalObjs
    usedObjs := congrArg (add64 · 1) hbooks.usedObjs
    freeObjs := congrArg (sub64 · 1) hbooks.freeObjs }⟩

/-- `alloc_obj_from_slab` returns the first free object. -/
theorem allocObjFromSlab_eq {pool : Pool} (h : PoolOk objSize pool ch) {a i : Nat} {s : Slab}
    {l : List Nat} (hs : pool.mem a = some s) (hch : ch a = i :: l) :
    ∃ pool', allocObjFromSlab pool a = some (objAddr pool s i, pool') ∧ Taken pool a s pool' := by
  have hinv := h.slab a s hs
  rw [hch] at hinv
  obtain ⟨hidx, -, hused, -⟩ := takeIdx_inv h.geo hinv
  have hi := hinv.bound i (List.mem_cons_self ..)
  have ha := (h.held_iff a).mpr ⟨s, hs⟩
  have hempty : a ∈ listOf pool.slabs .emptyList → (takeIdx s).used = 1 := by
    intro hmem
    rw [hused, (h.empty_iff a s hs).mp hmem]
  obtain ⟨⟨x, pool'⟩, heq⟩ := allocObjFromSlab_some hs (by omega) ha
  obtain ⟨rfl, htaken⟩ := taken_of_alloc hs h.nodup ha hempty heq
  refine ⟨pool', ?_, htaken⟩
  rw [heq, hidx, hinv.addr_eq h.geo hi]

/-- Taking an object keeps the invariant and makes the object live. -/
theorem Taken.inv (h : PoolInv objSize st ch) {a i : Nat} {s : Slab} {l : List Nat} {pool' : Pool}
    (hs : st.pool.mem a = some s) (hch : ch a = i :: l) (ht : Taken st.pool a s pool') :
    PoolInv objSize ⟨pool', objAddr st.pool s i :: st.live⟩ (Function.update ch a l) := by
  have hinv := h.ok.slab a s hs
  rw [hch] at hinv
  obtain ⟨-, hinv', hused, -⟩ := takeIdx_inv h.ok.geo hinv
  have hi := hinv.bound i (List.mem_cons_self ..)
  have hil := (List.nodup_cons.mp hinv.nodup).1
  have hok' : PoolOk objSize pool' (Function.update ch a l) := by
    refine h.ok.replace ht.consts hs ht.mem ht.lists ?_ hinv' (by rw [takeIdx])
    exact iff_of_false ht.empty (by omega)
  -- the object was free
  have hnew : objAddr st.pool s i ∉ st.live := by
    rw [h.live_iff]
    rintro ⟨b, t, j, hb, hj, hjb, heq⟩
    obtain ⟨rfl, rfl⟩ := h.ok.addr_inj hb hs hj hi heq
    rw [hch] at hjb
    exact hjb (List.mem_cons_self ..)
  have hlen : pool'.slabs.held.length = st.pool.slabs.held.length := ht.lists.perm.length_eq
  obtain ⟨-, hbound⟩ := h.ok.num_bound
  have hadd := h.free_add
  have hfree : 0 < st.pool.slabs.freeObjs :=
    h.free_pos.mpr ⟨a, s, hs, by rw [hinv.free_eq]; exact Nat.succ_pos _⟩
  have hueq := h.used_eq
  have hnum := ht.consts.num
  refine PoolInv.of_free_add hok' (List.nodup_cons.mpr ⟨hnew, h.live_nodup⟩) ?_ ?_ ?_ ?_ ?_
  · intro x
    rw [List.mem_cons, h.live_iff, inUse_iff _ _ a, inUse_iff _ _ a,
      inUseOff_update ht.consts ht.mem, ← or_assoc]
    refine or_congr_left ?_
    simp only [InUseAt, ht.mem, Function.update_self, hnum, ht.consts.objAddr, hs, hch]
    constructor
    · rintro (rfl | ⟨t, j, ht', hj, hjl, rfl⟩)
      · exact ⟨_, i, rfl, hi, hil, objAddr_takeIdx _⟩
      · cases ht'
        exact ⟨_, j, rfl, hj, fun hjl' => hjl (List.mem_cons_of_mem _ hjl'), objAddr_takeIdx _⟩
    · rintro ⟨t, j, ht', hj, hjl, rfl⟩
      cases ht'
      by_cases hji : j = i
      · subst hji
        exact Or.inl (objAddr_takeIdx _)
      · refine Or.inr ⟨s, j, rfl, hj, ?_, (objAddr_takeIdx _).symm⟩
        rw [List.mem_cons, not_or]
        exact ⟨hji, hjl⟩
  · show pool'.slabs.slabNums = pool'.slabs.held.length
    rw [ht.slabNums, hlen, h.slabs_eq]
  · show pool'.slabs.totalObjs = pool'.numPerSlab * pool'.slabs.held.length
    rw [ht.totalObjs, hlen, hnum, h.total_eq]
  · show pool'.slabs.usedObjs = st.live.length + 1
    rw [ht.usedObjs, add64_eq (by omega), hueq]
  · show st.live.length + 1 + pool'.slabs.freeObjs = pool'.numPerSlab * pool'.slabs.held.length
    rw [ht.freeObjs, hlen, hnum, sub64_eq hfree (by omega)]
    omega

/-- The callback sees the object only. -/
theorem callCtor_eq (pool : Pool) (obj : Nat) :
    SameConsts pool (callCtor pool obj) ∧ (callCtor pool obj).slabs = pool.slabs
      ∧ (callCtor pool obj).mem = pool.mem := by
  rw [callCtor]
  split
  · split
    · exact ⟨⟨rfl, rfl, rfl, rfl⟩, rfl, rfl⟩
    · exact ⟨⟨rfl, rfl, rfl, rfl⟩, rfl, rfl⟩
  · exact ⟨⟨rfl, rfl, rfl, rfl⟩, rfl, rfl⟩

theorem PoolInv.callCtor {pool : Pool} {live : List Nat} (h : PoolInv objSize ⟨pool, live⟩ ch)
    (obj : Nat) : PoolInv objSize ⟨callCtor pool obj, live⟩ ch := by
  obtain ⟨hc, hslabs, hmem⟩ := callCtor_eq pool obj
  exact {
    ok := h.ok.congr hc hmem (fun d => by rw [hslabs])
    live_nodup := h.live_nodup
    live_iff := by
      intro x
      rw [h.live_iff]
      simp only [InUse, InUseAt, hmem, hc.num, hc.objAddr]
    slabs_eq := by rw [hslabs]; exact h.slabs_eq
    total_eq := by rw [hslabs, hc.num]; exact h.total_eq
    used_eq := by rw [hslabs]; exact h.used_eq
    free_eq := by rw [hslabs]; exact h.free_eq }

/-- What a successful allocation from slab `a` leaves behind. -/
structure AllocFrom (objSize : Nat) (st : PoolState) (a x : Nat) (pool' : Pool) : Prop where
  inv : ∃ ch', PoolInv objSize ⟨pool', x :: st.live⟩ ch'
  held : a ∈ pool'.slabs.held
  others : ∀ b d, b ≠ a → (b ∈ listOf pool'.slabs d ↔ b ∈ listOf st.pool.slabs d)
  mem : ∀ b, b ≠ a → pool'.mem b = st.pool.mem b
  cur : pool'.slabs.cur = st.pool.slabs.cur

/-- `mempool_alloc` once a slab with a free object is found. -/
theorem allocFrom_spec (h : PoolInv objSize st ch) {a : Nat} {s : Slab}
    (hs : st.pool.mem a = some s) (hfree : 0 < s.free) :
    ∃ x pool', allocFrom st.pool a = some (some x, pool') ∧ AllocFrom objSize st a x pool' := by
  have hinv := h.ok.slab a s hs
  rcases hch : ch a with _ | ⟨i, l⟩
  · rw [hch] at hinv
    have h0 : s.free = 0 := hinv.free_eq
    omega
  · obtain ⟨pool', heq, ht⟩ := allocObjFromSlab_eq h.ok hs hch
    have hinv' := ht.inv h hs hch
    obtain ⟨-, hslabs, hmem⟩ := callCtor_eq pool' (objAddr st.pool s i)
    refine ⟨objAddr st.pool s i, _, by rw [allocFrom, heq]; rfl, ?_⟩
    exact {
      inv := ⟨_, PoolInv.callCtor hinv' _⟩
      held := by
        rw [hslabs]
        exact ht.lists.perm.mem_iff.mpr ((h.ok.held_iff a).mpr ⟨s, hs⟩)
      others := by rw [hslabs]; exact ht.lists.others
      mem := by
        intro b hb
        rw [hmem, ht.mem, Function.update_of_ne hb]
      cur := by rw [hslabs, ht.cur] }

-- ── Finding a slab ───────────────────────────────────────────────────────────

/-- `cur` is NULL or a held slab. -/
def CurOk (pool : Pool) : Prop := ∀ c, pool.slabs.cur = some c → c ∈ pool.slabs.held

/-- `load_slab` finds a free object on the partial and empty lists. -/
theorem loadSlab_spec {pool : Pool} (h : PoolOk objSize pool ch) :
    (∃ a s, pool.mem a = some s ∧ 0 < s.free
        ∧ loadSlab pool = some (some a, setCur pool (some a)))
      ∨ (loadSlab pool = some (none, pool)
        ∧ ∀ a s, pool.mem a = some s → 0 < s.free → a ∈ listOf pool.slabs .fullList) := by
  have hall : ∀ d, ∀ a ∈ listOf pool.slabs d, ∃ s, pool.mem a = some s :=
    fun d a ha => (h.held_iff a).mp (mem_held.mpr ⟨d, ha⟩)
  have hpos : ∀ {s : Slab}, hasFree s = true → 0 < s.free := fun hs => of_decide_eq_true hs
  rcases firstEntry_spec hasFree (hall .partialList) with
    ⟨a, s, -, hs, hfree, heq⟩ | ⟨heq, hnone⟩
  · refine Or.inl ⟨a, s, hs, hpos hfree, ?_⟩
    rw [loadSlab, show firstEntry pool.mem hasFree pool.slabs.partialSlabs = _ from heq]
    rfl
  · rcases firstEntry_spec hasFree (hall .emptyList) with
      ⟨a, s, -, hs, hfree, heq'⟩ | ⟨heq', hnone'⟩
    · refine Or.inl ⟨a, s, hs, hpos hfree, ?_⟩
      rw [loadSlab, show firstEntry pool.mem hasFree pool.slabs.partialSlabs = _ from heq,
        show firstEntry pool.mem hasFree pool.slabs.emptySlabs = _ from heq']
      rfl
    · refine Or.inr ⟨?_, ?_⟩
      · rw [loadSlab, show firstEntry pool.mem hasFree pool.slabs.partialSlabs = _ from heq,
          show firstEntry pool.mem hasFree pool.slabs.emptySlabs = _ from heq']
        rfl
      · intro a s hs hfree
        obtain ⟨d, hd⟩ := mem_held.mp ((h.held_iff a).mpr ⟨s, hs⟩)
        have htrue : hasFree s = true := decide_eq_true hfree
        cases d with
        | partialList => exact absurd htrue (by rw [hnone a hd s hs]; exact Bool.false_ne_true)
        | fullList => exact hd
        | emptyList => exact absurd htrue (by rw [hnone' a hd s hs]; exact Bool.false_ne_true)

/-- `find_slab` prefers `cur`; it fails only when the free objects are all on
    the full list. -/
theorem findSlab_spec {pool : Pool} (h : PoolOk objSize pool ch) (hcur : CurOk pool) :
    (∃ a s, pool.mem a = some s ∧ 0 < s.free
        ∧ findSlab pool = some (some a, setCur pool (some a))
        ∧ ∀ c t, pool.slabs.cur = some c → pool.mem c = some t → 0 < t.free → c = a)
      ∨ (findSlab pool = some (none, pool)
        ∧ ∀ a s, pool.mem a = some s → 0 < s.free →
            a ∈ listOf pool.slabs .fullList ∧ pool.slabs.cur ≠ some a) := by
  rcases hc : pool.slabs.cur with _ | c
  · have heq : findSlab pool = loadSlab pool := by rw [findSlab, hc]
    rw [heq]
    rcases loadSlab_spec h with ⟨a, s, hs, hfree, hload⟩ | ⟨hload, hfull⟩
    · exact Or.inl ⟨a, s, hs, hfree, hload, fun c t hct => by cases hct⟩
    · exact Or.inr ⟨hload, fun a s hs hfree => ⟨hfull a s hs hfree, by simp⟩⟩
  · obtain ⟨t, ht⟩ := (h.held_iff c).mp (hcur c hc)
    have heq : findSlab pool = if t.free = 0 then loadSlab pool else some (some c, pool) := by
      rw [findSlab, hc]
      simp only [ht, Option.bind_eq_bind, Option.bind_some]
    rw [heq]
    by_cases h0 : t.free = 0
    · rw [if_pos h0]
      -- `cur` has nothing to give, so it is not the slab with a free object
      have hno : ∀ {a s}, pool.mem a = some s → 0 < s.free → c ≠ a := by
        rintro a s hs hfree rfl
        rw [ht] at hs
        cases hs
        omega
      rcases loadSlab_spec h with ⟨a, s, hs, hfree, hload⟩ | ⟨hload, hfull⟩
      · refine Or.inl ⟨a, s, hs, hfree, hload, ?_⟩
        rintro c' t' hc' ht' hfree'
        cases hc'
        exact absurd rfl (hno ht' hfree')
      · refine Or.inr ⟨hload, fun a s hs hfree => ⟨hfull a s hs hfree, ?_⟩⟩
        intro hca
        exact hno hs hfree (Option.some.inj hca)
    · rw [if_neg h0]
      refine Or.inl ⟨c, t, ht, Nat.pos_of_ne_zero h0, by rw [setCur_self hc], ?_⟩
      intro c' t' hc' _ _
      exact (Option.some.inj hc').symm

/-- A successful `mempool_alloc`: the object comes from `cur`, and no other
    slab on the full list that has free objects was `cur` before. -/
structure AllocDone (objSize : Nat) (st : PoolState) (x : Nat) (pool' : Pool) : Prop where
  inv : ∃ ch', PoolInv objSize ⟨pool', x :: st.live⟩ ch'
  cur : ∃ a ∈ pool'.slabs.held, pool'.slabs.cur = some a
  full : ∀ b t, pool'.slabs.cur ≠ some b → b ∈ listOf pool'.slabs .fullList →
    pool'.mem b = some t → 0 < t.free →
      b ∈ listOf st.pool.slabs .fullList ∧ st.pool.mem b = some t ∧ st.pool.slabs.cur ≠ some b

/-- `mempool_alloc`: it succeeds, or a new slab was needed and not had, or all
    the free objects are on the full list away from `cur`. -/
theorem mempoolAlloc_spec (h : PoolInv objSize st ch) {calloc malloc : Option Nat}
    (hok : mallocOk st.pool calloc malloc = true)
    (hcur : st.pool.slabs.freeObjs = 0 ∨ CurOk st.pool) :
    (∃ x pool', mempoolAlloc st.pool calloc malloc = some (some x, pool')
        ∧ AllocDone objSize st x pool')
      ∨ (mempoolAlloc st.pool calloc malloc = some (none, st.pool)
        ∧ ((st.pool.slabs.freeObjs = 0 ∧ (calloc = none ∨ malloc = none))
          ∨ (0 < st.pool.slabs.freeObjs ∧ ∀ a s, st.pool.mem a = some s → 0 < s.free →
              a ∈ listOf st.pool.slabs .fullList ∧ st.pool.slabs.cur ≠ some a))) := by
  by_cases h0 : st.pool.slabs.freeObjs = 0
  · rcases calloc with _ | a
    · exact Or.inr ⟨by rw [mempoolAlloc, if_pos h0]; rfl, Or.inl ⟨h0, Or.inl rfl⟩⟩
    · rcases malloc with _ | base
      · exact Or.inr ⟨by rw [mempoolAlloc, if_pos h0]; rfl, Or.inl ⟨h0, Or.inr rfl⟩⟩
      · -- no slab has a free object: a new one
        obtain ⟨pool1, heq, hg⟩ := slabAlloc_eq st.pool a base
        have hinv1 := hg.inv h hok
        have hmem1 : pool1.mem a = some (newSlab st.pool base) := by
          rw [hg.mem, Function.update_self]
        have hfree1 : 0 < (newSlab st.pool base).free := by
          have hn := h.ok.geo.num_ge
          have hn' := h.ok.geo.num_lt
          show 0 < toUnsigned 16 (st.pool.numPerSlab : Int)
          rw [toUnsigned_natCast (by omega)]
          omega
        obtain ⟨x, pool', halloc, hfrom⟩ := allocFrom_spec hinv1 hmem1 hfree1
        refine Or.inl ⟨x, pool', ?_, ?_⟩
        · rw [mempoolAlloc, if_pos h0, heq]
          exact halloc
        · have hcur' : pool'.slabs.cur = some a := hfrom.cur.trans hg.cur
          refine ⟨hfrom.inv, ⟨a, hfrom.held, hcur'⟩, ?_⟩
          intro b t hb _ ht hfree
          have hba : b ≠ a := by
            rintro rfl
            exact hb hcur'
          have hold : st.pool.mem b = some t := by
            rw [← ht, hfrom.mem b hba]
            show _ = pool1.mem b
            rw [hg.mem, Function.update_of_ne hba]
          have := h.free_pos.mpr ⟨b, t, hold, hfree⟩
          omega
  · rcases findSlab_spec h.ok (hcur.resolve_left h0) with
      ⟨a, s, hs, hfree, hfind, honly⟩ | ⟨hfind, hall⟩
    · have hinv1 := PoolInv.setCur h (some a)
      obtain ⟨x, pool', halloc, hfrom⟩ := allocFrom_spec hinv1 hs hfree
      refine Or.inl ⟨x, pool', ?_, ?_⟩
      · rw [mempoolAlloc, if_neg h0, hfind]
        exact halloc
      · have hcur' : pool'.slabs.cur = some a := hfrom.cur
        refine ⟨hfrom.inv, ⟨a, hfrom.held, hcur'⟩, ?_⟩
        intro b t hb hfull ht hfree'
        have hba : b ≠ a := by
          rintro rfl
          exact hb hcur'
        have hold : st.pool.mem b = some t := by
          rw [← ht, hfrom.mem b hba]
          rfl
        refine ⟨(hfrom.others b .fullList hba).mp hfull, hold, ?_⟩
        intro hcb
        exact hba (honly b t hcb hold hfree')
    · refine Or.inr ⟨?_, Or.inr ⟨Nat.pos_of_ne_zero h0, hall⟩⟩
      rw [mempoolAlloc, if_neg h0, hfind]
      rfl

end Calls

end MempoolStep
