import TreasureHouse.MempoolStepProofs

/-! # Giving objects back — `mempool_free`, releasing a slab, whole runs

    `find_obj_slab` finds the slab an object in use belongs to
    (`findObjSlab_spec`), although the upper bound of its address test is
    inclusive: the alignment slack keeps one slab's end below the next block.
    A freed object leaves its slab on its list, moves it to the empty list or
    releases it (`mempoolFree_spec`).  With the allocation side this gives the
    invariant of every run (`reachable_inv`). -/

namespace MempoolFree

open MachineInt LabelledRun Mempool MempoolGeometry MempoolList MempoolSlab MempoolInv MempoolStep

-- ── Releasing a slab ─────────────────────────────────────────────────────────

/-- No object counts as used, so every round takes one from `free_objs` and
    one from `total_objs`. -/
theorem freeObjsLoop_eq (slab : Slab) (pool : Pool) (hf : pool.slabs.freeObjs < 2 ^ 64)
    (ht : pool.slabs.totalObjs < 2 ^ 64) (k : Nat) :
    freeObjsLoop slab pool k = { pool with slabs := { pool.slabs with
      freeObjs := sub64 pool.slabs.freeObjs k
      totalObjs := sub64 pool.slabs.totalObjs k } } := by
  induction k with
  | zero => rw [sub64_zero hf, sub64_zero ht]; rfl
  | succ k ih =>
      rw [freeObjsLoop, ih, freeObjAt, countsAsUsed_false]
      simp only [Bool.false_eq_true, if_false, sub64_succ]

/-- What `free_one_slab` changes. -/
structure Released (pool : Pool) (a : Nat) (pool' : Pool) : Prop where
  consts : SameConsts pool pool'
  dctorCalls : pool'.dctorCalls = pool.dctorCalls
  mem : pool'.mem = Function.update pool.mem a none
  perm : pool.slabs.held.Perm (a :: pool'.slabs.held)
  lists : ∀ b d, b ∈ listOf pool'.slabs d ↔ b ≠ a ∧ b ∈ listOf pool.slabs d
  cur : pool'.slabs.cur = pool.slabs.cur
  slabNums : pool'.slabs.slabNums = sub64 pool.slabs.slabNums 1
  totalObjs : pool'.slabs.totalObjs = sub64 pool.slabs.totalObjs pool.numPerSlab
  usedObjs : pool'.slabs.usedObjs = pool.slabs.usedObjs
  freeObjs : pool'.slabs.freeObjs = sub64 pool.slabs.freeObjs pool.numPerSlab

theorem freeOneSlab_eq {pool : Pool} {a : Nat} {s : Slab} (hs : pool.mem a = some s)
    (hnd : pool.slabs.held.Nodup) (ha : a ∈ pool.slabs.held)
    (hf : pool.slabs.freeObjs < 2 ^ 64) (ht : pool.slabs.totalObjs < 2 ^ 64) :
    ∃ pool', freeOneSlab pool a = some pool' ∧ Released pool a pool' := by
  obtain ⟨-, hperm, hmem, -⟩ := listDel_spec hnd ha
  refine ⟨{ pool with
    mem := Function.update pool.mem a none
    slabs := { eraseSlab pool.slabs a with
      slabNums := sub64 pool.slabs.slabNums 1
      freeObjs := sub64 pool.slabs.freeObjs pool.numPerSlab
      totalObjs := sub64 pool.slabs.totalObjs pool.numPerSlab } }, ?_, ?_⟩
  · rw [freeOneSlab, hs, Option.bind_eq_bind, Option.bind_some, freeObjsLoop_eq s pool hf ht]
    simp only
    rw [listDel_eq]
    · rfl
    · exact ha
  · exact {
      consts := ⟨rfl, rfl, rfl, rfl⟩
      dctorCalls := rfl
      mem := rfl
      perm := hperm
      lists := by
        intro b d
        cases d with
        | partialList => exact hmem b .partialList
        | fullList => exact hmem b .fullList
        | emptyList => exact hmem b .emptyList
      cur := rfl
      slabNums := rfl
      totalObjs := rfl
      usedObjs := rfl
      freeObjs := rfl }

section Calls

variable {objSize : Nat} {st : PoolState} {ch : Nat → List Nat}

-- ── The slab of an object ────────────────────────────────────────────────────

/-- Only the slab an object belongs to passes the address test. -/
theorem addrInSlab_iff {pool : Pool} (h : PoolOk objSize pool ch) {a b i : Nat} {s t : Slab}
    (hs : pool.mem a = some s) (hi : i < pool.numPerSlab) (hia : i ∉ ch a)
    (ht : pool.mem b = some t) : addrInSlab (objAddr pool s i) t = true ↔ b = a := by
  obtain ⟨h1, h2, h3, h4⟩ := (h.slab a s hs).obj_range hi
  rw [addrInSlab, Bool.and_eq_true, Bool.and_eq_true, decide_eq_true_eq, decide_eq_true_eq,
    decide_eq_true_eq]
  constructor
  · rintro ⟨⟨-, hlo⟩, hhi⟩
    by_contra hba
    have h5 := (h.slab b t ht).base_le
    have h6 := (h.slab b t ht).end_lt
    rcases h.apart b t a s ht hs hba with hap | hap
    · omega
    · omega
  · rintro rfl
    rw [hs] at ht
    cases ht
    exact ⟨⟨(h.slab b s hs).used_pos hi hia, h2⟩, by omega⟩

/-- `find_obj_slab` finds the slab of an object in use. -/
theorem findObjSlab_spec (h : PoolInv objSize st ch) {a i : Nat} {s : Slab}
    (hs : st.pool.mem a = some s) (hi : i < st.pool.numPerSlab) (hia : i ∉ ch a) :
    findObjSlab st.pool (objAddr st.pool s i) = some (some a) := by
  have hlive : objAddr st.pool s i ∈ st.live := (h.live_iff _).mpr ⟨a, s, i, hs, hi, hia, rfl⟩
  have hused : st.pool.slabs.usedObjs ≠ 0 := by
    have := List.length_pos_of_mem hlive
    have := h.used_eq
    omega
  have hall : ∀ d, ∀ b ∈ listOf st.pool.slabs d, ∃ t, st.pool.mem b = some t :=
    fun d b hb => (h.ok.held_iff b).mp (mem_held.mpr ⟨d, hb⟩)
  have hself : addrInSlab (objAddr st.pool s i) s = true :=
    (addrInSlab_iff h.ok hs hi hia hs).mpr rfl
  rw [findObjSlab, if_neg hused]
  rcases firstEntry_spec (addrInSlab (objAddr st.pool s i)) (hall .partialList) with
    ⟨b, t, -, ht, htest, heq⟩ | ⟨heq, hnone⟩
  · rw [show firstEntry st.pool.mem _ st.pool.slabs.partialSlabs = _ from heq,
      (addrInSlab_iff h.ok hs hi hia ht).mp htest]
    rfl
  · rw [show firstEntry st.pool.mem _ st.pool.slabs.partialSlabs = _ from heq]
    rcases firstEntry_spec (addrInSlab (objAddr st.pool s i)) (hall .fullList) with
      ⟨b, t, -, ht, htest, heq'⟩ | ⟨-, hnone'⟩
    · show firstEntry st.pool.mem _ st.pool.slabs.fullSlabs = _
      rw [show firstEntry st.pool.mem _ st.pool.slabs.fullSlabs = _ from heq',
        (addrInSlab_iff h.ok hs hi hia ht).mp htest]
    · -- the slab is on no list: the empty list has no slab in use
      exfalso
      obtain ⟨d, hd⟩ := mem_held.mp ((h.ok.held_iff a).mpr ⟨s, hs⟩)
      cases d with
      | partialList =>
          rw [hnone a hd s hs] at hself
          cases hself
      | fullList =>
          rw [hnone' a hd s hs] at hself
          cases hself
      | emptyList =>
          have h0 := (h.ok.empty_iff a s hs).mp hd
          have := (h.ok.slab a s hs).used_pos hi hia
          omega

-- ── Putting an object back ───────────────────────────────────────────────────

/-- The counters of `free_obj2slab` for a slab that stays. -/
structure Returned (pool pool' : Pool) : Prop where
  slabNums : pool'.slabs.slabNums = pool.slabs.slabNums
  totalObjs : pool'.slabs.totalObjs = pool.slabs.totalObjs
  usedObjs : pool'.slabs.usedObjs = sub64 pool.slabs.usedObjs 1
  freeObjs : pool'.slabs.freeObjs = add64 pool.slabs.freeObjs 1

/-- The live objects after a free: those in use and not the freed one. -/
theorem mem_erase_live (h : PoolInv objSize st ch) {a i : Nat} {s : Slab}
    (hs : st.pool.mem a = some s) (hi : i < st.pool.numPerSlab) (x : Nat) :
    x ∈ st.live.erase (objAddr st.pool s i)
      ↔ (∃ j, j < st.pool.numPerSlab ∧ j ∉ i :: ch a ∧ objAddr st.pool s j = x)
        ∨ InUseOff st.pool ch a x := by
  rw [h.live_nodup.mem_erase_iff, h.live_iff, inUse_iff _ _ a]
  constructor
  · rintro ⟨hne, ⟨t, j, ht, hj, hja, rfl⟩ | hoff⟩
    · rw [hs] at ht
      cases ht
      refine Or.inl ⟨j, hj, ?_, rfl⟩
      rw [List.mem_cons, not_or]
      exact ⟨fun hji => hne (by rw [hji]), hja⟩
    · exact Or.inr hoff
  · rintro (⟨j, hj, hjl, rfl⟩ | ⟨b, hba, t, j, ht, hj, hjb, rfl⟩)
    · rw [List.mem_cons, not_or] at hjl
      refine ⟨?_, Or.inl ⟨s, j, hs, hj, hjl.2, rfl⟩⟩
      intro heq
      exact hjl.1 (h.ok.addr_inj hs hs hj hi heq).2
    · refine ⟨?_, Or.inr ⟨b, hba, t, j, ht, hj, hjb, rfl⟩⟩
      intro heq
      exact hba (h.ok.addr_inj ht hs hj hi heq).1

/-- A slab that stays: the object joins its chain and leaves the live ones. -/
theorem put_inv (h : PoolInv objSize st ch) {a i : Nat} {s : Slab} {pool' : Pool}
    (hs : st.pool.mem a = some s) (hi : i < st.pool.numPerSlab) (hia : i ∉ ch a)
    (hc : SameConsts st.pool pool')
    (hmem : pool'.mem = Function.update st.pool.mem a (some (putIdx s i)))
    (hl : Relisted a st.pool.slabs pool'.slabs)
    (hempty : a ∈ listOf pool'.slabs .emptyList ↔ (putIdx s i).used = 0)
    (hr : Returned st.pool pool') :
    PoolInv objSize ⟨pool', st.live.erase (objAddr st.pool s i)⟩
      (Function.update ch a (i :: ch a)) := by
  obtain ⟨hinv', -, -⟩ := putIdx_inv h.ok.geo (h.ok.slab a s hs) hi hia
  have hlive : objAddr st.pool s i ∈ st.live := (h.live_iff _).mpr ⟨a, s, i, hs, hi, hia, rfl⟩
  have hok' := h.ok.replace hc hs hmem hl hempty hinv' (by rw [putIdx])
  have hlen : pool'.slabs.held.length = st.pool.slabs.held.length := hl.perm.length_eq
  have herase := List.length_erase_of_mem hlive
  have hpos := List.length_pos_of_mem hlive
  obtain ⟨-, hbound⟩ := h.ok.num_bound
  have hadd := h.free_add
  have hueq := h.used_eq
  refine PoolInv.of_free_add hok' (h.live_nodup.erase _) ?_ ?_ ?_ ?_ ?_
  · intro x
    rw [mem_erase_live h hs hi, inUse_iff _ _ a, inUseOff_update hc hmem]
    refine or_congr_left ?_
    simp only [InUseAt, hmem, Function.update_self, hc.num, hc.objAddr]
    constructor
    · rintro ⟨j, hj, hjl, rfl⟩
      exact ⟨_, j, rfl, hj, hjl, objAddr_putIdx _ _⟩
    · rintro ⟨t, j, ht, hj, hjl, rfl⟩
      cases ht
      exact ⟨j, hj, hjl, (objAddr_putIdx _ _).symm⟩
  · show pool'.slabs.slabNums = pool'.slabs.held.length
    rw [hr.slabNums, hlen, h.slabs_eq]
  · show pool'.slabs.totalObjs = pool'.numPerSlab * pool'.slabs.held.length
    rw [hr.totalObjs, hlen, hc.num, h.total_eq]
  · show pool'.slabs.usedObjs = (st.live.erase _).length
    rw [hr.usedObjs, sub64_eq (by omega) (by omega), herase, hueq]
  · show (st.live.erase _).length + pool'.slabs.freeObjs
      = pool'.numPerSlab * pool'.slabs.held.length
    rw [hr.freeObjs, herase, hlen, hc.num, add64_eq (by omega)]
    omega

/-- A slab whose last object is freed may leave; `free_objs` first loses all
    its objects and then gains one. -/
theorem release_inv (h : PoolInv objSize st ch) {a i : Nat} {s : Slab} {pool' : Pool}
    (hs : st.pool.mem a = some s) (hi : i < st.pool.numPerSlab) (hia : i ∉ ch a)
    (hc : SameConsts st.pool pool') (hmem : pool'.mem = Function.update st.pool.mem a none)
    (hperm : st.pool.slabs.held.Perm (a :: pool'.slabs.held))
    (hl : ∀ b d, b ∈ listOf pool'.slabs d ↔ b ≠ a ∧ b ∈ listOf st.pool.slabs d)
    (hused : (putIdx s i).used = 0)
    (hslabs : pool'.slabs.slabNums = sub64 st.pool.slabs.slabNums 1)
    (htotal : pool'.slabs.totalObjs = sub64 st.pool.slabs.totalObjs st.pool.numPerSlab)
    (husedObjs : pool'.slabs.usedObjs = sub64 st.pool.slabs.usedObjs 1)
    (hfree : pool'.slabs.freeObjs = add64 (sub64 st.pool.slabs.freeObjs st.pool.numPerSlab) 1) :
    PoolInv objSize ⟨pool', st.live.erase (objAddr st.pool s i)⟩ ch := by
  obtain ⟨hinv', -, -⟩ := putIdx_inv h.ok.geo (h.ok.slab a s hs) hi hia
  have hlive : objAddr st.pool s i ∈ st.live := (h.live_iff _).mpr ⟨a, s, i, hs, hi, hia, rfl⟩
  have hok' := h.ok.release hc hmem hperm hl
  have hlive' : ∀ x, x ∈ st.live.erase (objAddr st.pool s i) ↔ InUse pool' ch x := by
    intro x
    have hoff : InUseOff pool' (Function.update ch a (ch a)) a x ↔ InUseOff st.pool ch a x :=
      inUseOff_update hc hmem
    rw [Function.update_eq_self] at hoff
    rw [mem_erase_live h hs hi, inUse_iff _ _ a, hoff]
    refine or_congr_left ⟨?_, ?_⟩
    · rintro ⟨j, hj, hjl, -⟩
      exact absurd (hinv'.mem_of_used_eq_zero hused hj) hjl
    · rintro ⟨t, j, ht, -⟩
      rw [hmem, Function.update_self] at ht
      cases ht
  have hlen : st.pool.slabs.held.length = pool'.slabs.held.length + 1 := hperm.length_eq
  have hmul : st.pool.numPerSlab * (pool'.slabs.held.length + 1)
      = st.pool.numPerSlab * pool'.slabs.held.length + st.pool.numPerSlab := Nat.mul_succ ..
  have hcount := hok'.count (h.live_nodup.erase _) hlive'
  have herase := List.length_erase_of_mem hlive
  have hpos := List.length_pos_of_mem hlive
  obtain ⟨hb1, hb2⟩ := h.ok.num_bound
  have hadd := h.free_add
  have hueq := h.used_eq
  have hseq := h.slabs_eq
  have hteq := h.total_eq
  rw [hc.num] at hcount
  rw [hlen, hmul] at hadd hteq hb2
  rw [hlen] at hseq hb1
  refine ⟨hok', h.live_nodup.erase _, hlive', ?_, ?_, ?_, ?_⟩
  · show pool'.slabs.slabNums = pool'.slabs.held.length
    rw [hslabs, sub64_eq (by omega) (by omega)]
    omega
  · show pool'.slabs.totalObjs = pool'.numPerSlab * pool'.slabs.held.length
    rw [htotal, hc.num, sub64_eq (by omega) (by omega)]
    omega
  · show pool'.slabs.usedObjs = (st.live.erase _).length
    rw [husedObjs, sub64_eq (by omega) (by omega), herase, hueq]
  · show pool'.slabs.freeObjs = ∑ b ∈ pool'.slabs.held.toFinset, (ch b).length
    rw [hfree]
    exact add64_sub64 (by omega) (by omega)

-- ── `mempool_free` ───────────────────────────────────────────────────────────

/-- Where a slab is after one of its objects was freed. -/
inductive FreeCase (pool : Pool) (a : Nat) (s : Slab) (pool' : Pool) : Prop where
  | kept (more : s.used ≠ 1)
      (at_a : ∀ d, a ∈ listOf pool'.slabs d ↔ a ∈ listOf pool.slabs d)
  | emptied (last : s.used = 1) (noEmpty : listOf pool.slabs .emptyList = [])
      (at_a : ∀ d, a ∈ listOf pool'.slabs d ↔ d = .emptyList)
  | released (last : s.used = 1) (hasEmpty : listOf pool.slabs .emptyList ≠ [])
      (at_a : ∀ d, a ∉ listOf pool'.slabs d)

/-- What `mempool_free` of a live object does. -/
structure FreeDone (objSize : Nat) (st : PoolState) (x a : Nat) (s : Slab) (pool' : Pool) :
    Prop where
  inv : ∃ ch', PoolInv objSize ⟨pool', st.live.erase x⟩ ch'
  found : findObjSlab st.pool x = some (some a)
  slab : st.pool.mem a = some s
  cur : pool'.slabs.cur = st.pool.slabs.cur
  mem : ∀ b, b ≠ a → pool'.mem b = st.pool.mem b
  others : ∀ b d, b ≠ a → (b ∈ listOf pool'.slabs d ↔ b ∈ listOf st.pool.slabs d)
  place : FreeCase st.pool a s pool'

/-- A released structure is gone. -/
theorem freeOneSlab_mem {pool pool' : Pool} {a : Nat} (h : freeOneSlab pool a = some pool') :
    pool'.mem a = none := by
  obtain ⟨slab, -, h⟩ := Option.bind_eq_some_iff.mp h
  obtain ⟨slabs, -, h⟩ := Option.bind_eq_some_iff.mp h
  cases h
  exact Function.update_self ..

/-- What becomes of a slab after a free, when there is a result. -/
theorem settleUnused_cases {pool pool' : Pool} {a used : Nat}
    (h : settleUnused pool a used = some pool') :
    (used ≠ 0 ∧ pool' = pool)
      ∨ (used = 0 ∧ pool.slabs.emptySlabs ≠ [] ∧ freeOneSlab pool a = some pool')
      ∨ (used = 0 ∧ pool.slabs.emptySlabs = [] ∧ ∃ slabs,
          moveList pool.slabs a .emptyList = some slabs ∧ pool' = { pool with slabs := slabs }) := by
  rw [settleUnused] at h
  by_cases h0 : used = 0
  · rw [if_pos h0] at h
    by_cases hem : pool.slabs.emptySlabs ≠ []
    · rw [if_pos hem] at h
      exact Or.inr (Or.inl ⟨h0, hem, h⟩)
    · rw [if_neg hem] at h
      obtain ⟨slabs, hmove, rfl⟩ := Option.map_eq_some_iff.mp h
      exact Or.inr (Or.inr ⟨h0, not_not.mp hem, slabs, hmove, rfl⟩)
  · rw [if_neg h0] at h
    cases h
    exact Or.inl ⟨h0, rfl⟩

/-- `last_free_idx` is never -1, so the branch for it is never taken. -/
theorem settleFirstFree_eq {pool : Pool} {a : Nat} {freeIdx lastFreeIdx : Int}
    (h : lastFreeIdx ≠ -1) : settleFirstFree pool a freeIdx lastFreeIdx = some pool := if_neg h

/-- The counters at the end of `free_obj2slab`. -/
def countFreed (pool : Pool) : Pool :=
  { pool with slabs := { pool.slabs with
    freeObjs := add64 pool.slabs.freeObjs 1
    usedObjs := sub64 pool.slabs.usedObjs 1 } }

theorem listOf_countFreed (pool : Pool) (d : SlabList) :
    listOf (countFreed pool).slabs d = listOf pool.slabs d := by cases d <;> rfl

/-- The pool with another structure at `a`. -/
def setSlab (pool : Pool) (a : Nat) (s : Slab) : Pool :=
  { pool with mem := Function.update pool.mem a (some s) }

/-- The steps of `free_obj2slab` on a slab whose `last_free_idx` was never
    cleared, when it has a result. -/
theorem freeObj2slab_cases {pool pool' : Pool} {obj a : Nat} {s : Slab}
    (hs : pool.mem a = some s) (hlast : s.lastFreeIdx ≠ -1)
    (h : freeObj2slab obj a pool = some pool') :
    0 ≤ objIdx pool s obj ∧ ∃ pool1,
      settleUnused (setSlab pool a (putIdx s (objIdx pool s obj))) a
          (putIdx s (objIdx pool s obj)).used = some pool1
        ∧ pool' = countFreed pool1 := by
  rw [freeObj2slab, hs, Option.bind_eq_bind, Option.bind_some] at h
  by_cases hneg : objIdx pool s obj < 0
  · rw [if_pos hneg] at h
    cases h
  · rw [if_neg hneg] at h
    obtain ⟨pool1, h1, h⟩ := Option.bind_eq_some_iff.mp h
    obtain ⟨pool2, h2, h⟩ := Option.bind_eq_some_iff.mp h
    have hlast' : (putIdx s (objIdx pool s obj)).lastFreeIdx ≠ -1 := by
      rw [putIdx]
      exact hlast
    rw [settleFirstFree_eq hlast'] at h2
    cases h2
    cases h
    exact ⟨by omega, pool1, h1, rfl⟩

/-- `free_obj2slab` on an object in use: the index is right, and what is left
    is to settle a slab that became unused. -/
theorem freeObj2slab_eq {pool : Pool} (h : PoolOk objSize pool ch) {a i : Nat} {s : Slab}
    (hs : pool.mem a = some s) (hi : i < pool.numPerSlab) :
    freeObj2slab (objAddr pool s i) a pool
      = (settleUnused (setSlab pool a (putIdx s i)) a (putIdx s i).used).map countFreed := by
  have hinv := h.slab a s hs
  have hlast : (putIdx s i).lastFreeIdx ≠ -1 := by
    rw [putIdx]
    have h1 := hinv.last_eq
    have h2 := h.geo.num_ge
    show s.lastFreeIdx ≠ -1
    omega
  rw [freeObj2slab, hs, Option.bind_eq_bind, Option.bind_some, hinv.objIdx_eq h.geo hi,
    if_neg (show ¬ ((i : Int) < 0) by omega)]
  simp only [settleFirstFree_eq hlast]
  show (settleUnused (setSlab pool a (putIdx s i)) a (putIdx s i).used).bind _ = _
  cases settleUnused (setSlab pool a (putIdx s i)) a (putIdx s i).used with
  | none => rfl
  | some pool1 => rfl

section OneObject

variable {a i : Nat} {s : Slab}

/-- The last object of a slab while another slab is empty. -/
theorem settle_released (h : PoolInv objSize st ch) (hs : st.pool.mem a = some s)
    (hi : i < st.pool.numPerSlab) (hia : i ∉ ch a) (h0 : (putIdx s i).used = 0)
    (hem : st.pool.slabs.emptySlabs ≠ []) :
    ∃ pool1, settleUnused (setSlab st.pool a (putIdx s i)) a (putIdx s i).used = some pool1
      ∧ FreeDone objSize st (objAddr st.pool s i) a s (countFreed pool1) := by
  obtain ⟨-, hused, -⟩ := putIdx_inv h.ok.geo (h.ok.slab a s hs) hi hia
  have hbound := h.ok.num_bound
  have hadd := h.free_add
  have hteq := h.total_eq
  have hself : (setSlab st.pool a (putIdx s i)).mem a = some (putIdx s i) :=
    Function.update_self ..
  obtain ⟨pool1, heq, hr⟩ := freeOneSlab_eq hself h.ok.nodup ((h.ok.held_iff a).mpr ⟨s, hs⟩)
    (show st.pool.slabs.freeObjs < 2 ^ 64 by omega) (show st.pool.slabs.totalObjs < 2 ^ 64 by omega)
  have hc : SameConsts st.pool (countFreed pool1) :=
    ⟨hr.consts.align, hr.consts.size, hr.consts.num, hr.consts.order⟩
  have hmem : (countFreed pool1).mem = Function.update st.pool.mem a none :=
    hr.mem.trans (Function.update_idem ..)
  have hl : ∀ b d, b ∈ listOf (countFreed pool1).slabs d
      ↔ b ≠ a ∧ b ∈ listOf st.pool.slabs d := by
    intro b d
    rw [listOf_countFreed]
    exact hr.lists b d
  refine ⟨pool1, ?_, ?_⟩
  · rw [settleUnused, if_pos h0, if_pos (show (setSlab st.pool a _).slabs.emptySlabs ≠ [] from hem),
      heq]
  · exact {
      inv := ⟨ch, release_inv h hs hi hia hc hmem hr.perm hl h0 hr.slabNums hr.totalObjs
        (congrArg (sub64 · 1) hr.usedObjs) (congrArg (add64 · 1) hr.freeObjs)⟩
      found := findObjSlab_spec h hs hi hia
      slab := hs
      cur := hr.cur
      mem := by
        intro b hb
        rw [hmem, Function.update_of_ne hb]
      others := fun b d hb => (hl b d).trans (and_iff_right hb)
      place := .released (by omega) hem (fun d hd => ((hl a d).mp hd).1 rfl) }

/-- The last object of a slab while no slab is empty. -/
theorem settle_emptied (h : PoolInv objSize st ch) (hs : st.pool.mem a = some s)
    (hi : i < st.pool.numPerSlab) (hia : i ∉ ch a) (h0 : (putIdx s i).used = 0)
    (hem : st.pool.slabs.emptySlabs = []) :
    ∃ pool1, settleUnused (setSlab st.pool a (putIdx s i)) a (putIdx s i).used = some pool1
      ∧ FreeDone objSize st (objAddr st.pool s i) a s (countFreed pool1) := by
  obtain ⟨-, hused, -⟩ := putIdx_inv h.ok.geo (h.ok.slab a s hs) hi hia
  obtain ⟨slabs', hmove, hrel, hat, hbooks⟩ := moveList_spec .emptyList h.ok.nodup
    ((h.ok.held_iff a).mpr ⟨s, hs⟩)
  have hl : ∀ d, listOf (countFreed { setSlab st.pool a (putIdx s i) with slabs := slabs' }).slabs d
      = listOf slabs' d := listOf_countFreed _
  refine ⟨{ setSlab st.pool a (putIdx s i) with slabs := slabs' }, ?_, ?_⟩
  · rw [settleUnused, if_pos h0,
      if_neg (show ¬ (setSlab st.pool a _).slabs.emptySlabs ≠ [] from not_not.mpr hem),
      show moveList (setSlab st.pool a _).slabs a .emptyList = some slabs' from hmove]
    rfl
  · exact {
      inv := ⟨_, put_inv h hs hi hia ⟨rfl, rfl, rfl, rfl⟩ rfl (hrel.rebook hl)
        (iff_of_true (by rw [hl]; exact (hat .emptyList).mpr rfl) h0)
        ⟨hbooks.slabNums, hbooks.totalObjs, congrArg (sub64 · 1) hbooks.usedObjs,
          congrArg (add64 · 1) hbooks.freeObjs⟩⟩
      found := findObjSlab_spec h hs hi hia
      slab := hs
      cur := hbooks.cur
      mem := fun b hb => Function.update_of_ne hb _ _
      others := (hrel.rebook hl).others
      place := .emptied (by omega) hem (fun d => by rw [hl]; exact hat d) }

/-- Not the last object of its slab. -/
theorem settle_kept (h : PoolInv objSize st ch) (hs : st.pool.mem a = some s)
    (hi : i < st.pool.numPerSlab) (hia : i ∉ ch a) (h0 : (putIdx s i).used ≠ 0) :
    ∃ pool1, settleUnused (setSlab st.pool a (putIdx s i)) a (putIdx s i).used = some pool1
      ∧ FreeDone objSize st (objAddr st.pool s i) a s (countFreed pool1) := by
  obtain ⟨-, hused, -⟩ := putIdx_inv h.ok.geo (h.ok.slab a s hs) hi hia
  have hl : ∀ d, listOf (countFreed (setSlab st.pool a (putIdx s i))).slabs d
      = listOf st.pool.slabs d := listOf_countFreed _
  have hrel := (Relisted.refl a st.pool.slabs).rebook hl
  have hempty : a ∉ listOf (countFreed (setSlab st.pool a (putIdx s i))).slabs .emptyList := by
    rw [hl, h.ok.empty_iff a s hs]
    omega
  refine ⟨setSlab st.pool a (putIdx s i), if_neg h0, ?_⟩
  exact {
    inv := ⟨_, put_inv h hs hi hia ⟨rfl, rfl, rfl, rfl⟩ rfl hrel (iff_of_false hempty h0)
      ⟨rfl, rfl, rfl, rfl⟩⟩
    found := findObjSlab_spec h hs hi hia
    slab := hs
    cur := rfl
    mem := fun b hb => Function.update_of_ne hb _ _
    others := hrel.others
    place := .kept (by omega) (fun d => by rw [hl]) }

end OneObject

/-- `mempool_free` of a live object. -/
theorem mempoolFree_spec (h : PoolInv objSize st ch) {x : Nat} (hx : x ∈ st.live) :
    ∃ a s pool', mempoolFree st.pool x = some pool' ∧ FreeDone objSize st x a s pool' := by
  obtain ⟨a, s, i, hs, hi, hia, rfl⟩ := (h.live_iff x).mp hx
  have hsettle : ∃ pool1,
      settleUnused (setSlab st.pool a (putIdx s i)) a (putIdx s i).used = some pool1
        ∧ FreeDone objSize st (objAddr st.pool s i) a s (countFreed pool1) := by
    by_cases h0 : (putIdx s i).used = 0
    · by_cases hem : st.pool.slabs.emptySlabs = []
      · exact settle_emptied h hs hi hia h0 hem
      · exact settle_released h hs hi hia h0 hem
    · exact settle_kept h hs hi hia h0
  obtain ⟨pool1, heq, hdone⟩ := hsettle
  refine ⟨a, s, countFreed pool1, ?_, hdone⟩
  rw [mempoolFree, findObjSlab_spec h hs hi hia]
  show freeObj2slab _ a st.pool = _
  rw [freeObj2slab_eq h.ok hs hi, heq]
  rfl

-- ── Runs ─────────────────────────────────────────────────────────────────────

/-- A fresh pool has no slab. -/
theorem created_inv {align : Nat} (h1 : 1 ≤ objSize) (h2 : objSize < 2 ^ 31) (h3 : 1 ≤ align)
    (h4 : align ≤ 4096) (h : Created objSize align st) : PoolInv objSize st (fun _ => []) := by
  obtain ⟨names, name, ops, hcreate, hlive⟩ := h
  obtain ⟨hgeo, hslabs, hmem, -, -⟩ := mempoolCreate_geometry h1 h2 h3 h4 hcreate
  have hheld : st.pool.slabs.held = [] := by rw [hslabs]; rfl
  have hnone : ∀ {a s}, st.pool.mem a = some s → False := by
    intro a s hs
    rw [hmem] at hs
    cases hs
  exact {
    ok := {
      geo := hgeo
      nodup := by rw [hheld]; exact List.nodup_nil
      held_iff := by
        intro a
        rw [hheld]
        exact iff_of_false List.not_mem_nil (fun ⟨s, hs⟩ => hnone hs)
      slab := fun a s hs => (hnone hs).elim
      apart := fun a s b t hs => (hnone hs).elim
      empty_iff := fun a s hs => (hnone hs).elim }
    live_nodup := by rw [hlive]; exact List.nodup_nil
    live_iff := by
      intro x
      rw [hlive]
      exact iff_of_false List.not_mem_nil (fun ⟨a, s, i, hs, _⟩ => hnone hs)
    slabs_eq := by rw [hheld, hslabs]; rfl
    total_eq := by rw [hheld, hslabs]; rfl
    used_eq := by rw [hlive, hslabs]; rfl
    free_eq := by rw [hheld, hslabs]; rfl }

/-- An allocation that has a result finds `cur` usable, or does not look. -/
theorem curOk_of_alloc (h : PoolInv objSize st ch) {calloc malloc : Option Nat}
    {r : Option Nat × Pool} (hr : mempoolAlloc st.pool calloc malloc = some r) :
    st.pool.slabs.freeObjs = 0 ∨ CurOk st.pool := by
  by_cases h0 : st.pool.slabs.freeObjs = 0
  · exact Or.inl h0
  · refine Or.inr ?_
    intro c hc
    rw [h.ok.held_iff]
    rw [mempoolAlloc, if_neg h0, findSlab, hc] at hr
    rcases hm : st.pool.mem c with _ | s
    · simp only [hm] at hr
      cases hr
    · exact ⟨s, rfl⟩

/-- An allocation that has a result handed out an object or changed nothing. -/
theorem opStep_alloc_cases (h : PoolInv objSize st ch) {calloc malloc : Option Nat}
    {st' : PoolState} (hstep : opStep st (.alloc calloc malloc) = some st') :
    (∃ x pool', st' = ⟨pool', x :: st.live⟩ ∧ AllocDone objSize st x pool') ∨ st' = st := by
  rw [opStep, Option.ite_none_right_eq_some, Option.map_eq_some_iff] at hstep
  obtain ⟨hok, r, hr, rfl⟩ := hstep
  rcases mempoolAlloc_spec h hok (curOk_of_alloc h hr) with ⟨x, pool', heq, hdone⟩ | ⟨heq, -⟩
  · rw [heq] at hr
    cases hr
    exact Or.inl ⟨x, pool', rfl, hdone⟩
  · rw [heq] at hr
    cases hr
    exact Or.inr rfl

/-- A free of a live object gave it back to its slab. -/
theorem opStep_free_cases (h : PoolInv objSize st ch) {obj : Nat} {st' : PoolState}
    (hstep : opStep st (.free obj) = some st') :
    ∃ a s pool', st' = ⟨pool', st.live.erase obj⟩ ∧ FreeDone objSize st obj a s pool' := by
  rw [opStep, Option.ite_none_right_eq_some, Option.map_eq_some_iff] at hstep
  obtain ⟨hx, pool', hfree, rfl⟩ := hstep
  obtain ⟨a, s, pool1, heq, hdone⟩ := mempoolFree_spec h hx
  rw [heq] at hfree
  cases hfree
  exact ⟨a, s, _, rfl, hdone⟩

/-- **STEP LEMMA**: every call keeps the invariant. -/
theorem step_inv {st' : PoolState} {op : Op} (h : PoolInv objSize st ch)
    (hstep : opStep st op = some st') : ∃ ch', PoolInv objSize st' ch' := by
  cases op with
  | alloc calloc malloc =>
      obtain ⟨x, pool', rfl, hdone⟩ | rfl := opStep_alloc_cases h hstep
      · exact hdone.inv
      · exact ⟨ch, h⟩
  | free obj =>
      obtain ⟨a, s, pool', rfl, hdone⟩ := opStep_free_cases h hstep
      exact hdone.inv

/-- **RUN LEMMA**: the invariant holds in every state a pool reaches. -/
theorem reachable_inv {align : Nat} (h1 : 1 ≤ objSize) (h2 : objSize < 2 ^ 31) (h3 : 1 ≤ align)
    (h4 : align ≤ 4096) :
    ∀ st, Reachable objSize align st → ∃ ch, PoolInv objSize st ch := by
  refine Reach.invariant ?_ ?_
  · intro st hinit
    exact ⟨_, created_inv h1 h2 h3 h4 hinit⟩
  · rintro st op st' - ⟨ch, hinv⟩ hstep
    exact step_inv hinv hstep

end Calls

end MempoolFree
