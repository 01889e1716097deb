import TreasureHouse.MempoolFreeProofs

/-! # The free chain of one slab along any run

    A slab fresh from `slab_alloc` is used through `alloc_obj_from_slab` and
    `free_obj2slab` alone, in any order, until it is released.  `slabStep` runs
    the functions of the source and keeps beside the pool which indices are
    handed out; nothing is asked of the pool but the number of objects.
    `Tracks` says that the chain is what is not handed out, and
    `slab_chain_exact` reads the result off it. -/

namespace MempoolChain

open MachineInt LabelledRun Mempool MempoolList MempoolSlab MempoolStep MempoolFree

/-- A pool and the indices handed out of one of its slabs. -/
structure SlabState where
  pool : Pool
  allocated : List Nat

/-- The calls on the slab. -/
inductive SlabOp where
  | alloc
  | free (obj : Nat)

/-- One call on the slab at `a`: `alloc_obj_from_slab` while it has a free
    object, and `free_obj2slab` of an object that is handed out. -/
def slabStep (a : Nat) (st : SlabState) : SlabOp → Option SlabState
  | .alloc => do
      let slab ← st.pool.mem a
      if slab.free > 0 then
        (allocObjFromSlab st.pool a).map fun r =>
          { pool := r.2, allocated := slab.freeIdx.toNat :: st.allocated }
      else none
  | .free obj => do
      let slab ← st.pool.mem a
      if 0 ≤ objIdx st.pool slab obj ∧ (objIdx st.pool slab obj).toNat ∈ st.allocated then
        (freeObj2slab obj a st.pool).map fun pool =>
          { pool := pool, allocated := st.allocated.erase (objIdx st.pool slab obj).toNat }
      else none

/-- The states reached from a pool to which `slab_alloc` added the slab at
    `a`. -/
def ReachedFrom (pool : Pool) (a : Nat) (st : SlabState) : Prop :=
  Reach (fun s => s = ⟨pool, []⟩) (fires (slabStep a)) st

/-- `chain` is what following `freelist` from `free_idx` visits: the indices
    that are not handed out, each once, in `slab->free` steps. -/
structure ChainExact (num : Nat) (slab : Slab) (allocated chain : List Nat) : Prop where
  visits : FreeChain slab.freelist slab.freeIdx chain
  once : chain.Nodup
  unallocated : ∀ i, i ∈ chain ↔ i < num ∧ i ∉ allocated
  steps : chain.length = slab.free

/-- As long as the slab at `a` is there: it is on a list, and its chain is
    what is not handed out. -/
def Tracks (a num : Nat) (st : SlabState) : Prop :=
  ∀ slab, st.pool.mem a = some slab →
    a ∈ st.pool.slabs.held ∧ st.allocated.Nodup ∧ (∀ i ∈ st.allocated, i < num)
      ∧ ∃ chain, ChainOk num slab chain ∧ ∀ i, i ∈ chain ↔ i < num ∧ i ∉ st.allocated

-- ── The steps ────────────────────────────────────────────────────────────────

section Steps

variable {a num : Nat} {st st' : SlabState}

theorem Tracks.alloc (hn : num < 2 ^ 15) (h : Tracks a num st)
    (hstep : slabStep a st .alloc = some st') : Tracks a num st' := by
  simp only [slabStep, Option.bind_eq_bind] at hstep
  obtain ⟨slab, hs, hstep⟩ := Option.bind_eq_some_iff.mp hstep
  rw [Option.ite_none_right_eq_some, Option.map_eq_some_iff] at hstep
  obtain ⟨hfree, r, halloc, rfl⟩ := hstep
  obtain ⟨ha, hnd, hbound, chain, hok, hmem⟩ := h slab hs
  cases chain with
  | nil =>
      have h0 : slab.free = 0 := hok.free_eq
      omega
  | cons i l =>
      obtain ⟨hidx, hok', -, -⟩ := hok.take hn
      obtain ⟨-, slabs, hmoves, rfl⟩ := allocObjFromSlab_cases hs halloc
      obtain ⟨slabs', hmoves', ha'⟩ :=
        allocMoves_held slab.freeIdx (takeIdx slab).lastFreeIdx (takeIdx slab).used ha
      rw [hmoves] at hmoves'
      cases hmoves'
      have hil := (List.nodup_cons.mp hok.nodup).1
      have hi : i < num ∧ i ∉ st.allocated := (hmem i).mp (List.mem_cons_self ..)
      intro slab' hs'
      have heq : takeIdx slab = slab' :=
        Option.some.inj ((Function.update_self a (some (takeIdx slab)) st.pool.mem).symm.trans hs')
      subst heq
      rw [hidx, Int.toNat_natCast]
      refine ⟨ha', List.nodup_cons.mpr ⟨hi.2, hnd⟩, List.forall_mem_cons.mpr ⟨hi.1, hbound⟩, l,
        hok', ?_⟩
      intro j
      rw [List.mem_cons, not_or]
      constructor
      · intro hj
        obtain ⟨hjn, hja⟩ := (hmem j).mp (List.mem_cons_of_mem _ hj)
        refine ⟨hjn, ?_, hja⟩
        rintro rfl
        exact hil hj
      · rintro ⟨hjn, hji, hja⟩
        exact (List.mem_cons.mp ((hmem j).mpr ⟨hjn, hja⟩)).resolve_left hji

theorem Tracks.free (hn : num < 2 ^ 15) (h8 : 0 < num) (h : Tracks a num st) {obj : Nat}
    (hstep : slabStep a st (.free obj) = some st') : Tracks a num st' := by
  simp only [slabStep, Option.bind_eq_bind] at hstep
  obtain ⟨slab, hs, hstep⟩ := Option.bind_eq_some_iff.mp hstep
  rw [Option.ite_none_right_eq_some, Option.map_eq_some_iff] at hstep
  obtain ⟨⟨hpos, hi⟩, pool, hfree, rfl⟩ := hstep
  obtain ⟨ha, hnd, hbound, chain, hok, hmem⟩ := h slab hs
  have hlast : slab.lastFreeIdx ≠ -1 := by
    have := hok.last_eq
    omega
  obtain ⟨-, pool1, hsettle, rfl⟩ := freeObj2slab_cases hs hlast hfree
  obtain ⟨i, hidx⟩ := Int.eq_ofNat_of_zero_le hpos
  rw [hidx] at hi hsettle ⊢
  rw [Int.toNat_natCast] at hi ⊢
  intro slab' hs'
  have hin := hbound i hi
  have hil : i ∉ chain := fun hic => ((hmem i).mp hic).2 hi
  obtain ⟨hok', -, -⟩ := hok.put hn hin hil
  have hput : (setSlab st.pool a (putIdx slab i)).mem a = some (putIdx slab i) :=
    Function.update_self ..
  have hbound' : ∀ j ∈ st.allocated.erase i, j < num := fun j hj =>
    hbound j (List.mem_of_mem_erase hj)
  -- what is handed out now
  have hmem' : ∀ j, j ∈ i :: chain ↔ j < num ∧ j ∉ st.allocated.erase i := by
    intro j
    rw [List.mem_cons, hmem, hnd.mem_erase_iff, not_and_or, not_not]
    constructor
    · rintro (rfl | ⟨hjn, hja⟩)
      · exact ⟨hin, Or.inl rfl⟩
      · exact ⟨hjn, Or.inr hja⟩
    · rintro ⟨hjn, hji | hja⟩
      · exact Or.inl hji
      · exact Or.inr ⟨hjn, hja⟩
  rcases settleUnused_cases hsettle with ⟨-, rfl⟩ | ⟨-, -, hone⟩ | ⟨-, -, slabs, hmove, rfl⟩
  · have heq : putIdx slab i = slab' := Option.some.inj (hput.symm.trans hs')
    subst heq
    exact ⟨ha, hnd.erase _, hbound', i :: chain, hok', hmem'⟩
  · -- the slab is gone
    cases (freeOneSlab_mem hone).symm.trans hs'
  · have heq : putIdx slab i = slab' := Option.some.inj (hput.symm.trans hs')
    subst heq
    obtain ⟨slabs', hmove', ha'⟩ := moveList_held .emptyList ha
    cases hmove.symm.trans hmove'
    exact ⟨ha', hnd.erase _, hbound', i :: chain, hok', hmem'⟩

/-- **RUN LEMMA**: from the slab `slab_alloc` built, every state tracks what is
    handed out. -/
theorem tracks_of_reached {pool pool₀ : Pool} {calloc malloc : Option Nat} (h8 : 8 ≤ num)
    (hn : num < 2 ^ 15) (hnum : pool.numPerSlab = num)
    (hinit : slabAlloc pool calloc malloc = some (a, pool₀)) :
    ∀ st, ReachedFrom pool₀ a st → Tracks a num st := by
  refine Reach.invariant ?_ ?_
  · rintro st rfl
    rcases calloc with _ | c
    · cases hinit
    · rcases malloc with _ | base
      · cases hinit
      · obtain ⟨pool1, heq, hg⟩ := slabAlloc_eq pool c base
        rw [heq] at hinit
        cases hinit
        intro slab hs
        have hself : pool₀.mem a = some (newSlab pool base) := by
          rw [hg.mem, Function.update_self]
        cases hself.symm.trans hs
        have hok : ChainOk pool.numPerSlab (newSlab pool base) (List.range pool.numPerSlab) :=
          newSlab_chainOk (by omega) (by omega) base
        rw [hnum] at hok
        refine ⟨hg.perm.mem_iff.mpr (List.mem_cons_self ..), List.nodup_nil,
          fun i hi => absurd hi List.not_mem_nil, _, hok, ?_⟩
        intro i
        rw [List.mem_range]
        exact (and_iff_left List.not_mem_nil).symm
  · intro st op st' _ h hstep
    cases op with
    | alloc => exact h.alloc hn hstep
    | free obj => exact h.free hn (by omega) hstep

end Steps

-- ── The result ───────────────────────────────────────────────────────────────

/-- The address handed out for an index leads back to it, where the offsets of
    the objects fit the 32 bits they are computed in. -/
theorem objIdx_handed_out {pool : Pool} {slab : Slab} {i : Nat} (hi : i < 2 ^ 15)
    (hsize : 0 < pool.size) (hfit : i * pool.size < 2 ^ 32) :
    objIdx pool slab ((slab.objBase + toUnsigned 32 ((i : Int) * pool.size)) % 2 ^ 64) = i := by
  have hc : (i : Int) * pool.size = ((i * pool.size : Nat) : Int) := by
    rw [Int.natCast_mul]
  rw [hc, toUnsigned_natCast hfit]
  have hback : toUnsigned 64 (((slab.objBase + i * pool.size) % 2 ^ 64 : Nat) - (slab.objBase : Int))
      = i * pool.size := by
    rw [toUnsigned]
    omega
  rw [objIdx, hback, Nat.mul_div_cancel _ hsize, toSigned_natCast (by omega) (by omega)]

/-- **THE FREE CHAIN IS EXACT**: for a slab fresh from `slab_alloc`, along every
    run of allocations while `slab->free > 0` and frees of objects handed out,
    as long as the slab is there: following `freelist` visits what is not
    handed out, the counts add up, and an allocation with `slab->free > 0`
    passes the assertion. -/
theorem slab_chain_exact {pool pool₀ : Pool} {calloc malloc : Option Nat} {a : Nat}
    (h8 : 8 ≤ pool.numPerSlab) (hn : pool.numPerSlab < 2 ^ 15)
    (hinit : slabAlloc pool calloc malloc = some (a, pool₀)) {st : SlabState}
    (h : ReachedFrom pool₀ a st) {slab : Slab} (hs : st.pool.mem a = some slab) :
    (∃ chain, ChainExact pool.numPerSlab slab st.allocated chain)
      ∧ slab.used + slab.free = pool.numPerSlab
      ∧ (slab.freeIdx = -1 ↔ slab.free = 0)
      ∧ (0 < slab.free → slab.freeIdx ≠ -1 ∧ ∃ obj pool', allocObjFromSlab st.pool a
          = some (obj, pool') ∧ (0 < st.pool.size → pool.numPerSlab * st.pool.size ≤ 2 ^ 32 →
            objIdx st.pool slab obj = slab.freeIdx)) := by
  obtain ⟨ha, -, -, chain, hok, hmem⟩ := tracks_of_reached h8 hn rfl hinit st h slab hs
  have hlen := hok.free_eq
  have hidx : slab.freeIdx = -1 ∧ slab.free = 0 ∨ ∃ i : Nat, slab.freeIdx = i
      ∧ i < pool.numPerSlab ∧ 0 < slab.free := by
    cases chain with
    | nil => exact Or.inl ⟨hok.linked, hlen⟩
    | cons i l =>
        refine Or.inr ⟨i, hok.linked.1, hok.bound i (List.mem_cons_self ..), ?_⟩
        rw [hlen]
        exact Nat.succ_pos _
  refine ⟨⟨chain, hok.linked, hok.nodup, hmem, hlen.symm⟩, hok.used_eq, ?_, ?_⟩
  · rcases hidx with ⟨h1, h2⟩ | ⟨i, h1, -, h2⟩
    · exact iff_of_true h1 h2
    · exact iff_of_false (by omega) (by omega)
  · intro hfree
    obtain ⟨i, hi, hin, -⟩ := hidx.resolve_left (by omega)
    obtain ⟨r, hr⟩ := allocObjFromSlab_some hs (by omega) ha
    obtain ⟨-, slabs, -, rfl⟩ := allocObjFromSlab_cases hs hr
    refine ⟨by omega, _, _, hr, ?_⟩
    intro hsize hfit
    have hmul : i * st.pool.size < pool.numPerSlab * st.pool.size :=
      Nat.mul_lt_mul_of_pos_right hin hsize
    rw [hi]
    exact objIdx_handed_out (by omega) hsize (by omega)

/-- A pool of eight objects a slab. -/
def eightPool : Pool where
  name := "pool"
  size := 504
  objSize := 504
  align := 8
  numPerSlab := 8
  order := 0
  ops := none
  slabs := initSlabsInfo
  mem := fun _ => none
  ctorCalls := []
  dctorCalls := []

/-- All eight objects are taken, then the third is given back. -/
theorem slab_chain_exact_eight :
    ∃ pool₀ st slab, slabAlloc eightPool (some 1) (some 4096) = some (1, pool₀)
      ∧ ReachedFrom pool₀ 1 st ∧ st.pool.mem 1 = some slab ∧ slab.free = 1
      ∧ (∃ chain, ChainExact 8 slab st.allocated chain) ∧ slab.used + slab.free = 8
      ∧ (slab.freeIdx = -1 ↔ slab.free = 0) := by
  obtain ⟨pool₀, hinit, -⟩ := slabAlloc_eq eightPool 1 4096
  have hstart : ReachedFrom pool₀ 1 ⟨pool₀, []⟩ := Reach.start rfl
  obtain ⟨st, hr, ht⟩ := hstart.exists_of_runList
    (List.replicate 8 .alloc ++ [.free 5104])
    (fun st : SlabState => (st.pool.mem 1).any fun slab : Slab => decide (slab.free = 1))
    (by cases hinit; decide +kernel)
  obtain ⟨slab, hs, hfree⟩ := (Option.any_eq_true _ _).mp ht
  obtain ⟨hchain, hcount, hend, -⟩ :=
    slab_chain_exact (show 8 ≤ eightPool.numPerSlab by decide) (by decide) hinit hr hs
  exact ⟨pool₀, st, slab, hinit, hr, hs, of_decide_eq_true hfree, hchain, hcount, hend⟩

end MempoolChain
