import Mathlib.Data.Nat.Prime.Basic
import TreasureHouse.MempoolStepProofs
import TreasureHouse.MempoolEstimateProofs

/-! # `ALIGN` and the addresses of `mempool_alloc`

    `slab_alloc` rounds the base of a slab up with `ALIGN`, and
    `mempool_create` the stride between objects, but the requested alignment
    is rounded to a multiple of 8 only.  The mask of `ALIGN` clears the low
    bits of an address when the alignment is a power of two, and other bits
    when it is not.

      • `two_pow_dvd_alignTo`: what `ALIGN` gives for plus or minus a power of
        two is a multiple of it.
      • `BasesKept`: after any call a slab starts where one started before,
        or at a fresh rounded base.
      • `mempool_alloc_aligned_iff`: every address of every run is a multiple
        of `pool->align` exactly when that is plus or minus a power of two. -/

namespace MempoolAlign

open MachineInt LabelledRun Mempool MempoolGeometry MempoolInv MempoolStep
open MempoolOrder MempoolEstimate

-- ── Rounding ─────────────────────────────────────────────────────────────────

/-- Rounding up to plus or minus a power of two gives a multiple of it. -/
theorem two_pow_dvd_alignTo {x k : Nat} {a : Int} (ha : a.natAbs = 2 ^ k) (hk : k ≤ 31) :
    2 ^ k ∣ alignTo x a := by
  have hpow : 2 ^ k ≤ 2 ^ 31 := Nat.pow_le_pow_right (by omega) hk
  have hpos := Nat.two_pow_pos k
  rcases Int.natAbs_eq a with h | h
  · rw [h, ha, alignTo_eq x (by omega) (by omega), maskUp_two_pow (by omega)]
    exact Nat.dvd_mul_left _ _
  · have hmask : toUnsigned 64 (a - 1) = 2 ^ 64 - 2 ^ k - 1 := by
      rw [toUnsigned]
      omega
    rw [alignTo, hmask, maskUp_compl_eq (by omega), Nat.and_two_pow]
    exact Nat.dvd_mul_left _ _

-- ── Where the slabs start ────────────────────────────────────────────────────

/-- Every slab of `pool'` starts where a slab of `pool` starts. -/
structure BasesKept (pool pool' : Pool) : Prop where
  consts : SameConsts pool pool'
  bases : ∀ b s', pool'.mem b = some s' → ∃ c s, pool.mem c = some s ∧ s.objBase = s'.objBase

section Kept

variable {pool pool' : Pool} {a : Nat} {s s' : Slab}

theorem BasesKept.of_mem (hc : SameConsts pool pool') (hm : pool'.mem = pool.mem) :
    BasesKept pool pool' :=
  ⟨hc, fun b s' hs' => ⟨b, s', by rw [← hm, hs'], rfl⟩⟩

theorem BasesKept.refl (pool : Pool) : BasesKept pool pool :=
  BasesKept.of_mem ⟨rfl, rfl, rfl, rfl⟩ rfl

theorem BasesKept.trans {p1 p2 p3 : Pool} (h1 : BasesKept p1 p2) (h2 : BasesKept p2 p3) :
    BasesKept p1 p3 where
  consts := {
    align := h2.consts.align.trans h1.consts.align
    size := h2.consts.size.trans h1.consts.size
    num := h2.consts.num.trans h1.consts.num
    order := h2.consts.order.trans h1.consts.order }
  bases := by
    intro b s' hs'
    obtain ⟨c, s, hs, heq⟩ := h2.bases b s' hs'
    obtain ⟨d, t, ht, heq'⟩ := h1.bases c s hs
    exact ⟨d, t, ht, heq'.trans heq⟩

/-- Writing to other fields of one slab. -/
theorem BasesKept.replace (hc : SameConsts pool pool') (hs : pool.mem a = some s)
    (hm : pool'.mem = Function.update pool.mem a (some s')) (hbase : s'.objBase = s.objBase) :
    BasesKept pool pool' where
  consts := hc
  bases := by
    intro b t ht
    rw [hm] at ht
    by_cases hb : b = a
    · subst hb
      rw [Function.update_self] at ht
      cases ht
      exact ⟨b, s, hs, hbase.symm⟩
    · rw [Function.update_of_ne hb] at ht
      exact ⟨b, t, ht, rfl⟩

/-- Releasing one slab. -/
theorem BasesKept.remove (hc : SameConsts pool pool')
    (hm : pool'.mem = Function.update pool.mem a none) : BasesKept pool pool' where
  consts := hc
  bases := by
    intro b t ht
    rw [hm] at ht
    by_cases hb : b = a
    · subst hb
      rw [Function.update_self] at ht
      cases ht
    · rw [Function.update_of_ne hb] at ht
      exact ⟨b, t, ht, rfl⟩

end Kept

-- ── The calls ────────────────────────────────────────────────────────────────

section Calls

variable {pool pool' : Pool} {a obj : Nat}

theorem callCtor_kept (pool : Pool) (obj : Nat) : BasesKept pool (callCtor pool obj) := by
  rw [callCtor]
  split
  · split
    · exact BasesKept.of_mem ⟨rfl, rfl, rfl, rfl⟩ rfl
    · exact BasesKept.refl pool
  · exact BasesKept.refl pool

theorem loadSlab_kept {found : Option Nat} (h : loadSlab pool = some (found, pool')) :
    BasesKept pool pool' := by
  simp only [loadSlab, Option.bind_eq_bind, Option.bind_eq_some_iff] at h
  obtain ⟨f1, -, h⟩ := h
  cases f1 with
  | some a =>
      cases h
      exact BasesKept.of_mem ⟨rfl, rfl, rfl, rfl⟩ rfl
  | none =>
      simp only [Option.bind_eq_some_iff] at h
      obtain ⟨f2, -, h⟩ := h
      cases f2 with
      | some a =>
          cases h
          exact BasesKept.of_mem ⟨rfl, rfl, rfl, rfl⟩ rfl
      | none =>
          cases h
          exact BasesKept.refl pool

theorem findSlab_kept {found : Option Nat} (h : findSlab pool = some (found, pool')) :
    BasesKept pool pool' := by
  rw [findSlab] at h
  cases hc : pool.slabs.cur with
  | none =>
      rw [hc] at h
      exact loadSlab_kept h
  | some c =>
      simp only [hc, Option.bind_eq_bind, Option.bind_eq_some_iff] at h
      obtain ⟨slab, -, h⟩ := h
      by_cases h0 : slab.free = 0
      · rw [if_pos h0] at h
        exact loadSlab_kept h
      · rw [if_neg h0] at h
        cases h
        exact BasesKept.refl pool

/-- The address is the start of the slab and a number of strides. -/
theorem allocObjFromSlab_addr {x : Nat} (h : allocObjFromSlab pool a = some (x, pool')) :
    BasesKept pool pool' ∧ ∃ s, pool.mem a = some s
      ∧ x = (s.objBase + toUnsigned 32 (s.freeIdx * pool.size)) % 2 ^ 64 := by
  simp only [allocObjFromSlab, Option.bind_eq_bind, Option.bind_eq_some_iff] at h
  obtain ⟨s, hs, h⟩ := h
  by_cases hneg : s.freeIdx < 0
  · rw [if_pos hneg] at h
    cases h
  · rw [if_neg hneg, Option.bind_eq_some_iff] at h
    obtain ⟨slabs, -, h⟩ := h
    cases h
    have hbase : (takeIdx s).objBase = s.objBase := by rw [takeIdx]
    exact ⟨BasesKept.replace ⟨rfl, rfl, rfl, rfl⟩ hs rfl hbase, s, hs, rfl⟩

theorem freeObjsLoop_kept (s : Slab) (pool : Pool) (k : Nat) :
    BasesKept pool (freeObjsLoop s pool k) := by
  induction k with
  | zero => exact BasesKept.refl pool
  | succ k ih =>
      refine ih.trans ?_
      rw [freeObjsLoop, freeObjAt]
      by_cases hused : countsAsUsed s k
      · simp only [if_pos hused]
        exact BasesKept.of_mem ⟨rfl, rfl, rfl, rfl⟩ rfl
      · simp only [if_neg hused]
        exact BasesKept.of_mem ⟨rfl, rfl, rfl, rfl⟩ rfl

theorem freeOneSlab_kept (h : freeOneSlab pool a = some pool') : BasesKept pool pool' := by
  simp only [freeOneSlab, Option.bind_eq_bind, Option.bind_eq_some_iff] at h
  obtain ⟨s, -, slabs, -, h⟩ := h
  cases h
  exact (freeObjsLoop_kept s pool _).trans (BasesKept.remove ⟨rfl, rfl, rfl, rfl⟩ rfl)

theorem settleUnused_kept {used : Nat} (h : settleUnused pool a used = some pool') :
    BasesKept pool pool' := by
  rw [settleUnused] at h
  by_cases h0 : used = 0
  · rw [if_pos h0] at h
    by_cases hempty : pool.slabs.emptySlabs ≠ []
    · rw [if_pos hempty] at h
      exact freeOneSlab_kept h
    · rw [if_neg hempty] at h
      obtain ⟨slabs, -, rfl⟩ := Option.map_eq_some_iff.mp h
      exact BasesKept.of_mem ⟨rfl, rfl, rfl, rfl⟩ rfl
  · rw [if_neg h0] at h
    cases h
    exact BasesKept.refl pool

theorem settleFirstFree_kept {freeIdx lastFreeIdx : Int}
    (h : settleFirstFree pool a freeIdx lastFreeIdx = some pool') : BasesKept pool pool' := by
  rw [settleFirstFree] at h
  by_cases hlast : lastFreeIdx = -1
  · simp only [if_pos hlast, Option.bind_eq_bind, Option.bind_eq_some_iff] at h
    obtain ⟨s, hs, slabs, -, h⟩ := h
    cases h
    exact BasesKept.replace ⟨rfl, rfl, rfl, rfl⟩ hs rfl rfl
  · rw [if_neg hlast] at h
    cases h
    exact BasesKept.refl pool

theorem freeObj2slab_kept (h : freeObj2slab obj a pool = some pool') : BasesKept pool pool' := by
  simp only [freeObj2slab, Option.bind_eq_bind, Option.bind_eq_some_iff] at h
  obtain ⟨s, hs, h⟩ := h
  by_cases hneg : objIdx pool s obj < 0
  · rw [if_pos hneg] at h
    cases h
  · simp only [if_neg hneg, Option.bind_eq_some_iff] at h
    obtain ⟨p1, h1, p2, h2, h⟩ := h
    cases h
    have hbase : (putIdx s (objIdx pool s obj)).objBase = s.objBase := by rw [putIdx]
    have hput : BasesKept pool
        { pool with mem := Function.update pool.mem a (some (putIdx s (objIdx pool s obj))) } :=
      BasesKept.replace ⟨rfl, rfl, rfl, rfl⟩ hs rfl hbase
    exact ((hput.trans (settleUnused_kept h1)).trans (settleFirstFree_kept h2)).trans
      (BasesKept.of_mem ⟨rfl, rfl, rfl, rfl⟩ rfl)

theorem mempoolFree_kept (h : mempoolFree pool obj = some pool') : BasesKept pool pool' := by
  simp only [mempoolFree, Option.bind_eq_bind, Option.bind_eq_some_iff] at h
  obtain ⟨found, -, h⟩ := h
  cases found with
  | some a => exact freeObj2slab_kept h
  | none =>
      cases h
      exact BasesKept.refl pool

end Calls

-- ── Powers of two ────────────────────────────────────────────────────────────

/-- `pool->align` is `a`, and stride and slabs are at multiples of `2 ^ k`. -/
structure AlignedTo (k : Nat) (a : Int) (pool : Pool) : Prop where
  align : pool.align = a
  size : 2 ^ k ∣ pool.size
  bases : ∀ b s, pool.mem b = some s → 2 ^ k ∣ s.objBase

section Aligned

variable {k : Nat} {a : Int} {pool pool' : Pool}

theorem AlignedTo.kept (h : AlignedTo k a pool) (hk : BasesKept pool pool') :
    AlignedTo k a pool' where
  align := hk.consts.align.trans h.align
  size := by rw [hk.consts.size]; exact h.size
  bases := by
    intro b s' hs'
    obtain ⟨c, s, hs, heq⟩ := hk.bases b s' hs'
    rw [← heq]
    exact h.bases c s hs

/-- A new slab starts at a multiple, wherever `malloc` put it. -/
theorem AlignedTo.grow (h : AlignedTo k a pool) (ha : a.natAbs = 2 ^ k) (hk : k ≤ 31)
    {c base : Nat} (hg : Grown pool c base pool') : AlignedTo k a pool' where
  align := hg.consts.align.trans h.align
  size := by rw [hg.consts.size]; exact h.size
  bases := by
    intro b s hs
    rw [hg.mem] at hs
    by_cases hb : b = c
    · rw [hb, Function.update_self] at hs
      cases hs
      show 2 ^ k ∣ alignTo base pool.align
      rw [h.align]
      exact two_pow_dvd_alignTo ha hk
    · rw [Function.update_of_ne hb] at hs
      exact h.bases b s hs

/-- The number of strides is computed in 32 bits and the address in 64, which
    a power of two up to `2 ^ 31` does not notice. -/
theorem AlignedTo.allocFrom (h : AlignedTo k a pool) (hk : k ≤ 31) {c : Nat} {r : Option Nat}
    (hr : allocFrom pool c = some (r, pool')) :
    AlignedTo k a pool' ∧ ∀ x, r = some x → 2 ^ k ∣ x := by
  rw [Mempool.allocFrom, Option.map_eq_some_iff] at hr
  obtain ⟨⟨x, p1⟩, halloc, hr⟩ := hr
  cases hr
  obtain ⟨hkept, s, hs, rfl⟩ := allocObjFromSlab_addr halloc
  refine ⟨h.kept (hkept.trans (callCtor_kept p1 _)), ?_⟩
  rintro y ⟨⟩
  have hstride : 2 ^ k ∣ toUnsigned 32 (s.freeIdx * pool.size) := by
    have hint : (2 ^ k : Int) ∣ s.freeIdx * pool.size % 2 ^ 32 := by
      have h32 : (2 ^ k : Int) ∣ 2 ^ 32 := pow_dvd_pow 2 (by omega)
      rw [Int.dvd_iff_emod_eq_zero, Int.emod_emod_of_dvd _ h32, ← Int.dvd_iff_emod_eq_zero]
      exact Dvd.dvd.mul_left (by exact_mod_cast h.size) _
    rw [toUnsigned, ← Int.natCast_dvd_natCast, Int.toNat_of_nonneg (Int.emod_nonneg _ (by decide))]
    exact_mod_cast hint
  rw [Nat.dvd_mod_iff (Nat.pow_dvd_pow 2 (by omega))]
  exact Nat.dvd_add (h.bases c s hs) hstride

/-- One `mempool_alloc`. -/
theorem AlignedTo.mempoolAlloc (h : AlignedTo k a pool) (ha : a.natAbs = 2 ^ k) (hk : k ≤ 31)
    {calloc malloc : Option Nat} {r : Option Nat}
    (hr : mempoolAlloc pool calloc malloc = some (r, pool')) :
    AlignedTo k a pool' ∧ ∀ x, r = some x → 2 ^ k ∣ x := by
  have hnone : AlignedTo k a pool ∧ ∀ x, none = some x → 2 ^ k ∣ x :=
    ⟨h, fun x hx => by cases hx⟩
  rw [Mempool.mempoolAlloc] at hr
  by_cases h0 : pool.slabs.freeObjs = 0
  · rw [if_pos h0] at hr
    cases calloc with
    | none =>
        cases hr
        exact hnone
    | some c =>
        cases malloc with
        | none =>
            cases hr
            exact hnone
        | some base =>
            obtain ⟨p1, heq, hg⟩ := slabAlloc_eq pool c base
            simp only [heq] at hr
            exact (h.grow ha hk hg).allocFrom hk hr
  · simp only [if_neg h0, Option.bind_eq_bind, Option.bind_eq_some_iff] at hr
    obtain ⟨⟨found, p1⟩, hfind, hr⟩ := hr
    have h1 := h.kept (findSlab_kept hfind)
    cases found with
    | none =>
        cases hr
        exact ⟨h1, fun x hx => by cases hx⟩
    | some c => exact h1.allocFrom hk hr

/-- One call of the client. -/
theorem AlignedTo.opStep {st st' : PoolState} {op : Op} (h : AlignedTo k a st.pool)
    (ha : a.natAbs = 2 ^ k) (hk : k ≤ 31) (hstep : opStep st op = some st') :
    AlignedTo k a st'.pool := by
  cases op with
  | alloc calloc malloc =>
      rw [Mempool.opStep] at hstep
      by_cases hok : mallocOk st.pool calloc malloc = true
      · rw [if_pos hok, Option.map_eq_some_iff] at hstep
        obtain ⟨r, hr, rfl⟩ := hstep
        exact (h.mempoolAlloc ha hk hr).1
      · rw [if_neg hok] at hstep
        cases hstep
  | free obj =>
      rw [Mempool.opStep] at hstep
      by_cases hlive : obj ∈ st.live
      · rw [if_pos hlive, Option.map_eq_some_iff] at hstep
        obtain ⟨p1, hp1, rfl⟩ := hstep
        exact h.kept (mempoolFree_kept hp1)
      · rw [if_neg hlive] at hstep
        cases hstep

end Aligned

-- ── Other alignments ─────────────────────────────────────────────────────────

/-- A number with `m`'s highest bit and no other bit of weight is less than
    `m`, and shares that bit with it. -/
theorem two_pow_log2_and_ne_zero {m c : Nat} (hm : m ≠ 0) (hc : c < 2 ^ m.log2) :
    (2 ^ m.log2 + c) &&& m ≠ 0 := by
  intro h0
  have hbit := congrArg (fun n => n.testBit m.log2) h0
  simp only [Nat.testBit_and, Nat.testBit_two_pow_add_eq, Nat.testBit_lt_two_pow hc,
    Nat.testBit_log2 hm, Nat.zero_testBit] at hbit
  cases hbit

/-- For a negative alignment: a multiple of 16 that is moved below it, but not
    to 0. -/
theorem exists_part_left {m : Nat} (h8 : 8 ∣ m) (h0 : m ≠ 0) (hm : m ≤ 2 ^ 31)
    (hpow : ¬ ∃ k, m = 2 ^ k) :
    ∃ base, 16 ∣ base ∧ 0 < base ∧ base + 2 ^ 18 ≤ 2 ^ 64
      ∧ ((base + (2 ^ 64 - m - 1)) % 2 ^ 64 &&& m) < m
      ∧ ((base + (2 ^ 64 - m - 1)) % 2 ^ 64 &&& m) ≠ 0 := by
  have hself := Nat.log2_self_le h0
  have hne : m ≠ 2 ^ m.log2 := fun h => hpow ⟨_, h⟩
  have hm8 : m ≠ 2 ^ 3 := fun h => hpow ⟨3, h⟩
  have hlog : 4 ≤ m.log2 := by
    rw [Nat.le_log2 h0]
    omega
  obtain ⟨q, hq⟩ : 2 ^ 4 ∣ 2 ^ m.log2 := Nat.pow_dvd_pow 2 hlog
  have hpos := Nat.two_pow_pos m.log2
  -- up to the next multiple of 16
  have hsum : (m + 2 ^ m.log2 + (16 - m % 16) + (2 ^ 64 - m - 1)) % 2 ^ 64
      = 2 ^ m.log2 + (15 - m % 16) := by
    omega
  refine ⟨m + 2 ^ m.log2 + (16 - m % 16), by omega, by omega, by omega, ?_⟩
  rw [hsum]
  refine ⟨?_, two_pow_log2_and_ne_zero h0 (by omega)⟩
  refine Nat.lt_of_le_of_lt Nat.and_le_left ?_
  omega

/-- `a` is not a power of two: `ALIGN` leaves a multiple of 16 at an address
    that is no multiple of `a`. -/
theorem exists_misaligned {a : Int} (h8 : 8 ∣ a) (ha : a ≠ 0) (hr : -2 ^ 31 ≤ a ∧ a < 2 ^ 31)
    (hpow : ¬ ∃ k, a.natAbs = 2 ^ k) :
    ∃ base, 16 ∣ base ∧ 0 < base ∧ base + 2 ^ 18 ≤ 2 ^ 64 ∧ ¬ a.natAbs ∣ alignTo base a := by
  rcases Int.natAbs_eq a with h | h
  · -- a power of two stays where it is
    refine ⟨2 ^ 31, by decide, by decide, by decide, ?_⟩
    have hmask : maskUp (2 ^ 31) (a.natAbs - 1) = 2 ^ 31 :=
      maskUp_of_dvd (by decide) (Nat.dvd_refl _) (by omega) (by omega)
    rw [h, Int.natAbs_natCast, alignTo_eq _ (by omega) (by omega), hmask,
      Nat.dvd_prime_pow Nat.prime_two]
    rintro ⟨k, -, hk⟩
    exact hpow ⟨k, hk⟩
  · -- the complement mask leaves some of the bits of the amount
    obtain ⟨base, h16, h0, hle, hlt, hbit⟩ := exists_part_left (m := a.natAbs) (by omega)
      (by omega) (by omega) hpow
    refine ⟨base, h16, h0, hle, ?_⟩
    have hmask : toUnsigned 64 (a - 1) = 2 ^ 64 - a.natAbs - 1 := by
      rw [toUnsigned]
      omega
    rw [alignTo, hmask, maskUp_compl_eq (by omega)]
    intro hdvd
    exact hbit (Nat.eq_zero_of_dvd_of_lt hdvd hlt)

-- ── The pool ─────────────────────────────────────────────────────────────────

/-- Every address `mempool_alloc` returns, in every run, is a multiple of
    `pool->align`. -/
def AllocsAligned (objSize align : Nat) : Prop :=
  ∀ st, Reachable objSize align st → ∀ calloc malloc x pool',
    mallocOk st.pool calloc malloc = true →
      mempoolAlloc st.pool calloc malloc = some (some x, pool') → st.pool.align ∣ (x : Int)

/-- The pool a run starts with. -/
theorem created_pool {objSize align : Nat} {st : PoolState} (h : Created objSize align st) :
    alignField align ≠ 0 ∧ ∃ n ops num order, order ≤ mallocMaxOrder
      ∧ st = ⟨createdPool n objSize align ops num order, []⟩ := by
  obtain ⟨mempoolList, name, ops, hcreate, hlive⟩ := h
  obtain ⟨pool, live⟩ := st
  cases hlive
  cases name with
  | none => cases hcreate
  | some n =>
      by_cases hn : n ∈ mempoolList
      · rw [mempoolCreate, if_pos hn] at hcreate
        cases hcreate
      · rw [mempoolCreate_eq ops hn, Option.map_eq_some_iff] at hcreate
        obtain ⟨r, hr, hpool⟩ := hcreate
        have hs : sizeField objSize align ≠ 0 := by
          intro h0
          rw [h0, calculateSlabOrder_zero] at hr
          cases hr
        refine ⟨alignField_ne_zero hs, ?_⟩
        by_cases h0 : r.1 = 0
        · rw [if_pos h0] at hpool
          cases hpool
        · rw [if_neg h0] at hpool
          cases hpool
          refine ⟨n, ops, r.1, r.2.1, ?_, rfl⟩
          obtain ⟨hr', -⟩ | ⟨e, he, hr'⟩ := calculateSlabOrder_cases hs (alignField align)
          · rw [hr] at hr'
            cases hr'
            exact absurd rfl h0
          · rw [hr] at hr'
            cases hr'
            exact he.1

/-- The first object of a pool is where `ALIGN` puts the start of its slab. -/
theorem first_alloc (n : String) (objSize align : Nat) (ops : Option MempoolOps)
    (num order base : Nat) :
    ∃ pool', mempoolAlloc (createdPool n objSize align ops num order) (some 0) (some base)
      = some (some (alignTo base (alignField align)), pool') := by
  generalize hp : createdPool n objSize align ops num order = pool
  have halign : pool.align = alignField align := by rw [← hp]; rfl
  have hslabs : pool.slabs = initSlabsInfo := by rw [← hp]; rfl
  obtain ⟨p1, heq, hg⟩ := slabAlloc_eq pool 0 base
  have hmem : p1.mem 0 = some (newSlab pool base) := by rw [hg.mem, Function.update_self]
  have hperm : p1.slabs.held.Perm [0] := by
    have := hg.perm
    rw [hslabs] at this
    exact this
  have hused : (takeIdx (newSlab pool base)).used = 1 := by
    rw [takeIdx]
    show toUnsigned 16 (((0 : Nat) : Int) + 1) = 1
    decide
  obtain ⟨slabs', hmoves, -⟩ := allocMoves_spec (newSlab pool base).freeIdx
    (takeIdx (newSlab pool base)).lastFreeIdx (hperm.nodup_iff.mpr (List.nodup_singleton 0))
    (hperm.mem_iff.mpr (List.mem_singleton.mpr rfl)) (fun _ => hused)
  have haddr : ((newSlab pool base).objBase
      + toUnsigned 32 ((newSlab pool base).freeIdx * p1.size)) % 2 ^ 64
      = alignTo base (alignField align) := by
    have hzero : toUnsigned 32 ((newSlab pool base).freeIdx * p1.size) = 0 := by
      rw [show (newSlab pool base).freeIdx = 0 from rfl, Int.zero_mul]
      decide
    rw [hzero, Nat.add_zero, newSlab, halign]
    exact Nat.mod_eq_of_lt (maskUp_lt _ _)
  have h0 : pool.slabs.freeObjs = 0 := by rw [hslabs]; rfl
  rw [mempoolAlloc, if_pos h0, heq]
  simp only [allocFrom, allocObjFromSlab, hmem, Option.bind_eq_bind, Option.bind_some]
  rw [if_neg (show ¬ (newSlab pool base).freeIdx < 0 from Int.lt_irrefl 0), hmoves,
    Option.bind_some, Option.map_some, haddr]
  exact ⟨_, rfl⟩

/-- A fresh pool holds nothing, so any block in the address space may be its
    first. -/
theorem mallocOk_created {n : String} {objSize align num order base : Nat}
    {ops : Option MempoolOps} (ho : order ≤ mallocMaxOrder) (h0 : 0 < base)
    (hle : base + 2 ^ 18 ≤ 2 ^ 64) :
    mallocOk (createdPool n objSize align ops num order) (some 0) (some base) = true := by
  have hbytes : (createdPool n objSize align ops num order).slabSize ≤ 2 ^ 18 := slabBytes_le ho
  simp only [mallocOk, Bool.and_eq_true, decide_eq_true_eq]
  exact ⟨List.not_mem_nil, ⟨h0, by omega⟩, rfl⟩

theorem dvd_alignField (align : Nat) : 8 ∣ alignField align := by
  rw [alignField, calculateAlignment_eq, toSigned]
  omega

/-- Every run of an alignment that is a power of two. -/
theorem allocsAligned_of_two_pow {objSize align k : Nat}
    (hk : (alignField align).natAbs = 2 ^ k) : AllocsAligned objSize align := by
  obtain ⟨hge, hlt⟩ := alignField_range align
  have hk31 : k ≤ 31 := (Nat.pow_le_pow_iff_right (by decide : 1 < 2)).mp (by omega)
  have hreach : ∀ st, Reachable objSize align st →
      AlignedTo k (alignField align) st.pool := by
    refine Reach.invariant ?_ ?_
    · intro st hst
      obtain ⟨-, n, ops, num, order, -, rfl⟩ := created_pool hst
      exact {
        align := rfl
        size := by
          show 2 ^ k ∣ sizeField objSize align
          have hcut : sizeField objSize align
              = alignTo objSize (alignField align) % 2 ^ 32 := by
            rw [sizeField, toUnsigned]
            omega
          rw [hcut, Nat.dvd_mod_iff (Nat.pow_dvd_pow 2 (by omega))]
          exact two_pow_dvd_alignTo hk hk31
        bases := fun b s hs => by cases hs }
    · intro st op st' _ h hstep
      exact h.opStep hk hk31 hstep
  intro st hst calloc malloc x pool' _ halloc
  have h := hreach st hst
  obtain ⟨-, hx⟩ := h.mempoolAlloc hk hk31 halloc
  rw [h.align, ← Int.natAbs_dvd, hk, Int.natCast_dvd_natCast]
  exact hx x rfl

/-- **THE ADDRESSES ARE ALIGNED** in every run exactly when `pool->align` is
    plus or minus a power of two. -/
theorem mempool_alloc_aligned_iff {objSize align : Nat} (hs : ∃ st, Created objSize align st) :
    AllocsAligned objSize align ↔ ∃ k, (alignField align).natAbs = 2 ^ k := by
  constructor
  · intro hall
    by_contra hpow
    obtain ⟨st, hst⟩ := hs
    obtain ⟨h0, n, ops, num, order, ho, rfl⟩ := created_pool hst
    obtain ⟨base, -, hpos, hle, hnot⟩ :=
      exists_misaligned (dvd_alignField align) h0 (alignField_range align) hpow
    obtain ⟨pool', halloc⟩ := first_alloc n objSize align ops num order base
    have hdvd := hall _ (Reach.start hst) _ _ _ _ (mallocOk_created ho hpos hle) halloc
    rw [show (createdPool n objSize align ops num order).align = alignField align from rfl,
      ← Int.natAbs_dvd, Int.natCast_dvd_natCast] at hdvd
    exact hnot hdvd
  · rintro ⟨k, hk⟩
    exact allocsAligned_of_two_pow hk

/-- A pool whose order is known. -/
theorem created_of_order {objSize align num order left : Nat} (hnum : num ≠ 0)
    (h : calculateSlabOrder (sizeField objSize align) (alignField align)
      = some (num, order, left)) :
    Created objSize align ⟨createdPool "pool" objSize align none num order, []⟩ := by
  refine ⟨[], some "pool", none, ?_, rfl⟩
  rw [mempoolCreate_eq none List.not_mem_nil, h, Option.map_some, if_neg hnum]

/-- Objects of 5 bytes at an alignment of 8. -/
theorem mempool_alloc_aligned_iff_five : AllocsAligned 5 8 := by
  have hr : calculateSlabOrder (sizeField 5 8) (alignField 8) = some (511, 0, 0) := by
    decide +kernel
  have hs : ∃ st, Created 5 8 st :=
    ⟨⟨createdPool "pool" 5 8 none 511 0, []⟩, created_of_order (by decide) hr⟩
  exact (mempool_alloc_aligned_iff hs).mpr ⟨3, by decide +kernel⟩

/-- At an alignment of 24 the first object of a slab at 4096 is at 4096. -/
theorem mempool_alloc_misaligned :
    ¬ ∀ objSize align : Nat, 1 ≤ objSize → 1 ≤ align → alignField align ≤ 4096 →
      (∃ st, Created objSize align st) → AllocsAligned objSize align := by
  intro h
  have hr : calculateSlabOrder (sizeField 5 24) (alignField 24) = some (509, 0, 0) := by
    decide +kernel
  have hst : Created 5 24 ⟨createdPool "pool" 5 24 none 509 0, []⟩ :=
    created_of_order (by decide) hr
  obtain ⟨pool', halloc⟩ := first_alloc "pool" 5 24 none 509 0 4096
  have hok : mallocOk (createdPool "pool" 5 24 none 509 0) (some 0) (some 4096) = true :=
    mallocOk_created (by decide) (by decide) (by decide)
  have hdvd := h 5 24 (by decide) (by decide) (by decide +kernel) ⟨_, hst⟩ _ (Reach.start hst)
    _ _ _ _ hok halloc
  have hnot : ¬ alignField 24 ∣ (alignTo 4096 (alignField 24) : Int) := by decide +kernel
  exact hnot hdvd

end MempoolAlign
