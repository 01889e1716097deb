import Mathlib.Data.Finset.Card
import Mathlib.Data.Finset.Range
import Mathlib.Data.Finset.Dedup
import TreasureHouse.MempoolGeometryProofs

/-! # One slab — its free chain, its counts and its addresses

    The free objects of a slab are a chain of indices threaded through
    `freelist`, with -1 (65535 as an `unsigned short`) at the end.  `SlabInv`
    says that the chain is `chain`, that the two counts agree with it and that
    every object lies inside the block.  Taking the first index
    (`takeIdx_inv`) and putting an index back (`putIdx_inv`) keep it, and a
    fresh slab starts with all indices in order (`newSlab_inv`). -/

namespace MempoolSlab

open MachineInt LabelledRun Mempool MempoolGeometry

/-- Following `freelist` from the value `v` visits the indices of the list and
    ends at -1. -/
def FreeChain (freelist : Nat → Nat) : Int → List Nat → Prop
  | v, [] => v = -1
  | v, i :: l => v = i ∧ FreeChain freelist (toSigned 16 (freelist i)) l

/-- The chain does not see a store off the chain. -/
theorem FreeChain.congr {freelist freelist' : Nat → Nat} :
    ∀ {l : List Nat} {v : Int}, (∀ i ∈ l, freelist' i = freelist i) →
      FreeChain freelist v l → FreeChain freelist' v l := by
  intro l
  induction l with
  | nil => intro v _ h; exact h
  | cons i l ih =>
      intro v hc h
      refine ⟨h.1, ?_⟩
      rw [hc i (List.mem_cons_self ..)]
      exact ih (fun j hj => hc j (List.mem_cons_of_mem _ hj)) h.2

/-- What is visited from a value is determined. -/
theorem FreeChain.unique {freelist : Nat → Nat} :
    ∀ {l l' : List Nat} {v : Int}, FreeChain freelist v l → FreeChain freelist v l' → l = l' := by
  intro l
  induction l with
  | nil =>
      intro l' v h h'
      cases l' with
      | nil => rfl
      | cons i l' =>
          have h1 : v = -1 := h
          have h2 : v = i := h'.1
          omega
  | cons i l ih =>
      intro l' v h h'
      cases l' with
      | nil =>
          have h1 : v = -1 := h'
          have h2 : v = i := h.1
          omega
      | cons j l' =>
          have hij : (i : Int) = j := h.1.symm.trans h'.1
          obtain rfl := Int.ofNat_inj.mp hij
          rw [ih h.2 h'.2]

/-- The free chain and the counts of a slab of `num` objects. -/
structure ChainOk (num : Nat) (slab : Slab) (chain : List Nat) : Prop where
  linked : FreeChain slab.freelist slab.freeIdx chain
  nodup : chain.Nodup
  bound : ∀ i ∈ chain, i < num
  marked : ∀ i, i < num → i ∉ chain → slab.freelist i = noIdx
  free_eq : slab.free = chain.length
  used_eq : slab.used + slab.free = num
  last_eq : slab.lastFreeIdx = (num : Int) - 1

/-- A held slab: `chain` lists its free indices. -/
structure SlabInv (pool : Pool) (slab : Slab) (chain : List Nat) : Prop where
  linked : FreeChain slab.freelist slab.freeIdx chain
  nodup : chain.Nodup
  bound : ∀ i ∈ chain, i < pool.numPerSlab
  marked : ∀ i, i < pool.numPerSlab → i ∉ chain → slab.freelist i = noIdx
  free_eq : slab.free = chain.length
  used_eq : slab.used + slab.free = pool.numPerSlab
  last_eq : slab.lastFreeIdx = (pool.numPerSlab : Int) - 1
  base_pos : 0 < slab.sBase
  base_le : slab.sBase ≤ slab.objBase
  end_eq : slab.objEnd = slab.objBase + pool.numPerSlab * pool.size
  end_lt : slab.objEnd < slab.sBase + pool.slabSize
  block_le : slab.sBase + pool.slabSize ≤ 2 ^ 64

theorem SlabInv.chainOk {pool : Pool} {slab : Slab} {chain : List Nat}
    (h : SlabInv pool slab chain) : ChainOk pool.numPerSlab slab chain where
  linked := h.linked
  nodup := h.nodup
  bound := h.bound
  marked := h.marked
  free_eq := h.free_eq
  used_eq := h.used_eq
  last_eq := h.last_eq

/-- The chain of a slab changes, its block stays. -/
theorem SlabInv.rechain {pool : Pool} {slab slab' : Slab} {chain chain' : List Nat}
    (h : SlabInv pool slab chain) (hc : ChainOk pool.numPerSlab slab' chain')
    (h1 : slab'.sBase = slab.sBase) (h2 : slab'.objBase = slab.objBase)
    (h3 : slab'.objEnd = slab.objEnd) : SlabInv pool slab' chain' where
  linked := hc.linked
  nodup := hc.nodup
  bound := hc.bound
  marked := hc.marked
  free_eq := hc.free_eq
  used_eq := hc.used_eq
  last_eq := hc.last_eq
  base_pos := by rw [h1]; exact h.base_pos
  base_le := by rw [h1, h2]; exact h.base_le
  end_eq := by rw [h2, h3]; exact h.end_eq
  end_lt := by rw [h1, h3]; exact h.end_lt
  block_le := by rw [h1]; exact h.block_le

/-- The slab invariant depends on the pool's constants only. -/
theorem SlabInv.congr {pool pool' : Pool} {slab : Slab} {chain : List Nat}
    (h : SlabInv pool slab chain) (h2 : pool'.size = pool.size)
    (h3 : pool'.numPerSlab = pool.numPerSlab) (h4 : pool'.order = pool.order) :
    SlabInv pool' slab chain where
  linked := h.linked
  nodup := h.nodup
  bound := by rw [h3]; exact h.bound
  marked := by rw [h3]; exact h.marked
  free_eq := h.free_eq
  used_eq := by rw [h3]; exact h.used_eq
  last_eq := by rw [h3]; exact h.last_eq
  base_pos := h.base_pos
  base_le := h.base_le
  end_eq := by rw [h2, h3]; exact h.end_eq
  end_lt := by rw [Pool.slabSize, h4]; exact h.end_lt
  block_le := by rw [Pool.slabSize, h4]; exact h.block_le

-- ── A fresh slab ─────────────────────────────────────────────────────────────

theorem initFreelistLoop_apply (freelist : Nat → Nat) :
    ∀ (k i : Nat), initFreelistLoop freelist k i
      = if i < k then toUnsigned 16 ((i + 1 : Nat) : Int) else freelist i := by
  intro k
  induction k with
  | zero => intro i; rfl
  | succ k ih =>
      intro i
      rw [initFreelistLoop]
      by_cases hik : i = k
      · subst hik
        rw [Function.update_self, if_pos (Nat.lt_succ_self i)]
      · rw [Function.update_of_ne hik, ih]
        by_cases hlt : i < k
        · rw [if_pos hlt, if_pos (by omega)]
        · rw [if_neg hlt, if_neg (by omega)]

/-- Every index points to the next one. -/
theorem initFreelist_next {freelist : Nat → Nat} {num i : Nat} (hnum : num < 2 ^ 15)
    (h : i + 1 < num) : initFreelist freelist num i = i + 1 := by
  rw [initFreelist, Function.update_of_ne (by omega), initFreelistLoop_apply,
    if_pos (by omega), toUnsigned_natCast (by omega)]

/-- The last index ends the chain. -/
theorem initFreelist_last {freelist : Nat → Nat} {num : Nat} :
    initFreelist freelist num (num - 1) = noIdx := Function.update_self ..

/-- The fresh chain from `k` on. -/
theorem freeChain_range (freelist : Nat → Nat) {num : Nat} (hnum : num < 2 ^ 15) :
    ∀ (m k : Nat), k + (m + 1) = num →
      FreeChain (initFreelist freelist num) k (List.range' k (m + 1)) := by
  intro m
  induction m with
  | zero =>
      intro k hk
      refine ⟨rfl, ?_⟩
      rw [show k = num - 1 by omega, initFreelist_last]
      rfl
  | succ m ih =>
      intro k hk
      refine ⟨rfl, ?_⟩
      rw [initFreelist_next hnum (by omega), toSigned_natCast (by omega) (by omega)]
      exact ih (k + 1) (by omega)

/-- Every index of a fresh slab is on its chain. -/
theorem newSlab_chainOk {pool : Pool} (h0 : 0 < pool.numPerSlab) (hn : pool.numPerSlab < 2 ^ 15)
    (base : Nat) :
    ChainOk pool.numPerSlab (newSlab pool base) (List.range pool.numPerSlab) := by
  obtain ⟨m, hm⟩ := Nat.exists_eq_succ_of_ne_zero (show pool.numPerSlab ≠ 0 by omega)
  exact {
    linked := by
      show FreeChain (initFreelist (fun _ => 0) pool.numPerSlab) 0 (List.range pool.numPerSlab)
      rw [List.range_eq_range']
      have := freeChain_range (fun _ => 0) hn m 0 (by omega)
      rw [hm]
      rw [hm] at this
      exact this
    nodup := List.nodup_range
    bound := fun i hi => List.mem_range.mp hi
    marked := fun i hi hni => absurd (List.mem_range.mpr hi) hni
    free_eq := by
      show toUnsigned 16 (pool.numPerSlab : Int) = _
      rw [toUnsigned_natCast (by omega), List.length_range]
    used_eq := by
      show 0 + toUnsigned 16 (pool.numPerSlab : Int) = _
      rw [toUnsigned_natCast (by omega), Nat.zero_add]
    last_eq := toSigned_of_range (by omega) (by omega) (by omega) }

/-- The first object starts at most `align - 1` bytes into the block. -/
theorem alignTo_base {objSize : Nat} {pool : Pool} (g : Geometry objSize pool) {base : Nat}
    (hb : base + pool.slabSize ≤ 2 ^ 64) :
    base ≤ alignTo base pool.align ∧ (alignTo base pool.align : Int) < base + pool.align := by
  have h1 := g.align_ge
  have h2 := g.align_le
  have h3 := g.fits
  obtain ⟨a, ha⟩ := Int.eq_ofNat_of_zero_le (show 0 ≤ pool.align by omega)
  rw [ha] at h1 h2 h3 ⊢
  rw [alignTo_eq base (by omega) (by omega)]
  have hle := maskUp_le (x := base) (m := a - 1) (by omega)
  have hge := le_maskUp (x := base) (m := a - 1) (by omega)
  omega

/-- The slab `slab_alloc` builds has every index free. -/
theorem newSlab_inv {objSize : Nat} {pool : Pool} (g : Geometry objSize pool) {base : Nat}
    (h0 : 0 < base) (hb : base + pool.slabSize ≤ 2 ^ 64) :
    SlabInv pool (newSlab pool base) (List.range pool.numPerSlab) := by
  have hn8 := g.num_ge
  have hn := g.num_lt
  have hfits := g.fits
  obtain ⟨hge, hlt⟩ := alignTo_base g hb
  have hend : (alignTo base pool.align + pool.numPerSlab * pool.size) % 2 ^ 64
      = alignTo base pool.align + pool.numPerSlab * pool.size := Nat.mod_eq_of_lt (by omega)
  have hc : ChainOk pool.numPerSlab (newSlab pool base) (List.range pool.numPerSlab) :=
    newSlab_chainOk (by omega) hn base
  exact {
    linked := hc.linked
    nodup := hc.nodup
    bound := hc.bound
    marked := hc.marked
    free_eq := hc.free_eq
    used_eq := hc.used_eq
    last_eq := hc.last_eq
    base_pos := h0
    base_le := hge
    end_eq := hend
    end_lt := by
      show (alignTo base pool.align + pool.numPerSlab * pool.size) % 2 ^ 64 < base + pool.slabSize
      omega
    block_le := hb }

-- ── Taking and putting back ──────────────────────────────────────────────────

section OneChain

variable {num : Nat} {slab : Slab}

/-- Taking the first free index moves the counts by one. -/
theorem ChainOk.take {i : Nat} {l : List Nat} (hn : num < 2 ^ 15)
    (h : ChainOk num slab (i :: l)) :
    slab.freeIdx = i ∧ ChainOk num (takeIdx slab) l
      ∧ (takeIdx slab).used = slab.used + 1
      ∧ (takeIdx slab).free + 1 = slab.free := by
  have hidx : slab.freeIdx = i := h.linked.1
  have hfree : slab.free = l.length + 1 := h.free_eq
  have hused := h.used_eq
  have hil : i ∉ l := (List.nodup_cons.mp h.nodup).1
  have hused' : (takeIdx slab).used = slab.used + 1 := by
    show toUnsigned 16 ((slab.used : Int) + 1) = _
    rw [show (slab.used : Int) + 1 = ((slab.used + 1 : Nat) : Int) by omega,
      toUnsigned_natCast (by omega)]
  have hfree' : (takeIdx slab).free = l.length := by
    show toUnsigned 16 ((slab.free : Int) - 1) = _
    rw [show (slab.free : Int) - 1 = (l.length : Int) by omega, toUnsigned_natCast (by omega)]
  have hfl : (takeIdx slab).freelist = Function.update slab.freelist i noIdx := by
    show Function.update slab.freelist slab.freeIdx.toNat noIdx = _
    rw [hidx, Int.toNat_natCast]
  have hnext : (takeIdx slab).freeIdx = toSigned 16 (slab.freelist i) := by
    rw [takeIdx, hidx, Int.toNat_natCast]
  refine ⟨hidx, ?_, hused', by omega⟩
  exact {
    linked := by
      rw [hfl, hnext]
      refine FreeChain.congr ?_ h.linked.2
      intro j hj
      refine Function.update_of_ne ?_ _ _
      rintro rfl
      exact hil hj
    nodup := (List.nodup_cons.mp h.nodup).2
    bound := fun j hj => h.bound j (List.mem_cons_of_mem _ hj)
    marked := by
      intro j hj hjl
      rw [hfl]
      by_cases hji : j = i
      · subst hji
        exact Function.update_self ..
      · rw [Function.update_of_ne hji]
        refine h.marked j hj ?_
        rw [List.mem_cons, not_or]
        exact ⟨hji, hjl⟩
    free_eq := hfree'
    used_eq := by omega
    last_eq := by rw [takeIdx]; exact h.last_eq }

/-- The chain and the indices off it are all indices. -/
theorem ChainOk.used_eq_card {l : List Nat} (h : ChainOk num slab l) :
    slab.used = (Finset.range num \ l.toFinset).card := by
  have hsub : l.toFinset ⊆ Finset.range num := fun j hj =>
    Finset.mem_range.mpr (h.bound j (List.mem_toFinset.mp hj))
  have hcard := Finset.card_sdiff_add_card_eq_card hsub
  rw [List.toFinset_card_of_nodup h.nodup, Finset.card_range] at hcard
  have h1 := h.free_eq
  have h2 := h.used_eq
  omega

/-- Some object is in use exactly when some index is off the chain. -/
theorem ChainOk.used_pos_iff {l : List Nat} (h : ChainOk num slab l) :
    0 < slab.used ↔ ∃ i < num, i ∉ l := by
  rw [h.used_eq_card, Finset.card_pos]
  constructor
  · rintro ⟨i, hi⟩
    rw [Finset.mem_sdiff, Finset.mem_range, List.mem_toFinset] at hi
    exact ⟨i, hi.1, hi.2⟩
  · rintro ⟨i, hi, hil⟩
    refine ⟨i, ?_⟩
    rw [Finset.mem_sdiff, Finset.mem_range, List.mem_toFinset]
    exact ⟨hi, hil⟩

/-- The first free index as a `short`. -/
theorem ChainOk.freeIdx_range {l : List Nat} (hn : num < 2 ^ 15) (h : ChainOk num slab l) :
    -1 ≤ slab.freeIdx ∧ slab.freeIdx < 2 ^ 15 := by
  have hlink := h.linked
  cases l with
  | nil =>
      have : slab.freeIdx = -1 := hlink
      omega
  | cons i l =>
      have : slab.freeIdx = i := hlink.1
      have := h.bound i (List.mem_cons_self ..)
      omega

/-- -1 and the indices survive the way through `freelist_idx_t`. -/
theorem toSigned_toUnsigned {v : Int} (h1 : -1 ≤ v) (h2 : v < 2 ^ 15) :
    toSigned 16 (toUnsigned 16 v) = v := by
  rcases eq_or_lt_of_le h1 with rfl | hpos
  · rfl
  · obtain ⟨n, rfl⟩ := Int.eq_ofNat_of_zero_le (show 0 ≤ v by omega)
    rw [toUnsigned_natCast (by omega), toSigned_natCast (by omega) (by omega)]

/-- Putting a used index back makes it the first free one. -/
theorem ChainOk.put {i : Nat} {l : List Nat} (hn : num < 2 ^ 15) (h : ChainOk num slab l)
    (hi : i < num) (hil : i ∉ l) :
    ChainOk num (putIdx slab i) (i :: l) ∧ (putIdx slab i).used + 1 = slab.used
      ∧ (putIdx slab i).free = slab.free + 1 := by
  have hused := h.used_eq
  have hfree := h.free_eq
  have hpos := h.used_pos_iff.mpr ⟨i, hi, hil⟩
  obtain ⟨hr1, hr2⟩ := h.freeIdx_range hn
  have hused' : (putIdx slab i).used + 1 = slab.used := by
    show toUnsigned 16 ((slab.used : Int) - 1) + 1 = _
    rw [show (slab.used : Int) - 1 = ((slab.used - 1 : Nat) : Int) by omega,
      toUnsigned_natCast (by omega)]
    omega
  have hfree' : (putIdx slab i).free = slab.free + 1 := by
    show toUnsigned 16 ((slab.free : Int) + 1) = _
    rw [show (slab.free : Int) + 1 = ((slab.free + 1 : Nat) : Int) by omega,
      toUnsigned_natCast (by omega)]
  have hfl : (putIdx slab i).freelist
      = Function.update slab.freelist i (toUnsigned 16 slab.freeIdx) := by
    show Function.update slab.freelist (i : Int).toNat _ = _
    rw [Int.toNat_natCast]
  refine ⟨?_, hused', hfree'⟩
  exact {
    linked := by
      rw [hfl]
      refine ⟨rfl, ?_⟩
      rw [Function.update_self, toSigned_toUnsigned hr1 hr2]
      refine FreeChain.congr ?_ h.linked
      intro j hj
      refine Function.update_of_ne ?_ _ _
      rintro rfl
      exact hil hj
    nodup := List.nodup_cons.mpr ⟨hil, h.nodup⟩
    bound := by
      intro j hj
      rcases List.mem_cons.mp hj with rfl | hj
      · exact hi
      · exact h.bound j hj
    marked := by
      intro j hj hjl
      rw [List.mem_cons, not_or] at hjl
      rw [hfl, Function.update_of_ne hjl.1]
      exact h.marked j hj hjl.2
    free_eq := by
      rw [List.length_cons]
      omega
    used_eq := by omega
    last_eq := by rw [putIdx]; exact h.last_eq }

end OneChain

section OneSlab

variable {objSize : Nat} {pool : Pool} {slab : Slab}

theorem takeIdx_inv {i : Nat} {l : List Nat} (g : Geometry objSize pool)
    (h : SlabInv pool slab (i :: l)) :
    slab.freeIdx = i ∧ SlabInv pool (takeIdx slab) l
      ∧ (takeIdx slab).used = slab.used + 1 ∧ (takeIdx slab).free + 1 = slab.free := by
  obtain ⟨hidx, hc, hused, hfree⟩ := h.chainOk.take g.num_lt
  exact ⟨hidx, h.rechain hc (by rw [takeIdx]) (by rw [takeIdx]) (by rw [takeIdx]), hused, hfree⟩

/-- An index off the chain: some object is in use. -/
theorem SlabInv.used_pos {i : Nat} {l : List Nat} (h : SlabInv pool slab l)
    (hi : i < pool.numPerSlab) (hil : i ∉ l) : 0 < slab.used :=
  h.chainOk.used_pos_iff.mpr ⟨i, hi, hil⟩

/-- With nothing in use every index is on the chain. -/
theorem SlabInv.mem_of_used_eq_zero {l : List Nat} (h : SlabInv pool slab l)
    (hu : slab.used = 0) {i : Nat} (hi : i < pool.numPerSlab) : i ∈ l := by
  by_contra hil
  have := h.used_pos hi hil
  omega

theorem putIdx_inv {i : Nat} {l : List Nat} (g : Geometry objSize pool)
    (h : SlabInv pool slab l) (hi : i < pool.numPerSlab) (hil : i ∉ l) :
    SlabInv pool (putIdx slab i) (i :: l) ∧ (putIdx slab i).used + 1 = slab.used
      ∧ (putIdx slab i).free = slab.free + 1 := by
  obtain ⟨hc, hused, hfree⟩ := h.chainOk.put g.num_lt hi hil
  exact ⟨h.rechain hc (by rw [putIdx]) (by rw [putIdx]) (by rw [putIdx]), hused, hfree⟩

-- ── Addresses ────────────────────────────────────────────────────────────────

/-- The address of object `i`. -/
def objAddr (pool : Pool) (slab : Slab) (i : Nat) : Nat := slab.objBase + i * pool.size

@[simp] theorem objAddr_takeIdx (i : Nat) : objAddr pool (takeIdx slab) i = objAddr pool slab i := by
  rw [objAddr, objAddr, takeIdx]

@[simp] theorem objAddr_putIdx (v : Int) (i : Nat) :
    objAddr pool (putIdx slab v) i = objAddr pool slab i := by
  rw [objAddr, objAddr, putIdx]

/-- Every object lies between `obj_base` and `obj_end`, inside the block. -/
theorem SlabInv.obj_range {l : List Nat} (h : SlabInv pool slab l) {i : Nat}
    (hi : i < pool.numPerSlab) :
    slab.sBase ≤ objAddr pool slab i ∧ slab.objBase ≤ objAddr pool slab i
      ∧ objAddr pool slab i + pool.size ≤ slab.objEnd
      ∧ slab.objEnd < slab.sBase + pool.slabSize := by
  have h1 := h.base_le
  have h2 := h.end_eq
  have h3 := h.end_lt
  have hmul : (i + 1) * pool.size ≤ pool.numPerSlab * pool.size := Nat.mul_le_mul_right _ hi
  have hadd : (i + 1) * pool.size = i * pool.size + pool.size := by ring
  show slab.sBase ≤ slab.objBase + i * pool.size ∧ slab.objBase ≤ slab.objBase + i * pool.size
    ∧ slab.objBase + i * pool.size + pool.size ≤ slab.objEnd ∧ _
  omega

/-- The address `alloc_obj_from_slab` computes, wrap-arounds included. -/
theorem SlabInv.addr_eq {l : List Nat} (g : Geometry objSize pool) (h : SlabInv pool slab l)
    {i : Nat} (hi : i < pool.numPerSlab) :
    (slab.objBase + toUnsigned 32 ((i : Int) * pool.size)) % 2 ^ 64 = objAddr pool slab i := by
  obtain ⟨h1, h2, h3, h4⟩ := h.obj_range hi
  have h5 := h.block_le
  have h6 := h.base_le
  have h7 := g.slab_le
  have haddr : objAddr pool slab i = slab.objBase + i * pool.size := rfl
  have hc : (i : Int) * pool.size = ((i * pool.size : Nat) : Int) := by push_cast; rfl
  rw [hc, toUnsigned_natCast (by omega), Nat.mod_eq_of_lt (by omega), haddr]

/-- `free_obj2slab` recovers the index from the address. -/
theorem SlabInv.objIdx_eq {l : List Nat} (g : Geometry objSize pool) (h : SlabInv pool slab l)
    {i : Nat} (hi : i < pool.numPerSlab) : objIdx pool slab (objAddr pool slab i) = i := by
  have hn := g.num_lt
  have hs := g.size_ge
  have hsl := g.slab_le
  obtain ⟨h1, h2, h3, h4⟩ := h.obj_range hi
  have h6 := h.base_le
  have haddr : objAddr pool slab i = slab.objBase + i * pool.size := rfl
  have hsub : (objAddr pool slab i : Int) - slab.objBase = ((i * pool.size : Nat) : Int) := by
    omega
  rw [objIdx, hsub, toUnsigned_natCast (by omega), Nat.mul_div_cancel _ (by omega),
    toSigned_natCast (by omega) (by omega)]

/-- Distinct indices of one slab have objects apart. -/
theorem objAddr_apart {i j : Nat} (hij : i ≠ j) :
    objAddr pool slab i + pool.size ≤ objAddr pool slab j
      ∨ objAddr pool slab j + pool.size ≤ objAddr pool slab i := by
  have key : ∀ {i j : Nat}, i < j →
      slab.objBase + i * pool.size + pool.size ≤ slab.objBase + j * pool.size := by
    intro i j hlt
    have hmul : (i + 1) * pool.size ≤ j * pool.size := Nat.mul_le_mul_right _ hlt
    have hadd : (i + 1) * pool.size = i * pool.size + pool.size := by ring
    omega
  rcases Nat.lt_or_gt_of_ne hij with hlt | hlt
  · exact Or.inl (key hlt)
  · exact Or.inr (key hlt)

/-- No index ever counts as used: an `unsigned short` is never -1. -/
theorem countsAsUsed_false (slab : Slab) (i : Nat) : countsAsUsed slab i = false := by
  have h1 : ¬ ((toUnsigned 16 slab.freeIdx : Int) = -1) := by omega
  have h2 : ¬ ((slab.freelist i : Int) = -1) := by omega
  simp [countsAsUsed, h1, h2]

end OneSlab

end MempoolSlab
