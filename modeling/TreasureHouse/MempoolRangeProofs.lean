import TreasureHouse.MempoolSafetyProofs

/-! # Any address given to `mempool_free`

    `ADDR_IN_SLAB` includes `obj_end`, the address just behind the last object,
    and nothing else checks what `mempool_free` is given.  The runs of this
    file free any address, so the free chains may come apart; what stays is
    weaker than the pool invariant and enough for addresses: `SlabBox` says
    where the objects of a slab are and that its counts add up, `RangeInv`
    that the lists hold the slabs and `used_objs` counts the objects in use.
    `free_index_in_range` says for which addresses the index is one of the
    slab's. -/

namespace MempoolRange

open MachineInt LabelledRun Mempool MempoolGeometry MempoolList MempoolSlab MempoolInv MempoolStep
open MempoolFree MempoolSafety

-- ── The calls ────────────────────────────────────────────────────────────────

/-- A pool that `mempool_create` returns for some arguments. -/
def CreatedPool (pool : Pool) : Prop :=
  ∃ mempoolList name objSize align ops,
    mempoolCreate mempoolList name objSize align ops true = some (some pool)

/-- One call; `mempool_free` is given any address. -/
def callStep (pool : Pool) : Op → Option Pool
  | .alloc calloc malloc =>
      if mallocOk pool calloc malloc then (mempoolAlloc pool calloc malloc).map Prod.snd else none
  | .free obj => mempoolFree pool obj

/-- The objects of a pool and the slack for the first one fit its slabs, and
    the indices fit a `short`. -/
structure Fits (pool : Pool) : Prop where
  align_ge : 1 ≤ pool.align
  num_lt : pool.numPerSlab < 2 ^ 15
  fits : ((pool.numPerSlab * pool.size : Nat) : Int) + pool.align ≤ pool.slabSize

/-- The call frees the end of a slab in use. -/
def freesEnd (pool : Pool) : Op → Bool
  | .alloc _ _ => false
  | .free obj => pool.slabs.held.any fun a =>
      (pool.mem a).any fun slab : Slab => decide (0 < slab.used) && decide (obj = slab.objEnd)

/-- The calls that free no end of a slab in use. -/
def AwayFromEnd (pool : Pool) (op : Op) : Prop := freesEnd pool op = false

/-- What `mempool_free` may be given: the index computed for the slab that is
    found is one of its indices, and an address in no slab's object area
    changes nothing. -/
structure FreeSafe (pool : Pool) (obj : Nat) : Prop where
  index : ∀ a slab, findObjSlab pool obj = some (some a) → pool.mem a = some slab →
    0 ≤ objIdx pool slab obj ∧ objIdx pool slab obj < pool.numPerSlab
  outside : (∀ a slab, pool.mem a = some slab → ¬ (slab.objBase ≤ obj ∧ obj < slab.objEnd)) →
    mempoolFree pool obj = some pool

/-- The sizes for which `mempool_create` computes without wrap-around. -/
theorem fits_of_created {objSize align : Nat} (h1 : 1 ≤ objSize) (h2 : objSize < 2 ^ 31)
    (h3 : 1 ≤ align) (h4 : align ≤ 4096) {mempoolList : List String} {name : Option String}
    {ops : Option MempoolOps} {pool : Pool}
    (h : mempoolCreate mempoolList name objSize align ops true = some (some pool)) : Fits pool := by
  obtain ⟨hgeo, -⟩ := mempoolCreate_geometry h1 h2 h3 h4 h
  have h8 := hgeo.align_ge
  exact ⟨by omega, hgeo.num_lt, hgeo.fits⟩

-- ── The invariant ────────────────────────────────────────────────────────────

/-- The constants of a pool whose objects fit. -/
structure RangeGeo (pool : Pool) : Prop extends Fits pool where
  size_pos : 0 < pool.size
  num_pos : 0 < pool.numPerSlab

/-- The counts of a slab and the place of its objects; nothing is known of its
    chain. -/
structure SlabBox (pool : Pool) (slab : Slab) : Prop where
  used_eq : slab.used + slab.free = pool.numPerSlab
  last_eq : slab.lastFreeIdx = (pool.numPerSlab : Int) - 1
  base_le : slab.sBase ≤ slab.objBase
  end_eq : slab.objEnd = slab.objBase + pool.numPerSlab * pool.size
  end_lt : slab.objEnd < slab.sBase + pool.slabSize
  block_le : slab.sBase + pool.slabSize ≤ 2 ^ 64

/-- What any call keeps, whatever was freed. -/
structure RangeInv (pool : Pool) : Prop where
  geo : RangeGeo pool
  slabs : SlabsOk pool fun _ s => SlabBox pool s
  used_eq : pool.slabs.usedObjs = ∑ a ∈ pool.slabs.held.toFinset, slabUsed pool a
  free_lt : pool.slabs.freeObjs < 2 ^ 64
  total_lt : pool.slabs.totalObjs < 2 ^ 64

section Constants

variable {pool pool' : Pool}

theorem RangeGeo.congr (h : RangeGeo pool) (hc : SameConsts pool pool') : RangeGeo pool' where
  align_ge := by rw [hc.align]; exact h.align_ge
  num_lt := by rw [hc.num]; exact h.num_lt
  fits := by rw [hc.num, hc.size, hc.align, hc.slabSize]; exact h.fits
  size_pos := by rw [hc.size]; exact h.size_pos
  num_pos := by rw [hc.num]; exact h.num_pos

theorem SlabBox.congr {slab : Slab} (h : SlabBox pool slab) (hc : SameConsts pool pool') :
    SlabBox pool' slab where
  used_eq := by rw [hc.num]; exact h.used_eq
  last_eq := by rw [hc.num]; exact h.last_eq
  base_le := h.base_le
  end_eq := by rw [hc.num, hc.size]; exact h.end_eq
  end_lt := by rw [hc.slabSize]; exact h.end_lt
  block_le := by rw [hc.slabSize]; exact h.block_le

/-- The counts change, the place stays. -/
theorem SlabBox.recount {slab slab' : Slab} (h : SlabBox pool slab)
    (hcount : slab'.used + slab'.free = pool.numPerSlab)
    (hlast : slab'.lastFreeIdx = slab.lastFreeIdx) (hs : slab'.sBase = slab.sBase)
    (hb : slab'.objBase = slab.objBase) (he : slab'.objEnd = slab.objEnd) :
    SlabBox pool slab' where
  used_eq := hcount
  last_eq := hlast.trans h.last_eq
  base_le := by rw [hs, hb]; exact h.base_le
  end_eq := by rw [he, hb]; exact h.end_eq
  end_lt := by rw [he, hs]; exact h.end_lt
  block_le := by rw [hs]; exact h.block_le

/-- The slab `slab_alloc` builds. -/
theorem newSlab_box (g : RangeGeo pool) {base : Nat} (hb : base + pool.slabSize ≤ 2 ^ 64) :
    SlabBox pool (newSlab pool base) := by
  have halign := g.align_ge
  have hfits := g.fits
  have hpos := Nat.mul_pos g.num_pos g.size_pos
  obtain ⟨a, ha⟩ := Int.eq_ofNat_of_zero_le (show 0 ≤ pool.align by omega)
  rw [ha] at halign hfits
  have hbase : alignTo base pool.align = maskUp base (a - 1) := by
    rw [ha, alignTo_eq base (by omega) (by omega)]
  have hle := maskUp_le (x := base) (m := a - 1) (by omega)
  have hge := le_maskUp (x := base) (m := a - 1) (by omega)
  have hend : (alignTo base pool.align + pool.numPerSlab * pool.size) % 2 ^ 64
      = alignTo base pool.align + pool.numPerSlab * pool.size := Nat.mod_eq_of_lt (by omega)
  have hok : ChainOk pool.numPerSlab (newSlab pool base) (List.range pool.numPerSlab) :=
    newSlab_chainOk g.num_pos g.num_lt base
  exact {
    used_eq := hok.used_eq
    last_eq := hok.last_eq
    base_le := by
      show base ≤ alignTo base pool.align
      omega
    end_eq := hend
    end_lt := by
      show (alignTo base pool.align + pool.numPerSlab * pool.size) % 2 ^ 64 < base + pool.slabSize
      omega
    block_le := hb }

theorem SlabBox.take {slab : Slab} (g : RangeGeo pool) (h : SlabBox pool slab)
    (hfree : 0 < slab.free) :
    SlabBox pool (takeIdx slab) ∧ (takeIdx slab).used = slab.used + 1 := by
  have hn := g.num_lt
  have hcount := h.used_eq
  have hused : (takeIdx slab).used = slab.used + 1 := by
    show toUnsigned 16 ((slab.used : Int) + 1) = _
    rw [show (slab.used : Int) + 1 = ((slab.used + 1 : Nat) : Int) by omega,
      toUnsigned_natCast (by omega)]
  have hfree' : (takeIdx slab).free = slab.free - 1 := by
    show toUnsigned 16 ((slab.free : Int) - 1) = _
    rw [show (slab.free : Int) - 1 = ((slab.free - 1 : Nat) : Int) by omega,
      toUnsigned_natCast (by omega)]
  exact ⟨h.recount (by omega) (by rw [takeIdx]) (by rw [takeIdx]) (by rw [takeIdx])
    (by rw [takeIdx]), hused⟩

theorem SlabBox.put {slab : Slab} (g : RangeGeo pool) (h : SlabBox pool slab)
    (hused : 0 < slab.used) (i : Int) :
    SlabBox pool (putIdx slab i) ∧ (putIdx slab i).used + 1 = slab.used := by
  have hn := g.num_lt
  have hcount := h.used_eq
  have hused' : (putIdx slab i).used + 1 = slab.used := by
    show toUnsigned 16 ((slab.used : Int) - 1) + 1 = _
    rw [show (slab.used : Int) - 1 = ((slab.used - 1 : Nat) : Int) by omega,
      toUnsigned_natCast (by omega)]
    omega
  have hfree' : (putIdx slab i).free = slab.free + 1 := by
    show toUnsigned 16 ((slab.free : Int) + 1) = _
    rw [show (slab.free : Int) + 1 = ((slab.free + 1 : Nat) : Int) by omega,
      toUnsigned_natCast (by omega)]
  exact ⟨h.recount (by omega) (by rw [putIdx]) (by rw [putIdx]) (by rw [putIdx])
    (by rw [putIdx]), hused'⟩

/-- The objects in use are fewer than 2^64. -/
theorem RangeGeo.used_lt (g : RangeGeo pool) (h : SlabsOk pool fun _ s => SlabBox pool s) :
    ∑ a ∈ pool.slabs.held.toFinset, slabUsed pool a < 2 ^ 64 := by
  have hpack := h.pack fun _ _ hs => hs.block_le
  have hle : ∑ a ∈ pool.slabs.held.toFinset, slabUsed pool a
      ≤ pool.slabs.held.length * pool.numPerSlab := by
    rw [← List.toFinset_card_of_nodup h.nodup, ← Finset.sum_const_nat fun _ _ => rfl]
    refine Finset.sum_le_sum ?_
    intro a ha
    obtain ⟨s, hs⟩ := (h.held_iff a).mp (List.mem_toFinset.mp ha)
    have hcount := (h.slab a s hs).used_eq
    rw [slabUsed, hs]
    show s.used ≤ pool.numPerSlab
    omega
  have hslab : pool.numPerSlab + 1 ≤ pool.slabSize := by
    have h1 := g.fits
    have h2 := g.align_ge
    have h3 : pool.numPerSlab * 1 ≤ pool.numPerSlab * pool.size :=
      Nat.mul_le_mul_left _ g.size_pos
    omega
  have hmul : pool.slabs.held.length * (pool.numPerSlab + 1)
      ≤ pool.slabs.held.length * pool.slabSize := Nat.mul_le_mul_left _ hslab
  have hexp : pool.slabs.held.length * (pool.numPerSlab + 1)
      = pool.slabs.held.length * pool.numPerSlab + pool.slabs.held.length := Nat.mul_succ ..
  rcases Nat.eq_zero_or_pos pool.slabs.held.length with h0 | hpos
  · rw [h0, Nat.zero_mul] at hle
    omega
  · omega

end Constants

-- ── What a call does ─────────────────────────────────────────────────────────

/-- Two sums that differ at one place. -/
theorem sum_change {S : Finset Nat} {f g : Nat → Nat} {a : Nat} (ha : a ∈ S)
    (h : ∀ b, b ≠ a → g b = f b) : ∑ b ∈ S, g b + f a = ∑ b ∈ S, f b + g a := by
  rw [← Finset.add_sum_erase S g ha, ← Finset.add_sum_erase S f ha]
  have heq : ∑ b ∈ S.erase a, g b = ∑ b ∈ S.erase a, f b :=
    Finset.sum_congr rfl fun b hb => h b (Finset.ne_of_mem_erase hb)
  omega

/-- The entry a search returns passes its test. -/
theorem firstEntry_some {mem : Nat → Option Slab} {test : Slab → Bool} {a : Nat} :
    ∀ {l : List Nat}, firstEntry mem test l = some (some a) →
      a ∈ l ∧ ∃ slab, mem a = some slab ∧ test slab = true := by
  intro l
  induction l with
  | nil => intro h; cases h
  | cons b l ih =>
      intro h
      obtain ⟨slab, hslab, h⟩ := Option.bind_eq_some_iff.mp h
      by_cases ht : test slab = true
      · rw [if_pos ht] at h
        cases h
        exact ⟨List.mem_cons_self .., slab, hslab, ht⟩
      · rw [if_neg ht] at h
        obtain ⟨ha, hrest⟩ := ih h
        exact ⟨List.mem_cons_of_mem _ ha, hrest⟩

/-- `find_slab` returns a slab with a free object and makes it `cur`, or
    nothing. -/
theorem findSlab_cases {pool pool' : Pool} {found : Option Nat}
    (h : findSlab pool = some (found, pool')) :
    (found = none ∧ pool' = pool)
      ∨ ∃ a s, found = some a ∧ pool' = setCur pool (some a) ∧ pool.mem a = some s
        ∧ 0 < s.free := by
  have hload : loadSlab pool = some (found, pool') → (found = none ∧ pool' = pool)
      ∨ ∃ a s, found = some a ∧ pool' = setCur pool (some a) ∧ pool.mem a = some s
        ∧ 0 < s.free := by
    intro h
    obtain ⟨o, ho, h⟩ := Option.bind_eq_some_iff.mp h
    cases o with
    | some a =>
        cases h
        obtain ⟨-, s, hs, htest⟩ := firstEntry_some ho
        exact Or.inr ⟨a, s, rfl, rfl, hs, of_decide_eq_true htest⟩
    | none =>
        obtain ⟨o, ho, h⟩ := Option.bind_eq_some_iff.mp h
        cases o with
        | some a =>
            cases h
            obtain ⟨-, s, hs, htest⟩ := firstEntry_some ho
            exact Or.inr ⟨a, s, rfl, rfl, hs, of_decide_eq_true htest⟩
        | none =>
            cases h
            exact Or.inl ⟨rfl, rfl⟩
  rw [findSlab] at h
  rcases hc : pool.slabs.cur with _ | c
  · rw [hc] at h
    exact hload h
  · rw [hc] at h
    obtain ⟨s, hs, h⟩ := Option.bind_eq_some_iff.mp h
    by_cases h0 : s.free = 0
    · rw [if_pos h0] at h
      exact hload h
    · rw [if_neg h0] at h
      cases h
      exact Or.inr ⟨c, s, rfl, (setCur_self hc).symm, hs, Nat.pos_of_ne_zero h0⟩

section Calls

variable {pool pool' : Pool}

theorem slabUsed_update {a b : Nat} {o : Option Slab} (hba : b ≠ a)
    (hmem : pool'.mem = Function.update pool.mem a o) : slabUsed pool' b = slabUsed pool b := by
  rw [slabUsed, slabUsed, hmem, Function.update_of_ne hba]

theorem slabUsed_some {a : Nat} {s : Slab} (hs : pool.mem a = some s) :
    slabUsed pool a = s.used := by
  rw [slabUsed, hs]

theorem RangeInv.setCur (h : RangeInv pool) (cur : Option Nat) :
    RangeInv (setCur pool cur) where
  geo := h.geo.congr ⟨rfl, rfl, rfl, rfl⟩
  slabs := h.slabs.congr ⟨rfl, rfl, rfl, rfl⟩ rfl (fun d => by cases d <;> rfl)
    fun _ _ ht => ht.congr ⟨rfl, rfl, rfl, rfl⟩
  used_eq := h.used_eq
  free_lt := h.free_lt
  total_lt := h.total_lt

theorem RangeInv.callCtor (h : RangeInv pool) (obj : Nat) : RangeInv (callCtor pool obj) := by
  obtain ⟨hc, hslabs, hmem⟩ := callCtor_eq pool obj
  exact {
    geo := h.geo.congr hc
    slabs := h.slabs.congr hc hmem (fun d => by rw [hslabs]) fun _ _ ht => ht.congr hc
    used_eq := by
      rw [hslabs, h.used_eq]
      exact Finset.sum_congr rfl fun a _ => by rw [slabUsed, slabUsed, hmem]
    free_lt := by rw [hslabs]; exact h.free_lt
    total_lt := by rw [hslabs]; exact h.total_lt }

/-- A new slab. -/
theorem Grown.rangeInv (h : RangeInv pool) {a base : Nat}
    (hok : mallocOk pool (some a) (some base) = true) (hg : Grown pool a base pool') :
    RangeInv pool' := by
  obtain ⟨hfresh, -, hle, hdisj⟩ := mallocOk_some hok
  have hslabs : SlabsOk pool' fun _ s => SlabBox pool' s := by
    refine h.slabs.grow hg.consts hfresh hg.mem hg.perm ?_ rfl ?_
      ((newSlab_box h.geo hle).congr hg.consts) fun _ _ _ ht => ht.congr hg.consts
    · intro b
      rw [hg.lists]
      exact or_congr_left (and_iff_left rfl)
    · intro b t ht
      have := hdisj b ((h.slabs.held_iff b).mpr ⟨t, ht⟩)
      simp only [disjointFrom, ht, Bool.or_eq_true, decide_eq_true_eq] at this
      exact this
  have hself : pool'.mem a = some (newSlab pool base) := by
    rw [hg.mem, Function.update_self]
  exact {
    geo := h.geo.congr hg.consts
    slabs := hslabs
    used_eq := by
      have hset : pool'.slabs.held.toFinset = insert a pool.slabs.held.toFinset := by
        ext b
        rw [List.mem_toFinset, hg.perm.mem_iff, List.mem_cons, Finset.mem_insert,
          List.mem_toFinset]
      rw [hg.usedObjs, h.used_eq, hset,
        Finset.sum_insert (fun ha => hfresh (List.mem_toFinset.mp ha)), slabUsed_some hself]
      show _ = 0 + _
      rw [Nat.zero_add]
      refine Finset.sum_congr rfl ?_
      intro b hb
      refine (slabUsed_update ?_ hg.mem).symm
      rintro rfl
      exact hfresh (List.mem_toFinset.mp hb)
    free_lt := by rw [hg.freeObjs]; exact add64_lt _ _
    total_lt := by rw [hg.totalObjs]; exact add64_lt _ _ }

/-- Taking an object. -/
theorem RangeInv.take (h : RangeInv pool) {a x : Nat} {s : Slab} (hs : pool.mem a = some s)
    (hfree : 0 < s.free) (hobj : allocObjFromSlab pool a = some (x, pool')) : RangeInv pool' := by
  obtain ⟨hbox, hused⟩ := (h.slabs.slab a s hs).take h.geo hfree
  have ha := (h.slabs.held_iff a).mpr ⟨s, hs⟩
  have hempty : a ∈ listOf pool.slabs .emptyList → (takeIdx s).used = 1 := by
    intro hmem
    rw [hused, (h.slabs.empty_iff a s hs).mp hmem]
  obtain ⟨-, ht⟩ := taken_of_alloc hs h.slabs.nodup ha hempty hobj
  have hslabs : SlabsOk pool' fun _ s => SlabBox pool' s :=
    h.slabs.replace ht.consts hs ht.mem ht.lists (iff_of_false ht.empty (by omega))
      (by rw [takeIdx]) (hbox.congr ht.consts) fun _ _ _ ht' => ht'.congr ht.consts
  have hgeo := h.geo.congr ht.consts
  have hlt := hgeo.used_lt hslabs
  have hself : pool'.mem a = some (takeIdx s) := by
    rw [ht.mem, Function.update_self]
  have hset : pool'.slabs.held.toFinset = pool.slabs.held.toFinset :=
    List.toFinset_eq_of_perm _ _ ht.lists.perm
  have hother : ∀ b, b ≠ a → slabUsed pool' b = slabUsed pool b :=
    fun b hba => slabUsed_update hba ht.mem
  have hsum := sum_change (List.mem_toFinset.mpr ha) hother
  rw [slabUsed_some hs, slabUsed_some hself] at hsum
  rw [hset] at hlt
  exact {
    geo := hgeo
    slabs := hslabs
    used_eq := by
      have hueq := h.used_eq
      rw [ht.usedObjs, hset, add64_eq (by omega)]
      omega
    free_lt := by rw [ht.freeObjs]; exact sub64_lt _ _
    total_lt := by rw [ht.totalObjs]; exact h.total_lt }

/-- Giving an object back to a slab that stays. -/
theorem RangeInv.put (h : RangeInv pool) {a : Nat} {s : Slab} {i : Int} (hs : pool.mem a = some s)
    (hused : 0 < s.used) (hc : SameConsts pool pool')
    (hmem : pool'.mem = Function.update pool.mem a (some (putIdx s i)))
    (hl : Relisted a pool.slabs pool'.slabs)
    (hempty : a ∈ listOf pool'.slabs .emptyList ↔ (putIdx s i).used = 0)
    (hb : Returned pool pool') : RangeInv pool' := by
  obtain ⟨hbox, hused'⟩ := (h.slabs.slab a s hs).put h.geo hused i
  have ha := (h.slabs.held_iff a).mpr ⟨s, hs⟩
  have hslabs : SlabsOk pool' fun _ s => SlabBox pool' s :=
    h.slabs.replace hc hs hmem hl hempty (by rw [putIdx]) (hbox.congr hc)
      fun _ _ _ ht' => ht'.congr hc
  have hself : pool'.mem a = some (putIdx s i) := by
    rw [hmem, Function.update_self]
  have hset : pool'.slabs.held.toFinset = pool.slabs.held.toFinset :=
    List.toFinset_eq_of_perm _ _ hl.perm
  have hother : ∀ b, b ≠ a → slabUsed pool' b = slabUsed pool b :=
    fun b hba => slabUsed_update hba hmem
  have hsum := sum_change (List.mem_toFinset.mpr ha) hother
  rw [slabUsed_some hs, slabUsed_some hself] at hsum
  have hlt := h.geo.used_lt h.slabs
  exact {
    geo := h.geo.congr hc
    slabs := hslabs
    used_eq := by
      have hueq := h.used_eq
      rw [hb.usedObjs, hset, sub64_eq (by omega) (by omega)]
      omega
    free_lt := by rw [hb.freeObjs]; exact add64_lt _ _
    total_lt := by rw [hb.totalObjs]; exact h.total_lt }

/-- Giving the last object back while another slab is empty. -/
theorem RangeInv.release (h : RangeInv pool) {a : Nat} {s : Slab} {i : Int} {pool1 : Pool}
    (hs : pool.mem a = some s) (hone : s.used = 1)
    (hr : Released (setSlab pool a (putIdx s i)) a pool1) : RangeInv (countFreed pool1) := by
  have ha := (h.slabs.held_iff a).mpr ⟨s, hs⟩
  have hc : SameConsts pool (countFreed pool1) :=
    ⟨hr.consts.align, hr.consts.size, hr.consts.num, hr.consts.order⟩
  have hmem : (countFreed pool1).mem = Function.update pool.mem a none :=
    hr.mem.trans (Function.update_idem ..)
  have hslabs : SlabsOk (countFreed pool1) fun _ s => SlabBox (countFreed pool1) s :=
    h.slabs.release hc hmem hr.perm
      (fun b d => by rw [listOf_countFreed]; exact hr.lists b d) fun _ _ _ ht' => ht'.congr hc
  have hgone : a ∉ (countFreed pool1).slabs.held := by
    rw [hslabs.held_iff, hmem, Function.update_self]
    rintro ⟨t, ht⟩
    cases ht
  have hset : pool.slabs.held.toFinset = insert a (countFreed pool1).slabs.held.toFinset := by
    ext b
    rw [List.mem_toFinset, Finset.mem_insert, List.mem_toFinset]
    exact hr.perm.mem_iff.trans List.mem_cons
  have hueq := h.used_eq
  have hlt := h.geo.used_lt h.slabs
  rw [hset, Finset.sum_insert (fun ha => hgone (List.mem_toFinset.mp ha)), slabUsed_some hs,
    hone] at hueq hlt
  have hsum : ∑ b ∈ (countFreed pool1).slabs.held.toFinset, slabUsed (countFreed pool1) b
      = ∑ b ∈ (countFreed pool1).slabs.held.toFinset, slabUsed pool b := by
    refine Finset.sum_congr rfl ?_
    intro b hb
    refine slabUsed_update ?_ hmem
    rintro rfl
    exact hgone (List.mem_toFinset.mp hb)
  exact {
    geo := h.geo.congr hc
    slabs := hslabs
    used_eq := by
      have husedObjs : (countFreed pool1).slabs.usedObjs = sub64 pool.slabs.usedObjs 1 :=
        congrArg (sub64 · 1) hr.usedObjs
      rw [husedObjs, hsum, sub64_eq (by omega) (by omega)]
      omega
    free_lt := add64_lt _ _
    total_lt := by
      have htotal : (countFreed pool1).slabs.totalObjs
          = sub64 pool.slabs.totalObjs pool.numPerSlab := hr.totalObjs
      rw [htotal]
      exact sub64_lt _ _ }

/-- `free_obj2slab` of any address on a slab in use. -/
theorem RangeInv.freeObj (h : RangeInv pool) {obj a : Nat} {s : Slab} (hs : pool.mem a = some s)
    (hused : 0 < s.used) (hfree : freeObj2slab obj a pool = some pool') : RangeInv pool' := by
  have hbox := h.slabs.slab a s hs
  have hnum := h.geo.num_pos
  have hlast : s.lastFreeIdx ≠ -1 := by
    have := hbox.last_eq
    omega
  have ha := (h.slabs.held_iff a).mpr ⟨s, hs⟩
  obtain ⟨-, pool1, hsettle, rfl⟩ := freeObj2slab_cases hs hlast hfree
  generalize objIdx pool s obj = i at hsettle
  obtain ⟨-, hused'⟩ := hbox.put h.geo hused i
  rcases settleUnused_cases hsettle with ⟨h0, rfl⟩ | ⟨h0, -, hone⟩ | ⟨h0, -, slabs, hmove, rfl⟩
  · have hl : ∀ d, listOf (countFreed (setSlab pool a (putIdx s i))).slabs d
        = listOf pool.slabs d := listOf_countFreed _
    refine h.put hs hused ⟨rfl, rfl, rfl, rfl⟩ rfl ((Relisted.refl a pool.slabs).rebook hl) ?_
      ⟨rfl, rfl, rfl, rfl⟩
    rw [hl, h.slabs.empty_iff a s hs]
    exact iff_of_false (by omega) h0
  · have hself : (setSlab pool a (putIdx s i)).mem a = some (putIdx s i) :=
      Function.update_self ..
    obtain ⟨pool2, heq, hr⟩ := freeOneSlab_eq hself h.slabs.nodup ha
      (show pool.slabs.freeObjs < 2 ^ 64 from h.free_lt)
      (show pool.slabs.totalObjs < 2 ^ 64 from h.total_lt)
    rw [hone] at heq
    cases heq
    exact h.release hs (by omega) hr
  · obtain ⟨slabs', hmove', hrel, hat, hbooks⟩ := moveList_spec .emptyList h.slabs.nodup ha
    cases hmove.symm.trans hmove'
    have hl : ∀ d, listOf (countFreed { setSlab pool a (putIdx s i) with slabs := slabs }).slabs d
        = listOf slabs d := listOf_countFreed _
    refine h.put hs hused ⟨rfl, rfl, rfl, rfl⟩ rfl (hrel.rebook hl) ?_
      ⟨hbooks.slabNums, hbooks.totalObjs, congrArg (sub64 · 1) hbooks.usedObjs,
        congrArg (add64 · 1) hbooks.freeObjs⟩
    rw [hl]
    exact iff_of_true ((hat .emptyList).mpr rfl) h0

end Calls

-- ── The address test ─────────────────────────────────────────────────────────

section Addresses

variable {pool : Pool}

theorem addrInSlab_eq_true {obj : Nat} {s : Slab} :
    addrInSlab obj s = true ↔ 0 < s.used ∧ s.objBase ≤ obj ∧ obj ≤ s.objEnd := by
  rw [addrInSlab, Bool.and_eq_true, Bool.and_eq_true, decide_eq_true_eq, decide_eq_true_eq,
    decide_eq_true_eq, and_assoc]

/-- `find_obj_slab` finds a slab that passes the test if there is one. -/
theorem findObjSlab_cases (h : RangeInv pool) (obj : Nat) :
    (∃ a s, findObjSlab pool obj = some (some a) ∧ pool.mem a = some s ∧ addrInSlab obj s = true)
      ∨ (findObjSlab pool obj = some none
        ∧ ∀ a s, pool.mem a = some s → addrInSlab obj s = false) := by
  rw [findObjSlab]
  by_cases h0 : pool.slabs.usedObjs = 0
  · rw [if_pos h0]
    refine Or.inr ⟨rfl, ?_⟩
    intro a s hs
    rw [h.used_eq, Finset.sum_eq_zero_iff] at h0
    have hzero := h0 a (List.mem_toFinset.mpr ((h.slabs.held_iff a).mpr ⟨s, hs⟩))
    rw [slabUsed_some hs] at hzero
    rw [Bool.eq_false_iff]
    intro htest
    have := (addrInSlab_eq_true.mp htest).1
    omega
  · rw [if_neg h0]
    have hall : ∀ d, ∀ b ∈ listOf pool.slabs d, ∃ t, pool.mem b = some t :=
      fun d b hb => (h.slabs.held_iff b).mp (mem_held.mpr ⟨d, hb⟩)
    rcases firstEntry_spec (addrInSlab obj) (hall .partialList) with
      ⟨b, t, -, ht, htest, heq⟩ | ⟨heq, hnone⟩
    · rw [show firstEntry pool.mem _ pool.slabs.partialSlabs = _ from heq]
      exact Or.inl ⟨b, t, rfl, ht, htest⟩
    · rw [show firstEntry pool.mem _ pool.slabs.partialSlabs = _ from heq]
      rcases firstEntry_spec (addrInSlab obj) (hall .fullList) with
        ⟨b, t, -, ht, htest, heq'⟩ | ⟨heq', hnone'⟩
      · exact Or.inl ⟨b, t, heq', ht, htest⟩
      · refine Or.inr ⟨heq', ?_⟩
        intro a s hs
        obtain ⟨d, hd⟩ := mem_held.mp ((h.slabs.held_iff a).mpr ⟨s, hs⟩)
        cases d with
        | partialList => exact hnone a hd s hs
        | fullList => exact hnone' a hd s hs
        | emptyList =>
            -- an empty slab has no object in use
            have hzero := (h.slabs.empty_iff a s hs).mp hd
            rw [Bool.eq_false_iff]
            intro htest
            have := (addrInSlab_eq_true.mp htest).1
            omega

/-- The index of an address that passes the test; behind the last object it is
    `num_per_slab`. -/
theorem objIdx_lt_iff (g : RangeGeo pool) {s : Slab} (h : SlabBox pool s) {obj : Nat}
    (hlo : s.objBase ≤ obj) (hhi : obj ≤ s.objEnd) :
    0 ≤ objIdx pool s obj ∧ (objIdx pool s obj < pool.numPerSlab ↔ obj ≠ s.objEnd) := by
  have hend := h.end_eq
  have hlt := h.end_lt
  have hle := h.block_le
  have hnum := g.num_lt
  obtain ⟨d, rfl⟩ := Nat.exists_eq_add_of_le hlo
  have hsub : ((s.objBase + d : Nat) : Int) - s.objBase = (d : Int) := by omega
  have hquot : d / pool.size ≤ pool.numPerSlab := by
    rw [← Nat.mul_div_cancel pool.numPerSlab g.size_pos]
    exact Nat.div_le_div_right (by omega)
  have hidx : objIdx pool s (s.objBase + d) = (d / pool.size : Nat) := by
    rw [objIdx, hsub, toUnsigned_natCast (by omega), toSigned_natCast (by omega) (by omega)]
  rw [hidx]
  refine ⟨Int.natCast_nonneg _, ?_⟩
  rw [Int.ofNat_lt, Nat.div_lt_iff_lt_mul g.size_pos]
  omega

/-- Two slabs do not share an address, `obj_end` included. -/
theorem addrInSlab_unique (h : RangeInv pool) {a b obj : Nat} {s t : Slab}
    (hs : pool.mem a = some s) (ht : pool.mem b = some t) (hsa : addrInSlab obj s = true)
    (htb : addrInSlab obj t = true) : a = b := by
  by_contra hab
  obtain ⟨-, h1, h2⟩ := addrInSlab_eq_true.mp hsa
  obtain ⟨-, h3, h4⟩ := addrInSlab_eq_true.mp htb
  have hbs := h.slabs.slab a s hs
  have hbt := h.slabs.slab b t ht
  have h5 := hbs.base_le
  have h6 := hbs.end_lt
  have h7 := hbt.base_le
  have h8 := hbt.end_lt
  rcases h.slabs.apart a s b t hs ht hab with hap | hap
  · omega
  · omega

theorem awayFromEnd_iff (h : RangeInv pool) (obj : Nat) :
    AwayFromEnd pool (.free obj)
      ↔ ∀ a slab, pool.mem a = some slab → 0 < slab.used → obj ≠ slab.objEnd := by
  rw [AwayFromEnd, freesEnd, List.any_eq_false]
  constructor
  · intro hno a slab hs hused hend
    have ha := hno a ((h.slabs.held_iff a).mpr ⟨slab, hs⟩)
    rw [hs, Option.any_some, Bool.and_eq_true, decide_eq_true_eq, decide_eq_true_eq] at ha
    exact ha ⟨hused, hend⟩
  · intro hno a ha hany
    obtain ⟨slab, hs, hcond⟩ := (Option.any_eq_true _ _).mp hany
    rw [Bool.and_eq_true, decide_eq_true_eq, decide_eq_true_eq] at hcond
    exact hno a slab hs hcond.1 hcond.2

/-- What the test lets through is safe exactly off the ends. -/
theorem RangeInv.freeSafe_iff (h : RangeInv pool) (obj : Nat) :
    FreeSafe pool obj ↔ AwayFromEnd pool (.free obj) := by
  rw [awayFromEnd_iff h]
  constructor
  · intro hsafe a slab hs hused hend
    have hbox := h.slabs.slab a slab hs
    have hbase := hbox.end_eq
    have htest : addrInSlab obj slab = true :=
      addrInSlab_eq_true.mpr ⟨hused, by omega, by omega⟩
    rcases findObjSlab_cases h obj with ⟨b, t, hfound, ht, htest'⟩ | ⟨-, hnone⟩
    · obtain rfl := addrInSlab_unique h hs ht htest htest'
      rw [hs] at ht
      cases ht
      have hidx := (hsafe.index a slab hfound hs).2
      exact (objIdx_lt_iff h.geo hbox (by omega) (by omega)).2.mp hidx hend
    · rw [hnone a slab hs] at htest
      cases htest
  · intro haway
    constructor
    · intro a slab hfound hs
      rcases findObjSlab_cases h obj with ⟨b, t, hfound', ht, htest⟩ | ⟨hnone, -⟩
      · rw [hfound] at hfound'
        cases hfound'
        rw [hs] at ht
        cases ht
        obtain ⟨hused, hlo, hhi⟩ := addrInSlab_eq_true.mp htest
        obtain ⟨hpos, hiff⟩ := objIdx_lt_iff h.geo (h.slabs.slab a slab hs) hlo hhi
        exact ⟨hpos, hiff.mpr (haway a slab hs hused)⟩
      · rw [hfound] at hnone
        cases hnone
    · intro hout
      rcases findObjSlab_cases h obj with ⟨a, s, -, hs, htest⟩ | ⟨hnone, -⟩
      · obtain ⟨hused, hlo, hhi⟩ := addrInSlab_eq_true.mp htest
        have hne := haway a s hs hused
        exact absurd ⟨hlo, by omega⟩ (hout a s hs)
      · rw [mempoolFree, hnone]
        rfl

end Addresses

-- ── Runs ─────────────────────────────────────────────────────────────────────

/-- A call keeps the invariant, whatever it frees. -/
theorem RangeInv.step {pool pool' : Pool} (h : RangeInv pool) {op : Op}
    (hstep : callStep pool op = some pool') : RangeInv pool' := by
  cases op with
  | alloc calloc malloc =>
      rw [callStep, Option.ite_none_right_eq_some, Option.map_eq_some_iff] at hstep
      obtain ⟨hok, r, hr, rfl⟩ := hstep
      by_cases h0 : pool.slabs.freeObjs = 0
      · rw [mempoolAlloc, if_pos h0] at hr
        rcases calloc with _ | a
        · cases hr
          exact h
        · rcases malloc with _ | base
          · cases hr
            exact h
          · obtain ⟨pool1, heq, hg⟩ := slabAlloc_eq pool a base
            have hinv1 := Grown.rangeInv h hok hg
            have hself : pool1.mem a = some (newSlab pool base) := by
              rw [hg.mem, Function.update_self]
            have hfree : 0 < (newSlab pool base).free := by
              show 0 < toUnsigned 16 (pool.numPerSlab : Int)
              rw [toUnsigned_natCast (Nat.lt_trans h.geo.num_lt (by decide))]
              exact h.geo.num_pos
            rw [heq] at hr
            obtain ⟨⟨x, pool2⟩, hobj, rfl⟩ := Option.map_eq_some_iff.mp hr
            exact (hinv1.take hself hfree hobj).callCtor x
      · rw [mempoolAlloc, if_neg h0] at hr
        obtain ⟨⟨found, pool1⟩, hfind, hfound⟩ := Option.bind_eq_some_iff.mp hr
        rcases findSlab_cases hfind with ⟨rfl, rfl⟩ | ⟨a, s, rfl, rfl, hs, hfree⟩
        · cases hfound
          exact h
        · obtain ⟨⟨x, pool2⟩, hobj, rfl⟩ := Option.map_eq_some_iff.mp hfound
          exact ((h.setCur (some a)).take hs hfree hobj).callCtor x
  | free obj =>
      obtain ⟨found, hfound, hstep⟩ := Option.bind_eq_some_iff.mp hstep
      rcases findObjSlab_cases h obj with ⟨a, s, hfound', hs, htest⟩ | ⟨hnone, -⟩
      · rw [hfound'] at hfound
        cases hfound
        exact h.freeObj hs (addrInSlab_eq_true.mp htest).1 hstep
      · rw [hnone] at hfound
        cases hfound
        cases hstep
        exact h

/-- A pool fresh from `mempool_create`. -/
theorem mempoolCreate_start {mempoolList : List String} {name : Option String}
    {objSize align : Nat} {ops : Option MempoolOps} {pool : Pool}
    (h : mempoolCreate mempoolList name objSize align ops true = some (some pool)) :
    0 < pool.size ∧ 0 < pool.numPerSlab ∧ pool.slabs = initSlabsInfo ∧ pool.mem = fun _ => none := by
  cases name with
  | none => cases h
  | some n =>
      rw [mempoolCreate] at h
      by_cases hn : n ∈ mempoolList
      · rw [if_pos hn] at h
        cases h
      · rw [if_neg hn, if_neg (by decide)] at h
        obtain ⟨⟨num, order, left⟩, hcalc, h⟩ := Option.bind_eq_some_iff.mp h
        by_cases h0 : num = 0
        · simp only [if_pos h0] at h
          cases h
        · simp only [if_neg h0] at h
          cases h
          refine ⟨Nat.pos_of_ne_zero ?_, Nat.pos_of_ne_zero h0, rfl, rfl⟩
          intro hsize
          -- a size of 0 is a division by zero in the first round
          rw [show toUnsigned 32 (alignTo objSize (toSigned 32 (calculateAlignment align))) = 0
            from hsize] at hcalc
          rw [calculateSlabOrder, slabOrderLoop, mempoolEstimate] at hcalc
          simp at hcalc

theorem RangeInv.created {pool : Pool} (h : CreatedPool pool) (hfit : Fits pool) :
    RangeInv pool := by
  obtain ⟨mempoolList, name, objSize, align, ops, hcreate⟩ := h
  obtain ⟨hsize, hnum, hslabs, hmem⟩ := mempoolCreate_start hcreate
  have hheld : pool.slabs.held = [] := by rw [hslabs]; rfl
  have hnone : ∀ {a s}, pool.mem a = some s → False := by
    intro a s hs
    rw [hmem] at hs
    cases hs
  exact {
    geo := ⟨hfit, hsize, hnum⟩
    slabs := {
      nodup := by rw [hheld]; exact List.nodup_nil
      held_iff := by
        intro a
        rw [hheld]
        exact iff_of_false List.not_mem_nil (fun ⟨s, hs⟩ => hnone hs)
      slab := fun a s hs => (hnone hs).elim
      apart := fun a s b t hs => (hnone hs).elim
      empty_iff := fun a s hs => (hnone hs).elim }
    used_eq := by rw [hheld, hslabs]; rfl
    free_lt := by rw [hslabs]; exact Nat.two_pow_pos 64
    total_lt := by rw [hslabs]; exact Nat.two_pow_pos 64 }

/-- **THE INDEX IS IN RANGE OFF THE ENDS**: in every run of a pool whose
    objects fit, with any addresses freed but the end of a slab in use, the
    next address given to `mempool_free` may be any but such an end. -/
theorem free_index_in_range {pool : Pool}
    (h : Reach (fun p => CreatedPool p ∧ Fits p) (guarded AwayFromEnd (fires callStep)) pool)
    (obj : Nat) : FreeSafe pool obj ↔ AwayFromEnd pool (.free obj) := by
  have hinv : RangeInv pool := by
    refine Reach.guarded_invariant (I := RangeInv) ?_ ?_ pool h
    · exact fun p hp => RangeInv.created hp.1 hp.2
    · exact fun p op p' _ hinv _ hstep => hinv.step hstep
  exact hinv.freeSafe_iff obj

/-- A run of a new pool of objects of 504 bytes along a list of calls. -/
theorem reach_of_calls (step : Pool → Op → Option Pool) (es : List Op) (test : Pool → Bool)
    (h : ((mempoolCreate [] (some "pool") 504 8 none true).join.any fun pool =>
      (runList step pool es).any test) = true) :
    ∃ pool, Reach (fun p => CreatedPool p ∧ Fits p) (fires step) pool ∧ test pool = true := by
  obtain ⟨pool, hpool, hrun⟩ := (Option.any_eq_true _ _).mp h
  have hcreate := Option.join_eq_some_iff.mp hpool
  have hfit : Fits pool := fits_of_created (by decide) (by decide) (by decide) (by decide) hcreate
  exact Reach.exists_of_runList es test
    (Reach.start ⟨⟨[], some "pool", 504, 8, none, hcreate⟩, hfit⟩) hrun

/-- Two objects are taken and an address inside the first is freed; then an
    address inside one never handed out may be given. -/
theorem free_index_in_range_inside :
    ∃ pool, Reach (fun p => CreatedPool p ∧ Fits p) (guarded AwayFromEnd (fires callStep)) pool
      ∧ findObjSlab pool 5200 = some (some 1) ∧ FreeSafe pool 5200 := by
  obtain ⟨pool, hr, ht⟩ := reach_of_calls (checked (fun pool op => !freesEnd pool op) callStep)
    [.alloc (some 1) (some 4096), .alloc none none, .free 4100]
    (fun pool => decide (findObjSlab pool 5200 = some (some 1)) && !freesEnd pool (.free 5200))
    (by decide +kernel)
  rw [Bool.and_eq_true, decide_eq_true_eq, Bool.not_eq_true'] at ht
  have hg : Reach (fun p => CreatedPool p ∧ Fits p) (guarded AwayFromEnd (fires callStep)) pool :=
    Reach.guarded_of_checked (fun _ _ hc => (Bool.not_eq_true' _).mp hc) pool hr
  exact ⟨pool, hg, ht.1, (free_index_in_range hg 5200).mpr ht.2⟩

/-- One object is taken; the end of its slab is 8128, and the index computed
    from it is 8 of 8. -/
theorem free_index_at_end :
    ¬ ∀ pool, Reach CreatedPool (fires callStep) pool → ∀ obj, FreeSafe pool obj := by
  intro h
  obtain ⟨pool, hr, ht⟩ := reach_of_calls callStep [.alloc (some 1) (some 4096)]
    (fun pool => decide (findObjSlab pool 8128 = some (some 1))
      && (pool.mem 1).any fun slab : Slab =>
        decide (objIdx pool slab 8128 = 8) && decide (pool.numPerSlab = 8)) (by decide +kernel)
  rw [Bool.and_eq_true, decide_eq_true_eq, Option.any_eq_true] at ht
  obtain ⟨hfound, slab, hs, hidx⟩ := ht
  rw [Bool.and_eq_true, decide_eq_true_eq, decide_eq_true_eq] at hidx
  have hr' : Reach CreatedPool (fires callStep) pool := hr.of_init fun _ hp => hp.1
  have hin := ((h pool hr' 8128).index 1 slab hfound hs).2
  omega

end MempoolRange
