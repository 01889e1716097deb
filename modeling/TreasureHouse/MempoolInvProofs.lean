import TreasureHouse.PackingProofs
import TreasureHouse.MempoolListProofs
import TreasureHouse.MempoolSlabProofs

/-! # The pool invariant — slabs, blocks, live objects and counters

    `PoolOk` ties the lists to the slab structures, every structure to its
    free chain and the blocks to each other; `PoolInv` adds the client's side:
    the live objects are the indices off the chains, and the four counters
    count them.  Three rules say how lists, structures and blocks survive,
    whatever is known of each structure: one slab is replaced
    (`SlabsOk.replace`), one is added (`SlabsOk.grow`), one is released
    (`SlabsOk.release`).  No counter can wrap, since disjoint blocks of a
    64-bit address space cannot hold 2^64 objects (`PoolOk.num_bound`). -/

namespace MempoolInv

open MachineInt Mempool MempoolGeometry MempoolList MempoolSlab

/-- The constants of two pools agree. -/
structure SameConsts (pool pool' : Pool) : Prop where
  align : pool'.align = pool.align
  size : pool'.size = pool.size
  num : pool'.numPerSlab = pool.numPerSlab
  order : pool'.order = pool.order

theorem SameConsts.slabSize {pool pool' : Pool} (h : SameConsts pool pool') :
    pool'.slabSize = pool.slabSize := by
  rw [Pool.slabSize, Pool.slabSize, h.order]

theorem SameConsts.objAddr {pool pool' : Pool} (h : SameConsts pool pool') (slab : Slab)
    (i : Nat) : objAddr pool' slab i = objAddr pool slab i := by
  rw [MempoolSlab.objAddr, MempoolSlab.objAddr, h.size]

/-- Two blocks of the pool's slabs do not meet. -/
def BlocksApart (pool : Pool) (s t : Slab) : Prop :=
  s.sBase + pool.slabSize ≤ t.sBase ∨ t.sBase + pool.slabSize ≤ s.sBase

theorem BlocksApart.symm {pool : Pool} {s t : Slab} (h : BlocksApart pool s t) :
    BlocksApart pool t s := Or.symm h

/-- The slabs of a pool; `ch a` is the free chain of the slab at `a`. -/
structure PoolOk (objSize : Nat) (pool : Pool) (ch : Nat → List Nat) : Prop where
  geo : Geometry objSize pool
  nodup : pool.slabs.held.Nodup
  held_iff : ∀ a, a ∈ pool.slabs.held ↔ ∃ s, pool.mem a = some s
  slab : ∀ a s, pool.mem a = some s → SlabInv pool s (ch a)
  apart : ∀ a s b t, pool.mem a = some s → pool.mem b = some t → a ≠ b → BlocksApart pool s t
  empty_iff : ∀ a s, pool.mem a = some s → (a ∈ listOf pool.slabs .emptyList ↔ s.used = 0)

/-- The lists, the structures and the blocks of a pool, with a fact about each
    structure. -/
structure SlabsOk (pool : Pool) (P : Nat → Slab → Prop) : Prop where
  nodup : pool.slabs.held.Nodup
  held_iff : ∀ a, a ∈ pool.slabs.held ↔ ∃ s, pool.mem a = some s
  slab : ∀ a s, pool.mem a = some s → P a s
  apart : ∀ a s b t, pool.mem a = some s → pool.mem b = some t → a ≠ b → BlocksApart pool s t
  empty_iff : ∀ a s, pool.mem a = some s → (a ∈ listOf pool.slabs .emptyList ↔ s.used = 0)

section SlabRules

variable {pool pool' : Pool} {P Q : Nat → Slab → Prop}

/-- Only constants, lists and structures matter. -/
theorem SlabsOk.congr (h : SlabsOk pool P) (hc : SameConsts pool pool')
    (hmem : pool'.mem = pool.mem) (hl : ∀ d, listOf pool'.slabs d = listOf pool.slabs d)
    (hPQ : ∀ b t, P b t → Q b t) : SlabsOk pool' Q := by
  have hheld : pool'.slabs.held = pool.slabs.held := by
    show listOf pool'.slabs .partialList ++ listOf pool'.slabs .fullList
      ++ listOf pool'.slabs .emptyList = _
    rw [hl, hl, hl]
    rfl
  exact {
    nodup := by rw [hheld]; exact h.nodup
    held_iff := by rw [hheld, hmem]; exact h.held_iff
    slab := by
      rw [hmem]
      exact fun a s hs => hPQ a s (h.slab a s hs)
    apart := by
      rw [hmem]
      intro a s b t hs ht hab
      rw [BlocksApart, hc.slabSize]
      exact h.apart a s b t hs ht hab
    empty_iff := by rw [hmem, hl]; exact h.empty_iff }

/-- Every structure has its fact after a store at `a`. -/
theorem SlabsOk.slab_update {a : Nat} {s' : Slab} (h : SlabsOk pool P) (hQ : Q a s')
    (hPQ : ∀ b t, b ≠ a → P b t → Q b t) (b : Nat) (t : Slab)
    (ht : Function.update pool.mem a (some s') b = some t) : Q b t := by
  by_cases hba : b = a
  · subst hba
    rw [Function.update_self] at ht
    cases ht
    exact hQ
  · rw [Function.update_of_ne hba] at ht
    exact hPQ b t hba (h.slab b t ht)

/-- The blocks are apart after a store at `a` of a slab apart from the
    others. -/
theorem SlabsOk.apart_update {a : Nat} {s' : Slab} (h : SlabsOk pool P)
    (hap : ∀ b t, pool.mem b = some t → b ≠ a → BlocksApart pool s' t) (b : Nat) (t : Slab)
    (c : Nat) (u : Slab) (ht : Function.update pool.mem a (some s') b = some t)
    (hu : Function.update pool.mem a (some s') c = some u) (hbc : b ≠ c) :
    BlocksApart pool t u := by
  by_cases hba : b = a
  · subst hba
    rw [Function.update_self] at ht
    rw [Function.update_of_ne (Ne.symm hbc)] at hu
    cases ht
    exact hap c u hu (Ne.symm hbc)
  · rw [Function.update_of_ne hba] at ht
    by_cases hca : c = a
    · subst hca
      rw [Function.update_self] at hu
      cases hu
      exact (hap b t ht hba).symm
    · rw [Function.update_of_ne hca] at hu
      exact h.apart b t c u ht hu hbc

/-- Slab `a` is replaced by one on the same block. -/
theorem SlabsOk.replace {a : Nat} {s s' : Slab} (h : SlabsOk pool P) (hc : SameConsts pool pool')
    (ha : pool.mem a = some s) (hmem : pool'.mem = Function.update pool.mem a (some s'))
    (hl : Relisted a pool.slabs pool'.slabs)
    (hempty : a ∈ listOf pool'.slabs .emptyList ↔ s'.used = 0) (hbase : s'.sBase = s.sBase)
    (hQ : Q a s') (hPQ : ∀ b t, b ≠ a → P b t → Q b t) : SlabsOk pool' Q where
  nodup := hl.perm.nodup_iff.mpr h.nodup
  held_iff := by
    intro b
    rw [hl.perm.mem_iff, h.held_iff, hmem]
    by_cases hba : b = a
    · subst hba
      rw [Function.update_self, ha]
      exact ⟨fun _ => ⟨s', rfl⟩, fun _ => ⟨s, rfl⟩⟩
    · rw [Function.update_of_ne hba]
  slab := by
    rw [hmem]
    exact h.slab_update hQ hPQ
  apart := by
    rw [hmem]
    intro b t c u ht hu hbc
    rw [BlocksApart, hc.slabSize]
    refine h.apart_update ?_ b t c u ht hu hbc
    intro d w hw hda
    rw [BlocksApart, hbase]
    exact h.apart a s d w ha hw (Ne.symm hda)
  empty_iff := by
    intro b t ht
    rw [hmem] at ht
    by_cases hba : b = a
    · subst hba
      rw [Function.update_self] at ht
      cases ht
      exact hempty
    · rw [Function.update_of_ne hba] at ht
      rw [hl.others b _ hba]
      exact h.empty_iff b t ht

/-- A new slab joins on a block of its own. -/
theorem SlabsOk.grow {a : Nat} {s : Slab} (h : SlabsOk pool P) (hc : SameConsts pool pool')
    (ha : a ∉ pool.slabs.held) (hmem : pool'.mem = Function.update pool.mem a (some s))
    (hperm : pool'.slabs.held.Perm (a :: pool.slabs.held))
    (hempty : ∀ b, b ∈ listOf pool'.slabs .emptyList
      ↔ b = a ∨ b ∈ listOf pool.slabs .emptyList)
    (hused : s.used = 0) (hap : ∀ b t, pool.mem b = some t → BlocksApart pool s t)
    (hQ : Q a s) (hPQ : ∀ b t, b ≠ a → P b t → Q b t) : SlabsOk pool' Q where
  nodup := hperm.nodup_iff.mpr (List.nodup_cons.mpr ⟨ha, h.nodup⟩)
  held_iff := by
    intro b
    rw [hperm.mem_iff, List.mem_cons, h.held_iff, hmem]
    by_cases hba : b = a
    · subst hba
      rw [Function.update_self]
      exact ⟨fun _ => ⟨s, rfl⟩, fun _ => Or.inl rfl⟩
    · rw [Function.update_of_ne hba]
      exact ⟨fun hb => hb.resolve_left hba, Or.inr⟩
  slab := by
    rw [hmem]
    exact h.slab_update hQ hPQ
  apart := by
    rw [hmem]
    intro b t c u ht hu hbc
    rw [BlocksApart, hc.slabSize]
    exact h.apart_update (fun d w hw _ => hap d w hw) b t c u ht hu hbc
  empty_iff := by
    intro b t ht
    rw [hmem] at ht
    rw [hempty]
    by_cases hba : b = a
    · subst hba
      rw [Function.update_self] at ht
      cases ht
      exact ⟨fun _ => hused, fun _ => Or.inl rfl⟩
    · rw [Function.update_of_ne hba] at ht
      rw [← h.empty_iff b t ht]
      exact ⟨fun hb => hb.resolve_left hba, Or.inr⟩

/-- Slab `a` leaves. -/
theorem SlabsOk.release {a : Nat} (h : SlabsOk pool P) (hc : SameConsts pool pool')
    (hmem : pool'.mem = Function.update pool.mem a none)
    (hperm : pool.slabs.held.Perm (a :: pool'.slabs.held))
    (hl : ∀ b d, b ∈ listOf pool'.slabs d ↔ b ≠ a ∧ b ∈ listOf pool.slabs d)
    (hPQ : ∀ b t, b ≠ a → P b t → Q b t) : SlabsOk pool' Q := by
  -- what is still there is another slab, and was there before
  have hold : ∀ {b t}, pool'.mem b = some t → b ≠ a ∧ pool.mem b = some t := by
    intro b t ht
    rw [hmem] at ht
    by_cases hba : b = a
    · subst hba
      rw [Function.update_self] at ht
      cases ht
    · rw [Function.update_of_ne hba] at ht
      exact ⟨hba, ht⟩
  have hnd := List.nodup_cons.mp (hperm.nodup_iff.mp h.nodup)
  exact {
    nodup := hnd.2
    held_iff := by
      intro b
      constructor
      · intro hb
        have hba : b ≠ a := by
          rintro rfl
          exact hnd.1 hb
        rw [hmem, Function.update_of_ne hba]
        exact (h.held_iff b).mp (hperm.mem_iff.mpr (List.mem_cons_of_mem _ hb))
      · rintro ⟨t, ht⟩
        obtain ⟨hba, ht⟩ := hold ht
        have hb := hperm.mem_iff.mp ((h.held_iff b).mpr ⟨t, ht⟩)
        exact (List.mem_cons.mp hb).resolve_left hba
    slab := fun b t ht => hPQ b t (hold ht).1 (h.slab b t (hold ht).2)
    apart := by
      intro b t c u ht hu hbc
      rw [BlocksApart, hc.slabSize]
      exact h.apart b t c u (hold ht).2 (hold hu).2 hbc
    empty_iff := by
      intro b t ht
      obtain ⟨hba, ht⟩ := hold ht
      rw [hl, ← h.empty_iff b t ht]
      exact and_iff_right hba }

/-- Disjoint blocks fit the address space. -/
theorem SlabsOk.pack (h : SlabsOk pool P)
    (hP : ∀ a s, P a s → s.sBase + pool.slabSize ≤ 2 ^ 64) :
    pool.slabs.held.length * pool.slabSize ≤ 2 ^ 64 := by
  refine Packing.length_mul_le h.nodup (fun a => ((pool.mem a).map Slab.sBase).getD 0) ?_ ?_
  · intro a ha
    obtain ⟨s, hs⟩ := (h.held_iff a).mp ha
    rw [hs]
    exact hP a s (h.slab a s hs)
  · intro a ha b hb hab
    obtain ⟨s, hs⟩ := (h.held_iff a).mp ha
    obtain ⟨t, ht⟩ := (h.held_iff b).mp hb
    rw [hs, ht]
    exact h.apart a s b t hs ht hab

end SlabRules

section Rules

variable {objSize : Nat} {pool pool' : Pool} {ch : Nat → List Nat}

theorem PoolOk.slabsOk (h : PoolOk objSize pool ch) :
    SlabsOk pool fun a s => SlabInv pool s (ch a) where
  nodup := h.nodup
  held_iff := h.held_iff
  slab := h.slab
  apart := h.apart
  empty_iff := h.empty_iff

theorem SlabsOk.poolOk (h : SlabsOk pool fun a s => SlabInv pool s (ch a))
    (g : Geometry objSize pool) : PoolOk objSize pool ch where
  geo := g
  nodup := h.nodup
  held_iff := h.held_iff
  slab := h.slab
  apart := h.apart
  empty_iff := h.empty_iff

theorem PoolOk.congr (h : PoolOk objSize pool ch) (hc : SameConsts pool pool')
    (hmem : pool'.mem = pool.mem) (hl : ∀ d, listOf pool'.slabs d = listOf pool.slabs d) :
    PoolOk objSize pool' ch :=
  (h.slabsOk.congr hc hmem hl fun _ _ ht => ht.congr hc.size hc.num hc.order).poolOk
    (h.geo.congr hc.align hc.size hc.num hc.order)

/-- The other slabs keep their chains when that of `a` changes. -/
theorem SlabInv.off {a b : Nat} {t : Slab} {l : List Nat} (hc : SameConsts pool pool')
    (hba : b ≠ a) (h : SlabInv pool t (ch b)) : SlabInv pool' t (Function.update ch a l b) := by
  rw [Function.update_of_ne hba]
  exact h.congr hc.size hc.num hc.order

/-- Slab `a` is replaced by one on the same block, with another chain. -/
theorem PoolOk.replace {a : Nat} {s s' : Slab} {l : List Nat} (h : PoolOk objSize pool ch)
    (hc : SameConsts pool pool') (ha : pool.mem a = some s)
    (hmem : pool'.mem = Function.update pool.mem a (some s'))
    (hl : Relisted a pool.slabs pool'.slabs)
    (hempty : a ∈ listOf pool'.slabs .emptyList ↔ s'.used = 0)
    (hinv : SlabInv pool s' l) (hbase : s'.sBase = s.sBase) :
    PoolOk objSize pool' (Function.update ch a l) := by
  refine (h.slabsOk.replace hc ha hmem hl hempty hbase ?_ ?_).poolOk
    (h.geo.congr hc.align hc.size hc.num hc.order)
  · rw [Function.update_self]
    exact hinv.congr hc.size hc.num hc.order
  · exact fun b t hba ht => SlabInv.off hc hba ht

/-- A new slab joins with its chain. -/
theorem PoolOk.grow {a : Nat} {s : Slab} {l : List Nat} (h : PoolOk objSize pool ch)
    (hc : SameConsts pool pool') (ha : a ∉ pool.slabs.held)
    (hmem : pool'.mem = Function.update pool.mem a (some s))
    (hperm : pool'.slabs.held.Perm (a :: pool.slabs.held))
    (hempty : ∀ b, b ∈ listOf pool'.slabs .emptyList
      ↔ b = a ∨ b ∈ listOf pool.slabs .emptyList)
    (hinv : SlabInv pool s l) (hused : s.used = 0)
    (hap : ∀ b t, pool.mem b = some t → BlocksApart pool s t) :
    PoolOk objSize pool' (Function.update ch a l) := by
  refine (h.slabsOk.grow hc ha hmem hperm hempty hused hap ?_ ?_).poolOk
    (h.geo.congr hc.align hc.size hc.num hc.order)
  · rw [Function.update_self]
    exact hinv.congr hc.size hc.num hc.order
  · exact fun b t hba ht => SlabInv.off hc hba ht

theorem PoolOk.release {a : Nat} (h : PoolOk objSize pool ch) (hc : SameConsts pool pool')
    (hmem : pool'.mem = Function.update pool.mem a none)
    (hperm : pool.slabs.held.Perm (a :: pool'.slabs.held))
    (hl : ∀ b d, b ∈ listOf pool'.slabs d ↔ b ≠ a ∧ b ∈ listOf pool.slabs d) :
    PoolOk objSize pool' ch :=
  (h.slabsOk.release hc hmem hperm hl fun _ _ _ ht => ht.congr hc.size hc.num hc.order).poolOk
    (h.geo.congr hc.align hc.size hc.num hc.order)

end Rules

-- ── Objects ──────────────────────────────────────────────────────────────────

/-- `x` is object `i` of the slab at `a`, and `i` is not free. -/
def InUseAt (pool : Pool) (ch : Nat → List Nat) (a x : Nat) : Prop :=
  ∃ s i, pool.mem a = some s ∧ i < pool.numPerSlab ∧ i ∉ ch a ∧ objAddr pool s i = x

/-- `x` is an object that is not free. -/
def InUse (pool : Pool) (ch : Nat → List Nat) (x : Nat) : Prop := ∃ a, InUseAt pool ch a x

/-- `x` is in use outside the slab at `a`. -/
def InUseOff (pool : Pool) (ch : Nat → List Nat) (a x : Nat) : Prop :=
  ∃ b, b ≠ a ∧ InUseAt pool ch b x

theorem inUse_iff (pool : Pool) (ch : Nat → List Nat) (a x : Nat) :
    InUse pool ch x ↔ InUseAt pool ch a x ∨ InUseOff pool ch a x := by
  constructor
  · rintro ⟨b, hb⟩
    by_cases hba : b = a
    · subst hba
      exact Or.inl hb
    · exact Or.inr ⟨b, hba, hb⟩
  · rintro (h | ⟨b, _, h⟩)
    · exact ⟨a, h⟩
    · exact ⟨b, h⟩

/-- Outside `a` a change of `a` is not seen. -/
theorem inUseOff_update {pool pool' : Pool} {ch : Nat → List Nat} {a x : Nat}
    (hc : SameConsts pool pool') {o : Option Slab} {l : List Nat}
    (hmem : pool'.mem = Function.update pool.mem a o) :
    InUseOff pool' (Function.update ch a l) a x ↔ InUseOff pool ch a x := by
  refine exists_congr fun b => and_congr_right fun hba => ?_
  simp only [InUseAt, hmem, hc.num, hc.objAddr, Function.update_of_ne hba]

section Objects

variable {objSize : Nat} {pool : Pool} {ch : Nat → List Nat}

/-- **Different objects are apart**, in one slab and across slabs. -/
theorem PoolOk.addr_apart (h : PoolOk objSize pool ch) {a b i j : Nat} {s t : Slab}
    (ha : pool.mem a = some s) (hb : pool.mem b = some t) (hi : i < pool.numPerSlab)
    (hj : j < pool.numPerSlab) (hne : a = b → i ≠ j) :
    objAddr pool s i + pool.size ≤ objAddr pool t j
      ∨ objAddr pool t j + pool.size ≤ objAddr pool s i := by
  by_cases hab : a = b
  · subst hab
    rw [ha] at hb
    cases hb
    exact objAddr_apart (hne rfl)
  · obtain ⟨h1, -, h2, h3⟩ := (h.slab a s ha).obj_range hi
    obtain ⟨h4, -, h5, h6⟩ := (h.slab b t hb).obj_range hj
    rcases h.apart a s b t ha hb hab with hap | hap
    · omega
    · omega

/-- An address belongs to one object. -/
theorem PoolOk.addr_inj (h : PoolOk objSize pool ch) {a b i j : Nat} {s t : Slab}
    (ha : pool.mem a = some s) (hb : pool.mem b = some t) (hi : i < pool.numPerSlab)
    (hj : j < pool.numPerSlab) (heq : objAddr pool s i = objAddr pool t j) : a = b ∧ i = j := by
  have hsize := h.geo.size_ge
  by_contra hne
  have := h.addr_apart ha hb hi hj (fun hab hij => hne ⟨hab, hij⟩)
  omega

/-- The blocks fit the address space, so the objects cannot reach 2^64. -/
theorem PoolOk.num_bound (h : PoolOk objSize pool ch) :
    pool.slabs.held.length < 2 ^ 64 ∧ pool.numPerSlab * pool.slabs.held.length < 2 ^ 64 := by
  have hpack : pool.slabs.held.length * pool.slabSize ≤ 2 ^ 64 :=
    h.slabsOk.pack fun _ _ hs => hs.block_le
  have hfits := h.geo.fits
  have halign := h.geo.align_ge
  have hmul8 : pool.numPerSlab * 8 ≤ pool.numPerSlab * pool.size :=
    Nat.mul_le_mul_left _ h.geo.size_ge
  have hslab : pool.numPerSlab * 8 + 8 ≤ pool.slabSize := by omega
  have hle : pool.slabs.held.length * (pool.numPerSlab * 8 + 8)
      ≤ pool.slabs.held.length * pool.slabSize := Nat.mul_le_mul_left _ hslab
  have hexp : pool.slabs.held.length * (pool.numPerSlab * 8 + 8)
      = (pool.numPerSlab * pool.slabs.held.length) * 8 + pool.slabs.held.length * 8 := by ring
  omega

/-- The objects in use and the free ones are all objects. -/
theorem PoolOk.count (h : PoolOk objSize pool ch) {live : List Nat} (hl : live.Nodup)
    (hmem : ∀ x, x ∈ live ↔ InUse pool ch x) :
    live.length + ∑ a ∈ pool.slabs.held.toFinset, (ch a).length
      = pool.numPerSlab * pool.slabs.held.length := by
  have hused : live.length = ∑ a ∈ pool.slabs.held.toFinset,
      (Finset.range pool.numPerSlab \ (ch a).toFinset).card := by
    refine Packing.length_eq_sum hl (fun a => Finset.range pool.numPerSlab \ (ch a).toFinset)
      (fun a i => ((pool.mem a).map fun s => objAddr pool s i).getD 0) ?_ ?_
    · intro x
      rw [hmem]
      constructor
      · rintro ⟨a, s, i, hs, hi, hni, rfl⟩
        refine ⟨a, (h.held_iff a).mpr ⟨s, hs⟩, i, ?_, by rw [hs]; rfl⟩
        rw [Finset.mem_sdiff, Finset.mem_range, List.mem_toFinset]
        exact ⟨hi, hni⟩
      · rintro ⟨a, ha, i, hi, rfl⟩
        obtain ⟨s, hs⟩ := (h.held_iff a).mp ha
        rw [Finset.mem_sdiff, Finset.mem_range, List.mem_toFinset] at hi
        exact ⟨a, s, i, hs, hi.1, hi.2, by rw [hs]; rfl⟩
    · intro a ha i hi b hb j hj heq
      obtain ⟨s, hs⟩ := (h.held_iff a).mp ha
      obtain ⟨t, ht⟩ := (h.held_iff b).mp hb
      rw [Finset.mem_sdiff, Finset.mem_range] at hi hj
      rw [hs, ht] at heq
      exact h.addr_inj hs ht hi.1 hj.1 heq
  rw [hused, ← Finset.sum_add_distrib]
  have hone : ∀ a ∈ pool.slabs.held.toFinset,
      (Finset.range pool.numPerSlab \ (ch a).toFinset).card + (ch a).length
        = pool.numPerSlab := by
    intro a ha
    obtain ⟨s, hs⟩ := (h.held_iff a).mp (List.mem_toFinset.mp ha)
    have hinv := h.slab a s hs
    have hsub : (ch a).toFinset ⊆ Finset.range pool.numPerSlab := fun i hi =>
      Finset.mem_range.mpr (hinv.bound i (List.mem_toFinset.mp hi))
    have hcard := Finset.card_sdiff_add_card_eq_card hsub
    rwa [List.toFinset_card_of_nodup hinv.nodup, Finset.card_range] at hcard
  rw [Finset.sum_const_nat hone, List.toFinset_card_of_nodup h.nodup, Nat.mul_comm]

end Objects

-- ── The invariant ────────────────────────────────────────────────────────────

/-- The invariant of a pool and its client: the live objects are those in use,
    and the counters count them. -/
structure PoolInv (objSize : Nat) (st : PoolState) (ch : Nat → List Nat) : Prop where
  ok : PoolOk objSize st.pool ch
  live_nodup : st.live.Nodup
  live_iff : ∀ x, x ∈ st.live ↔ InUse st.pool ch x
  slabs_eq : st.pool.slabs.slabNums = st.pool.slabs.held.length
  total_eq : st.pool.slabs.totalObjs = st.pool.numPerSlab * st.pool.slabs.held.length
  used_eq : st.pool.slabs.usedObjs = st.live.length
  free_eq : st.pool.slabs.freeObjs = ∑ a ∈ st.pool.slabs.held.toFinset, (ch a).length

section Counters

variable {objSize : Nat} {st : PoolState} {ch : Nat → List Nat}

/-- `free_objs` is right once it adds up with the live objects. -/
theorem PoolInv.of_free_add (ok : PoolOk objSize st.pool ch) (hl : st.live.Nodup)
    (hmem : ∀ x, x ∈ st.live ↔ InUse st.pool ch x)
    (hslabs : st.pool.slabs.slabNums = st.pool.slabs.held.length)
    (htotal : st.pool.slabs.totalObjs = st.pool.numPerSlab * st.pool.slabs.held.length)
    (hused : st.pool.slabs.usedObjs = st.live.length)
    (hfree : st.live.length + st.pool.slabs.freeObjs
      = st.pool.numPerSlab * st.pool.slabs.held.length) : PoolInv objSize st ch := by
  have hcount := ok.count hl hmem
  exact ⟨ok, hl, hmem, hslabs, htotal, hused, by omega⟩

/-- Free and used objects add up. -/
theorem PoolInv.free_add (h : PoolInv objSize st ch) :
    st.live.length + st.pool.slabs.freeObjs
      = st.pool.numPerSlab * st.pool.slabs.held.length := by
  rw [h.free_eq]
  exact h.ok.count h.live_nodup h.live_iff

/-- `free_objs` is positive exactly when some slab has a free object. -/
theorem PoolInv.free_pos (h : PoolInv objSize st ch) :
    0 < st.pool.slabs.freeObjs ↔ ∃ a s, st.pool.mem a = some s ∧ 0 < s.free := by
  rw [h.free_eq, Finset.sum_pos_iff]
  constructor
  · rintro ⟨a, ha, hpos⟩
    obtain ⟨s, hs⟩ := (h.ok.held_iff a).mp (List.mem_toFinset.mp ha)
    exact ⟨a, s, hs, by rw [(h.ok.slab a s hs).free_eq]; exact hpos⟩
  · rintro ⟨a, s, hs, hpos⟩
    refine ⟨a, List.mem_toFinset.mpr ((h.ok.held_iff a).mpr ⟨s, hs⟩), ?_⟩
    rw [← (h.ok.slab a s hs).free_eq]
    exact hpos

end Counters

end MempoolInv
