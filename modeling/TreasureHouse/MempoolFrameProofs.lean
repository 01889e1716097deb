import TreasureHouse.MempoolRangeProofs

/-! # `memory/mempool.c` — what the calls on a pool leave alone

    An allocation or a release never changes the name of the pool or the size of
    its blocks, and never moves a block: each block that the pool has afterwards
    it had before, or `malloc` returned it in the call (`opStep_tame`). -/

namespace MempoolFrame

open MachineInt Mempool MempoolStep MempoolRange

/-- The name, the size of the blocks and where the blocks are; `fresh` is a
    block that may be new. -/
structure Tame (fresh : Option Nat) (pool pool' : Pool) : Prop where
  name : pool'.name = pool.name
  order : pool'.order = pool.order
  bases : ∀ a s', pool'.mem a = some s' →
    (∃ s, pool.mem a = some s ∧ s'.sBase = s.sBase) ∨ fresh = some s'.sBase

section Rules

variable {fresh : Option Nat} {p₁ p₂ p₃ pool pool' : Pool} {a : Nat} {s : Slab}

theorem Tame.slabSize (h : Tame fresh pool pool') : pool'.slabSize = pool.slabSize := by
  rw [Pool.slabSize, Pool.slabSize, h.order]

/-- Only the books, the lists and the records change. -/
theorem Tame.of_mem (hname : pool'.name = pool.name) (horder : pool'.order = pool.order)
    (hmem : pool'.mem = pool.mem) : Tame fresh pool pool' where
  name := hname
  order := horder
  bases := by
    intro a s' hs'
    rw [hmem] at hs'
    exact Or.inl ⟨s', hs', rfl⟩

theorem Tame.trans (h₁ : Tame fresh p₁ p₂) (h₂ : Tame fresh p₂ p₃) : Tame fresh p₁ p₃ where
  name := h₂.name.trans h₁.name
  order := h₂.order.trans h₁.order
  bases := by
    intro a s' hs'
    obtain ⟨s₂, hs₂, hb₂⟩ | hfresh := h₂.bases a s' hs'
    · obtain ⟨s₁, hs₁, hb₁⟩ | hfresh := h₁.bases a s₂ hs₂
      · exact Or.inl ⟨s₁, hs₁, hb₂.trans hb₁⟩
      · exact Or.inr (by rw [hfresh, hb₂])
    · exact Or.inr hfresh

/-- One structure changes, and its block stays. -/
theorem Tame.update (s' : Slab) (hname : pool'.name = pool.name) (horder : pool'.order = pool.order)
    (hs : pool.mem a = some s) (hbase : s'.sBase = s.sBase)
    (hmem : pool'.mem = Function.update pool.mem a (some s')) : Tame fresh pool pool' where
  name := hname
  order := horder
  bases := by
    intro b t ht
    rw [hmem] at ht
    by_cases hba : b = a
    · subst hba
      rw [Function.update_self] at ht
      cases ht
      exact Or.inl ⟨s, hs, hbase⟩
    · rw [Function.update_of_ne hba] at ht
      exact Or.inl ⟨t, ht, rfl⟩

/-- One structure is freed. -/
theorem Tame.drop (hname : pool'.name = pool.name) (horder : pool'.order = pool.order)
    (hmem : pool'.mem = Function.update pool.mem a none) : Tame fresh pool pool' where
  name := hname
  order := horder
  bases := by
    intro b t ht
    rw [hmem] at ht
    by_cases hba : b = a
    · subst hba
      rw [Function.update_self] at ht
      cases ht
    · rw [Function.update_of_ne hba] at ht
      exact Or.inl ⟨t, ht, rfl⟩

end Rules

section Calls

variable {fresh : Option Nat} {pool pool' : Pool} {a obj : Nat}

-- ── Allocation ───────────────────────────────────────────────────────────────

theorem callCtor_tame (pool : Pool) (obj : Nat) : Tame fresh pool (callCtor pool obj) := by
  rw [callCtor]
  split
  · split
    · exact Tame.of_mem rfl rfl rfl
    · exact Tame.of_mem rfl rfl rfl
  · exact Tame.of_mem rfl rfl rfl

theorem allocFrom_tame {r : Option Nat × Pool} (h : allocFrom pool a = some r) :
    Tame fresh pool r.2 := by
  obtain ⟨⟨x, p₁⟩, hobj, rfl⟩ := Option.map_eq_some_iff.mp h
  obtain ⟨s, hs, -⟩ := Option.bind_eq_some_iff.mp hobj
  obtain ⟨-, slabs, -, heq⟩ := allocObjFromSlab_cases hs hobj
  have htake : Tame fresh pool p₁ := by
    cases heq
    exact Tame.update (takeIdx s) rfl rfl hs (by rw [takeIdx]) rfl
  exact htake.trans (callCtor_tame p₁ x)

theorem slabAlloc_tame (pool : Pool) (a base : Nat) {r : Nat × Pool}
    (h : slabAlloc pool (some a) (some base) = some r) : Tame (some base) pool r.2 := by
  cases h
  exact {
    name := rfl
    order := rfl
    bases := by
      intro b t ht
      replace ht : Function.update pool.mem a (some (newSlab pool base)) b = some t := ht
      by_cases hba : b = a
      · subst hba
        rw [Function.update_self] at ht
        cases ht
        exact Or.inr rfl
      · rw [Function.update_of_ne hba] at ht
        exact Or.inl ⟨t, ht, rfl⟩ }

/-- **ALLOCATION**: the only block that may be new is the one from `malloc`. -/
theorem mempoolAlloc_tame {calloc malloc : Option Nat} {r : Option Nat × Pool}
    (h : mempoolAlloc pool calloc malloc = some r) : Tame malloc pool r.2 := by
  by_cases h0 : pool.slabs.freeObjs = 0
  · rw [mempoolAlloc, if_pos h0] at h
    cases calloc with
    | none =>
        cases h
        exact Tame.of_mem rfl rfl rfl
    | some a =>
        cases malloc with
        | none =>
            cases h
            exact Tame.of_mem rfl rfl rfl
        | some base =>
            have hgrow := slabAlloc_tame pool a base rfl
            exact hgrow.trans (allocFrom_tame h)
  · rw [mempoolAlloc, if_neg h0] at h
    obtain ⟨⟨found, p₁⟩, hfind, hfound⟩ := Option.bind_eq_some_iff.mp h
    obtain ⟨rfl, rfl⟩ | ⟨a, s, rfl, rfl, -, -⟩ := findSlab_cases hfind
    · cases hfound
      exact Tame.of_mem rfl rfl rfl
    · have hcur : Tame malloc pool (setCur pool (some a)) := Tame.of_mem rfl rfl rfl
      exact hcur.trans (allocFrom_tame hfound)

-- ── Release ──────────────────────────────────────────────────────────────────

theorem freeObjsLoop_tame (fresh : Option Nat) (slab : Slab) (pool : Pool) (k : Nat) :
    (freeObjsLoop slab pool k).mem = pool.mem
      ∧ Tame fresh pool (freeObjsLoop slab pool k) := by
  induction k with
  | zero => exact ⟨rfl, Tame.of_mem rfl rfl rfl⟩
  | succ k ih =>
      obtain ⟨hmem, htame⟩ := ih
      have hone : (freeObjAt slab k (freeObjsLoop slab pool k)).mem = (freeObjsLoop slab pool k).mem
          ∧ (freeObjAt slab k (freeObjsLoop slab pool k)).name = (freeObjsLoop slab pool k).name
          ∧ (freeObjAt slab k (freeObjsLoop slab pool k)).order
            = (freeObjsLoop slab pool k).order := by
        rw [freeObjAt]
        split
        · exact ⟨rfl, rfl, rfl⟩
        · exact ⟨rfl, rfl, rfl⟩
      obtain ⟨hm, hn, ho⟩ := hone
      exact ⟨hm.trans hmem, htame.trans (Tame.of_mem hn ho hm)⟩

theorem freeOneSlab_tame (h : freeOneSlab pool a = some pool') : Tame fresh pool pool' := by
  obtain ⟨s, hs, h⟩ := Option.bind_eq_some_iff.mp h
  obtain ⟨slabs, -, h⟩ := Option.bind_eq_some_iff.mp h
  cases h
  obtain ⟨-, htame⟩ := freeObjsLoop_tame fresh s pool pool.numPerSlab
  exact htame.trans (Tame.drop rfl rfl rfl)

theorem settleUnused_tame {used : Nat} (h : settleUnused pool a used = some pool') :
    Tame fresh pool pool' := by
  obtain ⟨-, rfl⟩ | ⟨-, -, hone⟩ | ⟨-, -, slabs, -, rfl⟩ := MempoolFree.settleUnused_cases h
  · exact Tame.of_mem rfl rfl rfl
  · exact freeOneSlab_tame hone
  · exact Tame.of_mem rfl rfl rfl

theorem settleFirstFree_tame {freeIdx lastFreeIdx : Int}
    (h : settleFirstFree pool a freeIdx lastFreeIdx = some pool') : Tame fresh pool pool' := by
  rw [settleFirstFree] at h
  split at h
  · obtain ⟨s, hs, h⟩ := Option.bind_eq_some_iff.mp h
    obtain ⟨slabs, -, h⟩ := Option.bind_eq_some_iff.mp h
    cases h
    exact Tame.update { s with lastFreeIdx := freeIdx } rfl rfl hs rfl rfl
  · cases h
    exact Tame.of_mem rfl rfl rfl

theorem freeObj2slab_tame (h : freeObj2slab obj a pool = some pool') : Tame fresh pool pool' := by
  obtain ⟨s, hs, h⟩ := Option.bind_eq_some_iff.mp h
  by_cases hneg : objIdx pool s obj < 0
  · rw [if_pos hneg] at h
    cases h
  · rw [if_neg hneg] at h
    obtain ⟨p₁, h₁, h⟩ := Option.bind_eq_some_iff.mp h
    obtain ⟨p₂, h₂, h⟩ := Option.bind_eq_some_iff.mp h
    cases h
    have hput : Tame fresh pool { pool with
        mem := Function.update pool.mem a (some (putIdx s (objIdx pool s obj))) } :=
      Tame.update (putIdx s (objIdx pool s obj)) rfl rfl hs (by rw [putIdx]) rfl
    exact ((hput.trans (settleUnused_tame h₁)).trans (settleFirstFree_tame h₂)).trans
      (Tame.of_mem rfl rfl rfl)

/-- **RELEASE**: no block is new. -/
theorem mempoolFree_tame (h : mempoolFree pool obj = some pool') : Tame none pool pool' := by
  obtain ⟨found, -, h⟩ := Option.bind_eq_some_iff.mp h
  cases found with
  | none =>
      cases h
      exact Tame.of_mem rfl rfl rfl
  | some a => exact freeObj2slab_tame h

/-- The block that `malloc` returns in a call. -/
def mallocOf : Op → Option Nat
  | .alloc _ malloc => malloc
  | .free _ => none

theorem opStep_tame {st st' : PoolState} {op : Op} (h : opStep st op = some st') :
    Tame (mallocOf op) st.pool st'.pool := by
  cases op with
  | alloc calloc malloc =>
      rw [opStep, Option.ite_none_right_eq_some, Option.map_eq_some_iff] at h
      obtain ⟨-, r, hr, rfl⟩ := h
      exact mempoolAlloc_tame hr
  | free obj =>
      rw [opStep, Option.ite_none_right_eq_some, Option.map_eq_some_iff] at h
      obtain ⟨-, pool', hfree, rfl⟩ := h
      exact mempoolFree_tame hfree

end Calls

end MempoolFrame
