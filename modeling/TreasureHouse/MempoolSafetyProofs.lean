import TreasureHouse.MempoolFreeProofs

/-! # What holds of every run of a pool

    An object handed out lies in a block the pool holds and meets no live
    object (`mempool_alloc_in_block`).  `cur` stays a held slab as long as no
    free releases the slab it points to (`mempool_cur_held`), and
    `mempool_alloc` fails only for lack of memory as long as, besides, no
    object is returned to a slab that is out of reach of `find_slab`
    (`mempool_alloc_finds`).  Both conditions can fail: `free_obj2slab` neither
    clears `cur` nor brings a slab back from the full list. -/

namespace MempoolSafety

open MachineInt LabelledRun Mempool MempoolGeometry MempoolList MempoolSlab MempoolInv MempoolStep
open MempoolFree

section Runs

variable {objSize align : Nat}

-- ── Objects handed out ───────────────────────────────────────────────────────

/-- Ranges of live objects do not meet, and each lies in a held block. -/
theorem PoolInv.live_apart {st : PoolState} {ch : Nat → List Nat} (h : PoolInv objSize st ch)
    {x y : Nat} (hx : x ∈ st.live) (hy : y ∈ st.live) (hxy : x ≠ y) :
    x + objSize ≤ y ∨ y + objSize ≤ x := by
  obtain ⟨a, s, i, hs, hi, -, rfl⟩ := (h.live_iff x).mp hx
  obtain ⟨b, t, j, ht, hj, -, rfl⟩ := (h.live_iff y).mp hy
  have hsize := h.ok.geo.obj_le
  have hne : a = b → i ≠ j := by
    rintro rfl rfl
    rw [hs] at ht
    cases ht
    exact hxy rfl
  have := h.ok.addr_apart hs ht hi hj hne
  omega

theorem PoolInv.live_in_block {st : PoolState} {ch : Nat → List Nat} (h : PoolInv objSize st ch)
    {x : Nat} (hx : x ∈ st.live) :
    ∃ a slab, a ∈ st.pool.slabs.held ∧ st.pool.mem a = some slab ∧ slab.sBase ≤ x
      ∧ x + objSize ≤ slab.sBase + st.pool.slabSize := by
  obtain ⟨a, s, i, hs, hi, -, rfl⟩ := (h.live_iff x).mp hx
  have hsize := h.ok.geo.obj_le
  obtain ⟨h1, -, h3, h4⟩ := (h.ok.slab a s hs).obj_range hi
  exact ⟨a, s, (h.ok.held_iff a).mpr ⟨s, hs⟩, hs, h1, by omega⟩

/-- **Every object handed out is the client's alone**: in every reached state,
    a free of a live object is defined, an allocation that does not find `cur`
    at a released slab is defined, and the object it returns lies in the block
    of a slab held then and meets no live object. -/
theorem mempool_alloc_in_block (h1 : 1 ≤ objSize) (h2 : objSize < 2 ^ 31) (h3 : 1 ≤ align)
    (h4 : align ≤ 4096) {st : PoolState} (h : Reachable objSize align st) :
    (∀ obj ∈ st.live, ∃ pool', mempoolFree st.pool obj = some pool')
      ∧ ∀ calloc malloc, mallocOk st.pool calloc malloc = true →
          (st.pool.slabs.freeObjs = 0 ∨ CurOk st.pool) →
          ∃ r pool', mempoolAlloc st.pool calloc malloc = some (r, pool') ∧ ∀ x, r = some x →
            (∃ a slab, a ∈ pool'.slabs.held ∧ pool'.mem a = some slab ∧ slab.sBase ≤ x
                ∧ x + objSize ≤ slab.sBase + pool'.slabSize)
              ∧ ∀ y ∈ st.live, x + objSize ≤ y ∨ y + objSize ≤ x := by
  obtain ⟨ch, hinv⟩ := reachable_inv h1 h2 h3 h4 st h
  constructor
  · intro obj hobj
    obtain ⟨a, s, pool', heq, -⟩ := mempoolFree_spec hinv hobj
    exact ⟨pool', heq⟩
  · intro calloc malloc hok hcur
    rcases mempoolAlloc_spec hinv hok hcur with ⟨x, pool', heq, hdone⟩ | ⟨heq, -⟩
    · refine ⟨some x, pool', heq, ?_⟩
      intro x' hx'
      cases hx'
      obtain ⟨ch', hinv'⟩ := hdone.inv
      have hx : x ∈ x :: st.live := List.mem_cons_self ..
      refine ⟨PoolInv.live_in_block hinv' hx, ?_⟩
      intro y hy
      have hxy : x ≠ y := by
        rintro rfl
        exact (List.nodup_cons.mp hinv'.live_nodup).1 hy
      exact PoolInv.live_apart hinv' hx (List.mem_cons_of_mem _ hy) hxy
    · exact ⟨none, st.pool, heq, fun x hx => by cases hx⟩

end Runs

/-- A run of a new pool along a list of calls. -/
theorem reach_of_run (step : PoolState → Op → Option PoolState) (objSize align : Nat)
    (ops : Option MempoolOps) (es : List Op) (test : PoolState → Bool)
    (h : ((mempoolCreate [] (some "pool") objSize align ops true).join.any fun pool =>
      (runList step ⟨pool, []⟩ es).any test) = true) :
    ∃ st, Reach (Created objSize align) (fires step) st ∧ test st = true := by
  obtain ⟨pool, hpool, hrun⟩ := (Option.any_eq_true _ _).mp h
  have hcreated : Created objSize align ⟨pool, []⟩ :=
    ⟨[], some "pool", ops, Option.join_eq_some_iff.mp hpool, rfl⟩
  exact Reach.exists_of_runList es test (Reach.start hcreated) hrun

/-- Eight calls that fill a slab of eight objects. -/
def fillSlab (a base : Nat) : List Op :=
  .alloc (some a) (some base) :: List.replicate 7 (.alloc none none)

/-- The frees of the eight objects of the slab at `base`, for objects of 504
    bytes. -/
def freeSlabObjs (base : Nat) : List Op :=
  (List.range 8).map fun i => .free (base + i * 504)

/-- With nine objects live, the next allocation is as stated. -/
theorem mempool_alloc_in_block_nine_live :
    ∃ st, Reachable 504 8 st ∧ st.live.length = 9
      ∧ ∃ r pool', mempoolAlloc st.pool none none = some (r, pool') ∧ ∀ x, r = some x →
          (∃ a slab, a ∈ pool'.slabs.held ∧ pool'.mem a = some slab ∧ slab.sBase ≤ x
              ∧ x + 504 ≤ slab.sBase + pool'.slabSize)
            ∧ ∀ y ∈ st.live, x + 504 ≤ y ∨ y + 504 ≤ x := by
  obtain ⟨st, hr, ht⟩ := reach_of_run opStep 504 8 none
    (fillSlab 1 4096 ++ [.alloc (some 2) (some 10000)])
    (fun st => decide (st.live.length = 9)
      && st.pool.slabs.cur.all (fun c => decide (c ∈ st.pool.slabs.held))
      && mallocOk st.pool none none) (by decide +kernel)
  rw [Bool.and_eq_true, Bool.and_eq_true, decide_eq_true_eq, Option.all_eq_true] at ht
  obtain ⟨⟨hlen, hcur⟩, hok⟩ := ht
  exact ⟨st, hr, hlen, (mempool_alloc_in_block (by decide) (by decide) (by decide) (by decide)
    hr).2 none none hok (Or.inr fun c hc => of_decide_eq_true (hcur c hc))⟩

-- ── `cur` ────────────────────────────────────────────────────────────────────

/-- `cur` is NULL or a slab that is allocated and on exactly one list. -/
def CurHeld (pool : Pool) : Prop :=
  ∀ c, pool.slabs.cur = some c → (∃ slab, pool.mem c = some slab) ∧ ∃! d, c ∈ listOf pool.slabs d

/-- How many objects of a slab are in use. -/
def slabUsed (pool : Pool) (a : Nat) : Nat :=
  match pool.mem a with
  | some slab => slab.used
  | none => 0

/-- `slab->free` of the slab at `a`. -/
def slabFree (pool : Pool) (a : Nat) : Nat :=
  match pool.mem a with
  | some slab => slab.free
  | none => 0

/-- The call frees the last live object of the slab `cur` points to while
    another slab is empty. -/
def releasesCur (st : PoolState) : Op → Bool
  | .alloc _ _ => false
  | .free obj =>
      match findObjSlab st.pool obj with
      | some (some a) => decide (st.pool.slabs.cur = some a) && decide (slabUsed st.pool a = 1)
          && decide (st.pool.slabs.emptySlabs ≠ [])
      | _ => false

/-- The calls that do not release `cur`. -/
def KeepsCur (st : PoolState) (op : Op) : Prop := releasesCur st op = false

theorem keepsCur_free {objSize x a : Nat} {st : PoolState} {s : Slab} {pool' : Pool}
    (h : FreeDone objSize st x a s pool') :
    KeepsCur st (.free x) ↔ (st.pool.slabs.cur = some a → s.used = 1 →
      st.pool.slabs.emptySlabs = []) := by
  simp only [KeepsCur, releasesCur, h.found, slabUsed, h.slab]
  rw [Bool.and_eq_false_iff, Bool.and_eq_false_iff, decide_eq_false_iff_not,
    decide_eq_false_iff_not, decide_eq_false_iff_not, not_not]
  tauto

section Runs

variable {objSize align : Nat} {st : PoolState} {ch : Nat → List Nat}

theorem curHeld_iff (h : PoolOk objSize st.pool ch) : CurHeld st.pool ↔ CurOk st.pool := by
  constructor
  · intro hcur c hc
    exact (h.held_iff c).mpr (hcur c hc).1
  · intro hcur c hc
    refine ⟨(h.held_iff c).mp (hcur c hc), ?_⟩
    obtain ⟨d, hd⟩ := mem_held.mp (hcur c hc)
    exact ⟨d, hd, fun d' hd' => listOf_unique h.nodup hd' hd⟩

/-- A call keeps `cur` good exactly when it does not release `cur`. -/
theorem curOk_step {st' : PoolState} {op : Op} (h : PoolInv objSize st ch) (hcur : CurOk st.pool)
    (hstep : opStep st op = some st') : CurOk st'.pool ↔ KeepsCur st op := by
  cases op with
  | alloc calloc malloc =>
      refine iff_of_true ?_ rfl
      obtain ⟨x, pool', rfl, hdone⟩ | rfl := opStep_alloc_cases h hstep
      · obtain ⟨a, ha, hca⟩ := hdone.cur
        intro c hc
        have hca' : some a = some c := hca.symm.trans hc
        cases hca'
        exact ha
      · exact hcur
  | free obj =>
      obtain ⟨a, s, pool', rfl, hdone⟩ := opStep_free_cases h hstep
      constructor
      · intro hcur'
        rw [keepsCur_free hdone]
        intro hc hlast
        have hheld := hcur' a (hdone.cur.trans hc)
        cases hdone.place with
        | kept more _ => exact absurd hlast more
        | emptied _ noEmpty _ => exact noEmpty
        | released _ _ at_a =>
            obtain ⟨d, hd⟩ := mem_held.mp hheld
            exact absurd hd (at_a d)
      · intro hkeep c hc
        rw [keepsCur_free hdone] at hkeep
        have hc' : st.pool.slabs.cur = some c := hdone.cur.symm.trans hc
        by_cases hca : c = a
        · subst hca
          cases hdone.place with
          | kept _ at_a =>
              obtain ⟨d, hd⟩ := mem_held.mp (hcur c hc')
              exact mem_held.mpr ⟨d, (at_a d).mpr hd⟩
          | emptied _ _ at_a => exact mem_held.mpr ⟨.emptyList, (at_a _).mpr rfl⟩
          | released last hasEmpty _ => exact absurd (hkeep hc' last) hasEmpty
        · obtain ⟨d, hd⟩ := mem_held.mp (hcur c hc')
          exact mem_held.mpr ⟨d, (hdone.others c d hca).mpr hd⟩

/-- A fresh pool has no `cur`. -/
theorem created_cur (h1 : 1 ≤ objSize) (h2 : objSize < 2 ^ 31) (h3 : 1 ≤ align)
    (h4 : align ≤ 4096) (h : Created objSize align st) : st.pool.slabs.cur = none := by
  obtain ⟨names, name, ops, hcreate, -⟩ := h
  obtain ⟨-, hslabs, -⟩ := mempoolCreate_geometry h1 h2 h3 h4 hcreate
  rw [hslabs]
  rfl

/-- **`cur` is NULL or a held slab** in every run that never frees the last
    live object of the slab `cur` points to while another slab is empty; the
    first call that does leaves `cur` at a released slab. -/
theorem mempool_cur_held (h1 : 1 ≤ objSize) (h2 : objSize < 2 ^ 31) (h3 : 1 ≤ align)
    (h4 : align ≤ 4096) (h : Reach (Created objSize align) (guarded KeepsCur (fires opStep)) st) :
    CurHeld st.pool
      ∧ ∀ op st', opStep st op = some st' → (CurHeld st'.pool ↔ KeepsCur st op) := by
  have hcur : CurOk st.pool := by
    refine Reach.guarded_invariant (I := fun st => CurOk st.pool) ?_ ?_ st h
    · intro st hinit c hc
      rw [created_cur h1 h2 h3 h4 hinit] at hc
      cases hc
    · intro st op st' hr hcur hcond hstep
      obtain ⟨ch, hinv⟩ := reachable_inv h1 h2 h3 h4 st hr
      exact (curOk_step hinv hcur hstep).mpr hcond
  obtain ⟨ch, hinv⟩ := reachable_inv h1 h2 h3 h4 st h.of_guarded
  refine ⟨(curHeld_iff hinv.ok).mpr hcur, ?_⟩
  intro op st' hstep
  obtain ⟨ch', hinv'⟩ := step_inv hinv hstep
  rw [curHeld_iff hinv'.ok]
  exact curOk_step hinv hcur hstep

end Runs

/-- A run that fills one slab, starts a second and gives one object back. -/
theorem mempool_cur_held_two_slabs :
    ∃ st, Reach (Created 504 8) (guarded KeepsCur (fires opStep)) st ∧ st.live.length = 8
      ∧ CurHeld st.pool := by
  obtain ⟨st, hr, ht⟩ := reach_of_run
    (checked (fun st op => !releasesCur st op) opStep) 504 8 none
    (fillSlab 1 4096 ++ [.alloc (some 2) (some 10000), .free 4096])
    (fun st => decide (st.live.length = 8)) (by decide +kernel)
  have hg : Reach (Created 504 8) (guarded KeepsCur (fires opStep)) st :=
    Reach.guarded_of_checked (fun _ _ hc => (Bool.not_eq_true' _).mp hc) st hr
  exact ⟨st, hg, of_decide_eq_true ht,
    (mempool_cur_held (by decide) (by decide) (by decide) (by decide) hg).1⟩

/-- Fill a slab, take one object of a second, free the first slab's objects
    and then that one: the second slab is released and stays `cur`. -/
theorem mempool_cur_released :
    ¬ ∀ st, Reachable 504 8 st → CurHeld st.pool := by
  intro h
  obtain ⟨st, hr, ht⟩ := reach_of_run opStep 504 8 none
    (fillSlab 1 4096 ++ [.alloc (some 2) (some 10000)] ++ freeSlabObjs 4096 ++ [.free 10000])
    (fun st => st.pool.slabs.cur.any fun c => (st.pool.mem c).isNone) (by decide +kernel)
  obtain ⟨c, hc, hnone⟩ := (Option.any_eq_true _ _).mp ht
  obtain ⟨slab, hslab⟩ := (h st hr c hc).1
  rw [hslab] at hnone
  cases hnone

-- ── Failing allocations ──────────────────────────────────────────────────────

/-- The call returns an object, not the last live one, to a slab on the full
    list that is not `cur`. -/
def strands (st : PoolState) : Op → Bool
  | .alloc _ _ => false
  | .free obj =>
      match findObjSlab st.pool obj with
      | some (some a) => decide (a ∈ st.pool.slabs.fullSlabs)
          && decide (st.pool.slabs.cur ≠ some a) && decide (slabUsed st.pool a ≠ 1)
      | _ => false

/-- The calls after which `find_slab` still sees every free object. -/
def KeepsReach (st : PoolState) (op : Op) : Prop :=
  releasesCur st op = false ∧ strands st op = false

theorem keepsReach_free {objSize x a : Nat} {st : PoolState} {s : Slab} {pool' : Pool}
    (h : FreeDone objSize st x a s pool') (hk : KeepsReach st (.free x))
    (hfull : a ∈ listOf st.pool.slabs .fullList) (hused : s.used ≠ 1) :
    st.pool.slabs.cur = some a := by
  by_contra hcur
  have hs := hk.2
  simp only [strands, h.found, slabUsed, h.slab] at hs
  rw [decide_eq_true (show a ∈ st.pool.slabs.fullSlabs from hfull), decide_eq_true hcur,
    decide_eq_true hused] at hs
  cases hs

/-- A slab on the full list with free objects is `cur`, and `cur` is held. -/
structure Findable (pool : Pool) : Prop where
  cur : CurOk pool
  full : ∀ a s, pool.mem a = some s → a ∈ listOf pool.slabs .fullList → 0 < s.free →
    pool.slabs.cur = some a

/-- `mempool_alloc` is defined and returns NULL only when a new slab was
    needed and `calloc` or `malloc` failed, and `find_slab` finds a free object
    whenever `free_objs` says there is one. -/
def AllocFinds (pool : Pool) : Prop :=
  (∀ calloc malloc, mallocOk pool calloc malloc = true →
      ∃ r pool', mempoolAlloc pool calloc malloc = some (r, pool')
        ∧ (r = none → pool.slabs.freeObjs = 0 ∧ (calloc = none ∨ malloc = none)))
    ∧ (0 < pool.slabs.freeObjs → ∃ a slab pool', findSlab pool = some (some a, pool')
        ∧ pool'.mem a = some slab ∧ 0 < slab.free)

section Runs

variable {objSize align : Nat} {st : PoolState} {ch : Nat → List Nat}

theorem allocFinds_of_findable (h : PoolInv objSize st ch) (hf : Findable st.pool) :
    AllocFinds st.pool := by
  -- a free object the searches cannot see would be on the full list, off `cur`
  have hseen : 0 < st.pool.slabs.freeObjs →
      ¬ ∀ a s, st.pool.mem a = some s → 0 < s.free →
        a ∈ listOf st.pool.slabs .fullList ∧ st.pool.slabs.cur ≠ some a := by
    intro hpos hall
    obtain ⟨a, s, hs, hfree⟩ := h.free_pos.mp hpos
    obtain ⟨hfull, hne⟩ := hall a s hs hfree
    exact hne (hf.full a s hs hfull hfree)
  constructor
  · intro calloc malloc hok
    rcases mempoolAlloc_spec h hok (Or.inr hf.cur) with ⟨x, pool', heq, -⟩ | ⟨heq, hwhy⟩
    · exact ⟨some x, pool', heq, fun hx => by cases hx⟩
    · refine ⟨none, st.pool, heq, fun _ => ?_⟩
      rcases hwhy with hwhy | ⟨hpos, hall⟩
      · exact hwhy
      · exact absurd hall (hseen hpos)
  · intro hpos
    rcases findSlab_spec h.ok hf.cur with ⟨a, s, hs, hfree, hfind, -⟩ | ⟨-, hall⟩
    · exact ⟨a, s, setCur st.pool (some a), hfind, hs, hfree⟩
    · exact absurd hall (hseen hpos)

/-- A call that releases no `cur` and strands no object keeps the free objects
    in sight. -/
theorem findable_step {st' : PoolState} {op : Op} (h : PoolInv objSize st ch)
    (hf : Findable st.pool) (hk : KeepsReach st op) (hstep : opStep st op = some st') :
    Findable st'.pool := by
  refine ⟨(curOk_step h hf.cur hstep).mpr hk.1, ?_⟩
  cases op with
  | alloc calloc malloc =>
      obtain ⟨x, pool', rfl, hdone⟩ | rfl := opStep_alloc_cases h hstep
      · intro b t ht hfull hfree
        by_contra hcur
        obtain ⟨hfull', ht', hcur'⟩ := hdone.full b t hcur hfull ht hfree
        exact hcur' (hf.full b t ht' hfull' hfree)
      · exact hf.full
  | free obj =>
      obtain ⟨a, s, pool', rfl, hdone⟩ := opStep_free_cases h hstep
      intro b t ht hfull hfree
      show pool'.slabs.cur = some b
      rw [hdone.cur]
      by_cases hba : b = a
      · subst hba
        cases hdone.place with
        | kept more at_a => exact keepsReach_free hdone hk ((at_a _).mp hfull) more
        | emptied _ _ at_a => cases (at_a _).mp hfull
        | released _ _ at_a => exact absurd hfull (at_a _)
      · exact hf.full b t ((hdone.mem b hba).symm.trans ht) ((hdone.others b _ hba).mp hfull) hfree

/-- **`mempool_alloc` fails only for lack of memory** in every run that never
    releases the slab `cur` points to and never returns an object to a slab on
    the full list other than `cur`, unless it is that slab's last one. -/
theorem mempool_alloc_finds (h1 : 1 ≤ objSize) (h2 : objSize < 2 ^ 31) (h3 : 1 ≤ align)
    (h4 : align ≤ 4096)
    (h : Reach (Created objSize align) (guarded KeepsReach (fires opStep)) st) :
    AllocFinds st.pool := by
  have hf : Findable st.pool := by
    refine Reach.guarded_invariant (I := fun st => Findable st.pool) ?_ ?_ st h
    · intro st hinit
      have hinv := created_inv h1 h2 h3 h4 hinit
      have hcur := created_cur h1 h2 h3 h4 hinit
      constructor
      · intro c hc
        rw [hcur] at hc
        cases hc
      · intro a s hs _ hfree
        rw [(hinv.ok.slab a s hs).free_eq] at hfree
        exact absurd hfree (Nat.lt_irrefl 0)
    · intro st op st' hr hf hcond hstep
      obtain ⟨ch, hinv⟩ := reachable_inv h1 h2 h3 h4 st hr
      exact findable_step hinv hf hcond hstep
  obtain ⟨ch, hinv⟩ := reachable_inv h1 h2 h3 h4 st h.of_guarded
  exact allocFinds_of_findable hinv hf

end Runs

/-- A run that fills two slabs and gives an object of the second back. -/
theorem mempool_alloc_finds_two_slabs :
    ∃ st, Reach (Created 504 8) (guarded KeepsReach (fires opStep)) st ∧ st.live.length = 15
      ∧ AllocFinds st.pool := by
  obtain ⟨st, hr, ht⟩ := reach_of_run
    (checked (fun st op => !releasesCur st op && !strands st op) opStep) 504 8 none
    (fillSlab 1 4096 ++ fillSlab 2 10000 ++ [.free 10000])
    (fun st => decide (st.live.length = 15)) (by decide +kernel)
  have hg : Reach (Created 504 8) (guarded KeepsReach (fires opStep)) st := by
    refine Reach.guarded_of_checked ?_ st hr
    intro s e hc
    rw [Bool.and_eq_true, Bool.not_eq_true', Bool.not_eq_true'] at hc
    exact hc
  exact ⟨st, hg, of_decide_eq_true ht,
    mempool_alloc_finds (by decide) (by decide) (by decide) (by decide) hg⟩

/-- Fill two slabs and give an object of the first back: `free_objs` is 1 and
    the next allocation fails although memory is there. -/
theorem mempool_alloc_strands : ¬ ∀ st, Reachable 504 8 st → AllocFinds st.pool := by
  intro h
  obtain ⟨st, hr, ht⟩ := reach_of_run opStep 504 8 none
    (fillSlab 1 4096 ++ fillSlab 2 10000 ++ [.free 4096])
    (fun st => decide (st.pool.slabs.freeObjs = 1) && mallocOk st.pool (some 3) (some 20000)
      && (mempoolAlloc st.pool (some 3) (some 20000)).any fun r => r.1.isNone) (by decide +kernel)
  rw [Bool.and_eq_true, Bool.and_eq_true, decide_eq_true_eq] at ht
  obtain ⟨⟨hfree, hok⟩, hnull⟩ := ht
  obtain ⟨r, pool', heq, hwhy⟩ := (h st hr).1 (some 3) (some 20000) hok
  rw [heq] at hnull
  have hr0 := (hwhy (Option.isNone_iff_eq_none.mp hnull)).1
  omega

end MempoolSafety
