import TreasureHouse.MempoolLinksProofs

/-! # `memory/mempool.c` — runs of a pool whose slabs are linked

    Clients allocate, and free what is live.  The pool that links its slabs
    through memory and the pool that keeps lists of them have the same runs
    (`slab_lists_refine`), so every result on the lists is one on the links. -/

namespace MempoolMem

open LabelledRun Mempool MempoolList WaitQueue
open ListHead (Holds Off Shown)
open MempoolInv (PoolOk PoolInv)

/-- `INIT_LIST_HEAD` of the three heads, in `init_slabs_info`. -/
def initHeads (links : Links SlabNode) : Links SlabNode :=
  initListHead (initListHead (initListHead links .fullHead) .partialHead) .emptyHead

/-- `mempool_create`, whatever the memory held before. -/
def mempoolCreate (links : Links SlabNode) (mempoolList : List String) (name : Option String)
    (objSize align : Nat) (ops : Option MempoolOps) (calloc : Bool) : Option (Option MemPool) :=
  (Mempool.mempoolCreate mempoolList name objSize align ops calloc).map
    (Option.map fun pool => { links := initHeads links, pool := pool })

/-- A pool in memory, and the objects handed out and not freed. -/
structure MemState where
  mem : MemPool
  live : List Nat

/-- What is assumed of `calloc` and `malloc`: they give out nothing twice. -/
structure MallocOk (pool : Pool) (calloc malloc : Option Nat) : Prop where
  fresh : ∀ a, calloc = some a → pool.mem a = none
  block : ∀ base, malloc = some base → 0 < base ∧ base + pool.slabSize ≤ 2 ^ 64
    ∧ ∀ a s, pool.mem a = some s →
      base + pool.slabSize ≤ s.sBase ∨ s.sBase + pool.slabSize ≤ base

/-- The calls that are made: only live objects are freed. -/
def Allowed (st : MemState) : Op → Prop
  | .alloc calloc malloc => MallocOk st.mem.pool calloc malloc
  | .free obj => obj ∈ st.live

/-- One call. -/
def memOp (st : MemState) : Op → Option MemState
  | .alloc calloc malloc =>
      (mempoolAlloc st.mem calloc malloc).map fun r =>
        { mem := r.2, live := r.1.toList ++ st.live }
  | .free obj =>
      (mempoolFree st.mem obj).map fun mem => { mem := mem, live := st.live.erase obj }

/-- A new pool. -/
def MemCreated (objSize align : Nat) (st : MemState) : Prop :=
  ∃ links mempoolList name ops, mempoolCreate links mempoolList name objSize align ops true
      = some (some st.mem) ∧ st.live = []

/-- The states that calls lead to. -/
def MemReachable (objSize align : Nat) (st : MemState) : Prop :=
  Reach (MemCreated objSize align) (guarded Allowed (fires memOp)) st

/-- The lists in memory are the lists of the pool, and the rest is equal. -/
structure Shows (st : MemState) (t : PoolState) : Prop where
  live : st.live = t.live
  rest : st.mem.pool = bare t.pool
  lists : ∀ l, Shown st.mem.links (headOf l) ((listOf t.pool.slabs l).map .slab)

/-- The states show the same, a call that is made faults in both or leaves them
    showing the same, and so does the destruction. -/
structure Agrees (st : MemState) (t : PoolState) : Prop where
  shows : Shows st t
  op : ∀ op, Allowed st op → Option.Rel Shows (memOp st op) (opStep t op)
  destory : Option.Rel (fun mem pool => Shows ⟨mem, st.live⟩ ⟨pool, t.live⟩)
    (mempoolDestory st.mem) (Mempool.mempoolDestory t.pool)

/-- What the runs keep. -/
structure SameState (st : MemState) (t : PoolState) : Prop where
  same : Same st.mem t.pool
  live : st.live = t.live

theorem SameState.shows {st : MemState} {t : PoolState} (h : SameState st t) : Shows st t where
  live := h.live
  rest := h.same.rest
  lists := fun l => (held_front h.same.held l).shown

section Runs

variable {objSize align : Nat} {st st' : MemState} {t t' : PoolState} {ch : Nat → List Nat}

/-- What is allocated is what is on the lists. -/
theorem mallocOk_iff {m : MemPool} {pool : Pool} (h : Same m pool) (hok : PoolOk objSize pool ch)
    (calloc malloc : Option Nat) :
    mallocOk pool calloc malloc = true ↔ MallocOk m.pool calloc malloc := by
  have hsize : m.pool.slabSize = pool.slabSize := by
    rw [h.rest]
    rfl
  have hnone : ∀ a, pool.mem a = none ↔ a ∉ pool.slabs.held := by
    intro a
    rw [hok.held_iff, ← Option.isSome_iff_exists, Option.not_isSome_iff_eq_none]
  have hapart : ∀ base, pool.slabs.held.all (disjointFrom pool base) = true
      ↔ ∀ a s, pool.mem a = some s →
        base + pool.slabSize ≤ s.sBase ∨ s.sBase + pool.slabSize ≤ base := by
    intro base
    rw [List.all_eq_true]
    constructor
    · intro hall a s hs
      have ha := hall a ((hok.held_iff a).mpr ⟨s, hs⟩)
      rw [disjointFrom, hs, Bool.or_eq_true, decide_eq_true_eq, decide_eq_true_eq] at ha
      exact ha
    · intro hall a ha
      obtain ⟨s, hs⟩ := (hok.held_iff a).mp ha
      rw [disjointFrom, hs, Bool.or_eq_true, decide_eq_true_eq, decide_eq_true_eq]
      exact hall a s hs
  have hparts : mallocOk pool calloc malloc = true
      ↔ (∀ a, calloc = some a → a ∉ pool.slabs.held)
        ∧ ∀ base, malloc = some base → 0 < base ∧ base + pool.slabSize ≤ 2 ^ 64
          ∧ pool.slabs.held.all (disjointFrom pool base) = true := by
    cases calloc with
    | none => cases malloc <;> simp [mallocOk, and_assoc]
    | some a => cases malloc <;> simp [mallocOk, and_assoc]
  simp only [← hnone, hapart] at hparts
  rw [hparts, ← h.mem_eq, ← hsize]
  exact ⟨fun hp => ⟨hp.1, hp.2⟩, fun hp => ⟨hp.fresh, hp.block⟩⟩

/-- Both pools are asked for the same calls. -/
theorem allowed_of_step {op : Op} (h : SameState st t) (hinv : PoolInv objSize t ch)
    (hstep : opStep t op = some t') : Allowed st op := by
  cases op with
  | alloc calloc malloc =>
      rw [opStep, Option.ite_none_right_eq_some] at hstep
      exact (mallocOk_iff h.same hinv.ok calloc malloc).mp hstep.1
  | free obj =>
      rw [opStep, Option.ite_none_right_eq_some] at hstep
      show obj ∈ st.live
      rw [h.live]
      exact hstep.1

/-- **STEP LEMMA**: a call does the same to both. -/
theorem memOp_rel {op : Op} (h : SameState st t) (hinv : PoolInv objSize t ch)
    (hop : Allowed st op) : Option.Rel SameState (memOp st op) (opStep t op) := by
  have hlen : t.pool.slabs.held.length ≤ t.pool.slabs.slabNums := hinv.slabs_eq.ge
  cases op with
  | alloc calloc malloc =>
      have hfresh : ∀ a, calloc = some a → a ∉ t.pool.slabs.held := by
        intro a ha hheld
        obtain ⟨s, hs⟩ := (hinv.ok.held_iff a).mp hheld
        have hnone := hop.fresh a ha
        rw [h.same.mem_eq, hs] at hnone
        cases hnone
      rw [memOp, opStep, if_pos ((mallocOk_iff h.same hinv.ok calloc malloc).mpr hop)]
      refine rel_map (mempoolAlloc_rel h.same hlen hfresh malloc) ?_
      rintro ⟨x, mem⟩ ⟨y, pool⟩ ⟨rfl, hsame⟩
      exact ⟨hsame, by rw [h.live]⟩
  | free obj =>
      have hobj : obj ∈ t.live := by
        rw [← h.live]
        exact hop
      rw [memOp, opStep, if_pos hobj]
      refine rel_map (mempoolFree_rel h.same hlen obj) ?_
      intro mem pool hsame
      exact ⟨hsame, by rw [h.live]⟩

theorem SameState.agrees (h : SameState st t) (hinv : PoolInv objSize t ch) : Agrees st t where
  shows := h.shows
  op := by
    intro op hop
    exact rel_mono (memOp_rel h hinv hop) fun _ _ hs => hs.shows
  destory := by
    refine rel_mono (mempoolDestory_rel h.same hinv.slabs_eq.ge) ?_
    intro mem pool hs
    exact SameState.shows ⟨hs, h.live⟩

/-- A new pool has three empty lists. -/
theorem same_create (links : Links SlabNode) {mempoolList : List String} {name : Option String}
    {ops : Option MempoolOps} {pool : Pool} (h1 : 1 ≤ objSize) (h2 : objSize < 2 ^ 31)
    (h3 : 1 ≤ align) (h4 : align ≤ 4096)
    (h : Mempool.mempoolCreate mempoolList name objSize align ops true = some (some pool)) :
    Same { links := initHeads links, pool := pool } pool := by
  obtain ⟨-, hslabs, hmem, -, -⟩ := MempoolGeometry.mempoolCreate_geometry h1 h2 h3 h4 h
  have hheads : Holds (initHeads links)
      [(.emptyHead, []), (.partialHead, []), (.fullHead, [])] :=
    (((ListHead.holds_nil links).init (by simp [Off])).init (by simp [Off])).init (by simp [Off])
  refine ⟨?_, ?_, ?_⟩
  · rw [hslabs]
    exact hheads.perm (by decide)
  · cases pool
    cases hslabs
    rfl
  · intro a s hs
    rw [hmem] at hs
    cases hs

/-- **REFINEMENT**: the pool whose slabs are linked through memory, and the pool
    that keeps lists of them, have the same runs. -/
theorem slab_lists_refine (h1 : 1 ≤ objSize) (h2 : objSize < 2 ^ 31) (h3 : 1 ≤ align)
    (h4 : align ≤ 4096) :
    (∀ st, MemReachable objSize align st → ∃ t, Reachable objSize align t ∧ Agrees st t)
      ∧ ∀ t, Reachable objSize align t → ∃ st, MemReachable objSize align st ∧ Agrees st t := by
  have hreach := MempoolFree.reachable_inv h1 h2 h3 h4
  have hruns : (∀ st, MemReachable objSize align st →
        ∃ t, Reachable objSize align t ∧ SameState st t)
      ∧ ∀ t, Reachable objSize align t →
        ∃ st, MemReachable objSize align st ∧ SameState st t := by
    refine Reach.bisimulate ?_ ?_ ?_ ?_
    · rintro st ⟨links, mempoolList, name, ops, hcreate, hlive⟩
      obtain ⟨o, ho, hsome⟩ := Option.map_eq_some_iff.mp hcreate
      obtain ⟨pool, rfl, hmem⟩ := Option.map_eq_some_iff.mp hsome
      refine ⟨⟨pool, []⟩, ⟨mempoolList, name, ops, ho, rfl⟩, ?_, hlive⟩
      rw [← hmem]
      exact same_create links h1 h2 h3 h4 ho
    · rintro ⟨pool, live⟩ ⟨mempoolList, name, ops, hcreate, hlive⟩
      have hmem : mempoolCreate { next := id, prev := id } mempoolList name objSize align ops true
          = some (some { links := initHeads { next := id, prev := id }, pool := pool }) := by
        rw [mempoolCreate, hcreate]
        rfl
      exact ⟨⟨_, []⟩, ⟨_, mempoolList, name, ops, hmem, rfl⟩,
        same_create _ h1 h2 h3 h4 hcreate, hlive.symm⟩
    · rintro st t op st' hr h ⟨hop, hstep⟩
      obtain ⟨ch, hinv⟩ := hreach t hr
      exact rel_some (memOp_rel h hinv hop) hstep
    · rintro st t op t' hr h hstep
      obtain ⟨ch, hinv⟩ := hreach t hr
      have hop := allowed_of_step h hinv hstep
      obtain ⟨st', hst', h'⟩ := rel_of_some (memOp_rel h hinv hop) hstep
      exact ⟨st', ⟨hop, hst'⟩, h'⟩
  constructor
  · intro st hst
    obtain ⟨t, hr, h⟩ := hruns.1 st hst
    obtain ⟨ch, hinv⟩ := hreach t hr
    exact ⟨t, hr, h.agrees hinv⟩
  · intro t hr
    obtain ⟨st, hst, h⟩ := hruns.2 t hr
    obtain ⟨ch, hinv⟩ := hreach t hr
    exact ⟨st, hst, h.agrees hinv⟩

/-- With nine objects live, one slab is full and one is not. -/
theorem slab_lists_refine_nine_live :
    ∃ st, MemReachable 504 8 st ∧ st.live.length = 9
      ∧ Shown st.mem.links .fullHead [.slab 1] ∧ Shown st.mem.links .partialHead [.slab 2]
      ∧ Shown st.mem.links .emptyHead [] := by
  obtain ⟨t, hr, ht⟩ := MempoolSafety.reach_of_run opStep 504 8 none
    (MempoolSafety.fillSlab 1 4096 ++ [.alloc (some 2) (some 10000)])
    (fun t => decide (t.live.length = 9) && decide (t.pool.slabs.fullSlabs = [1])
      && decide (t.pool.slabs.partialSlabs = [2]) && decide (t.pool.slabs.emptySlabs = []))
    (by decide +kernel)
  simp only [Bool.and_eq_true, decide_eq_true_eq] at ht
  obtain ⟨⟨⟨hlen, hfull⟩, hpartial⟩, hempty⟩ := ht
  obtain ⟨st, hst, h⟩ :=
    (slab_lists_refine (by decide) (by decide) (by decide) (by decide)).2 t hr
  have hf := h.shows.lists .fullList
  have hp := h.shows.lists .partialList
  have he := h.shows.lists .emptyList
  simp only [listOf, hfull, hpartial, hempty] at hf hp he
  refine ⟨st, hst, ?_, hf, hp, he⟩
  rw [h.shows.live]
  exact hlen

end Runs

end MempoolMem
