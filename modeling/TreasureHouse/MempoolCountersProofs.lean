import TreasureHouse.MempoolSafetyProofs

/-! # The four counters of a pool

    `total_objs`, `used_objs`, `free_objs` and `slab_nums` are stepped in
    different places, and the release of a slab steps `free_objs` before
    `free_obj2slab` does.  The definitions below list, for each function, the
    values its `-= 1` steps are applied to, in the order of the source: a
    counter wraps exactly where such a value is 0.  `mempool_counters` says
    that in every run the counters agree with the objects and with the slabs'
    own counts, and that no call steps a counter that is 0. -/

namespace MempoolCounters

open MachineInt LabelledRun Mempool MempoolGeometry MempoolList MempoolSlab MempoolInv MempoolStep
open MempoolFree MempoolSafety

-- ── What is decremented ──────────────────────────────────────────────────────

/-- The counters one round of `free_all_objs_one_slab` decrements. -/
def freeObjAtDecs (slab : Slab) (i : Nat) (pool : Pool) : List Nat :=
  [if countsAsUsed slab i then pool.slabs.usedObjs else pool.slabs.freeObjs, pool.slabs.totalObjs]

/-- Those of its first `k` rounds. -/
def freeObjsLoopDecs (slab : Slab) (pool : Pool) : Nat → List Nat
  | 0 => []
  | k + 1 => freeObjsLoopDecs slab pool k ++ freeObjAtDecs slab k (freeObjsLoop slab pool k)

/-- Those of `free_one_slab`. -/
def freeOneSlabDecs (pool : Pool) (a : Nat) : Option (List Nat) :=
  (pool.mem a).map fun slab =>
    freeObjsLoopDecs slab pool pool.numPerSlab
      ++ [(freeObjsLoop slab pool pool.numPerSlab).slabs.slabNums]

/-- Those of a slab that became unused. -/
def settleUnusedDecs (pool : Pool) (a used : Nat) : Option (List Nat) :=
  if used = 0 then
    if pool.slabs.emptySlabs ≠ [] then freeOneSlabDecs pool a else some []
  else some []

/-- Those of `free_obj2slab`. -/
def freeObj2slabDecs (obj a : Nat) (pool : Pool) : Option (List Nat) := do
  let slab ← pool.mem a
  let freeIdx := objIdx pool slab obj
  let slab' := putIdx slab freeIdx
  let pool1 := { pool with mem := Function.update pool.mem a (some slab') }
  let decs ← settleUnusedDecs pool1 a slab'.used
  let pool2 ← settleUnused pool1 a slab'.used
  let pool3 ← settleFirstFree pool2 a freeIdx slab'.lastFreeIdx
  some (slab.used :: decs ++ [pool3.slabs.usedObjs])

/-- Those of `mempool_free`. -/
def mempoolFreeDecs (pool : Pool) (obj : Nat) : Option (List Nat) := do
  match ← findObjSlab pool obj with
  | some a => freeObj2slabDecs obj a pool
  | none => some []

/-- Those of `alloc_obj_from_slab`. -/
def allocObjFromSlabDecs (pool : Pool) (a : Nat) : Option (List Nat) :=
  (pool.mem a).map fun slab => [slab.free, pool.slabs.freeObjs]

/-- Those of `mempool_alloc`. -/
def mempoolAllocDecs (pool : Pool) (calloc malloc : Option Nat) : Option (List Nat) :=
  if pool.slabs.freeObjs = 0 then
    match slabAlloc pool calloc malloc with
    | none => some []
    | some (a, pool) => allocObjFromSlabDecs pool a
  else do
    let (found, pool) ← findSlab pool
    match found with
    | none => some []
    | some a => allocObjFromSlabDecs pool a

/-- Those of a call. -/
def opDecs (st : PoolState) : Op → Option (List Nat)
  | .alloc calloc malloc => mempoolAllocDecs st.pool calloc malloc
  | .free obj => mempoolFreeDecs st.pool obj

/-- No decrement is applied to 0. -/
def NoWrap (decs : Option (List Nat)) : Prop := ∃ l, decs = some l ∧ ∀ x ∈ l, 0 < x

/-- The counters agree with each other, with the live objects and with the
    counts of the held slabs. -/
structure CountersAgree (st : PoolState) : Prop where
  total_split : st.pool.slabs.totalObjs = st.pool.slabs.usedObjs + st.pool.slabs.freeObjs
  total_slabs : st.pool.slabs.totalObjs = st.pool.slabs.slabNums * st.pool.numPerSlab
  used_live : st.pool.slabs.usedObjs = st.live.length
  used_slabs : st.pool.slabs.usedObjs = (st.pool.slabs.held.map (slabUsed st.pool)).sum
  free_slabs : st.pool.slabs.freeObjs = (st.pool.slabs.held.map (slabFree st.pool)).sum

section Calls

variable {objSize : Nat} {st : PoolState} {ch : Nat → List Nat}

-- ── The books of a state ─────────────────────────────────────────────────────

/-- A sum over the held slabs, as a list and as a set. -/
theorem sum_held (h : PoolOk objSize st.pool ch) (f : Nat → Nat) :
    (st.pool.slabs.held.map f).sum = ∑ a ∈ st.pool.slabs.held.toFinset, f a :=
  (List.sum_toFinset f h.nodup).symm

/-- A held slab counts its chain as free and the rest as used. -/
theorem slabCounts (h : PoolOk objSize st.pool ch) {a : Nat} (ha : a ∈ st.pool.slabs.held) :
    slabFree st.pool a = (ch a).length
      ∧ slabUsed st.pool a + (ch a).length = st.pool.numPerSlab := by
  obtain ⟨s, hs⟩ := (h.held_iff a).mp ha
  have hfree := (h.slab a s hs).free_eq
  have hused := (h.slab a s hs).used_eq
  rw [slabFree, slabUsed, hs]
  show s.free = (ch a).length ∧ s.used + (ch a).length = st.pool.numPerSlab
  omega

/-- The invariant makes the counters agree. -/
theorem countersAgree (h : PoolInv objSize st ch) : CountersAgree st := by
  have hadd := h.free_add
  have htotal := h.total_eq
  have hused := h.used_eq
  have hfree : (st.pool.slabs.held.map (slabFree st.pool)).sum
      = ∑ a ∈ st.pool.slabs.held.toFinset, (ch a).length := by
    rw [sum_held h.ok]
    exact Finset.sum_congr rfl fun a ha => (slabCounts h.ok (List.mem_toFinset.mp ha)).1
  have hall : (st.pool.slabs.held.map (slabUsed st.pool)).sum
      + ∑ a ∈ st.pool.slabs.held.toFinset, (ch a).length
      = st.pool.numPerSlab * st.pool.slabs.held.length := by
    rw [sum_held h.ok, ← Finset.sum_add_distrib,
      Finset.sum_const_nat fun a ha => (slabCounts h.ok (List.mem_toFinset.mp ha)).2,
      List.toFinset_card_of_nodup h.ok.nodup, Nat.mul_comm]
  have hfeq := h.free_eq
  exact {
    total_split := by omega
    total_slabs := by rw [htotal, h.slabs_eq, Nat.mul_comm]
    used_live := hused
    used_slabs := by omega
    free_slabs := by rw [hfree, hfeq] }

/-- An empty slab has `num_per_slab` free objects. -/
theorem emptySlab_room (h : PoolInv objSize st ch) (hem : st.pool.slabs.emptySlabs ≠ []) :
    st.pool.numPerSlab ≤ st.pool.slabs.freeObjs := by
  obtain ⟨b, hb⟩ := List.exists_mem_of_ne_nil _ hem
  have hheld : b ∈ st.pool.slabs.held := mem_held.mpr ⟨.emptyList, hb⟩
  obtain ⟨t, ht⟩ := (h.ok.held_iff b).mp hheld
  have hused : t.used = 0 := (h.ok.empty_iff b t ht).mp hb
  have hlen := (h.ok.slab b t ht).used_eq
  rw [hused, (h.ok.slab b t ht).free_eq] at hlen
  rw [h.free_eq, ← hlen, Nat.zero_add]
  exact Finset.single_le_sum (f := fun a => (ch a).length) (fun _ _ => Nat.zero_le _)
    (List.mem_toFinset.mpr hheld)

-- ── Allocation ───────────────────────────────────────────────────────────────

/-- A fresh slab has free objects. -/
theorem newSlab_free_pos {pool : Pool} (g : Geometry objSize pool) (base : Nat) :
    0 < (newSlab pool base).free := by
  have hn := g.num_ge
  have hn' := g.num_lt
  show 0 < toUnsigned 16 (pool.numPerSlab : Int)
  rw [toUnsigned_natCast (by omega)]
  omega

/-- A slab with a free object: its own count and `free_objs` are positive. -/
theorem allocObjFromSlab_noWrap (h : PoolInv objSize st ch) {a : Nat} {s : Slab}
    (hs : st.pool.mem a = some s) (hfree : 0 < s.free) :
    NoWrap (allocObjFromSlabDecs st.pool a) := by
  refine ⟨[s.free, st.pool.slabs.freeObjs], by rw [allocObjFromSlabDecs, hs]; rfl, ?_⟩
  intro x hx
  rcases List.mem_pair.mp hx with rfl | rfl
  · exact hfree
  · exact h.free_pos.mpr ⟨a, s, hs, hfree⟩

theorem mempoolAlloc_noWrap (h : PoolInv objSize st ch) {calloc malloc : Option Nat}
    (hok : mallocOk st.pool calloc malloc = true)
    (hcur : st.pool.slabs.freeObjs = 0 ∨ CurOk st.pool) :
    NoWrap (mempoolAllocDecs st.pool calloc malloc) := by
  have hnone : NoWrap (some []) := ⟨[], rfl, fun x hx => absurd hx List.not_mem_nil⟩
  by_cases h0 : st.pool.slabs.freeObjs = 0
  · rw [mempoolAllocDecs, if_pos h0]
    rcases calloc with _ | a
    · exact hnone
    · rcases malloc with _ | base
      · exact hnone
      · obtain ⟨pool1, heq, hg⟩ := slabAlloc_eq st.pool a base
        have hmem1 : pool1.mem a = some (newSlab st.pool base) := by
          rw [hg.mem, Function.update_self]
        rw [heq]
        exact allocObjFromSlab_noWrap (hg.inv h hok) hmem1 (newSlab_free_pos h.ok.geo base)
  · rw [mempoolAllocDecs, if_neg h0]
    rcases findSlab_spec h.ok (hcur.resolve_left h0) with ⟨a, s, hs, hfree, hfind, -⟩ | ⟨hfind, -⟩
    · rw [hfind]
      exact allocObjFromSlab_noWrap (PoolInv.setCur h (some a)) hs hfree
    · rw [hfind]
      exact hnone

-- ── Release ──────────────────────────────────────────────────────────────────

/-- The rounds of `free_all_objs_one_slab` stay above 0 while there are that
    many free objects. -/
theorem freeObjsLoop_noWrap (slab : Slab) (pool : Pool) (hf : pool.slabs.freeObjs < 2 ^ 64)
    (ht : pool.slabs.totalObjs < 2 ^ 64) :
    ∀ k, k ≤ pool.slabs.freeObjs → k ≤ pool.slabs.totalObjs →
      ∀ x ∈ freeObjsLoopDecs slab pool k, 0 < x := by
  intro k
  induction k with
  | zero => intro _ _ x hx; exact absurd hx List.not_mem_nil
  | succ k ih =>
      intro hkf hkt x hx
      rw [freeObjsLoopDecs, List.mem_append] at hx
      rcases hx with hx | hx
      · exact ih (by omega) (by omega) x hx
      · rw [freeObjAtDecs, countsAsUsed_false, freeObjsLoop_eq slab pool hf ht] at hx
        rcases List.mem_pair.mp hx with rfl | rfl
        · show 0 < sub64 pool.slabs.freeObjs k
          rw [sub64_eq (by omega) hf]
          omega
        · show 0 < sub64 pool.slabs.totalObjs k
          rw [sub64_eq (by omega) ht]
          omega

/-- A second empty slab has `num_per_slab` free objects, so the release of an
    unused slab does not borrow. -/
theorem settleUnused_noWrap (h : PoolInv objSize st ch) {a : Nat} {s : Slab}
    (hs : st.pool.mem a = some s) (i : Nat) :
    NoWrap (settleUnusedDecs (setSlab st.pool a (putIdx s i)) a (putIdx s i).used) := by
  have hnone : NoWrap (some []) := ⟨[], rfl, fun x hx => absurd hx List.not_mem_nil⟩
  rw [settleUnusedDecs]
  by_cases h0 : (putIdx s i).used = 0
  · rw [if_pos h0]
    by_cases hem : st.pool.slabs.emptySlabs ≠ []
    · rw [if_pos (show (setSlab st.pool a (putIdx s i)).slabs.emptySlabs ≠ [] from hem)]
      have hself : (setSlab st.pool a (putIdx s i)).mem a = some (putIdx s i) :=
        Function.update_self ..
      have hbound := h.ok.num_bound
      have hadd := h.free_add
      have hteq := h.total_eq
      have hseq := h.slabs_eq
      have hheld : 0 < st.pool.slabs.held.length :=
        List.length_pos_of_mem ((h.ok.held_iff a).mpr ⟨s, hs⟩)
      have hmul : st.pool.numPerSlab ≤ st.pool.numPerSlab * st.pool.slabs.held.length :=
        Nat.le_mul_of_pos_right _ hheld
      have hroom := emptySlab_room h hem
      have hf : (setSlab st.pool a (putIdx s i)).slabs.freeObjs < 2 ^ 64 := by
        show st.pool.slabs.freeObjs < 2 ^ 64
        omega
      have ht : (setSlab st.pool a (putIdx s i)).slabs.totalObjs < 2 ^ 64 := by
        show st.pool.slabs.totalObjs < 2 ^ 64
        omega
      refine ⟨_, by rw [freeOneSlabDecs, hself]; rfl, ?_⟩
      intro x hx
      rcases List.mem_append.mp hx with hx | hx
      · exact freeObjsLoop_noWrap _ _ hf ht _ hroom (by show _ ≤ st.pool.slabs.totalObjs; omega) x hx
      · rw [List.mem_singleton, freeObjsLoop_eq _ _ hf ht] at hx
        rw [hx]
        show 0 < st.pool.slabs.slabNums
        omega
    · rw [if_neg (show ¬ (setSlab st.pool a (putIdx s i)).slabs.emptySlabs ≠ [] from hem)]
      exact hnone
  · rw [if_neg h0]
    exact hnone

/-- Settling a slab leaves `used_objs` to the end of `free_obj2slab`. -/
theorem settleUnused_usedObjs (pool : Pool) {pool1 : Pool} {a used : Nat} {s : Slab}
    (hs : pool.mem a = some s) (hnd : pool.slabs.held.Nodup) (ha : a ∈ pool.slabs.held)
    (hf : pool.slabs.freeObjs < 2 ^ 64) (ht : pool.slabs.totalObjs < 2 ^ 64)
    (h : settleUnused pool a used = some pool1) :
    pool1.slabs.usedObjs = pool.slabs.usedObjs := by
  rw [settleUnused] at h
  by_cases h0 : used = 0
  · rw [if_pos h0] at h
    by_cases hem : pool.slabs.emptySlabs ≠ []
    · rw [if_pos hem] at h
      obtain ⟨pool', heq, hr⟩ := freeOneSlab_eq hs hnd ha hf ht
      rw [heq] at h
      cases h
      exact hr.usedObjs
    · rw [if_neg hem] at h
      obtain ⟨slabs', hmove, -, -, hbooks⟩ := moveList_spec .emptyList hnd ha
      rw [hmove] at h
      cases h
      exact hbooks.usedObjs
  · rw [if_neg h0] at h
    cases h
    rfl

/-- An object in use is settled. -/
theorem settleUnused_some (h : PoolInv objSize st ch) {a i : Nat} {s : Slab}
    (hs : st.pool.mem a = some s) (hi : i < st.pool.numPerSlab) (hia : i ∉ ch a) :
    ∃ pool1, settleUnused (setSlab st.pool a (putIdx s i)) a (putIdx s i).used = some pool1
      ∧ pool1.slabs.usedObjs = st.pool.slabs.usedObjs := by
  have hsome : ∃ pool1,
      settleUnused (setSlab st.pool a (putIdx s i)) a (putIdx s i).used = some pool1 := by
    by_cases h0 : (putIdx s i).used = 0
    · by_cases hem : st.pool.slabs.emptySlabs = []
      · obtain ⟨pool1, heq, -⟩ := settle_emptied h hs hi hia h0 hem
        exact ⟨pool1, heq⟩
      · obtain ⟨pool1, heq, -⟩ := settle_released h hs hi hia h0 hem
        exact ⟨pool1, heq⟩
    · obtain ⟨pool1, heq, -⟩ := settle_kept h hs hi hia h0
      exact ⟨pool1, heq⟩
  obtain ⟨pool1, heq⟩ := hsome
  have hbound := h.ok.num_bound
  have hadd := h.free_add
  have hteq := h.total_eq
  have hself : (setSlab st.pool a (putIdx s i)).mem a = some (putIdx s i) :=
    Function.update_self ..
  refine ⟨pool1, heq, ?_⟩
  exact settleUnused_usedObjs (setSlab st.pool a (putIdx s i)) hself h.ok.nodup
    ((h.ok.held_iff a).mpr ⟨s, hs⟩) (show st.pool.slabs.freeObjs < 2 ^ 64 by omega)
    (show st.pool.slabs.totalObjs < 2 ^ 64 by omega) heq

theorem mempoolFree_noWrap (h : PoolInv objSize st ch) {x : Nat} (hx : x ∈ st.live) :
    NoWrap (mempoolFreeDecs st.pool x) := by
  obtain ⟨a, s, i, hs, hi, hia, rfl⟩ := (h.live_iff x).mp hx
  have hinv := h.ok.slab a s hs
  have hlast : (putIdx s i).lastFreeIdx ≠ -1 := by
    have h1 := hinv.last_eq
    have h2 := h.ok.geo.num_ge
    show s.lastFreeIdx ≠ -1
    omega
  obtain ⟨decs, hdecs, hpos⟩ := settleUnused_noWrap h hs i
  obtain ⟨pool1, heq, husedObjs⟩ := settleUnused_some h hs hi hia
  refine ⟨s.used :: decs ++ [pool1.slabs.usedObjs], ?_, ?_⟩
  · rw [mempoolFreeDecs, findObjSlab_spec h hs hi hia]
    show freeObj2slabDecs _ a st.pool = _
    rw [freeObj2slabDecs, hs, Option.bind_eq_bind, Option.bind_some, hinv.objIdx_eq h.ok.geo hi]
    show (settleUnusedDecs (setSlab st.pool a (putIdx s i)) a (putIdx s i).used).bind _ = _
    rw [hdecs, Option.bind_some]
    show (settleUnused (setSlab st.pool a (putIdx s i)) a (putIdx s i).used).bind _ = _
    rw [heq, Option.bind_some]
    simp only [settleFirstFree_eq hlast]
    rfl
  · intro y hy
    rw [List.cons_append, List.mem_cons, List.mem_append, List.mem_singleton] at hy
    rcases hy with rfl | hy | rfl
    · exact hinv.used_pos hi hia
    · exact hpos y hy
    · rw [husedObjs, h.used_eq]
      exact List.length_pos_of_mem hx

/-- A call that has a result wraps no counter. -/
theorem step_noWrap (h : PoolInv objSize st ch) {op : Op} {st' : PoolState}
    (hstep : opStep st op = some st') : NoWrap (opDecs st op) := by
  cases op with
  | alloc calloc malloc =>
      rw [opStep, Option.ite_none_right_eq_some, Option.map_eq_some_iff] at hstep
      obtain ⟨hok, r, hr, -⟩ := hstep
      exact mempoolAlloc_noWrap h hok (curOk_of_alloc h hr)
  | free obj =>
      rw [opStep, Option.ite_none_right_eq_some] at hstep
      exact mempoolFree_noWrap h hstep.1

end Calls

-- ── Runs ─────────────────────────────────────────────────────────────────────

/-- **The books balance**: in every reached state the counters agree with each
    other, with the live objects and with the slabs' own counts, and no call
    takes a counter below 0 on the way. -/
theorem mempool_counters {objSize align : Nat} (h1 : 1 ≤ objSize) (h2 : objSize < 2 ^ 31)
    (h3 : 1 ≤ align) (h4 : align ≤ 4096) {st : PoolState} (h : Reachable objSize align st) :
    CountersAgree st ∧ ∀ op st', opStep st op = some st' → NoWrap (opDecs st op) := by
  obtain ⟨ch, hinv⟩ := reachable_inv h1 h2 h3 h4 st h
  exact ⟨countersAgree hinv, fun op st' hstep => step_noWrap hinv hstep⟩

/-- Two slabs, the second about to be released: its free objects leave
    `free_objs` before the freed one is counted. -/
theorem mempool_counters_release :
    ∃ st, Reachable 504 8 st ∧ st.live = [10000] ∧ st.pool.slabs.freeObjs = 15
      ∧ CountersAgree st ∧ ∀ op st', opStep st op = some st' → NoWrap (opDecs st op) := by
  obtain ⟨st, hr, ht⟩ := reach_of_run opStep 504 8 none
    (fillSlab 1 4096 ++ [.alloc (some 2) (some 10000)] ++ freeSlabObjs 4096)
    (fun st => decide (st.live = [10000]) && decide (st.pool.slabs.freeObjs = 15))
    (by decide +kernel)
  rw [Bool.and_eq_true, decide_eq_true_eq, decide_eq_true_eq] at ht
  exact ⟨st, hr, ht.1, ht.2,
    mempool_counters (by decide) (by decide) (by decide) (by decide) hr⟩

end MempoolCounters
