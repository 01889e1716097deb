import TreasureHouse.MempoolSafetyProofs

/-! # `mempool_destory` — what is left when every slab is released

    An index would count as used where an `unsigned short` is compared with
    -1, and that never holds.  So releasing all slabs calls no destructor,
    leaves `used_objs` as it was and takes every object from `free_objs`: the
    books come out right exactly when no object is live
    (`mempool_destory_iff`). -/

namespace MempoolDestory

open MachineInt LabelledRun Mempool MempoolGeometry MempoolList MempoolSlab MempoolInv MempoolStep
open MempoolFree MempoolSafety

theorem sub64_sub64 (x k m : Nat) : sub64 (sub64 x k) m = sub64 x (k + m) := by
  simp only [sub64, toUnsigned]
  omega

/-- What releasing the slabs of `l` changes. -/
structure ReleasedAll (pool : Pool) (l : List Nat) (pool' : Pool) : Prop where
  num : pool'.numPerSlab = pool.numPerSlab
  dctorCalls : pool'.dctorCalls = pool.dctorCalls
  mem : ∀ b, b ∉ l → pool'.mem b = pool.mem b
  perm : pool.slabs.held.Perm (l ++ pool'.slabs.held)
  lists : ∀ b d, b ∈ listOf pool'.slabs d ↔ b ∉ l ∧ b ∈ listOf pool.slabs d
  slabNums : pool'.slabs.slabNums = sub64 pool.slabs.slabNums l.length
  totalObjs : pool'.slabs.totalObjs = sub64 pool.slabs.totalObjs (pool.numPerSlab * l.length)
  usedObjs : pool'.slabs.usedObjs = pool.slabs.usedObjs
  freeObjs : pool'.slabs.freeObjs = sub64 pool.slabs.freeObjs (pool.numPerSlab * l.length)

/-- Slabs that can be released: on the lists once, allocated, and counters in
    range. -/
structure Releasable (pool : Pool) : Prop where
  nodup : pool.slabs.held.Nodup
  mem : ∀ a ∈ pool.slabs.held, ∃ slab, pool.mem a = some slab
  slabNums : pool.slabs.slabNums < 2 ^ 64
  totalObjs : pool.slabs.totalObjs < 2 ^ 64
  freeObjs : pool.slabs.freeObjs < 2 ^ 64

/-- Releasing some slabs leaves the others releasable. -/
theorem ReleasedAll.releasable {pool pool' : Pool} {l : List Nat} (h : Releasable pool)
    (hr : ReleasedAll pool l pool') : Releasable pool' := by
  have hnd := hr.perm.nodup_iff.mp h.nodup
  exact {
    nodup := List.Nodup.of_append_right hnd
    mem := by
      intro a ha
      have hal : a ∉ l := fun hal => (List.nodup_append.mp hnd).2.2 a hal a ha rfl
      rw [hr.mem a hal]
      exact h.mem a (hr.perm.mem_iff.mpr (List.mem_append_right _ ha))
    slabNums := by rw [hr.slabNums]; exact sub64_lt _ _
    totalObjs := by rw [hr.totalObjs]; exact sub64_lt _ _
    freeObjs := by rw [hr.freeObjs]; exact sub64_lt _ _ }

theorem releasedAll_nil {pool : Pool} (h : Releasable pool) : ReleasedAll pool [] pool where
  num := rfl
  dctorCalls := rfl
  mem := fun _ _ => rfl
  perm := List.Perm.refl _
  lists := fun _ _ => (and_iff_right List.not_mem_nil).symm
  slabNums := (sub64_zero h.slabNums).symm
  totalObjs := (sub64_zero h.totalObjs).symm
  usedObjs := rfl
  freeObjs := (sub64_zero h.freeObjs).symm

/-- One slab. -/
theorem releasedAll_one {pool pool' : Pool} {a : Nat} (hr : Released pool a pool') :
    ReleasedAll pool [a] pool' where
  num := hr.consts.num
  dctorCalls := hr.dctorCalls
  mem := by
    intro b hb
    rw [hr.mem, Function.update_of_ne (fun hba => hb (List.mem_singleton.mpr hba))]
  perm := hr.perm
  lists := by
    intro b d
    rw [hr.lists, List.mem_singleton]
  slabNums := hr.slabNums
  totalObjs := by rw [hr.totalObjs, List.length_singleton, Nat.mul_one]
  usedObjs := hr.usedObjs
  freeObjs := by rw [hr.freeObjs, List.length_singleton, Nat.mul_one]

/-- One batch after another. -/
theorem ReleasedAll.trans {p1 p2 p3 : Pool} {l1 l2 : List Nat} (h1 : ReleasedAll p1 l1 p2)
    (h2 : ReleasedAll p2 l2 p3) : ReleasedAll p1 (l1 ++ l2) p3 where
  num := h2.num.trans h1.num
  dctorCalls := h2.dctorCalls.trans h1.dctorCalls
  mem := by
    intro b hb
    rw [List.mem_append, not_or] at hb
    exact (h2.mem b hb.2).trans (h1.mem b hb.1)
  perm := by
    rw [List.append_assoc]
    exact h1.perm.trans (h2.perm.append_left l1)
  lists := by
    intro b d
    rw [h2.lists, h1.lists, List.mem_append, not_or, ← and_assoc, and_comm (a := b ∉ l2)]
  slabNums := by rw [h2.slabNums, h1.slabNums, sub64_sub64, List.length_append]
  totalObjs := by
    rw [h2.totalObjs, h1.totalObjs, h1.num, sub64_sub64, List.length_append, Nat.mul_add]
  usedObjs := h2.usedObjs.trans h1.usedObjs
  freeObjs := by
    rw [h2.freeObjs, h1.freeObjs, h1.num, sub64_sub64, List.length_append, Nat.mul_add]

/-- A pass over one list releases its slabs. -/
theorem freeSlabs_eq : ∀ {l : List Nat} {pool : Pool}, Releasable pool → l.Nodup →
    (∀ a ∈ l, a ∈ pool.slabs.held) →
      ∃ pool', freeSlabs pool l = some pool' ∧ ReleasedAll pool l pool' := by
  intro l
  induction l with
  | nil => exact fun h _ _ => ⟨_, rfl, releasedAll_nil h⟩
  | cons a l ih =>
      intro pool h hnd hl
      have ha := hl a (List.mem_cons_self ..)
      obtain ⟨s, hs⟩ := h.mem a ha
      obtain ⟨pool1, heq, hr⟩ := freeOneSlab_eq hs h.nodup ha h.freeObjs h.totalObjs
      have hone := releasedAll_one hr
      have hl1 : ∀ b ∈ l, b ∈ pool1.slabs.held := by
        intro b hb
        have hba : b ≠ a := by
          rintro rfl
          exact (List.nodup_cons.mp hnd).1 hb
        have hb' := hr.perm.mem_iff.mp (hl b (List.mem_cons_of_mem _ hb))
        exact (List.mem_cons.mp hb').resolve_left hba
      obtain ⟨pool2, heq2, hr2⟩ := ih (hone.releasable h) (List.nodup_cons.mp hnd).2 hl1
      refine ⟨pool2, ?_, hone.trans hr2⟩
      rw [freeSlabs, heq]
      exact heq2

/-- `free_all_slabs` releases every slab. -/
theorem freeAllSlabs_eq {pool : Pool} (h : Releasable pool)
    (hnum : pool.slabs.slabNums = pool.slabs.held.length) :
    ∃ pool' l, freeAllSlabs pool = some pool' ∧ ReleasedAll pool l pool'
      ∧ l.length = pool.slabs.held.length := by
  by_cases h0 : pool.slabs.slabNums = 0
  · refine ⟨pool, [], if_pos h0, releasedAll_nil h, ?_⟩
    rw [List.length_nil, ← hnum, h0]
  · have hsub : ∀ {p : Pool} (d : SlabList), ∀ a ∈ listOf p.slabs d, a ∈ p.slabs.held :=
      fun d a ha => mem_held.mpr ⟨d, ha⟩
    obtain ⟨p1, heq1, hr1⟩ := freeSlabs_eq h (held_nodup_listOf h.nodup .partialList)
      (hsub .partialList)
    have hok1 := hr1.releasable h
    obtain ⟨p2, heq2, hr2⟩ := freeSlabs_eq hok1 (held_nodup_listOf hok1.nodup .fullList)
      (hsub .fullList)
    have hok2 := hr2.releasable hok1
    obtain ⟨p3, heq3, hr3⟩ := freeSlabs_eq hok2 (held_nodup_listOf hok2.nodup .emptyList)
      (hsub .emptyList)
    have hr := (hr1.trans hr2).trans hr3
    -- nothing is left on any of the three lists
    have hnil : p3.slabs.held = [] := by
      refine List.eq_nil_iff_forall_not_mem.mpr fun b hb => ?_
      obtain ⟨d, hd⟩ := mem_held.mp hb
      have h3 := (hr3.lists b d).mp hd
      have h2 := (hr2.lists b d).mp h3.2
      have h1 := (hr1.lists b d).mp h2.2
      cases d with
      | partialList => exact h1.1 h1.2
      | fullList => exact h2.1 h2.2
      | emptyList => exact h3.1 h3.2
    have hlen := hr.perm.length_eq
    rw [hnil, List.append_nil] at hlen
    refine ⟨p3, _, ?_, hr, hlen.symm⟩
    rw [freeAllSlabs, if_neg h0, show freeSlabs pool pool.slabs.partialSlabs = some p1 from heq1]
    simp only [Option.bind_eq_bind, Option.bind_some]
    rw [show freeSlabs p1 p1.slabs.fullSlabs = some p2 from heq2]
    exact heq3

/-- Destroying the pool calls the destructor once on every live object and on
    no other, and leaves all counters at 0. -/
def DestoryOk (st : PoolState) : Prop :=
  ∃ pool', mempoolDestory st.pool = some pool'
    ∧ (∃ calls, pool'.dctorCalls = st.pool.dctorCalls ++ calls ∧ calls.Perm st.live)
    ∧ pool'.slabs.slabNums = 0 ∧ pool'.slabs.totalObjs = 0 ∧ pool'.slabs.usedObjs = 0
    ∧ pool'.slabs.freeObjs = 0

/-- **`mempool_destory` is right exactly when no object is live**, whatever
    was allocated and freed before. -/
theorem mempool_destory_iff {objSize align : Nat} {st : PoolState} (h1 : 1 ≤ objSize)
    (h2 : objSize < 2 ^ 31) (h3 : 1 ≤ align) (h4 : align ≤ 4096)
    (h : Reachable objSize align st) : DestoryOk st ↔ st.live = [] := by
  obtain ⟨ch, hinv⟩ := reachable_inv h1 h2 h3 h4 st h
  obtain ⟨hb1, hb2⟩ := hinv.ok.num_bound
  have hadd := hinv.free_add
  have hslabs := hinv.slabs_eq
  have htotal := hinv.total_eq
  have hrel : Releasable st.pool := {
    nodup := hinv.ok.nodup
    mem := fun a ha => (hinv.ok.held_iff a).mp ha
    slabNums := by omega
    totalObjs := by omega
    freeObjs := by omega }
  obtain ⟨pool', l, heq, hr, hlen⟩ := freeAllSlabs_eq hrel hslabs
  constructor
  · rintro ⟨pool1, heq1, -, -, -, hused, -⟩
    rw [mempoolDestory, heq] at heq1
    cases heq1
    rw [hr.usedObjs, hinv.used_eq] at hused
    exact List.length_eq_zero_iff.mp hused
  · intro hlive
    rw [hlive, List.length_nil, Nat.zero_add] at hadd
    refine ⟨pool', heq, ⟨[], ?_, by rw [hlive]⟩, ?_, ?_, ?_, ?_⟩
    · rw [hr.dctorCalls, List.append_nil]
    · rw [hr.slabNums, hlen, sub64_eq (by omega) (by omega), hslabs, Nat.sub_self]
    · rw [hr.totalObjs, hlen, sub64_eq (by omega) (by omega), htotal, Nat.sub_self]
    · rw [hr.usedObjs, hinv.used_eq, hlive, List.length_nil]
    · rw [hr.freeObjs, hlen, sub64_eq (by omega) (by omega), hadd, Nat.sub_self]

/-- A pool with a destructor. -/
def dctorOps : Option MempoolOps := some { ctor := false, dctor := true }

/-- An object is allocated and freed, and the slab is released cleanly. -/
theorem mempool_destory_iff_all_freed :
    ∃ st, Reachable 504 8 st ∧ st.pool.hasDctor = true ∧ st.pool.slabs.slabNums = 1
      ∧ DestoryOk st := by
  obtain ⟨st, hr, ht⟩ := reach_of_run opStep 504 8 dctorOps
    [.alloc (some 1) (some 4096), .free 4096]
    (fun st => st.pool.hasDctor && decide (st.pool.slabs.slabNums = 1) && decide (st.live = []))
    (by decide +kernel)
  rw [Bool.and_eq_true, Bool.and_eq_true, decide_eq_true_eq, decide_eq_true_eq] at ht
  obtain ⟨⟨hd, hn⟩, hlive⟩ := ht
  exact ⟨st, hr, hd, hn,
    (mempool_destory_iff (by decide) (by decide) (by decide) (by decide) hr).mpr hlive⟩

/-- With one live object no destructor runs, `used_objs` stays 1 and
    `free_objs` wraps. -/
theorem mempool_destory_one_live :
    ¬ ∀ st, Reachable 504 8 st → st.pool.hasDctor = true → DestoryOk st := by
  intro h
  obtain ⟨st, hr, ht⟩ := reach_of_run opStep 504 8 dctorOps [.alloc (some 1) (some 4096)]
    (fun st => st.pool.hasDctor && (mempoolDestory st.pool).all fun (pool : Pool) =>
      decide (pool.dctorCalls = []) && decide (pool.slabs.usedObjs = 1)
        && decide (pool.slabs.freeObjs = 2 ^ 64 - 1)) (by decide +kernel)
  rw [Bool.and_eq_true, Option.all_eq_true] at ht
  obtain ⟨hd, hall⟩ := ht
  obtain ⟨pool', heq, -, -, -, hused, -⟩ := h st hr hd
  have := hall pool' heq
  rw [Bool.and_eq_true, Bool.and_eq_true, decide_eq_true_eq, decide_eq_true_eq] at this
  omega

end MempoolDestory
