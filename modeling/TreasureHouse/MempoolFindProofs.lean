import TreasureHouse.MempoolSafetyProofs

/-! # From an address back to its slab — `find_obj_slab` and `free_obj2slab`

    `mempool_free` is given an address only.  The scan of the partial and the
    full list finds the slab the object is of and no other slab would do, the
    division gives back the index, and what the free changes is that one
    object: read off the structures, the objects in use are those of before
    without it, and no other slab is touched (`mempool_free_exact`). -/

namespace MempoolFind

open MachineInt LabelledRun Mempool MempoolGeometry MempoolList MempoolSlab MempoolInv MempoolStep
open MempoolFree MempoolSafety

/-- `x` is the address of object `i` of the slab at `a`. -/
structure ObjectAt (pool : Pool) (x a : Nat) (slab : Slab) (i : Nat) : Prop where
  mem : pool.mem a = some slab
  bound : i < pool.numPerSlab
  addr : objAddr pool slab i = x

/-- `x` is an object that is on no free chain. -/
def Used (pool : Pool) (x : Nat) : Prop :=
  ∃ a slab i chain, ObjectAt pool x a slab i ∧ FreeChain slab.freelist slab.freeIdx chain
    ∧ i ∉ chain

/-- What `mempool_free` does with the address `x` of object `i` of slab `a`. -/
structure FreesRight (pool : Pool) (x a : Nat) (slab : Slab) (i : Nat) : Prop where
  found : findObjSlab pool x = some (some a)
  only : ∀ b t, pool.mem b = some t → (addrInSlab x t = true ↔ b = a)
  idx : objIdx pool slab x = i
  freed : ∃ pool', mempoolFree pool x = some pool'
    ∧ (∀ y, Used pool' y ↔ Used pool y ∧ y ≠ x) ∧ ∀ b, b ≠ a → pool'.mem b = pool.mem b

section Runs

variable {objSize align : Nat} {st : PoolState} {ch : Nat → List Nat}

/-- The live objects are those the structures say are in use. -/
theorem used_iff (h : PoolInv objSize st ch) (x : Nat) : Used st.pool x ↔ x ∈ st.live := by
  rw [h.live_iff]
  constructor
  · rintro ⟨a, s, i, chain, hat, hchain, hi⟩
    rw [hchain.unique (h.ok.slab a s hat.mem).linked] at hi
    exact ⟨a, s, i, hat.mem, hat.bound, hi, hat.addr⟩
  · rintro ⟨a, s, i, hs, hi, hia, hx⟩
    exact ⟨a, s, i, ch a, ⟨hs, hi, hx⟩, (h.ok.slab a s hs).linked, hia⟩

/-- A live object is off the chain of the slab it is of. -/
theorem ObjectAt.notMem_chain (h : PoolInv objSize st ch) {x a i : Nat} {s : Slab}
    (hat : ObjectAt st.pool x a s i) (hx : x ∈ st.live) : i ∉ ch a := by
  obtain ⟨b, t, j, ht, hj, hjb, heq⟩ := (h.live_iff x).mp hx
  obtain ⟨rfl, rfl⟩ := h.ok.addr_inj hat.mem ht hat.bound hj (hat.addr.trans heq.symm)
  exact hjb

/-- **FREEING IS EXACT** in every reached state: a live object is some object
    of a held slab, and `mempool_free` of it goes to that slab and that index
    and changes nothing else. -/
theorem mempool_free_exact (h1 : 1 ≤ objSize) (h2 : objSize < 2 ^ 31) (h3 : 1 ≤ align)
    (h4 : align ≤ 4096) (h : Reachable objSize align st) {x : Nat} (hx : x ∈ st.live) :
    (∃ a slab i, a ∈ st.pool.slabs.held ∧ ObjectAt st.pool x a slab i)
      ∧ ∀ a slab i, ObjectAt st.pool x a slab i → FreesRight st.pool x a slab i := by
  obtain ⟨ch, hinv⟩ := reachable_inv h1 h2 h3 h4 st h
  constructor
  · obtain ⟨a, s, i, hs, hi, -, haddr⟩ := (hinv.live_iff x).mp hx
    exact ⟨a, s, i, (hinv.ok.held_iff a).mpr ⟨s, hs⟩, hs, hi, haddr⟩
  · intro a s i hat
    have hia := hat.notMem_chain hinv hx
    obtain ⟨hs, hi, rfl⟩ := hat
    have hfound := findObjSlab_spec hinv hs hi hia
    obtain ⟨b, t, pool', heq, hdone⟩ := mempoolFree_spec hinv hx
    obtain ⟨ch', hinv'⟩ := hdone.inv
    have hba : b = a := by
      have hsome := hdone.found.symm.trans hfound
      exact Option.some.inj (Option.some.inj hsome)
    subst hba
    exact {
      found := hfound
      only := fun b t ht => addrInSlab_iff hinv.ok hs hi hia ht
      idx := (hinv.ok.slab b s hs).objIdx_eq hinv.ok.geo hi
      freed := by
        refine ⟨pool', heq, ?_, hdone.mem⟩
        intro y
        have hy : Used pool' y ↔ y ∈ st.live.erase (objAddr st.pool s i) := used_iff hinv' y
        rw [hy, used_iff hinv, hinv.live_nodup.mem_erase_iff]
        exact and_comm }

end Runs

/-- The third object of the second of two slabs. -/
theorem mempool_free_exact_two_slabs :
    ∃ st, Reachable 504 8 st ∧ st.live.length = 11 ∧ ∃ slab, FreesRight st.pool 11008 2 slab 2 := by
  obtain ⟨st, hr, ht⟩ := reach_of_run opStep 504 8 none
    (fillSlab 1 4096 ++ [.alloc (some 2) (some 10000), .alloc none none, .alloc none none])
    (fun st => decide (st.live.length = 11) && decide (11008 ∈ st.live)
      && decide (2 < st.pool.numPerSlab)
      && (st.pool.mem 2).any fun s => decide (objAddr st.pool s 2 = 11008)) (by decide +kernel)
  rw [Bool.and_eq_true, Bool.and_eq_true, Bool.and_eq_true, decide_eq_true_eq, decide_eq_true_eq,
    decide_eq_true_eq, Option.any_eq_true] at ht
  obtain ⟨⟨⟨hlen, hlive⟩, hbound⟩, slab, hslab, haddr⟩ := ht
  have hat : ObjectAt st.pool 11008 2 slab 2 := ⟨hslab, hbound, of_decide_eq_true haddr⟩
  exact ⟨st, hr, hlen, slab,
    (mempool_free_exact (by decide) (by decide) (by decide) (by decide) hr hlive).2 2 slab 2 hat⟩

end MempoolFind
