import TreasureHouse.MempoolRegistryProofs
import TreasureHouse.MempoolSafetyProofs

/-! # `memory/mempool.c` — the pools of a program do not meet

    A program has many pools, and what a client relies on is about all of them:
    no two objects that it holds share a byte, whichever pools they are from
    (`pools_apart`).  Each pool goes through a run of its own, as if the others
    were not there, so what holds of one pool holds of each. -/

namespace MempoolApart

open LabelledRun Mempool MempoolRegistry

/-- The sizes that pools are made with. -/
def Sizes (objSize align : Nat) : Prop :=
  1 ≤ objSize ∧ objSize < 2 ^ 31 ∧ 1 ≤ align ∧ align ≤ 4096

instance (objSize align : Nat) : Decidable (Sizes objSize align) :=
  inferInstanceAs (Decidable (_ ∧ _ ∧ _ ∧ _))

/-- A creation asks for such sizes. -/
def SizesOk : Call → Prop
  | .create _ objSize align _ _ => Sizes objSize align
  | _ => True

instance : DecidablePred SizesOk
  | .create _ objSize align _ _ => inferInstanceAs (Decidable (Sizes objSize align))
  | .call _ _ => inferInstanceAs (Decidable True)
  | .destory _ => inferInstanceAs (Decidable True)

/-- The blocks of two pools do not meet. -/
def PoolsApart (pool pool' : Pool) : Prop :=
  ∀ a s b t, pool.mem a = some s → pool'.mem b = some t →
    s.sBase + pool.slabSize ≤ t.sBase ∨ t.sBase + pool'.slabSize ≤ s.sBase

/-- Each pool went through a run of its own, and no blocks meet. -/
structure ApartInv (r : Registry) : Prop where
  own : ∀ c ∈ r.pools, ∃ objSize align, Sizes objSize align ∧ Reachable objSize align c.2
  blocks : ∀ c ∈ r.pools, ∀ d ∈ r.pools, c.1 ≠ d.1 → PoolsApart c.2.pool d.2.pool

section Pools

variable {pool pool' other : Pool} {st st' : PoolState} {op : Op} {objSize align : Nat}

theorem PoolsApart.symm (h : PoolsApart pool pool') : PoolsApart pool' pool :=
  fun a s b t hs ht => (h b t a s ht hs).symm

/-- A new pool has no block. -/
theorem mempoolCreate_mem {mempoolList : List String} {n : String} {ops : Option MempoolOps}
    (hn : n ∉ mempoolList)
    (h : mempoolCreate mempoolList (some n) objSize align ops true = some (some pool)) (a : Nat) :
    pool.mem a = none := by
  rw [MempoolOrder.mempoolCreate_eq ops hn] at h
  obtain ⟨r, -, hr⟩ := Option.map_eq_some_iff.mp h
  split at hr
  · cases hr
  · cases hr
    rfl

/-- The blocks of a pool that goes through a run of its own are those held. -/
theorem held_of_mem (hs : Sizes objSize align) (hr : Reachable objSize align st) {a : Nat}
    {s : Slab} (ha : st.pool.mem a = some s) : a ∈ st.pool.slabs.held := by
  obtain ⟨h1, h2, h3, h4⟩ := hs
  obtain ⟨ch, hinv⟩ := MempoolFree.reachable_inv h1 h2 h3 h4 st hr
  exact (hinv.ok.held_iff a).mpr ⟨s, ha⟩

/-- A block that `apartFrom` lets through. -/
theorem apartFrom_block {base size a : Nat} {s : Slab} (h : apartFrom base size pool = true)
    (hheld : a ∈ pool.slabs.held) (ha : pool.mem a = some s) :
    base + size ≤ s.sBase ∨ s.sBase + pool.slabSize ≤ base := by
  have hone := List.all_eq_true.mp h a hheld
  rw [ha] at hone
  obtain hle | hle := Bool.or_eq_true_iff.mp hone
  · exact Or.inl (of_decide_eq_true hle)
  · exact Or.inr (of_decide_eq_true hle)

/-- A call on a pool keeps it apart from another when the block that it may get
    does not meet the other's. -/
theorem opStep_apart (h : PoolsApart st.pool other) (hstep : opStep st op = some st')
    (hheld : ∀ a s, other.mem a = some s → a ∈ other.slabs.held)
    (hnew : ∀ base, MempoolFrame.mallocOf op = some base →
      apartFrom base st.pool.slabSize other = true) : PoolsApart st'.pool other := by
  have htame := MempoolFrame.opStep_tame hstep
  intro a s' b t hs' ht
  rw [htame.slabSize]
  obtain ⟨s, hs, hbase⟩ | hfresh := htame.bases a s' hs'
  · rw [hbase]
    exact h a s b t hs ht
  · exact apartFrom_block (hnew _ hfresh) (hheld b t ht) ht

/-- An object and the bytes up to the next one lie in a block. -/
theorem live_slot_in_block (hs : Sizes objSize align) (hr : Reachable objSize align st) {x : Nat}
    (hx : x ∈ st.live) : ∃ a s, st.pool.mem a = some s ∧ s.sBase ≤ x
      ∧ x + st.pool.size ≤ s.sBase + st.pool.slabSize := by
  obtain ⟨h1, h2, h3, h4⟩ := hs
  obtain ⟨ch, hinv⟩ := MempoolFree.reachable_inv h1 h2 h3 h4 st hr
  obtain ⟨a, s, i, hs, hi, -, rfl⟩ := (hinv.live_iff x).mp hx
  obtain ⟨hlow, -, hend, hin⟩ := (hinv.ok.slab a s hs).obj_range hi
  exact ⟨a, s, hs, hlow, by omega⟩

/-- Two objects of one pool. -/
theorem live_slots_apart (hs : Sizes objSize align) (hr : Reachable objSize align st) {x y : Nat}
    (hx : x ∈ st.live) (hy : y ∈ st.live) (hxy : x ≠ y) :
    x + st.pool.size ≤ y ∨ y + st.pool.size ≤ x := by
  obtain ⟨h1, h2, h3, h4⟩ := hs
  obtain ⟨ch, hinv⟩ := MempoolFree.reachable_inv h1 h2 h3 h4 st hr
  obtain ⟨a, s, i, hs, hi, -, rfl⟩ := (hinv.live_iff x).mp hx
  obtain ⟨b, t, j, ht, hj, -, rfl⟩ := (hinv.live_iff y).mp hy
  refine hinv.ok.addr_apart hs ht hi hj ?_
  rintro rfl rfl
  rw [hs] at ht
  cases ht
  exact hxy rfl

end Pools

-- ── Steps ────────────────────────────────────────────────────────────────────

section Steps

variable {r r' : Registry} {call : Call}

theorem mem_setPool {pools : List (Nat × PoolState)} {p : Nat} {st : PoolState}
    {c : Nat × PoolState} (hc : c ∈ setPool pools p st) :
    c = (p, st) ∨ c ∈ pools ∧ c.1 ≠ p := by
  obtain ⟨d, hd, heq⟩ := List.mem_map.mp hc
  by_cases hdp : d.1 = p
  · rw [if_pos hdp] at heq
    exact Or.inl heq.symm
  · rw [if_neg hdp] at heq
    subst heq
    exact Or.inr ⟨hd, hdp⟩

/-- What `otherPoolsOk` says of one other pool. -/
theorem otherPoolsOk_apart {p base : Nat} {pool : Pool} {op : Op} {c : Nat × PoolState}
    (hok : otherPoolsOk r p pool op = true) (hnew : MempoolFrame.mallocOf op = some base)
    (hc : c ∈ r.pools) (hcp : c.1 ≠ p) : apartFrom base pool.slabSize c.2.pool = true := by
  cases op with
  | free obj => cases hnew
  | alloc calloc malloc =>
      rw [MempoolFrame.mallocOf] at hnew
      subst hnew
      have hone := List.all_eq_true.mp hok c hc
      rw [decide_eq_false hcp, Bool.false_or] at hone
      exact hone

theorem withPool_apart (h : ApartInv r) {p : Nat} {pool : Pool}
    (hown : ∃ objSize align, Sizes objSize align
      ∧ Reachable objSize align { pool := pool, live := [] })
    (hmem : ∀ a, pool.mem a = none) : ApartInv (withPool r p pool) where
  own := by
    intro c hc
    rcases List.mem_cons.mp hc with rfl | hc
    · exact hown
    · exact h.own c hc
  blocks := by
    intro c hc d hd hcd
    rcases List.mem_cons.mp hc with rfl | hc
    · intro a s b t hs
      rw [hmem a] at hs
      cases hs
    · rcases List.mem_cons.mp hd with rfl | hd
      · intro a s b t _ ht
        rw [hmem b] at ht
        cases ht
      · exact h.blocks c hc d hd hcd

theorem setPool_apart (h : ApartInv r) {p : Nat} {op : Op} {st st' : PoolState}
    (hp : (p, st) ∈ r.pools) (hok : otherPoolsOk r p st.pool op = true)
    (hstep : opStep st op = some st') : ApartInv { r with pools := setPool r.pools p st' } := by
  have hother : ∀ c ∈ r.pools, c.1 ≠ p → PoolsApart st'.pool c.2.pool := by
    intro c hc hcp
    obtain ⟨objSize, align, hsizes, hreach⟩ := h.own c hc
    refine opStep_apart (h.blocks (p, st) hp c hc (Ne.symm hcp)) hstep ?_ ?_
    · intro a s ha
      exact held_of_mem hsizes hreach ha
    · intro base hnew
      exact otherPoolsOk_apart hok hnew hc hcp
  exact {
    own := by
      intro c hc
      obtain rfl | ⟨hc, -⟩ := mem_setPool hc
      · obtain ⟨objSize, align, hsizes, hreach⟩ := h.own (p, st) hp
        exact ⟨objSize, align, hsizes, hreach.next hstep⟩
      · exact h.own c hc
    blocks := by
      intro c hc d hd hcd
      obtain rfl | ⟨hc, hcp⟩ := mem_setPool hc
      · obtain rfl | ⟨hd, hdp⟩ := mem_setPool hd
        · exact absurd rfl hcd
        · exact hother d hd hdp
      · obtain rfl | ⟨hd, hdp⟩ := mem_setPool hd
        · exact (hother c hc hcp).symm
        · exact h.blocks c hc d hd hcd }

/-- **STEP LEMMA**: every call of such sizes keeps the pools apart. -/
theorem regStep_apart (hreg : RegInv r) (h : ApartInv r) (hsizes : SizesOk call)
    (hs : regStep r call = some r') : ApartInv r' := by
  obtain rfl | ⟨n, objSize, align, ops, p, pool, rfl, hn, -, hmade, rfl⟩
    | ⟨p, op, st, st', -, hp, hok, hst, rfl⟩ | ⟨p, st, -, -, rfl⟩ := regStep_cases hreg hs
  · exact h
  · have hcreated : Created objSize align { pool := pool, live := [] } :=
      ⟨_, some n, ops, hmade, rfl⟩
    exact withPool_apart h ⟨objSize, align, hsizes, Reach.start hcreated⟩
      (mempoolCreate_mem hn hmade)
  · exact setPool_apart h hp hok hst
  · exact {
      own := fun c hc => h.own c (List.mem_of_mem_filter hc)
      blocks := fun c hc d hd =>
        h.blocks c (List.mem_of_mem_filter hc) d (List.mem_of_mem_filter hd) }

theorem Run.apart : ∀ r : Registry,
    Reach Started (guarded (fun _ call => SizesOk call) (fires regStep)) r → ApartInv r := by
  refine Reach.guarded_invariant ?_ ?_
  · rintro r ⟨links, rfl⟩
    exact {
      own := fun c hc => absurd hc List.not_mem_nil
      blocks := fun c hc => absurd hc List.not_mem_nil }
  · intro r call r' hr h hsizes hs
    exact regStep_apart (MempoolRegistry.Run.inv r hr) h hsizes hs

end Steps

-- ── The objects of a program ─────────────────────────────────────────────────

/-- Each pool is as after calls on it alone, and no two objects meet. -/
structure Apart (r : Registry) : Prop where
  own : ∀ c ∈ r.pools, ∃ objSize align, Sizes objSize align ∧ Reachable objSize align c.2
    ∧ objSize ≤ c.2.pool.size
  objects : ∀ c ∈ r.pools, ∀ d ∈ r.pools, ∀ x ∈ c.2.live, ∀ y ∈ d.2.live, (c.1, x) ≠ (d.1, y) →
    x + c.2.pool.size ≤ y ∨ y + d.2.pool.size ≤ x

/-- **POOLS APART**: after any run of calls on any number of pools, with blocks
    that `malloc` does not give out twice, no two objects in use meet. -/
theorem pools_apart {r : Registry}
    (hr : Reach Started (guarded (fun _ call => SizesOk call) (fires regStep)) r) : Apart r where
  own := by
    intro c hc
    obtain ⟨objSize, align, hsizes, hreach⟩ := (Run.apart r hr).own c hc
    obtain ⟨h1, h2, h3, h4⟩ := id hsizes
    obtain ⟨ch, hinv⟩ := MempoolFree.reachable_inv h1 h2 h3 h4 c.2 hreach
    exact ⟨objSize, align, hsizes, hreach, hinv.ok.geo.obj_le⟩
  objects := by
    intro c hc d hd x hx y hy hne
    have hinv := Run.apart r hr
    obtain ⟨objSize, align, hsizes, hreach⟩ := hinv.own c hc
    obtain ⟨objSize', align', hsizes', hreach'⟩ := hinv.own d hd
    by_cases hcd : c.1 = d.1
    · have hkeys := (MempoolRegistry.Run.inv r hr.of_guarded).keys
      have heq : c = d := List.inj_on_of_nodup_map hkeys hc hd hcd
      subst heq
      exact live_slots_apart hsizes hreach hx hy fun hxy => hne (by rw [hxy])
    · obtain ⟨a, s, hs, hlow, hend⟩ := live_slot_in_block hsizes hreach hx
      obtain ⟨b, t, ht, hlow', hend'⟩ := live_slot_in_block hsizes' hreach' hy
      have hblocks := hinv.blocks c hc d hd hcd a s b t hs ht
      omega

/-- One object of one pool and two of another, of which a third was freed. -/
theorem pools_apart_two :
    ∃ r : Registry, Apart r ∧ r.pools.map (fun c => c.2.live) = [[12416, 12288], [4096]] := by
  have hstart : Reach Started (fires (checked (fun _ call => decide (SizesOk call)) regStep))
      { links := WaitQueue.initListHead { next := id, prev := id } .mempoolList, pools := [] } :=
    Reach.start ⟨_, rfl⟩
  obtain ⟨r, hr, htest⟩ := Reach.exists_of_runList
    [.create (some "tasks") 504 8 none (some 1), .create (some "nodes") 64 8 none (some 2),
      .call 1 (.alloc (some 3) (some 4096)), .call 2 (.alloc (some 4) (some 12288)),
      .call 2 (.alloc none none), .call 2 (.alloc none none), .call 2 (.free 12352)]
    (fun r : Registry => decide (r.pools.map (fun c => c.2.live) = [[12416, 12288], [4096]])) hstart
    (by decide +kernel)
  exact ⟨r, pools_apart (Reach.guarded_of_checked (fun _ _ h => of_decide_eq_true h) r hr),
    of_decide_eq_true htest⟩

end MempoolApart
