import TreasureHouse.MempoolFindProofs

/-! # What the lists tell — fill, list and `last_free_idx` of a slab

    A slab moves to the full list when the index taken is `last_free_idx`, and
    back when `last_free_idx` is -1.  The source means to store -1 when a slab
    becomes full, but compares instead, so `last_free_idx` keeps the index the
    chain had at its end when the slab was new.  It is the end of the chain as
    long as the slab never became full, for objects are given back at the head;
    and a full slab does not say so (`slabs_tell`). -/

namespace MempoolFill

open MachineInt LabelledRun Mempool MempoolGeometry MempoolList MempoolSlab MempoolInv MempoolStep
open MempoolFree MempoolSafety MempoolFind

/-- `last_free_idx` is the last index of the free chain. -/
def EndsAtLast (slab : Slab) : Prop :=
  ∃ chain i, FreeChain slab.freelist slab.freeIdx chain ∧ chain.getLast? = some i
    ∧ slab.lastFreeIdx = i

/-- The slab is on one list, the list tells how full it is, and
    `last_free_idx` is -1 for a full slab and else the end of its chain. -/
structure SlabTells (pool : Pool) (a : Nat) (slab : Slab) : Prop where
  once : pool.slabs.held.count a = 1
  empty : a ∈ pool.slabs.emptySlabs ↔ slab.used = 0
  full : a ∈ pool.slabs.fullSlabs ↔ slab.used = pool.numPerSlab
  partly : a ∈ pool.slabs.partialSlabs ↔ 0 < slab.used ∧ slab.used < pool.numPerSlab
  lastFull : slab.lastFreeIdx = -1 ↔ slab.used = pool.numPerSlab
  last : slab.used ≠ pool.numPerSlab → EndsAtLast slab

/-- Every held slab tells. -/
def SlabsTell (pool : Pool) : Prop :=
  ∀ a ∈ pool.slabs.held, ∃ slab, pool.mem a = some slab ∧ SlabTells pool a slab

/-- The call takes the last free object of a slab. -/
def fills (st : PoolState) : Op → Bool
  | .alloc _ _ => decide (st.pool.slabs.freeObjs ≠ 0)
      && match findSlab st.pool with
        | some (some a, _) => decide (slabFree st.pool a = 1)
        | _ => false
  | .free _ => false

/-- The calls that leave every slab a free object. -/
def LeavesFree (st : PoolState) (op : Op) : Prop := fills st op = false

/-- No slab is on the full list, and each has a free chain. -/
def NoneFull (pool : Pool) : Prop :=
  ∀ a slab, pool.mem a = some slab → a ∉ pool.slabs.fullSlabs ∧ EndsAtLast slab

section Runs

variable {objSize align : Nat} {st : PoolState} {ch : Nat → List Nat}

theorem NoneFull.chain (h : PoolInv objSize st ch) (hn : NoneFull st.pool) {a : Nat} {s : Slab}
    (hs : st.pool.mem a = some s) :
    (ch a).getLast? = some (st.pool.numPerSlab - 1) := by
  obtain ⟨-, chain, i, hchain, hend, hlast⟩ := hn a s hs
  have hnum := (h.ok.slab a s hs).last_eq
  rw [hchain.unique (h.ok.slab a s hs).linked] at hend
  rw [hend]
  congr 1
  omega

/-- As long as no slab was full, every slab tells. -/
theorem NoneFull.tell (h : PoolInv objSize st ch) (hn : NoneFull st.pool) :
    SlabsTell st.pool := by
  intro a ha
  obtain ⟨s, hs⟩ := (h.ok.held_iff a).mp ha
  have hinv := h.ok.slab a s hs
  have hnum := h.ok.geo.num_ge
  have hfree := hinv.free_eq
  have hused := hinv.used_eq
  have hlast := hinv.last_eq
  have hend := hn.chain h hs
  have hpos : 0 < (ch a).length := by
    rcases hch : ch a with _ | ⟨i, l⟩
    · rw [hch] at hend
      cases hend
    · exact Nat.succ_pos _
  have hnotFull := (hn a s hs).1
  have hempty := h.ok.empty_iff a s hs
  refine ⟨s, hs, ?_⟩
  exact {
    once := List.count_eq_one_of_mem h.ok.nodup ha
    empty := hempty
    full := iff_of_false hnotFull (by omega)
    partly := by
      constructor
      · intro hp
        have hne : s.used ≠ 0 := by
          intro h0
          cases listOf_unique h.ok.nodup (d := .partialList) hp (hempty.mpr h0)
        omega
      · rintro ⟨h0, -⟩
        obtain ⟨d, hd⟩ := mem_held.mp ha
        cases d with
        | partialList => exact hd
        | fullList => exact absurd hd hnotFull
        | emptyList => exact absurd (hempty.mp hd) (by omega)
    lastFull := iff_of_false (by omega) (by omega)
    last := fun _ => (hn a s hs).2 }

-- ── What `mempool_alloc` takes ───────────────────────────────────────────────

/-- `mempool_alloc` handed out nothing, or an object of a new slab, or one of
    the slab `find_slab` found. -/
theorem alloc_cases (h : PoolInv objSize st ch) {calloc malloc : Option Nat} {st' : PoolState}
    (hstep : opStep st (.alloc calloc malloc) = some st') :
    (st' = st ∧ (st.pool.slabs.freeObjs = 0 ∨ findSlab st.pool = some (none, st.pool)))
      ∨ ∃ a s pool₁ ch₁ x pool', PoolInv objSize ⟨pool₁, st.live⟩ ch₁
      ∧ pool₁.mem a = some s ∧ 0 < s.free ∧ allocObjFromSlab pool₁ a = some (x, pool')
      ∧ st' = ⟨callCtor pool' x, x :: st.live⟩
      ∧ ((st.pool.slabs.freeObjs = 0 ∧ a ∉ st.pool.slabs.held
            ∧ ch₁ a = List.range st.pool.numPerSlab ∧ ∃ base, Grown st.pool a base pool₁)
        ∨ (st.pool.slabs.freeObjs ≠ 0 ∧ pool₁ = setCur st.pool (some a)
            ∧ findSlab st.pool = some (some a, pool₁))) := by
  rw [opStep, Option.ite_none_right_eq_some, Option.map_eq_some_iff] at hstep
  obtain ⟨hok, r, hr, rfl⟩ := hstep
  by_cases h0 : st.pool.slabs.freeObjs = 0
  · rw [mempoolAlloc, if_pos h0] at hr
    rcases calloc with _ | a
    · cases hr
      exact Or.inl ⟨rfl, Or.inl h0⟩
    · rcases malloc with _ | base
      · cases hr
        exact Or.inl ⟨rfl, Or.inl h0⟩
      · obtain ⟨pool₁, heq, hg⟩ := slabAlloc_eq st.pool a base
        have hinv₁ := hg.inv h hok
        have hmem₁ : pool₁.mem a = some (newSlab st.pool base) := by
          rw [hg.mem, Function.update_self]
        have hnum := h.ok.geo.num_ge
        have hfree₁ := (hinv₁.ok.slab a _ hmem₁).free_eq
        rw [Function.update_self, List.length_range] at hfree₁
        rw [heq] at hr
        obtain ⟨⟨x, pool'⟩, hobj, rfl⟩ := Option.map_eq_some_iff.mp hr
        exact Or.inr ⟨a, _, pool₁, _, x, pool', hinv₁, hmem₁, by omega, hobj, rfl,
          Or.inl ⟨h0, (mallocOk_some hok).1, Function.update_self .., base, hg⟩⟩
  · have hcur := (curOk_of_alloc h hr).resolve_left h0
    rw [mempoolAlloc, if_neg h0] at hr
    rcases findSlab_spec h.ok hcur with ⟨a, s, hs, hfree, hfind, -⟩ | ⟨hfind, -⟩
    · rw [hfind] at hr
      obtain ⟨⟨x, pool'⟩, hobj, rfl⟩ := Option.map_eq_some_iff.mp hr
      exact Or.inr ⟨a, s, _, ch, x, pool', PoolInv.setCur h (some a), hs, hfree, hobj, rfl,
        Or.inr ⟨h0, rfl, hfind⟩⟩
    · rw [hfind] at hr
      cases hr
      exact Or.inl ⟨rfl, Or.inr hfind⟩

/-- An index that is not `last_free_idx` moves its slab off the empty list at
    most. -/
theorem allocMoves_more {slabs slabs' : SlabsInfo} {a used : Nat} {freeIdx lastFreeIdx : Int}
    (hne : freeIdx ≠ lastFreeIdx) (hnd : slabs.held.Nodup) (ha : a ∈ slabs.held)
    (hfull : a ∉ slabs.fullSlabs)
    (h : allocMoves slabs a freeIdx lastFreeIdx used = some slabs') : a ∉ slabs'.fullSlabs := by
  rw [allocMoves, if_neg hne, Option.bind_some] at h
  by_cases h1 : used = 1
  · obtain ⟨slabs₁, hmove, -, hat, -⟩ := moveList_spec .partialList hnd ha
    rw [if_pos h1, hmove] at h
    cases h
    intro hf
    cases (hat .fullList).mp hf
  · rw [if_neg h1] at h
    cases h
    exact hfull

/-- Taking one of several free objects of a slab that was never full. -/
theorem NoneFull.take {pool' : Pool} {x a : Nat} {s : Slab} (h : PoolInv objSize st ch)
    (hn : NoneFull st.pool) (hs : st.pool.mem a = some s) (hmore : 1 < s.free)
    (hobj : allocObjFromSlab st.pool a = some (x, pool')) : NoneFull pool' := by
  have hinv := h.ok.slab a s hs
  have hfree := hinv.free_eq
  have hend := hn.chain h hs
  -- the chain has an index to take and another one behind it
  rcases hch : ch a with _ | ⟨i, _ | ⟨j, l⟩⟩
  · rw [hch, List.length_nil] at hfree
    omega
  · rw [hch, List.length_singleton] at hfree
    omega
  · rw [hch] at hinv hend
    obtain ⟨hidx, hinv', -, -⟩ := takeIdx_inv h.ok.geo hinv
    obtain ⟨pool₁, heq, ht⟩ := allocObjFromSlab_eq h.ok hs hch
    obtain ⟨-, slabs', hmoves, hr⟩ := allocObjFromSlab_cases hs hobj
    rw [hobj] at heq
    cases heq
    have hne : s.freeIdx ≠ s.lastFreeIdx := by
      -- the last index is further back
      rw [hidx, hinv.last_eq]
      have hlast : st.pool.numPerSlab - 1 ∈ j :: l :=
        List.mem_of_getLast? (by rw [← hend, List.getLast?_cons_cons])
      have hi : i ≠ st.pool.numPerSlab - 1 := by
        rintro rfl
        exact (List.nodup_cons.mp hinv.nodup).1 hlast
      have hnum := h.ok.geo.num_ge
      omega
    have hplace : a ∉ pool'.slabs.fullSlabs := by
      have hlists : pool'.slabs.fullSlabs = slabs'.fullSlabs :=
        congrArg (fun r : Nat × Pool => r.2.slabs.fullSlabs) hr
      rw [hlists]
      have hne' : s.freeIdx ≠ (takeIdx s).lastFreeIdx := by
        rw [takeIdx]
        exact hne
      exact allocMoves_more hne' h.ok.nodup ((h.ok.held_iff a).mpr ⟨s, hs⟩) (hn a s hs).1 hmoves
    intro b t htb
    rw [ht.mem] at htb
    by_cases hba : b = a
    · subst hba
      rw [Function.update_self] at htb
      cases htb
      refine ⟨hplace, j :: l, st.pool.numPerSlab - 1, hinv'.linked, ?_, ?_⟩
      · rw [← hend, List.getLast?_cons_cons]
      · have hlast := hinv'.last_eq
        have hnum := h.ok.geo.num_ge
        omega
    · rw [Function.update_of_ne hba] at htb
      obtain ⟨hfull, hchain⟩ := hn b t htb
      exact ⟨fun hf => hfull ((ht.lists.others b .fullList hba).mp hf), hchain⟩

/-- A new slab was never full. -/
theorem NoneFull.grow {pool₁ : Pool} {a base : Nat} {ch₁ : Nat → List Nat}
    (h : PoolInv objSize st ch) (hn : NoneFull st.pool) (hfresh : a ∉ st.pool.slabs.held)
    (hinv₁ : PoolInv objSize ⟨pool₁, st.live⟩ ch₁) (hg : Grown st.pool a base pool₁)
    (hall : ch₁ a = List.range st.pool.numPerSlab) : NoneFull pool₁ := by
  have hlists : ∀ {b}, b ∈ pool₁.slabs.fullSlabs → b ∈ st.pool.slabs.fullSlabs := by
    intro b hb
    rcases (hg.lists b .fullList).mp hb with ⟨-, hd⟩ | hb
    · cases hd
    · exact hb
  intro b t ht
  have ht₁ := ht
  rw [hg.mem] at ht
  by_cases hba : b = a
  · subst hba
    have hinv := hinv₁.ok.slab b t ht₁
    have hlast := hinv.last_eq
    rw [hg.consts.num] at hlast
    have hnum := h.ok.geo.num_ge
    refine ⟨fun hf => hfresh (mem_held.mpr ⟨.fullList, hlists hf⟩), _, st.pool.numPerSlab - 1,
      hinv.linked, ?_, by omega⟩
    rw [hall, List.getLast?_range, if_neg (by omega)]
  · rw [Function.update_of_ne hba] at ht
    obtain ⟨hfull, hchain⟩ := hn b t ht
    exact ⟨fun hf => hfull (hlists hf), hchain⟩

/-- A settled slab is as it was, or gone. -/
theorem settleUnused_mem {pool pool' : Pool} {a used : Nat} {s : Slab} (hs : pool.mem a = some s)
    (h : settleUnused pool a used = some pool') : pool'.mem a = none ∨ pool'.mem a = some s := by
  rcases settleUnused_cases h with ⟨-, rfl⟩ | ⟨-, -, hone⟩ | ⟨-, -, slabs, -, rfl⟩
  · exact Or.inr hs
  · exact Or.inl (freeOneSlab_mem hone)
  · exact Or.inr hs

/-- An object given back joins the chain at its head. -/
theorem NoneFull.free {st' : PoolState} {obj : Nat} (h : PoolInv objSize st ch)
    (hn : NoneFull st.pool) (hstep : opStep st (.free obj) = some st') : NoneFull st'.pool := by
  obtain ⟨a, s, pool', rfl, hdone⟩ := opStep_free_cases h hstep
  rw [opStep, Option.ite_none_right_eq_some, Option.map_eq_some_iff] at hstep
  obtain ⟨hlive, pool₁, hfree, hpool⟩ := hstep
  obtain rfl : pool₁ = pool' := congrArg PoolState.pool hpool
  obtain ⟨b, t, i, ht, hi, hib, rfl⟩ := (h.live_iff obj).mp hlive
  obtain rfl : b = a :=
    Option.some.inj (Option.some.inj ((findObjSlab_spec h ht hi hib).symm.trans hdone.found))
  obtain ⟨hinv', -, -⟩ := putIdx_inv h.ok.geo (h.ok.slab b t ht) hi hib
  have hmem : pool₁.mem b = none ∨ pool₁.mem b = some (putIdx t i) := by
    rw [mempoolFree, findObjSlab_spec h ht hi hib] at hfree
    have hfree : freeObj2slab (objAddr st.pool t i) b st.pool = some pool₁ := hfree
    rw [freeObj2slab_eq h.ok ht hi] at hfree
    obtain ⟨pool₂, hsettle, rfl⟩ := Option.map_eq_some_iff.mp hfree
    have hself : (setSlab st.pool b (putIdx t i)).mem b = some (putIdx t i) :=
      Function.update_self ..
    have hafter : pool₂.mem b = none ∨ pool₂.mem b = some (putIdx t i) :=
      settleUnused_mem hself hsettle
    exact hafter
  intro c u hu
  by_cases hcb : c = b
  · subst hcb
    rcases hmem with hmem | hmem
    · have hu : pool₁.mem c = some u := hu
      rw [hmem] at hu
      cases hu
    · have hu : pool₁.mem c = some u := hu
      rw [hmem] at hu
      cases hu
      have hlast := hinv'.last_eq
      have hnum := h.ok.geo.num_ge
      refine ⟨?_, i :: ch c, st.pool.numPerSlab - 1, hinv'.linked, ?_, by omega⟩
      · intro hf
        cases hdone.place with
        | kept _ at_a => exact (hn c t ht).1 ((at_a .fullList).mp hf)
        | emptied _ _ at_a => cases (at_a .fullList).mp hf
        | released _ _ at_a => exact at_a .fullList hf
      · rw [← hn.chain h ht]
        rcases hch : ch c with _ | ⟨j, l⟩
        · have hend := hn.chain h ht
          rw [hch] at hend
          cases hend
        · exact List.getLast?_cons_cons
  · obtain ⟨hfull, hchain⟩ := hn c u ((hdone.mem c hcb).symm.trans hu)
    exact ⟨fun hf => hfull ((hdone.others c .fullList hcb).mp hf), hchain⟩

-- ── Runs ─────────────────────────────────────────────────────────────────────

theorem noneFull_callCtor {pool : Pool} {x : Nat} (hn : NoneFull pool) :
    NoneFull (callCtor pool x) := by
  obtain ⟨-, hslabs, hmem⟩ := callCtor_eq pool x
  rw [NoneFull, hslabs, hmem]
  exact hn

theorem noneFull_setCur {pool : Pool} {cur : Option Nat} (hn : NoneFull pool) :
    NoneFull (setCur pool cur) := hn

/-- A call that takes no slab's last free object keeps all slabs from being
    full. -/
theorem noneFull_step {st' : PoolState} {op : Op} (h : PoolInv objSize st ch)
    (hn : NoneFull st.pool) (hk : LeavesFree st op) (hstep : opStep st op = some st') :
    NoneFull st'.pool := by
  cases op with
  | free obj => exact NoneFull.free h hn hstep
  | alloc calloc malloc =>
      obtain ⟨rfl, -⟩ | ⟨a, s, pool₁, ch₁, x, pool', hinv₁, hs, hfree, hobj, rfl, hfrom⟩ :=
        alloc_cases h hstep
      · exact hn
      · refine noneFull_callCtor ?_
        obtain ⟨-, hfresh, hall, base, hg⟩ | ⟨h0, rfl, hfind⟩ := hfrom
        · have hnum := h.ok.geo.num_ge
          have hlen := (hinv₁.ok.slab a s hs).free_eq
          rw [hall, List.length_range] at hlen
          exact (hn.grow h hfresh hinv₁ hg hall).take hinv₁ hs (by omega) hobj
        · have hmem : st.pool.mem a = some s := hs
          have hne : s.free ≠ 1 := by
            intro h1
            rw [LeavesFree, fills, hfind, decide_eq_true h0, Bool.true_and] at hk
            simp only [slabFree, hmem] at hk
            exact absurd h1 (of_decide_eq_false hk)
          exact (noneFull_setCur hn).take hinv₁ hs (by omega) hobj

/-- A call that takes a slab's last free object leaves it full with its old
    `last_free_idx`. -/
theorem fills_step {st' : PoolState} {op : Op} (h : PoolInv objSize st ch)
    (hk : ¬ LeavesFree st op) (hstep : opStep st op = some st') : ¬ SlabsTell st'.pool := by
  cases op with
  | free obj => exact absurd rfl hk
  | alloc calloc malloc =>
      have hfills : fills st (.alloc calloc malloc) = true := Bool.eq_true_of_not_eq_false hk
      rw [fills, Bool.and_eq_true, decide_eq_true_eq] at hfills
      obtain ⟨h0, hone⟩ := hfills
      obtain ⟨-, hnone⟩ | ⟨a, s, pool₁, ch₁, x, pool', hinv₁, hs, -, hobj, rfl, hfrom⟩ :=
        alloc_cases h hstep
      · rw [hnone.resolve_left h0] at hone
        cases hone
      · obtain ⟨h0', -⟩ | ⟨-, rfl, hfind⟩ := hfrom
        · exact absurd h0' h0
        · have hmem : st.pool.mem a = some s := hs
          rw [hfind] at hone
          simp only [slabFree, hmem, decide_eq_true_eq] at hone
          have hinv := hinv₁.ok.slab a s hs
          have hfree := hinv.free_eq
          have hused := hinv.used_eq
          rcases hch : ch₁ a with _ | ⟨i, l⟩
          · rw [hch, List.length_nil] at hfree
            omega
          · rw [hch] at hinv
            obtain ⟨-, hinv', hused', -⟩ := takeIdx_inv hinv₁.ok.geo hinv
            obtain ⟨pool₂, heq, ht⟩ := allocObjFromSlab_eq hinv₁.ok hs hch
            rw [heq] at hobj
            cases hobj
            obtain ⟨hc, hslabs, hmem'⟩ := callCtor_eq pool' (objAddr (setCur st.pool (some a)) s i)
            intro htell
            obtain ⟨t, hta, htell⟩ := htell a (by
              rw [hslabs, ht.lists.perm.mem_iff]
              exact (hinv₁.ok.held_iff a).mpr ⟨s, hs⟩)
            rw [hmem', ht.mem, Function.update_self] at hta
            cases hta
            have hlast := htell.lastFull.mpr (by
              rw [hc.num, ht.consts.num]
              omega)
            have hend := hinv'.last_eq
            have hnum := hinv₁.ok.geo.num_ge
            omega

/-- **THE LISTS TELL THE FILL** in every run that never takes the last free
    object of a slab; the first call that does leaves a full slab whose
    `last_free_idx` is not -1. -/
theorem slabs_tell (h1 : 1 ≤ objSize) (h2 : objSize < 2 ^ 31) (h3 : 1 ≤ align)
    (h4 : align ≤ 4096)
    (h : Reach (Created objSize align) (guarded LeavesFree (fires opStep)) st) :
    SlabsTell st.pool
      ∧ ∀ op st', opStep st op = some st' → (SlabsTell st'.pool ↔ LeavesFree st op) := by
  have hn : NoneFull st.pool := by
    refine Reach.guarded_invariant (I := fun st => NoneFull st.pool) ?_ ?_ st h
    · rintro st ⟨names, name, ops, hcreate, -⟩ a s hs
      obtain ⟨-, -, hmem, -⟩ := mempoolCreate_geometry h1 h2 h3 h4 hcreate
      rw [hmem] at hs
      cases hs
    · intro st op st' hr hn hcond hstep
      obtain ⟨ch, hinv⟩ := reachable_inv h1 h2 h3 h4 st hr
      exact noneFull_step hinv hn hcond hstep
  obtain ⟨ch, hinv⟩ := reachable_inv h1 h2 h3 h4 st h.of_guarded
  refine ⟨hn.tell hinv, ?_⟩
  intro op st' hstep
  obtain ⟨ch', hinv'⟩ := step_inv hinv hstep
  constructor
  · intro htell
    by_contra hk
    exact fills_step hinv hk hstep htell
  · intro hk
    exact (noneFull_step hinv hn hk hstep).tell hinv'

end Runs

/-- Seven objects of a slab of eight, and one given back. -/
theorem slabs_tell_seven :
    ∃ st, Reach (Created 504 8) (guarded LeavesFree (fires opStep)) st ∧ st.live.length = 6
      ∧ SlabsTell st.pool := by
  obtain ⟨st, hr, ht⟩ := reach_of_run (checked (fun st op => !fills st op) opStep) 504 8 none
    ((fillSlab 1 4096).take 7 ++ [.free 4096]) (fun st => decide (st.live.length = 6))
    (by decide +kernel)
  have hg : Reach (Created 504 8) (guarded LeavesFree (fires opStep)) st :=
    Reach.guarded_of_checked (fun _ _ hc => (Bool.not_eq_true' _).mp hc) st hr
  exact ⟨st, hg, of_decide_eq_true ht,
    (slabs_tell (by decide) (by decide) (by decide) (by decide) hg).1⟩

/-- A slab of eight objects all in use has `last_free_idx` 7. -/
theorem slabs_tell_not_full : ¬ ∀ st, Reachable 504 8 st → SlabsTell st.pool := by
  intro h
  obtain ⟨st, hr, ht⟩ := reach_of_run opStep 504 8 none (fillSlab 1 4096)
    (fun st => decide (1 ∈ st.pool.slabs.held) && (st.pool.mem 1).any fun (s : Slab) =>
      decide (s.used = st.pool.numPerSlab) && decide (s.lastFreeIdx = 7)) (by decide +kernel)
  rw [Bool.and_eq_true, decide_eq_true_eq, Option.any_eq_true] at ht
  obtain ⟨hheld, s, hs, hfull⟩ := ht
  rw [Bool.and_eq_true, decide_eq_true_eq, decide_eq_true_eq] at hfull
  obtain ⟨t, ht, htell⟩ := h st hr 1 hheld
  rw [hs] at ht
  cases ht
  have hlast := htell.lastFull.mpr hfull.1
  omega

end MempoolFill
