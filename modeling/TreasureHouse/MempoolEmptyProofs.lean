import TreasureHouse.MempoolFillProofs

/-! # At most one empty slab

    `slab_alloc` puts a new slab on the empty list, `alloc_obj_from_slab` takes
    it off again, and `free_obj2slab` releases a slab that became unused when
    another one is empty.  `OneEmpty` is the invariant: a new slab is only made
    when no slab has a free object, so when the empty list is empty.
    `one_empty_slab` says what the list holds and what that bounds. -/

namespace MempoolEmpty

open LabelledRun Mempool MempoolGeometry MempoolList MempoolSlab MempoolInv MempoolStep
open MempoolFree MempoolSafety MempoolFill

/-- The empty list has at most one slab. -/
def OneEmpty (pool : Pool) : Prop :=
  ∀ b c, b ∈ listOf pool.slabs .emptyList → c ∈ listOf pool.slabs .emptyList → b = c

/-- The slab at `a` has a live object. -/
def holdsLive (st : PoolState) (a : Nat) : Bool :=
  match st.pool.mem a with
  | some slab => st.live.any fun x => decide (slab.objBase ≤ x) && decide (x < slab.objEnd)
  | none => false

section Steps

variable {objSize : Nat} {st st' : PoolState} {ch : Nat → List Nat}

/-- Fewer slabs on the empty list. -/
theorem OneEmpty.mono {pool pool' : Pool} (h : OneEmpty pool)
    (hsub : ∀ b, b ∈ listOf pool'.slabs .emptyList → b ∈ listOf pool.slabs .emptyList) :
    OneEmpty pool' := fun b c hb hc => h b c (hsub b hb) (hsub c hc)

/-- What `alloc_obj_from_slab` leaves on the empty list was there before and is
    another slab. -/
theorem empty_of_alloc {pool' : Pool} {a x : Nat} {s : Slab} (h : PoolInv objSize st ch)
    (hs : st.pool.mem a = some s) (hfree : 0 < s.free)
    (hobj : allocObjFromSlab st.pool a = some (x, pool')) {b : Nat}
    (hb : b ∈ listOf pool'.slabs .emptyList) :
    b ≠ a ∧ b ∈ listOf st.pool.slabs .emptyList := by
  have hinv := h.ok.slab a s hs
  rcases hch : ch a with _ | ⟨i, l⟩
  · rw [hch] at hinv
    have h0 : s.free = 0 := hinv.free_eq
    omega
  · obtain ⟨pool₁, heq, ht⟩ := allocObjFromSlab_eq h.ok hs hch
    rw [heq] at hobj
    cases hobj
    have hba : b ≠ a := by
      rintro rfl
      exact ht.empty hb
    exact ⟨hba, (ht.lists.others b .emptyList hba).mp hb⟩

theorem OneEmpty.alloc {calloc malloc : Option Nat} (h : PoolInv objSize st ch)
    (ho : OneEmpty st.pool) (hstep : opStep st (.alloc calloc malloc) = some st') :
    OneEmpty st'.pool := by
  obtain ⟨rfl, -⟩ | ⟨a, s, pool₁, ch₁, x, pool', hinv₁, hs, hfree, hobj, rfl, hfrom⟩ :=
    alloc_cases h hstep
  · exact ho
  · refine ho.mono ?_
    intro b hb
    rw [(callCtor_eq pool' x).2.1] at hb
    obtain ⟨hba, hb₁⟩ := empty_of_alloc hinv₁ hs hfree hobj hb
    rcases hfrom with ⟨-, -, -, base, hg⟩ | ⟨-, rfl, -⟩
    · rcases (hg.lists b .emptyList).mp hb₁ with ⟨hba', -⟩ | hold
      · exact absurd hba' hba
      · exact hold
    · exact hb₁

theorem OneEmpty.free {obj : Nat} (h : PoolInv objSize st ch) (ho : OneEmpty st.pool)
    (hstep : opStep st (.free obj) = some st') : OneEmpty st'.pool := by
  obtain ⟨a, s, pool', rfl, hdone⟩ := opStep_free_cases h hstep
  cases hdone.place with
  | kept _ at_a =>
      refine ho.mono ?_
      intro b hb
      by_cases hba : b = a
      · subst hba
        exact (at_a .emptyList).mp hb
      · exact (hdone.others b .emptyList hba).mp hb
  | emptied _ noEmpty _ =>
      have honly : ∀ b, b ∈ listOf pool'.slabs .emptyList → b = a := by
        intro b hb
        by_contra hba
        have hold := (hdone.others b .emptyList hba).mp hb
        rw [noEmpty] at hold
        cases hold
      intro b c hb hc
      rw [honly b hb, honly c hc]
  | released _ _ at_a =>
      refine ho.mono ?_
      intro b hb
      have hba : b ≠ a := by
        rintro rfl
        exact at_a .emptyList hb
      exact (hdone.others b .emptyList hba).mp hb

end Steps

-- ── Runs ─────────────────────────────────────────────────────────────────────

section Runs

variable {objSize align : Nat} {st : PoolState} {ch : Nat → List Nat}

theorem reachable_oneEmpty (h1 : 1 ≤ objSize) (h2 : objSize < 2 ^ 31) (h3 : 1 ≤ align)
    (h4 : align ≤ 4096) : ∀ st, Reachable objSize align st → OneEmpty st.pool := by
  refine Reach.invariant ?_ ?_
  · rintro st ⟨names, name, ops, hcreate, -⟩ b c hb
    obtain ⟨-, hslabs, -⟩ := mempoolCreate_geometry h1 h2 h3 h4 hcreate
    rw [hslabs] at hb
    cases hb
  · intro st op st' hr ho hstep
    obtain ⟨ch, hinv⟩ := reachable_inv h1 h2 h3 h4 st hr
    cases op with
    | alloc calloc malloc => exact OneEmpty.alloc hinv ho hstep
    | free obj => exact OneEmpty.free hinv ho hstep

/-- A held slab that is not empty has a live object. -/
theorem holdsLive_of_used (h : PoolInv objSize st ch) {a : Nat} {s : Slab}
    (hs : st.pool.mem a = some s) (hused : 0 < s.used) : holdsLive st a = true := by
  have hinv := h.ok.slab a s hs
  obtain ⟨i, hi, hia⟩ := hinv.chainOk.used_pos_iff.mp hused
  obtain ⟨-, hlo, hhi, -⟩ := hinv.obj_range hi
  have hsize := h.ok.geo.size_ge
  have hlive : objAddr st.pool s i ∈ st.live := (h.live_iff _).mpr ⟨a, s, i, hs, hi, hia, rfl⟩
  rw [holdsLive, hs]
  refine List.any_eq_true.mpr ⟨_, hlive, ?_⟩
  rw [Bool.and_eq_true, decide_eq_true_eq, decide_eq_true_eq]
  exact ⟨hlo, by omega⟩

/-- The empty list, as a list. -/
theorem OneEmpty.list_eq (h : PoolInv objSize st ch) (ho : OneEmpty st.pool) {a : Nat}
    (ha : a ∈ st.pool.slabs.emptySlabs) : st.pool.slabs.emptySlabs = [a] := by
  have hnd : st.pool.slabs.emptySlabs.Nodup := held_nodup_listOf h.ok.nodup .emptyList
  rw [← List.perm_singleton, List.perm_ext_iff_of_nodup hnd (List.nodup_singleton a)]
  intro b
  rw [List.mem_singleton]
  constructor
  · exact fun hb => ho b a hb ha
  · rintro rfl
    exact ha

theorem OneEmpty.length_le (h : PoolInv objSize st ch) (ho : OneEmpty st.pool) :
    st.pool.slabs.emptySlabs.length ≤ 1 := by
  rcases hlist : st.pool.slabs.emptySlabs with _ | ⟨a, l⟩
  · exact Nat.zero_le _
  · have ha : a ∈ st.pool.slabs.emptySlabs := by
      rw [hlist]
      exact List.mem_cons_self ..
    rw [← hlist, OneEmpty.list_eq h ho ha]
    exact Nat.le_refl _

/-- The slabs without a live object are on the empty list. -/
theorem held_length_le (h : PoolInv objSize st ch) (ho : OneEmpty st.pool) :
    st.pool.slabs.held.length ≤ 1 + (st.pool.slabs.held.filter (holdsLive st)).length := by
  have hsplit := List.length_eq_length_filter_add (l := st.pool.slabs.held) (holdsLive st)
  have hsub : (st.pool.slabs.held.filter fun a => !holdsLive st a)
      ⊆ st.pool.slabs.emptySlabs := by
    intro a ha
    obtain ⟨hheld, hno⟩ := List.mem_filter.mp ha
    obtain ⟨s, hs⟩ := (h.ok.held_iff a).mp hheld
    refine (h.ok.empty_iff a s hs).mpr ?_
    by_contra hused
    rw [holdsLive_of_used h hs (Nat.pos_of_ne_zero hused)] at hno
    cases hno
  have hle := ((h.ok.nodup.filter _).subperm hsub).length_le
  have := OneEmpty.length_le h ho
  omega

/-- **AT MOST ONE EMPTY SLAB** in every reached state: a held slab is unused
    exactly when it is the one slab on the empty list, and there are no more
    slabs than slabs with a live object and that one. -/
theorem one_empty_slab (h1 : 1 ≤ objSize) (h2 : objSize < 2 ^ 31) (h3 : 1 ≤ align)
    (h4 : align ≤ 4096) (h : Reachable objSize align st) :
    (∀ a b s t, a ∈ st.pool.slabs.held → b ∈ st.pool.slabs.held → st.pool.mem a = some s →
        st.pool.mem b = some t → s.used = 0 → t.used = 0 → a = b)
      ∧ (∀ a ∈ st.pool.slabs.held, ∃ s, st.pool.mem a = some s
          ∧ (s.used = 0 ↔ st.pool.slabs.emptySlabs = [a]))
      ∧ (st.pool.slabs.emptySlabs = []
          ∨ ∃ a ∈ st.pool.slabs.held, st.pool.slabs.emptySlabs = [a])
      ∧ st.pool.slabs.slabNums ≤ 1 + (st.pool.slabs.held.filter (holdsLive st)).length := by
  have ho := reachable_oneEmpty h1 h2 h3 h4 st h
  obtain ⟨ch, hinv⟩ := reachable_inv h1 h2 h3 h4 st h
  refine ⟨?_, ?_, ?_, ?_⟩
  · intro a b s t _ _ hs ht hsu htu
    exact ho a b ((hinv.ok.empty_iff a s hs).mpr hsu) ((hinv.ok.empty_iff b t ht).mpr htu)
  · intro a ha
    obtain ⟨s, hs⟩ := (hinv.ok.held_iff a).mp ha
    refine ⟨s, hs, ?_⟩
    rw [← hinv.ok.empty_iff a s hs]
    constructor
    · exact OneEmpty.list_eq hinv ho
    · intro hlist
      show a ∈ st.pool.slabs.emptySlabs
      rw [hlist]
      exact List.mem_cons_self ..
  · rcases hlist : st.pool.slabs.emptySlabs with _ | ⟨a, l⟩
    · exact Or.inl rfl
    · have ha : a ∈ st.pool.slabs.emptySlabs := by
        rw [hlist]
        exact List.mem_cons_self ..
      exact Or.inr ⟨a, mem_held.mpr ⟨.emptyList, ha⟩, hlist ▸ OneEmpty.list_eq hinv ho ha⟩
  · rw [hinv.slabs_eq]
    exact held_length_le hinv ho

end Runs

/-- Two slabs are in use; all objects of the first are given back. -/
theorem one_empty_slab_two :
    ∃ st, Reachable 504 8 st ∧ st.live = [10000] ∧ st.pool.slabs.slabNums = 2
      ∧ (∀ a ∈ st.pool.slabs.held, ∃ s, st.pool.mem a = some s
          ∧ (s.used = 0 ↔ st.pool.slabs.emptySlabs = [a]))
      ∧ st.pool.slabs.slabNums ≤ 1 + (st.pool.slabs.held.filter (holdsLive st)).length := by
  obtain ⟨st, hr, ht⟩ := reach_of_run opStep 504 8 none
    (fillSlab 1 4096 ++ [.alloc (some 2) (some 10000)] ++ freeSlabObjs 4096)
    (fun st => decide (st.live = [10000]) && decide (st.pool.slabs.slabNums = 2))
    (by decide +kernel)
  rw [Bool.and_eq_true, decide_eq_true_eq, decide_eq_true_eq] at ht
  obtain ⟨-, hempty, -, hnums⟩ :=
    one_empty_slab (by decide) (by decide) (by decide) (by decide) hr
  exact ⟨st, hr, ht.1, ht.2, hempty, hnums⟩

end MempoolEmpty
