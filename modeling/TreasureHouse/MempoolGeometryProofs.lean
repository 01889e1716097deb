import TreasureHouse.MempoolProofs

/-! # The geometry `mempool_create` fixes

    For object sizes below 2^31 and alignments up to 4096 every conversion of
    `mempool_create` keeps its value, and the pool it returns has objects that
    fit their slab: at least 8, fewer than 2^15, and with room left for the
    alignment of the first one.  Nothing here asks the alignment to be a power
    of two. -/

namespace MempoolGeometry

open MachineInt LabelledRun Mempool

/-- What the sizes of a created pool satisfy. -/
structure Geometry (objSize : Nat) (pool : Pool) : Prop where
  align_ge : 8 ≤ pool.align
  align_le : pool.align ≤ 4096
  obj_le : objSize ≤ pool.size
  size_ge : 8 ≤ pool.size
  num_ge : 8 ≤ pool.numPerSlab
  num_lt : pool.numPerSlab < 2 ^ 15
  fits : (pool.numPerSlab * pool.size : Nat) + pool.align ≤ pool.slabSize
  slab_le : pool.slabSize ≤ 2 ^ 18

/-- The geometry depends on the pool's constants only. -/
theorem Geometry.congr {objSize : Nat} {pool pool' : Pool} (h : Geometry objSize pool)
    (h1 : pool'.align = pool.align) (h2 : pool'.size = pool.size)
    (h3 : pool'.numPerSlab = pool.numPerSlab) (h4 : pool'.order = pool.order) :
    Geometry objSize pool' where
  align_ge := by rw [h1]; exact h.align_ge
  align_le := by rw [h1]; exact h.align_le
  obj_le := by rw [h2]; exact h.obj_le
  size_ge := by rw [h2]; exact h.size_ge
  num_ge := by rw [h3]; exact h.num_ge
  num_lt := by rw [h3]; exact h.num_lt
  fits := by rw [h1, h2, h3, Pool.slabSize, h4]; exact h.fits
  slab_le := by rw [Pool.slabSize, h4]; exact h.slab_le

/-- The mask of an alignment is one less. -/
theorem alignTo_eq (x : Nat) {a : Nat} (h1 : 1 ≤ a) (h2 : a < 2 ^ 64) :
    alignTo x (a : Int) = maskUp x (a - 1) := by
  rw [alignTo, show ((a : Int) - 1) = ((a - 1 : Nat) : Int) by omega,
    toUnsigned_natCast (by omega)]

/-- The alignment is rounded up to the next multiple of the word size. -/
theorem calculateAlignment_spec {align : Nat} (h1 : 1 ≤ align) (h2 : align ≤ 4096) :
    align ≤ calculateAlignment align ∧ 8 ≤ calculateAlignment align
      ∧ calculateAlignment align ≤ 4096 ∧ calculateAlignment align % 8 = 0 := by
  have hm : calculateAlignment align = maskUp align 7 := alignTo_eq align (by decide) (by decide)
  have hle := maskUp_le (x := align) (m := 7) (by omega)
  have hge := le_maskUp (x := align) (m := 7) (by omega)
  have hmod : maskUp align 7 % 8 = 0 := maskUp_mod (k := 3) (by omega) (by decide)
  omega

/-- Rounding an object size up to the alignment. -/
theorem alignTo_size {objSize a : Nat} (h1 : 1 ≤ objSize) (h2 : objSize < 2 ^ 31) (h3 : 8 ≤ a)
    (h4 : a ≤ 4096) (h5 : a % 8 = 0) :
    objSize ≤ alignTo objSize a ∧ 8 ≤ alignTo objSize a ∧ alignTo objSize a < 2 ^ 32 := by
  rw [alignTo_eq objSize (by omega) (by omega)]
  have hle := maskUp_le (x := objSize) (m := a - 1) (by omega)
  have hge := le_maskUp (x := objSize) (m := a - 1) (by omega)
  have hmod : maskUp objSize (a - 1) % 8 = 0 := maskUp_mod (k := 3) (by omega) (by omega)
  omega

/-- What `mempool_estimate` computes when nothing wraps. -/
theorem mempoolEstimate_eq {order size a : Nat} (ho : order ≤ 6) (hs : 0 < size) (ha : a ≤ 4096) :
    mempoolEstimate order size a
      = some ((pageSize * 2 ^ order - a) / size, (pageSize * 2 ^ order - a) % size) := by
  have hpow : 2 ^ order ≤ 2 ^ 6 := Nat.pow_le_pow_right (by omega) ho
  have hpos : 1 ≤ 2 ^ order := Nat.one_le_two_pow
  have hslab : a ≤ pageSize * 2 ^ order ∧ pageSize * 2 ^ order ≤ 2 ^ 18 := by
    simp only [pageSize]
    omega
  have hsub : ((pageSize * 2 ^ order : Nat) : Int) - (a : Int)
      = ((pageSize * 2 ^ order - a : Nat) : Int) := by omega
  have hdiv : (pageSize * 2 ^ order - a) / size ≤ pageSize * 2 ^ order - a := Nat.div_le_self ..
  have ha64 : toUnsigned 64 (a : Int) = a := toUnsigned_natCast (by omega)
  have hsub64 : toUnsigned 64 (((pageSize * 2 ^ order : Nat) : Int) - (a : Int))
      = pageSize * 2 ^ order - a := by
    rw [hsub, toUnsigned_natCast (by omega)]
  simp only [mempoolEstimate, ha64, hsub64]
  rw [if_neg (by omega), toUnsigned_natCast (by omega)]

/-- What the loop of `calculate_slab_order` can leave behind: nothing, or an
    order whose slab holds at least `SLAB_OBJ_MIN_NUM` objects. -/
def SavedOk (size a : Nat) (saved : Nat × Nat × Nat) : Prop :=
  saved.1 = 0 ∨ (8 ≤ saved.1 ∧ saved.2.1 ≤ 6
    ∧ saved.1 = (pageSize * 2 ^ saved.2.1 - a) / size)

theorem slabOrderLoop_ok (size : Nat) {a : Nat} (hs : 0 < size) (ha : a ≤ 4096) :
    ∀ (k order : Nat) (saved : Nat × Nat × Nat), order + k ≤ 7 → SavedOk size a saved →
      ∃ r, slabOrderLoop size a k order saved = some r ∧ SavedOk size a r := by
  intro k
  induction k with
  | zero =>
      intro order saved _ hok
      exact ⟨saved, rfl, hok⟩
  | succ k ih =>
      intro order saved hk hok
      rw [slabOrderLoop, mempoolEstimate_eq (by omega) hs ha]
      simp only [Option.bind_eq_bind, Option.bind_some]
      generalize hq : (pageSize * 2 ^ order - a) / size = num
      generalize (pageSize * 2 ^ order - a) % size = rem
      by_cases h0 : num = 0
      · rw [if_pos h0]
        exact ih (order + 1) saved (by omega) hok
      · rw [if_neg h0]
        by_cases h8 : num < slabObjMinNum
        · rw [if_pos h8]
          exact ih (order + 1) saved (by omega) hok
        · rw [if_neg h8]
          have hnew : SavedOk size a (num, order, rem) := by
            simp only [slabObjMinNum] at h8
            exact Or.inr ⟨Nat.le_of_not_lt h8, by show order ≤ 6; omega, hq.symm⟩
          by_cases hfrag : (rem * 8) % 2 ^ 64 ≤ pageSize * 2 ^ order
          · rw [if_pos hfrag]
            exact ⟨_, rfl, hnew⟩
          · rw [if_neg hfrag]
            exact ih (order + 1) (num, order, rem) (by omega) hnew

/-- `mempool_create` returns a pool whose objects fit, for the sizes the pool
    is used with. -/
theorem mempoolCreate_geometry {mempoolList : List String} {name : Option String}
    {objSize align : Nat} {ops : Option MempoolOps} {calloc : Bool} {pool : Pool}
    (h1 : 1 ≤ objSize) (h2 : objSize < 2 ^ 31) (h3 : 1 ≤ align) (h4 : align ≤ 4096)
    (h : mempoolCreate mempoolList name objSize align ops calloc = some (some pool)) :
    Geometry objSize pool ∧ pool.slabs = initSlabsInfo ∧ pool.mem = (fun _ => none)
      ∧ pool.dctorCalls = [] ∧ pool.ops = ops := by
  obtain ⟨-, ha8, ha4, hmod⟩ := calculateAlignment_spec h3 h4
  generalize hA : calculateAlignment align = A at ha8 ha4 hmod
  obtain ⟨hobj, hs8, hs32⟩ := alignTo_size h1 h2 ha8 ha4 hmod
  have hA32 : toSigned 32 ((A : Nat) : Int) = A := toSigned_natCast (by omega) (by omega)
  cases name with
  | none => cases h
  | some name =>
      simp only [mempoolCreate, hA, hA32, toUnsigned_natCast hs32] at h
      obtain ⟨r, hr, hok⟩ := slabOrderLoop_ok (alignTo objSize A) (a := A) (by omega) ha4
        (mallocMaxOrder + 1) 0 (0, 0, 0) (by decide) (Or.inl rfl)
      rw [calculateSlabOrder, hr] at h
      obtain ⟨num, order, left⟩ := r
      split at h
      · cases h
      · split at h
        · cases h
        · simp only [Option.bind_eq_bind, Option.bind_some] at h
          split at h
          · cases h
          · rename_i hnum
            cases h
            rcases hok with h0 | ⟨hn8, ho6, hq⟩
            · exact absurd h0 hnum
            · have hn8' : 8 ≤ num := hn8
              have hq' : num = (pageSize * 2 ^ order - A) / alignTo objSize A := hq
              have hpow : 2 ^ order ≤ 2 ^ 6 := Nat.pow_le_pow_right (by omega) ho6
              have hpos : 1 ≤ 2 ^ order := Nat.one_le_two_pow
              have hmul : num * alignTo objSize A ≤ pageSize * 2 ^ order - A := by
                rw [hq']
                exact Nat.div_mul_le_self _ _
              have hmul8 : num * 8 ≤ num * alignTo objSize A := Nat.mul_le_mul_left _ hs8
              simp only [pageSize] at hmul
              refine ⟨?_, rfl, rfl, rfl, rfl⟩
              exact {
                align_ge := by show (8 : Int) ≤ A; omega
                align_le := by show (A : Int) ≤ 4096; omega
                obj_le := hobj
                size_ge := hs8
                num_ge := hn8'
                num_lt := by show num < 2 ^ 15; omega
                fits := by
                  show ((num * alignTo objSize A : Nat) : Int) + A ≤ ((4096 * 2 ^ order : Nat) : Int)
                  omega
                slab_le := by show 4096 * 2 ^ order ≤ 2 ^ 18; omega }

end MempoolGeometry
