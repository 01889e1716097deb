import TreasureHouse.MempoolGeometryProofs

/-! # `mempool_create` for every size and alignment

    `pool->align` is an `int` and `pool->size` an `unsigned int`;
    `mempool_estimate` subtracts the alignment from the slab size as a
    `size_t` and narrows the quotient to 32 bits.  Where the slab is smaller
    than the alignment the difference wraps, the estimate is too large, and
    the loop may stop at that order or keep it.  `mempoolCreate_fits_iff` says
    for which inputs every pool returned has objects that fit its slab. -/

namespace MempoolOrder

open MachineInt Mempool MempoolGeometry

/-- `pool->align`. -/
def alignField (align : Nat) : Int := toSigned 32 (calculateAlignment align)

/-- `pool->size`. -/
def sizeField (objSize align : Nat) : Nat := toUnsigned 32 (alignTo objSize (alignField align))

/-- `PAGE_SIZE << order`. -/
def slabBytes (order : Nat) : Nat := pageSize * 2 ^ order

/-- The objects of a pool fit: none is cut short, there are at least
    `SLAB_OBJ_MIN_NUM`, and with the alignment they fit the slab. -/
structure ObjectsFit (objSize : Nat) (pool : Pool) : Prop where
  size_ge : objSize ≤ pool.size
  num_ge : slabObjMinNum ≤ pool.numPerSlab
  fits : ((pool.numPerSlab * pool.size : Nat) : Int) + pool.align ≤ (pool.slabSize : Int)

/-- The objects alone do not exceed the slab. -/
def InSlab (pool : Pool) : Prop := pool.numPerSlab * pool.size ≤ pool.slabSize

/-- `mempool_create` returns NULL or a pool with a property. -/
def CreateGives (good : Pool → Prop) (mempoolList : List String) (name : Option String)
    (objSize align : Nat) (ops : Option MempoolOps) (calloc : Bool) : Prop :=
  ∃ r, mempoolCreate mempoolList name objSize align ops calloc = some r
    ∧ ∀ pool, r = some pool → good pool

/-- The inputs refused before any size is computed. -/
def Refused (mempoolList : List String) (name : Option String) (calloc : Bool) : Prop :=
  (∀ n, name = some n → n ∈ mempoolList) ∨ calloc = false

/-- The number of objects for an order smaller than the alignment. -/
def wrappedNum (size align order : Nat) : Nat :=
  (2 ^ 64 + slabBytes order - align) / size % 2 ^ 32

/-- The left-over bytes for an order smaller than the alignment. -/
def wrappedRem (size align order : Nat) : Nat := (2 ^ 64 + slabBytes order - align) % size

/-- Sizes that fit, for a positive alignment: eight objects fit the largest
    slab, rounding up stays in 32 bits and the loop stops at no order smaller
    than the alignment; or eight objects fit no slab, and none of the smaller
    orders gives eight. -/
def SizesFit (objSize size align : Nat) : Prop :=
  (8 * size + align ≤ 2 ^ 18 ∧ objSize + align ≤ 2 ^ 32
    ∧ ∀ order ≤ mallocMaxOrder, slabBytes order < align →
        wrappedNum size align order < 8 ∨ slabBytes order < 8 * wrappedRem size align order)
  ∨ (2 ^ 18 < 8 * size + align
    ∧ ∀ order ≤ mallocMaxOrder, slabBytes order < align → wrappedNum size align order < 8)

instance (objSize size align : Nat) : Decidable (SizesFit objSize size align) :=
  inferInstanceAs (Decidable (_ ∨ _))

-- ── The estimate ─────────────────────────────────────────────────────────────

/-- `sub_align_size`. -/
def subAlign (align : Int) (order : Nat) : Nat :=
  toUnsigned 64 ((slabBytes order : Int) - toUnsigned 64 align)

def estNum (size : Nat) (align : Int) (order : Nat) : Nat := subAlign align order / size % 2 ^ 32

def estRem (size : Nat) (align : Int) (order : Nat) : Nat := subAlign align order % size

/-- The order at which the loop breaks. -/
def Accepted (size : Nat) (align : Int) (order : Nat) : Prop :=
  8 ≤ estNum size align order ∧ (estRem size align order * 8) % 2 ^ 64 ≤ slabBytes order

theorem mempoolEstimate_some {size : Nat} (hs : size ≠ 0) (align : Int) (order : Nat) :
    mempoolEstimate order size align = some (estNum size align order, estRem size align order) := by
  rw [mempoolEstimate]
  simp only [if_neg hs]
  rfl

theorem slabBytes_le {order : Nat} (h : order ≤ mallocMaxOrder) : slabBytes order ≤ 2 ^ 18 := by
  have hpow : 2 ^ order ≤ 2 ^ 6 := Nat.pow_le_pow_right (by omega) h
  rw [slabBytes, pageSize]
  omega

theorem slabBytes_lt {o e : Nat} (h : slabBytes o < slabBytes e) : o < e := by
  by_contra hle
  have hpow : 2 ^ e ≤ 2 ^ o := Nat.pow_le_pow_right (by omega) (Nat.le_of_not_lt hle)
  rw [slabBytes, slabBytes, pageSize] at h
  omega

/-- The difference without wrap-around. -/
theorem subAlign_eq {align : Int} {order : Nat} (ho : order ≤ mallocMaxOrder)
    (h1 : -2 ^ 31 ≤ align) (h2 : align ≤ slabBytes order) :
    (subAlign align order : Int) = slabBytes order - align := by
  have hle := slabBytes_le ho
  rw [subAlign, toUnsigned, toUnsigned]
  omega

/-- The difference where the slab is smaller than the alignment. -/
theorem subAlign_wrap {align order : Nat} (h1 : align < 2 ^ 31) (h2 : slabBytes order < align) :
    subAlign align order = 2 ^ 64 + slabBytes order - align := by
  rw [subAlign, toUnsigned, toUnsigned]
  omega

theorem estNum_wrap {align order : Nat} (size : Nat) (h1 : align < 2 ^ 31)
    (h2 : slabBytes order < align) : estNum size align order = wrappedNum size align order := by
  rw [estNum, wrappedNum, subAlign_wrap h1 h2]

theorem estRem_wrap {align order : Nat} (size : Nat) (h1 : align < 2 ^ 31)
    (h2 : slabBytes order < align) : estRem size align order = wrappedRem size align order := by
  rw [estRem, wrappedRem, subAlign_wrap h1 h2]

/-- Where nothing wraps the estimate is the quotient. -/
theorem estNum_eq {size order : Nat} {align : Int} (hs : size ≠ 0) (ho : order ≤ mallocMaxOrder)
    (h1 : -2 ^ 31 ≤ align) (h2 : align ≤ slabBytes order) :
    ((estNum size align order * size : Nat) : Int) + align ≤ slabBytes order
      ∧ (slabBytes order : Int) < ((estNum size align order * size : Nat) : Int) + size + align
      ∧ (8 ≤ estNum size align order ↔ 8 * (size : Int) + align ≤ slabBytes order) := by
  have hle := slabBytes_le ho
  have hsub := subAlign_eq ho h1 h2
  have hdiv : subAlign align order / size ≤ subAlign align order := Nat.div_le_self ..
  have hnum : estNum size align order = subAlign align order / size :=
    Nat.mod_eq_of_lt (by omega)
  have hmul := Nat.div_mul_le_self (subAlign align order) size
  have hlt := Nat.lt_div_mul_add (a := subAlign align order) (Nat.pos_of_ne_zero hs)
  have h8 := Nat.le_div_iff_mul_le (x := 8) (y := subAlign align order) (Nat.pos_of_ne_zero hs)
  rw [hnum]
  omega

-- ── The loop ─────────────────────────────────────────────────────────────────

/-- The loop, with `k` orders from `order` on, ends at an order it accepts or
    after which none gives eight objects, having accepted none before. -/
def LoopTakes (size : Nat) (align : Int) (k order : Nat) (r : Nat × Nat × Nat) : Prop :=
  ∃ e, order ≤ e ∧ e < order + k ∧ r = (estNum size align e, e, estRem size align e)
    ∧ 8 ≤ estNum size align e ∧ (∀ o, order ≤ o → o < e → ¬ Accepted size align o)
    ∧ (Accepted size align e ∨ ∀ o, e < o → o < order + k → estNum size align o < 8)

/-- An order that is not accepted goes before. -/
theorem LoopTakes.earlier {size k order : Nat} {align : Int} {r : Nat × Nat × Nat}
    (h : LoopTakes size align k (order + 1) r) (hnot : ¬ Accepted size align order) :
    LoopTakes size align (k + 1) order r := by
  obtain ⟨e, h1, h2, hr, hnum, hbefore, hend⟩ := h
  refine ⟨e, by omega, by omega, hr, hnum, ?_, ?_⟩
  · intro o ho1 ho2
    rcases Nat.eq_or_lt_of_le ho1 with rfl | hlt
    · exact hnot
    · exact hbefore o hlt ho2
  · exact hend.imp_right fun h o ho1 ho2 => h o ho1 (by omega)

/-- The loop ends with what was saved when no order gives eight objects, else
    at the order it takes. -/
theorem slabOrderLoop_cases {size : Nat} (hs : size ≠ 0) (align : Int) :
    ∀ (k order : Nat) (saved : Nat × Nat × Nat),
      ∃ r, slabOrderLoop size align k order saved = some r
        ∧ ((r = saved ∧ ∀ o, order ≤ o → o < order + k → estNum size align o < 8)
          ∨ LoopTakes size align k order r) := by
  intro k
  induction k with
  | zero =>
      intro order saved
      exact ⟨saved, rfl, Or.inl ⟨rfl, fun o h1 h2 => by omega⟩⟩
  | succ k ih =>
      intro order saved
      rw [slabOrderLoop, mempoolEstimate_some hs]
      simp only [Option.bind_eq_bind, Option.bind_some]
      by_cases h8 : estNum size align order < 8
      · -- both `continue`s go on with what was saved
        rw [if_pos (show estNum size align order < slabObjMinNum from h8), ite_self]
        have hnot : ¬ Accepted size align order := fun hacc => absurd hacc.1 (by omega)
        obtain ⟨r, heq, ⟨hr, hall⟩ | htakes⟩ := ih (order + 1) saved
        · refine ⟨r, heq, Or.inl ⟨hr, ?_⟩⟩
          intro o ho1 ho2
          rcases Nat.eq_or_lt_of_le ho1 with rfl | hlt
          · exact h8
          · exact hall o hlt (by omega)
        · exact ⟨r, heq, Or.inr (htakes.earlier hnot)⟩
      · rw [if_neg (show estNum size align order ≠ 0 by omega),
          if_neg (show ¬ estNum size align order < slabObjMinNum from h8)]
        by_cases hfrag : (estRem size align order * 8) % 2 ^ 64 ≤ pageSize * 2 ^ order
        · rw [if_pos hfrag]
          exact ⟨_, rfl, Or.inr ⟨order, Nat.le_refl _, by omega, rfl, by omega,
            fun o h1 h2 => by omega, Or.inl ⟨by omega, hfrag⟩⟩⟩
        · rw [if_neg hfrag]
          obtain ⟨r, heq, ⟨hr, hall⟩ | htakes⟩ :=
            ih (order + 1) (estNum size align order, order, estRem size align order)
          · exact ⟨r, heq, Or.inr ⟨order, Nat.le_refl _, by omega, hr, by omega,
              fun o h1 h2 => by omega, Or.inr fun o ho1 ho2 => hall o ho1 (by omega)⟩⟩
          · exact ⟨r, heq, Or.inr (htakes.earlier fun hacc => hfrag hacc.2)⟩

/-- The order `mempool_create` takes. -/
def TakenAt (size : Nat) (align : Int) (e : Nat) : Prop :=
  e ≤ mallocMaxOrder ∧ 8 ≤ estNum size align e ∧ (∀ o < e, ¬ Accepted size align o)
    ∧ (Accepted size align e ∨ ∀ o, e < o → o ≤ mallocMaxOrder → estNum size align o < 8)

/-- `calculate_slab_order` finds no order, or the one taken. -/
theorem calculateSlabOrder_cases {size : Nat} (hs : size ≠ 0) (align : Int) :
    (calculateSlabOrder size align = some (0, 0, 0)
        ∧ ∀ o ≤ mallocMaxOrder, estNum size align o < 8)
      ∨ ∃ e, TakenAt size align e ∧ calculateSlabOrder size align
          = some (estNum size align e, e, estRem size align e) := by
  obtain ⟨r, heq, ⟨rfl, hall⟩ | ⟨e, -, h2, rfl, hnum, hbefore, hend⟩⟩ :=
    slabOrderLoop_cases hs align (mallocMaxOrder + 1) 0 (0, 0, 0)
  · exact Or.inl ⟨heq, fun o ho => hall o (Nat.zero_le o) (by omega)⟩
  · refine Or.inr ⟨e, ⟨by omega, hnum, fun o ho => hbefore o (Nat.zero_le o) ho, ?_⟩, heq⟩
    exact hend.imp_right fun h o ho1 ho2 => h o ho1 (by omega)

-- ── The two fields ───────────────────────────────────────────────────────────

theorem alignField_range (align : Nat) : -2 ^ 31 ≤ alignField align ∧ alignField align < 2 ^ 31 := by
  rw [alignField, toSigned]
  omega

/-- For a positive alignment an object is cut short exactly when rounding up
    leaves 32 bits. -/
theorem sizeField_ge {objSize align : Nat} (hobj : objSize < 2 ^ 64)
    (hpos : 0 < alignField align) :
    objSize ≤ sizeField objSize align ↔ (objSize : Int) + alignField align ≤ 2 ^ 32 := by
  obtain ⟨-, hlt⟩ := alignField_range align
  rw [sizeField]
  generalize alignField align = a at *
  obtain ⟨n, rfl⟩ := Int.eq_ofNat_of_zero_le (show 0 ≤ a by omega)
  rw [alignTo_eq objSize (by omega) (by omega)]
  have hsize : toUnsigned 32 (maskUp objSize (n - 1) : Int) < 2 ^ 32 := toUnsigned_lt 32 _
  by_cases hbig : 2 ^ 32 ≤ objSize
  · constructor
    · omega
    · omega
  · have hno : objSize + (n - 1) < 2 ^ 64 := by omega
    have hle := le_maskUp hno
    have hge := maskUp_le hno
    constructor
    · intro h
      by_contra hover
      have h32 := two_pow_le_maskUp (k := 32) hno (by omega) (by omega)
      rw [toUnsigned] at h
      omega
    · intro h
      rw [toUnsigned_natCast (by omega)]
      exact hle

/-- For a negative alignment the rounded size is at most its amount, and
    covers every object up to it. -/
theorem sizeField_neg {align : Nat} (objSize : Nat) (hneg : alignField align < 0) :
    (sizeField objSize align : Int) ≤ -alignField align
      ∧ ((objSize : Int) ≤ -alignField align → objSize ≤ sizeField objSize align) := by
  obtain ⟨hge, -⟩ := alignField_range align
  obtain ⟨n, hn⟩ := Int.eq_ofNat_of_zero_le (show 0 ≤ -alignField align by omega)
  have hmask : toUnsigned 64 (alignField align - 1) = 2 ^ 64 - n - 1 := by
    rw [toUnsigned]
    omega
  obtain ⟨hle, hcover⟩ := maskUp_compl (x := objSize) (n := n) (by omega)
  rw [sizeField, alignTo, hmask, toUnsigned_natCast (by omega)]
  omega

-- ── The result ───────────────────────────────────────────────────────────────

/-- The pool `mempool_create` returns. -/
def createdPool (name : String) (objSize align : Nat) (ops : Option MempoolOps)
    (num order : Nat) : Pool where
  name := name
  size := sizeField objSize align
  objSize := toSigned 32 objSize
  align := alignField align
  numPerSlab := num
  order := order
  ops := ops
  slabs := initSlabsInfo
  mem := fun _ => none
  ctorCalls := []
  dctorCalls := []

section Create

variable {mempoolList : List String} {name : Option String} {objSize align : Nat}
  {ops : Option MempoolOps} {calloc : Bool} {good : Pool → Prop}

theorem createGives_of_refused (h : Refused mempoolList name calloc) :
    CreateGives good mempoolList name objSize align ops calloc := by
  refine ⟨none, ?_, fun pool hp => by cases hp⟩
  cases name with
  | none => rfl
  | some n =>
      rw [mempoolCreate]
      rcases h with h | rfl
      · rw [if_pos (h n rfl)]
      · by_cases hn : n ∈ mempoolList
        · rw [if_pos hn]
        · rw [if_neg hn, if_pos Bool.false_ne_true]

/-- When the call is not refused the order found decides, and without one
    there is no result. -/
theorem mempoolCreate_eq (ops : Option MempoolOps) {n : String} (hn : n ∉ mempoolList) :
    mempoolCreate mempoolList (some n) objSize align ops true
      = (calculateSlabOrder (sizeField objSize align) (alignField align)).map fun r =>
          if r.1 = 0 then none else some (createdPool n objSize align ops r.1 r.2.1) := by
  rw [mempoolCreate, if_neg hn, if_neg (not_not.mpr rfl)]
  show (calculateSlabOrder (sizeField objSize align) (alignField align)).bind _ = _
  cases calculateSlabOrder (sizeField objSize align) (alignField align) with
  | none => rfl
  | some r =>
      rw [Option.bind_some, Option.map_some, apply_ite some]
      rfl

/-- What is left when the call is not refused. -/
theorem createGives_iff (good : Pool → Prop) (ops : Option MempoolOps) {r : Nat × Nat × Nat}
    (h : ¬ Refused mempoolList name calloc)
    (hr : calculateSlabOrder (sizeField objSize align) (alignField align) = some r) :
    ∃ n, CreateGives good mempoolList name objSize align ops calloc
      ↔ (r.1 ≠ 0 → good (createdPool n objSize align ops r.1 r.2.1)) := by
  rw [Refused, not_or, not_forall, Bool.not_eq_false] at h
  obtain ⟨⟨n, hn⟩, rfl⟩ := h
  rw [Classical.not_imp] at hn
  obtain ⟨rfl, hn⟩ := hn
  have hcreate : mempoolCreate mempoolList (some n) objSize align ops true
      = if r.1 = 0 then some none else some (some (createdPool n objSize align ops r.1 r.2.1)) := by
    rw [mempoolCreate_eq ops hn, hr, Option.map_some, apply_ite some]
  refine ⟨n, ?_⟩
  rw [CreateGives, hcreate]
  by_cases h0 : r.1 = 0
  · rw [if_pos h0]
    exact iff_of_true ⟨none, rfl, fun pool hp => by cases hp⟩ (fun hne => absurd h0 hne)
  · rw [if_neg h0]
    constructor
    · rintro ⟨r', hr', hgood⟩ -
      exact hgood _ (Option.some.inj hr').symm
    · intro hgood
      refine ⟨_, rfl, ?_⟩
      intro pool hp
      cases hp
      exact hgood h0

end Create

-- ── Which sizes fit ──────────────────────────────────────────────────────────

/-- The sizes for which every pool returned has objects that fit.  For a
    negative `pool->align` the slab of the inequality is the larger one the
    estimate was made for. -/
def CreateFits (objSize align : Nat) : Prop :=
  (alignField align < 0 ∧ ((objSize : Int) + alignField align ≤ 0
      ∨ 2 ^ 18 < 8 * (sizeField objSize align : Int) + alignField align))
    ∨ (0 < alignField align
      ∧ SizesFit objSize (sizeField objSize align) (alignField align).toNat)

/-- The sizes for which, besides, no object lies outside the slab itself: with
    a negative `pool->align` only those for which no order is found. -/
def CreateInSlab (objSize align : Nat) : Prop :=
  (alignField align < 0 ∧ 2 ^ 18 < 8 * (sizeField objSize align : Int) + alignField align)
    ∨ (0 < alignField align
      ∧ SizesFit objSize (sizeField objSize align) (alignField align).toNat)

instance (objSize align : Nat) : Decidable (CreateFits objSize align) :=
  inferInstanceAs (Decidable (_ ∨ _))

instance (objSize align : Nat) : Decidable (CreateInSlab objSize align) :=
  inferInstanceAs (Decidable (_ ∨ _))

section Sizes

variable {objSize align : Nat}

/-- Without an alignment there is no size. -/
theorem alignField_ne_zero (hs : sizeField objSize align ≠ 0) : alignField align ≠ 0 := by
  intro h0
  refine hs ?_
  obtain ⟨hle, -⟩ := maskUp_compl (x := objSize) (n := 0) (by omega)
  have hzero : alignTo objSize 0 = 0 := Nat.le_zero.mp hle
  rw [sizeField, h0, hzero]
  rfl

/-- No order is found: for a positive alignment the sizes fit. -/
theorem sizesFit_of_none {n : Nat} (hn : alignField align = n)
    (hs : sizeField objSize align ≠ 0)
    (hnone : ∀ o ≤ mallocMaxOrder, estNum (sizeField objSize align) (alignField align) o < 8) :
    SizesFit objSize (sizeField objSize align) n := by
  obtain ⟨hge, hlt⟩ := alignField_range align
  have htop : slabBytes mallocMaxOrder = 2 ^ 18 := rfl
  refine Or.inr ⟨?_, ?_⟩
  · by_contra hroom
    obtain ⟨-, -, h8⟩ := estNum_eq hs (Nat.le_refl mallocMaxOrder) hge (by omega)
    have := hnone _ (Nat.le_refl _)
    omega
  · intro o ho hwrap
    rw [← estNum_wrap _ (by omega) hwrap, ← hn]
    exact hnone o ho

/-- An order is taken: the sizes fit exactly when it is not smaller than the
    alignment and no object is cut short. -/
theorem sizesFit_iff_taken {n e : Nat} (hn : alignField align = n) (hpos : 0 < n)
    (hobj : objSize < 2 ^ 64) (hs : sizeField objSize align ≠ 0)
    (he : TakenAt (sizeField objSize align) (alignField align) e) :
    SizesFit objSize (sizeField objSize align) n
      ↔ n ≤ slabBytes e ∧ objSize ≤ sizeField objSize align := by
  obtain ⟨hge, hlt⟩ := alignField_range align
  have htop : slabBytes mallocMaxOrder = 2 ^ 18 := rfl
  have hsize : sizeField objSize align < 2 ^ 32 := toUnsigned_lt 32 _
  rw [sizeField_ge hobj (by omega), hn]
  rw [hn] at he
  constructor
  · intro hfit
    have hle : n ≤ slabBytes e := by
      by_contra hwrap
      have hnum := he.2.1
      rw [estNum_wrap _ (by omega) (by omega)] at hnum
      rcases hfit with ⟨hroom, -, hno⟩ | ⟨-, hno⟩
      · -- the largest order would be taken instead
        have h6 : e < mallocMaxOrder := slabBytes_lt (by omega)
        obtain ⟨-, -, h8⟩ := estNum_eq hs (Nat.le_refl mallocMaxOrder)
          (show (-2 : Int) ^ 31 ≤ (n : Int) by omega) (by omega)
        rcases he.2.2.2 with hacc | hlast
        · have hfrag := hacc.2
          rw [estRem_wrap _ (by omega) (by omega)] at hfrag
          have hrem : wrappedRem (sizeField objSize align) n e < sizeField objSize align :=
            Nat.mod_lt _ (Nat.pos_of_ne_zero hs)
          have := hno e he.1 (by omega)
          omega
        · have := hlast _ h6 (Nat.le_refl _)
          omega
      · have := hno e he.1 (by omega)
        omega
    refine ⟨hle, ?_⟩
    rcases hfit with ⟨-, hround, -⟩ | ⟨hroom, -⟩
    · omega
    · obtain ⟨-, -, h8⟩ := estNum_eq hs he.1 (show (-2 : Int) ^ 31 ≤ (n : Int) by omega) (by omega)
      have := slabBytes_le he.1
      have := h8.mp he.2.1
      omega
  · rintro ⟨hle, hround⟩
    obtain ⟨-, -, h8⟩ := estNum_eq hs he.1 (show (-2 : Int) ^ 31 ≤ (n : Int) by omega) (by omega)
    have hroom := h8.mp he.2.1
    have htop' := slabBytes_le he.1
    refine Or.inl ⟨by omega, by omega, ?_⟩
    intro o ho hwrap
    -- the order comes before the one taken, so it was not accepted
    have hoe : o < e := slabBytes_lt (by omega)
    have hnot := he.2.2.1 o hoe
    rw [Accepted, estNum_wrap _ (by omega) hwrap, estRem_wrap _ (by omega) hwrap] at hnot
    have hrem : wrappedRem (sizeField objSize align) n o < sizeField objSize align :=
      Nat.mod_lt _ (Nat.pos_of_ne_zero hs)
    omega

/-- What the pool of a taken order satisfies. -/
theorem objectsFit_iff {n : String} {ops : Option MempoolOps} {e : Nat}
    (hs : sizeField objSize align ≠ 0)
    (he : TakenAt (sizeField objSize align) (alignField align) e) :
    ObjectsFit objSize (createdPool n objSize align ops
        (estNum (sizeField objSize align) (alignField align) e) e)
      ↔ alignField align ≤ slabBytes e ∧ objSize ≤ sizeField objSize align := by
  constructor
  · intro h
    have hfits : ((estNum (sizeField objSize align) (alignField align) e
        * sizeField objSize align : Nat) : Int) + alignField align ≤ (slabBytes e : Int) := h.fits
    exact ⟨by omega, h.size_ge⟩
  · rintro ⟨hle, hsize⟩
    obtain ⟨hfits, -, -⟩ := estNum_eq hs he.1 (alignField_range align).1 hle
    exact ⟨hsize, he.2.1, hfits⟩

/-- The objects of a taken order lie in the slab only for a positive
    alignment. -/
theorem inSlab_iff {n : String} {ops : Option MempoolOps} {e : Nat}
    (hs : sizeField objSize align ≠ 0)
    (he : TakenAt (sizeField objSize align) (alignField align) e)
    (hle : alignField align ≤ slabBytes e) :
    InSlab (createdPool n objSize align ops
        (estNum (sizeField objSize align) (alignField align) e) e)
      ↔ 0 < alignField align := by
  obtain ⟨hfits, hmore, -⟩ := estNum_eq hs he.1 (alignField_range align).1 hle
  have hne := alignField_ne_zero hs
  show estNum (sizeField objSize align) (alignField align) e * sizeField objSize align
    ≤ slabBytes e ↔ _
  constructor
  · intro hin
    by_contra hneg
    obtain ⟨hsize, -⟩ := sizeField_neg objSize (show alignField align < 0 by omega)
    omega
  · intro hpos
    omega

/-- With a negative alignment some order is found exactly when eight objects
    fit the largest slab, widened by the amount of the alignment. -/
theorem taken_neg (hs : sizeField objSize align ≠ 0) (hneg : alignField align < 0) {e : Nat}
    (he : TakenAt (sizeField objSize align) (alignField align) e) :
    8 * (sizeField objSize align : Int) + alignField align ≤ 2 ^ 18 := by
  obtain ⟨-, -, h8⟩ := estNum_eq hs he.1 (alignField_range align).1 (by omega)
  have hle := slabBytes_le he.1
  have hroom := h8.mp he.2.1
  omega

theorem none_neg (hs : sizeField objSize align ≠ 0) (hneg : alignField align < 0)
    (hnone : ∀ o ≤ mallocMaxOrder, estNum (sizeField objSize align) (alignField align) o < 8) :
    2 ^ 18 < 8 * (sizeField objSize align : Int) + alignField align := by
  have htop : slabBytes mallocMaxOrder = 2 ^ 18 := rfl
  obtain ⟨-, -, h8⟩ := estNum_eq hs (Nat.le_refl mallocMaxOrder) (alignField_range align).1
    (by omega)
  have := hnone _ (Nat.le_refl _)
  omega

/-- No order is found. -/
theorem createInSlab_of_none (hs : sizeField objSize align ≠ 0)
    (hnone : ∀ o ≤ mallocMaxOrder, estNum (sizeField objSize align) (alignField align) o < 8) :
    CreateInSlab objSize align := by
  have hne := alignField_ne_zero hs
  rcases Int.lt_or_gt_of_ne hne with hneg | hpos
  · exact Or.inl ⟨hneg, none_neg hs hneg hnone⟩
  · exact Or.inr ⟨hpos, sizesFit_of_none (Int.toNat_of_nonneg (by omega)).symm hs hnone⟩

theorem CreateInSlab.fits (h : CreateInSlab objSize align) : CreateFits objSize align :=
  h.imp_left fun ⟨hneg, hroom⟩ => ⟨hneg, Or.inr hroom⟩

/-- An order is taken. -/
theorem createFits_iff_taken {e : Nat} (hobj : objSize < 2 ^ 64)
    (hs : sizeField objSize align ≠ 0)
    (he : TakenAt (sizeField objSize align) (alignField align) e) :
    (CreateFits objSize align
        ↔ alignField align ≤ slabBytes e ∧ objSize ≤ sizeField objSize align)
      ∧ (CreateInSlab objSize align
        ↔ (alignField align ≤ slabBytes e ∧ objSize ≤ sizeField objSize align)
          ∧ 0 < alignField align) := by
  have hne := alignField_ne_zero hs
  rcases Int.lt_or_gt_of_ne hne with hneg | hpos
  · obtain ⟨hsize, hcover⟩ := sizeField_neg objSize hneg
    have hroom := taken_neg hs hneg he
    rw [CreateFits, CreateInSlab]
    omega
  · have hn : alignField align = ((alignField align).toNat : Int) :=
      (Int.toNat_of_nonneg (by omega)).symm
    have hiff := sizesFit_iff_taken hn (by omega) hobj hs he
    rw [CreateFits, CreateInSlab, hiff]
    omega

end Sizes

/-- **Which pools have objects that fit**: `mempool_create` returns NULL or a
    pool whose objects fit exactly when it refuses the call, or the sizes are
    as `CreateFits` says; and a pool whose objects, besides, stay inside the
    slab exactly when they are as `CreateInSlab` says. -/
theorem mempoolCreate_fits_iff {mempoolList : List String} {name : Option String}
    {objSize align : Nat} {ops : Option MempoolOps} {calloc : Bool}
    (hobj : objSize < 2 ^ 64) (hs : sizeField objSize align ≠ 0) :
    (CreateGives (ObjectsFit objSize) mempoolList name objSize align ops calloc
        ↔ Refused mempoolList name calloc ∨ CreateFits objSize align)
      ∧ (CreateGives (fun pool => ObjectsFit objSize pool ∧ InSlab pool) mempoolList name objSize
            align ops calloc
        ↔ Refused mempoolList name calloc ∨ CreateInSlab objSize align) := by
  by_cases href : Refused mempoolList name calloc
  · exact ⟨iff_of_true (createGives_of_refused href) (Or.inl href),
      iff_of_true (createGives_of_refused href) (Or.inl href)⟩
  · rcases calculateSlabOrder_cases hs (alignField align) with ⟨hr, hnone⟩ | ⟨e, he, hr⟩
    · have hin := createInSlab_of_none hs hnone
      constructor
      · obtain ⟨n, hiff⟩ := createGives_iff (ObjectsFit objSize) ops href hr
        exact iff_of_true (hiff.mpr fun h => absurd rfl h) (Or.inr hin.fits)
      · obtain ⟨n, hiff⟩ := createGives_iff
          (fun pool => ObjectsFit objSize pool ∧ InSlab pool) ops href hr
        exact iff_of_true (hiff.mpr fun h => absurd rfl h) (Or.inr hin)
    · obtain ⟨hfits, hin⟩ := createFits_iff_taken hobj hs he
      have hnum : estNum (sizeField objSize align) (alignField align) e ≠ 0 := by
        have := he.2.1
        omega
      constructor
      · obtain ⟨n, hiff⟩ := createGives_iff (ObjectsFit objSize) ops href hr
        rw [hiff, or_iff_right href, hfits, forall_prop_of_true hnum]
        exact objectsFit_iff hs he
      · obtain ⟨n, hiff⟩ := createGives_iff
          (fun pool => ObjectsFit objSize pool ∧ InSlab pool) ops href hr
        rw [hiff, or_iff_right href, hin, forall_prop_of_true hnum]
        show ObjectsFit _ _ ∧ InSlab _ ↔ _
        rw [objectsFit_iff hs he]
        exact and_congr_right fun h => inSlab_iff hs he h.1

/-- Objects of 5 bytes aligned to 8: the condition holds and so the pool fits. -/
theorem mempoolCreate_fits_small :
    CreateGives (ObjectsFit 5) [] (some "pool") 5 8 none true
      ∧ CreateGives (fun pool => ObjectsFit 5 pool ∧ InSlab pool) [] (some "pool") 5 8 none true := by
  constructor
  · exact (mempoolCreate_fits_iff (by decide) (by decide +kernel)).1.mpr
      (Or.inr (by decide +kernel))
  · exact (mempoolCreate_fits_iff (by decide) (by decide +kernel)).2.mpr
      (Or.inr (by decide +kernel))

/-- Objects of 64 KiB aligned to 8 KiB: at order 0 the slab size minus the
    alignment wraps, and the pool promises 2^32 - 1 objects in one page. -/
theorem mempoolCreate_overcommits :
    ¬ ∀ objSize align : Nat, 1 ≤ objSize → objSize < 2 ^ 64 → align < 2 ^ 64 →
      sizeField objSize align ≠ 0 →
        CreateGives (ObjectsFit objSize) [] (some "pool") objSize align none true := by
  intro h
  obtain ⟨r, hr, hfit⟩ := h 65536 8192 (by decide) (by decide) (by decide) (by decide +kernel)
  have hbad : ((mempoolCreate [] (some "pool") 65536 8192 none true).join.any fun pool =>
      !decide (((pool.numPerSlab * pool.size : Nat) : Int) + pool.align ≤ pool.slabSize)) = true := by
    decide +kernel
  rw [hr] at hbad
  obtain ⟨pool, hpool, hnot⟩ := (Option.any_eq_true _ _).mp hbad
  rw [decide_eq_true (hfit pool hpool).fits] at hnot
  cases hnot

end MempoolOrder
