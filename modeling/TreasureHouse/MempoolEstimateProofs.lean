import TreasureHouse.MempoolOrderProofs

/-! # `calculate_slab_order` and the division of `mempool_estimate`

    For the sizes and alignments a pool is meant for, the test on the
    fragmentation that ends the loop always passes at the first order that
    holds eight objects: the bytes left over are fewer than one object
    (`calculateSlabOrder_least`).

    The division itself is by `pool->size`, which `mempool_create` rounds up
    and narrows without looking at the result.  `mempoolCreate_defined_iff`
    says for which of all inputs it is not 0. -/

namespace MempoolEstimate

open MachineInt Mempool MempoolGeometry MempoolOrder

-- ── The order ────────────────────────────────────────────────────────────────

/-- The objects that fit a slab of an order, next to the alignment. -/
def objsAt (size align order : Nat) : Nat := (slabBytes order - align) / size

/-- The bytes that are left over then. -/
def leftAt (size align order : Nat) : Nat := (slabBytes order - align) % size

/-- No order holds `SLAB_OBJ_MIN_NUM` objects. -/
def NoOrder (size align : Nat) : Prop :=
  ∀ o ≤ mallocMaxOrder, objsAt size align o < slabObjMinNum

/-- The least order that does. -/
def LeastOrder (size align e : Nat) : Prop :=
  e ≤ mallocMaxOrder ∧ slabObjMinNum ≤ objsAt size align e
    ∧ ∀ o < e, objsAt size align o < slabObjMinNum

section Order

variable {size align order : Nat}

theorem est_eq (hs : 0 < size) (ha : align ≤ 4096) (ho : order ≤ mallocMaxOrder) :
    estNum size align order = objsAt size align order
      ∧ estRem size align order = leftAt size align order := by
  have heq := mempoolEstimate_eq ho hs ha
  rw [mempoolEstimate_some (by omega)] at heq
  exact Prod.mk.inj (Option.some.inj heq)

/-- Eight objects that fit are more than the bytes left over. -/
theorem accepted_iff (hs : 0 < size) (ha : align ≤ 4096) (ho : order ≤ mallocMaxOrder) :
    Accepted size align order ↔ slabObjMinNum ≤ objsAt size align order := by
  obtain ⟨hnum, hrem⟩ := est_eq hs ha ho
  rw [Accepted, hnum, hrem]
  refine and_iff_left_of_imp ?_
  intro h8
  have hslab := slabBytes_le ho
  have hmul : 8 * size ≤ slabBytes order - align := (Nat.le_div_iff_mul_le hs).mp h8
  have hlt : leftAt size align order < size := Nat.mod_lt _ hs
  have hle : leftAt size align order ≤ slabBytes order - align := Nat.mod_le _ _
  omega

/-- The number fits a non-negative `short`. -/
theorem objsAt_lt (hs : 8 ≤ size) (ha : 8 ≤ align) (ho : order ≤ mallocMaxOrder) :
    objsAt size align order < 2 ^ 15 := by
  have hslab := slabBytes_le ho
  rw [objsAt, Nat.div_lt_iff_lt_mul (by omega)]
  omega

/-- **THE LEAST ORDER**: `calculate_slab_order` takes the least order that
    holds eight objects, with their number and the bytes left over; it leaves
    `num_per_slab` at 0, and `mempool_create` returns NULL, exactly when there
    is none; and the number fits the indices of `struct slab`. -/
theorem calculateSlabOrder_least (hs : 8 ≤ size) (ha : 8 ≤ align) (ha' : align ≤ 4096) :
    ∃ num order left, calculateSlabOrder size align = some (num, order, left)
      ∧ (num ≠ 0 → LeastOrder size align order ∧ num = objsAt size align order
          ∧ left = leftAt size align order)
      ∧ (num = 0 ↔ NoOrder size align) ∧ num < 2 ^ 15
      ∧ ∀ mempoolList n objSize al ops, n ∉ mempoolList → sizeField objSize al = size →
          alignField al = align →
          (mempoolCreate mempoolList (some n) objSize al ops true = some none
            ↔ NoOrder size align) := by
  have hpos : 0 < size := by omega
  have hne : size ≠ 0 := by omega
  have hcreate : ∀ {num order left},
      calculateSlabOrder size align = some (num, order, left) →
      (num = 0 ↔ NoOrder size align) →
      ∀ mempoolList n objSize al ops, n ∉ mempoolList → sizeField objSize al = size →
        alignField al = align →
        (mempoolCreate mempoolList (some n) objSize al ops true = some none
          ↔ NoOrder size align) := by
    intro num order left hr hzero mempoolList n objSize al ops hn hsize halign
    rw [mempoolCreate_eq ops hn, hsize, halign, hr, Option.map_some, ← hzero, Option.some.injEq]
    by_cases h0 : num = 0
    · exact iff_of_true (if_pos h0) h0
    · rw [if_neg h0]
      exact iff_of_false (fun h => by cases h) h0
  obtain ⟨hr, hnone⟩ | ⟨e, ⟨he, hnum, hbefore, -⟩, hr⟩ :=
    calculateSlabOrder_cases hne (align : Int)
  · have hno : NoOrder size align := by
      intro o ho
      rw [← (est_eq hpos ha' ho).1]
      exact hnone o ho
    have hzero : (0 : Nat) = 0 ↔ NoOrder size align := iff_of_true rfl hno
    exact ⟨0, 0, 0, hr, fun h => absurd rfl h, hzero, by decide, hcreate hr hzero⟩
  · obtain ⟨hobjs, hleft⟩ := est_eq hpos ha' he
    rw [hobjs] at hnum
    rw [hobjs, hleft] at hr
    have hleast : LeastOrder size align e := by
      refine ⟨he, hnum, ?_⟩
      intro o ho
      have hnot := hbefore o ho
      rw [accepted_iff hpos ha' (by omega)] at hnot
      exact Nat.lt_of_not_le hnot
    have hzero : objsAt size align e = 0 ↔ NoOrder size align := by
      refine iff_of_false (by omega) ?_
      intro hno
      exact absurd hnum (Nat.not_le_of_lt (hno e he))
    exact ⟨_, e, _, hr, fun _ => ⟨hleast, rfl, rfl⟩, hzero, objsAt_lt hs ha he, hcreate hr hzero⟩

end Order

/-- Objects of 504 bytes aligned to 8 fill one page: eight of them. -/
theorem calculateSlabOrder_least_page :
    ∃ num order left, calculateSlabOrder 504 8 = some (num, order, left) ∧ num = 8 ∧ order = 0
      ∧ LeastOrder 504 8 0 := by
  have hs : 8 ≤ 504 := by decide
  have ha : 8 ≤ 8 := Nat.le_refl 8
  obtain ⟨num, order, left, hr, hleast, -⟩ := calculateSlabOrder_least hs ha (by decide)
  have heq : calculateSlabOrder 504 ((8 : Nat) : Int) = some (8, 0, 56) := by decide +kernel
  rw [heq] at hr
  cases hr
  exact ⟨8, 0, 56, heq, rfl, rfl, (hleast (by decide)).1⟩

-- ── The divisor ──────────────────────────────────────────────────────────────

/-- `pool->align - 1` in 32 bits: the alignment rounded up to a multiple of 8,
    less one. -/
def wordMask (align : Nat) : Nat := ((align + 7) / 8 * 8 + (2 ^ 32 - 1)) % 2 ^ 32

/-- Under the mask `m` the size `x` is not rounded to 0: it is not 0, and the
    sum does not wrap to a number with bits of the mask only. -/
def RoundsUp (x m : Nat) : Prop :=
  x ≠ 0 ∧ (x + m < 2 ^ 32 ∨ (x + m - 2 ^ 32) &&& m ≠ x + m - 2 ^ 32)

/-- The low half of `obj_size` is not rounded to 0. -/
def SizeLeft (objSize align : Nat) : Prop := RoundsUp (objSize % 2 ^ 32) (wordMask align)

instance (objSize align : Nat) : Decidable (SizeLeft objSize align) :=
  inferInstanceAs (Decidable (_ ∧ _))

theorem calculateAlignment_eq (align : Nat) :
    calculateAlignment align = (align + 7) % 2 ^ 64 / 8 * 8 :=
  (alignTo_eq align (by decide) (by decide)).trans (maskUp_two_pow (k := 3) (by decide))

theorem wordMask_eq (align : Nat) :
    toUnsigned 64 (alignField align - 1) % 2 ^ 32 = wordMask align := by
  rw [alignField, calculateAlignment_eq, wordMask, toUnsigned, toSigned]
  omega

theorem sizeField_ne_zero_iff (objSize align : Nat) :
    sizeField objSize align ≠ 0 ↔ SizeLeft objSize align := by
  have hlow : sizeField objSize align
      = maskUp objSize (toUnsigned 64 (alignField align - 1)) % 2 ^ 32 := by
    rw [sizeField, alignTo, toUnsigned]
    omega
  have hx := Nat.mod_lt objSize (Nat.two_pow_pos 32)
  have hm : wordMask align < 2 ^ 32 := Nat.mod_lt _ (Nat.two_pow_pos 32)
  rw [hlow, maskUp_mod_two_pow (by decide), ne_eq, masked_eq_zero_iff, BitVec.toNat_ofNat,
    BitVec.toNat_ofNat, wordMask_eq, SizeLeft, RoundsUp]
  rw [not_or, not_and_or, Nat.not_le]

/-- The first round of the loop divides by the size. -/
theorem calculateSlabOrder_zero (align : Int) : calculateSlabOrder 0 align = none := by
  rw [calculateSlabOrder, slabOrderLoop, mempoolEstimate]
  rfl

/-- **The division is never by 0** exactly when the call is refused or the
    rounded size is not 0. -/
theorem mempoolCreate_defined_iff (mempoolList : List String) (name : Option String)
    (objSize align : Nat) (ops : Option MempoolOps) (calloc : Bool) :
    (∃ r, mempoolCreate mempoolList name objSize align ops calloc = some r)
      ↔ Refused mempoolList name calloc ∨ SizeLeft objSize align := by
  rw [← sizeField_ne_zero_iff]
  by_cases href : Refused mempoolList name calloc
  · have hgives : CreateGives (fun _ => True) mempoolList name objSize align ops calloc :=
      createGives_of_refused href
    obtain ⟨r, hr, -⟩ := hgives
    exact iff_of_true ⟨r, hr⟩ (Or.inl href)
  · rw [or_iff_right href]
    rw [Refused, not_or, not_forall, Bool.not_eq_false] at href
    obtain ⟨⟨n, hn⟩, rfl⟩ := href
    rw [Classical.not_imp] at hn
    obtain ⟨rfl, hn⟩ := hn
    rw [mempoolCreate_eq ops hn]
    constructor
    · rintro ⟨r, hr⟩ h0
      obtain ⟨s, hs, -⟩ := Option.map_eq_some_iff.mp hr
      rw [h0, calculateSlabOrder_zero] at hs
      cases hs
    · intro hne
      obtain ⟨hr, -⟩ | ⟨e, -, hr⟩ := calculateSlabOrder_cases hne (alignField align)
      · exact ⟨_, by rw [hr]; rfl⟩
      · exact ⟨_, by rw [hr]; rfl⟩

example : SizeLeft 5 8 ∧ ¬ SizeLeft 5 0 ∧ ¬ SizeLeft (2 ^ 32) 8 := by decide +kernel

/-- An object of 64 bytes for which no alignment is asked. -/
theorem mempoolCreate_divides_by_zero :
    ¬ ∀ objSize align : Nat, objSize < 2 ^ 64 → align < 2 ^ 64 →
      ∃ r, mempoolCreate [] (some "pool") objSize align none true = some r := by
  intro h
  obtain ⟨r, hr⟩ := h 64 0 (by decide) (by decide)
  have hnone : mempoolCreate [] (some "pool") 64 0 none true = none := by
    rw [mempoolCreate_eq none (List.not_mem_nil), show calculateSlabOrder
      (sizeField 64 0) (alignField 0) = none by decide +kernel]
    rfl
  rw [hnone] at hr
  cases hr

end MempoolEstimate
