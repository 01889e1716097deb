import Mathlib.Data.Nat.Bitwise
import Mathlib.Tactic.Ring

/-! # Fixed-width conversions and mask alignment

    Values of C's integer types are kept as `Int` and `Nat`; what the language
    does to them at a conversion is written out.  `toUnsigned w` and
    `toSigned w` are the conversions to the `w`-bit types (two's complement),
    and `maskUp` is the usual round-up `(x + m) & ~m` on 64 bits.  No mask is
    assumed to be a power of two minus one: the bounds `le_maskUp` and
    `maskUp_le` hold for every mask. -/

namespace MachineInt

/-- Conversion to an unsigned type of `w` bits. -/
def toUnsigned (w : Nat) (x : Int) : Nat := (x % 2 ^ w).toNat

/-- Conversion to a signed type of `w` bits. -/
def toSigned (w : Nat) (x : Int) : Int := (x + 2 ^ (w - 1)) % 2 ^ w - 2 ^ (w - 1)

/-- Conversion to unsigned keeps a value in range. -/
theorem toUnsigned_natCast {w n : Nat} (h : n < 2 ^ w) : toUnsigned w (n : Int) = n := by
  rw [toUnsigned]
  have hc : ((n : Int) % 2 ^ w) = ((n % 2 ^ w : Nat) : Int) := by push_cast; rfl
  rw [hc, Int.toNat_natCast, Nat.mod_eq_of_lt h]

/-- Conversion to unsigned lands in range. -/
theorem toUnsigned_lt (w : Nat) (x : Int) : toUnsigned w x < 2 ^ w := by
  rw [toUnsigned]
  have hpos : (0 : Int) < 2 ^ w := Int.pow_pos (by decide)
  have h1 := Int.emod_nonneg x (Int.ne_of_gt hpos)
  have h2 := Int.emod_lt_of_pos x hpos
  have h3 : ((2 ^ w : Nat) : Int) = 2 ^ w := by push_cast; rfl
  omega

/-- Conversion to signed keeps a value in range. -/
theorem toSigned_of_range {w : Nat} {x : Int} (hw : 0 < w) (h1 : -2 ^ (w - 1) ≤ x)
    (h2 : x < 2 ^ (w - 1)) : toSigned w x = x := by
  rw [toSigned]
  have hp : (2 : Int) ^ w = 2 ^ (w - 1) + 2 ^ (w - 1) := by
    obtain ⟨v, rfl⟩ := Nat.exists_eq_succ_of_ne_zero (Nat.pos_iff_ne_zero.mp hw)
    simp only [Nat.succ_eq_add_one, Nat.add_sub_cancel]
    ring
  rw [Int.emod_eq_of_lt (by omega) (by omega)]
  omega

/-- Conversion to signed keeps a natural number below the sign bit. -/
theorem toSigned_natCast {w n : Nat} (hw : 0 < w) (h : n < 2 ^ (w - 1)) :
    toSigned w (n : Int) = n := by
  have hc : ((2 ^ (w - 1) : Nat) : Int) = 2 ^ (w - 1) := by push_cast; rfl
  exact toSigned_of_range hw (by omega) (by omega)

/-! ## Mask alignment -/

/-- `(x + m) & ~m` in 64-bit registers. -/
def maskUp (x m : Nat) : Nat :=
  ((BitVec.ofNat 64 x + BitVec.ofNat 64 m) &&& ~~~BitVec.ofNat 64 m).toNat

/-- A register splits into its bits under a mask and its bits outside it. -/
theorem and_add_and_not {w : Nat} (y m : BitVec w) :
    (y &&& m).toNat + (y &&& ~~~m).toNat = y.toNat := by
  have hdisj : (y &&& m) &&& (y &&& ~~~m) = 0#w := by
    ext i hi
    simp only [BitVec.getElem_and, BitVec.getElem_not, BitVec.getElem_zero]
    cases y[i] <;> cases m[i] <;> rfl
  have hor : (y &&& m) ||| (y &&& ~~~m) = y := by
    ext i hi
    simp only [BitVec.getElem_or, BitVec.getElem_and, BitVec.getElem_not]
    cases y[i] <;> cases m[i] <;> rfl
  rw [← BitVec.toNat_add_of_and_eq_zero hdisj, BitVec.add_eq_or_of_and_eq_zero _ _ hdisj, hor]

/-- Without wrap-around the sum in registers is the sum. -/
theorem ofNat_add_toNat {x m : Nat} (h : x + m < 2 ^ 64) :
    (BitVec.ofNat 64 x + BitVec.ofNat 64 m).toNat = x + m := by
  rw [← BitVec.ofNat_add, BitVec.toNat_ofNat, Nat.mod_eq_of_lt h]

/-- Rounding up under a mask does not go below the value. -/
theorem le_maskUp {x m : Nat} (h : x + m < 2 ^ 64) : x ≤ maskUp x m := by
  rw [maskUp]
  have hs := and_add_and_not (BitVec.ofNat 64 x + BitVec.ofNat 64 m) (BitVec.ofNat 64 m)
  rw [ofNat_add_toNat h] at hs
  have hle : ((BitVec.ofNat 64 x + BitVec.ofNat 64 m) &&& BitVec.ofNat 64 m).toNat ≤ m := by
    rw [BitVec.toNat_and]
    refine Nat.le_trans Nat.and_le_right ?_
    rw [BitVec.toNat_ofNat]
    exact Nat.mod_le _ _
  omega

/-- Rounding up under a mask adds at most the mask. -/
theorem maskUp_le {x m : Nat} (h : x + m < 2 ^ 64) : maskUp x m ≤ x + m := by
  rw [maskUp]
  rw [BitVec.toNat_and, ofNat_add_toNat h]
  exact Nat.and_le_left

/-- Rounding up under a mask below `2 ^ k` does not fall below `2 ^ k` once the
    sum reaches it. -/
theorem two_pow_le_maskUp {x m k : Nat} (h : x + m < 2 ^ 64) (hm : m < 2 ^ k)
    (hk : 2 ^ k ≤ x + m) : 2 ^ k ≤ maskUp x m := by
  rw [maskUp]
  have hs := and_add_and_not (BitVec.ofNat 64 x + BitVec.ofNat 64 m) (BitVec.ofNat 64 m)
  rw [ofNat_add_toNat h, BitVec.toNat_and, ofNat_add_toNat h, BitVec.toNat_ofNat,
    Nat.mod_eq_of_lt (show m < 2 ^ 64 by omega)] at hs
  -- the bits under the mask are among the low `k` bits of the sum
  have hlow : (x + m) &&& m ≤ (x + m) % 2 ^ k := by
    have hlt : (x + m) &&& m < 2 ^ k := Nat.lt_of_le_of_lt Nat.and_le_right hm
    rw [← Nat.mod_eq_of_lt hlt, Nat.and_mod_two_pow]
    exact Nat.and_le_left
  have hge : 2 ^ k ≤ x + m - (x + m) % 2 ^ k := by
    have hdm := Nat.div_add_mod (x + m) (2 ^ k)
    have hdiv : 1 ≤ (x + m) / 2 ^ k := (Nat.one_le_div_iff (Nat.two_pow_pos k)).mpr hk
    have hmul := Nat.mul_le_mul_left (2 ^ k) hdiv
    omega
  omega

/-- The complement mask `2 ^ 64 - n - 1` of a negative alignment `-n`: what is
    left of the sum is a part of the bits of `n`, and covers `x` up to `n`. -/
theorem maskUp_compl {x n : Nat} (hn : n < 2 ^ 64) :
    maskUp x (2 ^ 64 - n - 1) ≤ n ∧ (x ≤ n → x ≤ maskUp x (2 ^ 64 - n - 1)) := by
  have hm : BitVec.ofNat 64 (2 ^ 64 - n - 1) = ~~~BitVec.ofNat 64 n := by
    apply BitVec.eq_of_toNat_eq
    rw [BitVec.toNat_not, BitVec.toNat_ofNat, BitVec.toNat_ofNat, Nat.mod_eq_of_lt hn,
      Nat.mod_eq_of_lt (by omega)]
    omega
  have hN : (BitVec.ofNat 64 n).toNat = n := by rw [BitVec.toNat_ofNat, Nat.mod_eq_of_lt hn]
  rw [maskUp, hm, BitVec.not_not]
  constructor
  · rw [BitVec.toNat_and, hN]
    exact Nat.and_le_right
  · intro hx
    -- `x + ~n` is `~(n - x)`
    have hsum : BitVec.ofNat 64 x + ~~~BitVec.ofNat 64 n = ~~~BitVec.ofNat 64 (n - x) := by
      apply BitVec.eq_of_toNat_eq
      rw [BitVec.toNat_add, BitVec.toNat_not, BitVec.toNat_not, hN, BitVec.toNat_ofNat,
        BitVec.toNat_ofNat, Nat.mod_eq_of_lt (show x < 2 ^ 64 by omega),
        Nat.mod_eq_of_lt (show n - x < 2 ^ 64 by omega)]
      omega
    have hs := and_add_and_not (BitVec.ofNat 64 n) (BitVec.ofNat 64 (n - x))
    have hle : (BitVec.ofNat 64 n &&& BitVec.ofNat 64 (n - x)).toNat ≤ n - x := by
      rw [BitVec.toNat_and, BitVec.toNat_ofNat (n - x) 64,
        Nat.mod_eq_of_lt (show n - x < 2 ^ 64 by omega)]
      exact Nat.and_le_right
    rw [hN] at hs
    rw [hsum, BitVec.and_comm]
    omega

/-- Rounding up under a mask that covers the low `k` bits gives a multiple of
    `2 ^ k`. -/
theorem maskUp_mod {x m k : Nat} (hk : k ≤ 64) (hm : m % 2 ^ k = 2 ^ k - 1) :
    maskUp x m % 2 ^ k = 0 := by
  refine Nat.eq_of_testBit_eq ?_
  intro i
  rw [Nat.testBit_mod_two_pow, Nat.zero_testBit]
  by_cases hi : i < k
  · have hbit : m.testBit i = true := by
      have := congrArg (fun n => n.testBit i) hm
      simpa [Nat.testBit_mod_two_pow, hi] using this
    have h64 : i < 64 := by omega
    rw [maskUp, BitVec.testBit_toNat, BitVec.getLsbD_and, BitVec.getLsbD_not,
      BitVec.getLsbD_ofNat, hbit]
    simp [h64]
  · simp [hi]

/-- Under a mask of `k` low ones rounding up leaves the multiple of `2 ^ k`
    below the sum. -/
theorem maskUp_two_pow {x k : Nat} (hk : k ≤ 64) :
    maskUp x (2 ^ k - 1) = (x + (2 ^ k - 1)) % 2 ^ 64 / 2 ^ k * 2 ^ k := by
  have hpow : 2 ^ k ≤ 2 ^ 64 := Nat.pow_le_pow_right (by omega) hk
  have hs := and_add_and_not (BitVec.ofNat 64 x + BitVec.ofNat 64 (2 ^ k - 1))
    (BitVec.ofNat 64 (2 ^ k - 1))
  have hpos := Nat.two_pow_pos k
  rw [BitVec.toNat_and, ← BitVec.ofNat_add, BitVec.toNat_ofNat, BitVec.toNat_ofNat,
    Nat.mod_eq_of_lt (show 2 ^ k - 1 < 2 ^ 64 by omega), Nat.and_two_pow_sub_one_eq_mod] at hs
  have hdm := Nat.div_add_mod' ((x + (2 ^ k - 1)) % 2 ^ 64) (2 ^ k)
  rw [maskUp, ← BitVec.ofNat_add]
  omega

/-- The low bits of the result are those of the same step on narrower
    registers. -/
theorem maskUp_mod_two_pow {x m k : Nat} (hk : k ≤ 64) :
    maskUp x m % 2 ^ k
      = ((BitVec.ofNat k x + BitVec.ofNat k m) &&& ~~~BitVec.ofNat k m).toNat := by
  have hcut : ∀ n : Nat, (BitVec.ofNat 64 n).setWidth k = BitVec.ofNat k n := by
    intro n
    apply BitVec.eq_of_toNat_eq
    rw [BitVec.toNat_setWidth, BitVec.toNat_ofNat, BitVec.toNat_ofNat,
      Nat.mod_mod_of_dvd _ (Nat.pow_dvd_pow 2 hk)]
  rw [maskUp, ← BitVec.toNat_setWidth, BitVec.setWidth_and, BitVec.setWidth_add _ _ hk,
    BitVec.setWidth_not hk, hcut, hcut]

/-- Rounding up gives zero for zero, and where the sum wraps into the bits of
    the mask. -/
theorem masked_eq_zero_iff {w : Nat} (x m : BitVec w) :
    ((x + m) &&& ~~~m).toNat = 0
      ↔ x.toNat = 0 ∨ (2 ^ w ≤ x.toNat + m.toNat
        ∧ (x.toNat + m.toNat - 2 ^ w) &&& m.toNat = x.toNat + m.toNat - 2 ^ w) := by
  have hs := and_add_and_not (x + m) m
  have hx := x.isLt
  have hm := m.isLt
  rw [BitVec.toNat_and, BitVec.toNat_add] at hs
  have hle : (x.toNat + m.toNat) % 2 ^ w &&& m.toNat ≤ m.toNat := Nat.and_le_right
  by_cases hwrap : 2 ^ w ≤ x.toNat + m.toNat
  · rw [Nat.mod_eq_sub_mod hwrap, Nat.mod_eq_of_lt (by omega)] at hs
    omega
  · rw [Nat.mod_eq_of_lt (by omega)] at hs hle
    constructor
    · intro h0
      exact Or.inl (by omega)
    · rintro (h0 | ⟨hge, -⟩)
      · rw [h0, Nat.zero_add, Nat.and_self] at hs
        omega
      · exact absurd hge hwrap

/-- The complement mask `2 ^ 64 - n - 1` of a negative alignment `-n` leaves
    the bits of `n`. -/
theorem maskUp_compl_eq {x n : Nat} (hn : n < 2 ^ 64) :
    maskUp x (2 ^ 64 - n - 1) = (x + (2 ^ 64 - n - 1)) % 2 ^ 64 &&& n := by
  have hm : ~~~BitVec.ofNat 64 (2 ^ 64 - n - 1) = BitVec.ofNat 64 n := by
    apply BitVec.eq_of_toNat_eq
    rw [BitVec.toNat_not, BitVec.toNat_ofNat, BitVec.toNat_ofNat, Nat.mod_eq_of_lt hn,
      Nat.mod_eq_of_lt (by omega)]
    omega
  rw [maskUp, hm, BitVec.toNat_and, ← BitVec.ofNat_add, BitVec.toNat_ofNat, BitVec.toNat_ofNat,
    Nat.mod_eq_of_lt hn]

/-- What is a multiple of `2 ^ k` already stays under a mask below `2 ^ k`. -/
theorem maskUp_of_dvd {x m k : Nat} (hk : k ≤ 64) (hx : 2 ^ k ∣ x) (hm : m < 2 ^ k)
    (h : x + m < 2 ^ 64) : maskUp x m = x := by
  have hs := and_add_and_not (BitVec.ofNat 64 x + BitVec.ofNat 64 m) (BitVec.ofNat 64 m)
  have hpow : 2 ^ k ≤ 2 ^ 64 := Nat.pow_le_pow_right (by omega) hk
  rw [ofNat_add_toNat h, BitVec.toNat_and, ofNat_add_toNat h, BitVec.toNat_ofNat,
    Nat.mod_eq_of_lt (show m < 2 ^ 64 by omega)] at hs
  -- below `2 ^ k` the sum is the mask
  have hlow : (x + m) &&& m = m := by
    have hlt : (x + m) &&& m < 2 ^ k := Nat.lt_of_le_of_lt Nat.and_le_right hm
    rw [← Nat.mod_eq_of_lt hlt, Nat.and_mod_two_pow, Nat.add_mod, Nat.mod_eq_zero_of_dvd hx,
      Nat.zero_add, Nat.mod_mod, Nat.and_self, Nat.mod_eq_of_lt hm]
  rw [maskUp]
  omega

theorem maskUp_lt (x m : Nat) : maskUp x m < 2 ^ 64 := BitVec.isLt _

end MachineInt
