import Mathlib.Data.BitVec

namespace PowerMasks
variable {w : Nat}

/-- A mask of the low bits gives the remainder. -/
theorem toNat_and_mask (x mask : BitVec w) {k : Nat} (low : mask.toNat = 2 ^ k - 1) :
    (x &&& mask).toNat = x.toNat % 2 ^ k := by
  rw [BitVec.toNat_and, low, Nat.and_two_pow_sub_one_eq_mod]

/-- A mask of the other bits rounds down. -/
theorem toNat_and_not_mask (x mask : BitVec w) {k : Nat} (low : mask.toNat = 2 ^ k - 1) :
    (x &&& ~~~mask).toNat = x.toNat / 2 ^ k * 2 ^ k := by
  have apart : (x &&& ~~~mask) &&& (x &&& mask) = 0#w := by
    ext i inside
    simp
    grind
  have joined : (x &&& ~~~mask) ||| (x &&& mask) = x := by
    ext i inside
    simp
    grind
  have sum : (x &&& ~~~mask) + (x &&& mask) = x := by rw [BitVec.add_eq_or_of_and_eq_zero _ _ apart, joined]
  have le : x &&& mask ≤ x := by
    rw [BitVec.le_def, toNat_and_mask x mask low]
    exact Nat.mod_le _ _
  have difference : x &&& ~~~mask = x - (x &&& mask) := by rw [BitVec.eq_sub_iff_add_eq, sum]
  have divided := Nat.div_add_mod' x.toNat (2 ^ k)
  rw [difference, BitVec.toNat_sub_of_le le, toNat_and_mask x mask low]
  omega

/-- Nothing is left of a number above the low bits where it is small. -/
theorem and_not_mask_eq_zero (x mask : BitVec w) {k : Nat} (low : mask.toNat = 2 ^ k - 1) :
    x &&& ~~~mask = 0#w ↔ x.toNat < 2 ^ k := by
  rw [← BitVec.toNat_inj, toNat_and_not_mask x mask low, BitVec.toNat_zero, Nat.mul_eq_zero, Nat.div_eq_zero_iff]
  have positive := Nat.two_pow_pos k
  omega

end PowerMasks
