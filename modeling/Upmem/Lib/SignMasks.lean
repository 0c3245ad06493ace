import Mathlib.Data.Nat.Basic

namespace SignMasks

variable {w : Nat}

/-- The sign of a word shifted through all of it. -/
def sign (x : BitVec w) : BitVec w := x.sshiftRight (w - 1)

/-- What flips a word and takes the mask away from it. -/
def negateBy (x mask : BitVec w) : BitVec w := (x ^^^ mask) - mask

theorem sign_eq (x : BitVec w) : sign x = if x.msb then BitVec.allOnes w else 0#w := by
  have getElem : ∀ i (inside : i < w), (sign x)[i] = x.msb := by
    intro i inside
    rw [sign, BitVec.getElem_sshiftRight]
    split_ifs with last
    · have zero : i = 0 := by omega
      subst zero
      rw [BitVec.msb_eq_getLsbD_last, BitVec.getLsbD_eq_getElem (by omega)]
      rfl
    · rfl
  ext i inside
  rw [getElem i inside]
  cases x.msb <;> simp

theorem negateBy_allOnes (x : BitVec w) : negateBy x (BitVec.allOnes w) = -x := by
  rw [negateBy, BitVec.xor_allOnes, BitVec.neg_eq_not_add, BitVec.sub_eq_iff_eq_add, BitVec.add_assoc]
  have wraps : 1#w + BitVec.allOnes w = 0#w := by
    rw [BitVec.add_comm, ← BitVec.neg_one_eq_allOnes, BitVec.add_left_neg]
  rw [wraps, BitVec.add_zero]

theorem negateBy_zero (x : BitVec w) : negateBy x 0#w = x := by
  rw [negateBy, BitVec.xor_zero, BitVec.sub_zero]

/-- The mask of a sign negates when the sign is set. -/
theorem negateBy_sign (x y : BitVec w) : negateBy x (sign y) = if y.msb then -x else x := by
  rw [sign_eq]
  cases y.msb
  · exact negateBy_zero x
  · exact negateBy_allOnes x

/-- Two signs together negate when they differ. -/
theorem negateBy_sign_xor (x y z : BitVec w) : negateBy x (sign y ^^^ sign z) = if y.msb = z.msb then
      x else -x := by
  rw [sign_eq, sign_eq]
  cases y.msb <;> cases z.msb <;> simp [negateBy_zero, negateBy_allOnes]

end SignMasks
