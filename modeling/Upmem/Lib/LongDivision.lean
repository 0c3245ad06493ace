import Mathlib.Data.Nat.Basic
import Mathlib.Tactic.Ring

namespace LongDivision

/-- A turn of a division that shifts and subtracts, with what is left of the dividend and the quotient so far. -/
def turn (divider i : Nat) (s : Nat × Nat) : Nat × Nat :=
  if divider * 2 ^ i ≤ s.1 then (s.1 - divider * 2 ^ i, 2 * s.2 + 1) else (s.1, 2 * s.2)

/-- The turns for the shifts below `n`, the largest first. -/
def turns (divider : Nat) : Nat → Nat × Nat → Nat × Nat
  | 0, s => s
  | n + 1, s => turns divider n (turn divider n s)

/-- Before the turns below `n`. -/
structure Divides (dividend divider n : Nat) (s : Nat × Nat) : Prop where
  small : s.1 < divider * 2 ^ n
  whole : s.1 + s.2 * (divider * 2 ^ n) = dividend

variable {dividend divider n : Nat} {s : Nat × Nat}

theorem Divides.turn (divides : Divides dividend divider (n + 1) s) :
    Divides dividend divider n (turn divider n s) := by
  have double : divider * 2 ^ (n + 1) = 2 * (divider * 2 ^ n) := by ring
  obtain ⟨small, whole⟩ := divides
  rw [double] at small whole
  rw [LongDivision.turn]
  split_ifs with fits
  · have taken : s.1 - divider * 2 ^ n + (2 * s.2 + 1) * (divider * 2 ^ n) =
        s.1 - divider * 2 ^ n + divider * 2 ^ n + s.2 * (2 * (divider * 2 ^ n)) := by ring
    refine ⟨by dsimp only; omega, ?_⟩
    rw [taken, Nat.sub_add_cancel fits, whole]
  · refine ⟨Nat.lt_of_not_le fits, ?_⟩
    rw [← whole]
    ring

/-- The quotient so far is not larger than the dividend. -/
theorem Divides.quotient_le (divides : Divides dividend divider n s) : s.2 ≤ dividend := by
  have positive : 0 < divider * 2 ^ n := Nat.zero_lt_of_lt divides.small
  have less := Nat.le_mul_of_pos_right s.2 positive
  have whole := divides.whole
  omega

/-- After the last turn. -/
theorem Divides.eq (divides : Divides dividend divider 0 s) :
    s.1 = dividend % divider ∧ s.2 = dividend / divider := by
  obtain ⟨small, whole⟩ := divides
  rw [Nat.pow_zero, Nat.mul_one] at small whole
  have positive := Nat.zero_lt_of_lt small
  constructor
  · rw [← whole, Nat.add_mul_mod_self_right, Nat.mod_eq_of_lt small]
  · rw [← whole, Nat.add_mul_div_right _ _ positive, Nat.div_eq_of_lt small, Nat.zero_add]

theorem divides_zero (small : dividend < divider * 2 ^ n) : Divides dividend divider n (dividend, 0) :=
  ⟨small, by simp⟩

theorem Divides.turns (divides : Divides dividend divider n s) :
    (turns divider n s).1 = dividend % divider ∧ (turns divider n s).2 = dividend / divider := by
  induction n generalizing s with
  | zero => exact divides.eq
  | succ n ih => exact ih divides.turn

/-- A bit that is brought down to the remainder of the bits before it. -/
theorem bring_down {bit : Nat} (leading : Nat) (positive : 0 < divider) (digit : bit < 2) :
    (2 * leading + bit) / divider =
        2 * (leading / divider) + (if divider ≤ 2 * (leading % divider) + bit then 1 else 0) ∧
      (2 * leading + bit) % divider =
        if divider ≤ 2 * (leading % divider) + bit then 2 * (leading % divider) + bit - divider
        else 2 * (leading % divider) + bit := by
  have rest := Nat.mod_lt leading positive
  have whole := Nat.div_add_mod leading divider
  generalize leading / divider = quotient at *
  generalize leading % divider = remainder at *
  rw [Nat.div_mod_unique positive]
  subst whole
  split_ifs with fits
  · refine ⟨?_, by omega⟩
    have taken : divider * (2 * quotient + 1) = 2 * (divider * quotient) + divider := by ring
    omega
  · refine ⟨?_, by omega⟩
    have kept : divider * (2 * quotient + 0) = 2 * (divider * quotient) := by ring
    omega

section Words
variable {w : Nat}

/-- A bit shifted in from below. -/
theorem toNat_shiftLeft_or {x bit : BitVec w} (digit : bit.toNat < 2) :
    (x <<< 1 ||| bit).toNat = (2 * x.toNat + bit.toNat) % 2 ^ w := by
  have apart : x <<< 1 &&& bit = 0#w := by
    have one : bit = 0#w ∨ bit = 1#w := by
      have cases_ : bit.toNat = 0 ∨ bit.toNat = 1 := by omega
      refine cases_.imp (fun zero => BitVec.eq_of_toNat_eq (by simp [zero])) fun one => BitVec.eq_of_toNat_eq ?_
      rw [one, BitVec.toNat_ofNat, Nat.mod_eq_of_lt (one ▸ bit.isLt)]
    obtain rfl | rfl := one
    · exact BitVec.and_zero
    · ext i inside
      cases i <;> simp
  rw [← BitVec.add_eq_or_of_and_eq_zero _ _ apart, BitVec.toNat_add, BitVec.toNat_shiftLeft, Nat.shiftLeft_eq,
    Nat.mod_add_mod, pow_one, Nat.mul_comm]

/-- The leading zeros bound a word from both sides. -/
theorem clz_bounds {x : BitVec w} (nonzero : x ≠ 0#w) :
    x.clz.toNat < w ∧ 2 ^ (w - 1 - x.clz.toNat) ≤ x.toNat ∧ x.toNat < 2 ^ (w - x.clz.toNat) := by
  have wide : 0 < w := Nat.pos_of_ne_zero fun none => nonzero (by subst none; exact Subsingleton.elim ..)
  have below : x.clz.toNat < w % 2 ^ w := BitVec.lt_def.mp (BitVec.clz_lt_iff_ne_zero.mpr nonzero)
  rw [Nat.mod_eq_of_lt w.lt_two_pow_self] at below
  exact ⟨below, BitVec.two_pow_sub_clz_le_toNat_of_ne_zero wide nonzero, BitVec.toNat_lt_two_pow_sub_clz⟩

end Words

end LongDivision
