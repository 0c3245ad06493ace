import Mathlib.Algebra.BigOperators.NatAntidiagonal
import Mathlib.Algebra.BigOperators.Ring.Finset
import Mathlib.Data.Nat.ModEq
import Mathlib.Tactic.Ring

namespace DigitProducts
open Finset

/-- A digit of a number, the least significant one first. -/
def digit (base x i : Nat) : Nat := x / base ^ i % base

/-- The number that the first digits make. -/
def value (base n : Nat) (x : Nat → Nat) : Nat := ∑ i ∈ range n, x i * base ^ i

/-- The products of digits that count for one place of a product. -/
def column (x y : Nat → Nat) (k : Nat) : Nat := ∑ p ∈ antidiagonal k, x p.1 * y p.2

variable {x y : Nat → Nat}

theorem value_digit (base n x : Nat) : value base n (digit base x) = x % base ^ n := by
  induction n with
  | zero => simp [value, Nat.mod_one]
  | succ n ih =>
    rw [value] at ih
    rw [value, sum_range_succ, ih, digit, Nat.mod_pow_succ, Nat.mul_comm (base ^ n)]

theorem value_succ (base n : Nat) (x : Nat → Nat) : value base (n + 1) x = x 0 + base * value base n fun i =>
      x (i + 1) := by
  rw [value, sum_range_succ', Nat.pow_zero, Nat.mul_one, Nat.add_comm, value, mul_sum]
  refine congrArg (x 0 + ·) (sum_congr rfl fun i _ => ?_)
  ring

theorem column_succ (x y : Nat → Nat) (k : Nat) :
    column x y (k + 1) = x 0 * y (k + 1) + column (fun i => x (i + 1)) y k :=
  Nat.sum_antidiagonal_succ

/-- The columns make the product, up to what is carried out of the digits. -/
theorem value_column (base n : Nat) (x y : Nat → Nat) :
    value base n (column x y) ≡ value base n x * value base n y [MOD base ^ n] := by
  induction n generalizing x with
  | zero => simp [Nat.modEq_one]
  | succ n ih =>
    have rest := ih fun i => x (i + 1)
    have top : value base (n + 1) y ≡ value base n y [MOD base ^ n] := by
      rw [value, sum_range_succ]
      simp [value, Nat.ModEq]
    have columns : value base (n + 1) (column x y) =
        x 0 * value base (n + 1) y + base * value base n (column (fun i => x (i + 1)) y) := by
      rw [value_succ, value_succ, Nat.mul_add, ← Nat.mul_assoc, Nat.mul_comm (x 0) base, Nat.mul_assoc,
        Nat.add_assoc,
        ← Nat.mul_add]
      refine congrArg₂ (fun first later => first + base * later) (by simp [column]) ?_
      rw [value, value, value, mul_sum, ← sum_add_distrib]
      refine sum_congr rfl fun k _ => ?_
      rw [column_succ]
      ring
    calc value base (n + 1) (column x y)
        = x 0 * value base (n + 1) y + base * value base n (column (fun i => x (i + 1)) y) := columns
      _ ≡ x 0 * value base (n + 1) y + base * ((value base n fun i => x (i + 1)) * value base (n + 1) y)
          [MOD base ^ (n + 1)] := by
        rw [Nat.pow_succ, Nat.mul_comm (base ^ n)]
        exact Nat.ModEq.add_left _ ((rest.trans (top.symm.mul_left _)).mul_left' base)
      _ = value base (n + 1) x * value base (n + 1) y := by rw [value_succ base n x]; ring

end DigitProducts
