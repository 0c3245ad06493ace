import Mathlib.Algebra.Order.Field.Rat
import Mathlib.Data.List.MinMax
import Mathlib.Tactic.FieldSimp
import Mathlib.Tactic.Linarith
import Mathlib.Tactic.Ring

namespace RunningMean

/-- The mean that replaces the truncated mean of `count` values when another value comes. -/
def next (mean count value : Nat) : Nat := (mean * count + value) / (count + 1)

/-- The mean that is rebuilt from its own truncated value at each value. The latest value comes first. -/
def after : List Nat → Nat
  | [] => 0
  | value :: earlier => next (after earlier) earlier.length value

variable {values : List Nat}

@[simp] theorem after_cons (value : Nat) (earlier : List Nat) :
    after (value :: earlier) = next (after earlier) earlier.length value := rfl

/-- What a division leaves of the sum that it truncates. -/
theorem next_exact (mean count value : Nat) :
    (count + 1) * next mean count value + (mean * count + value) % (count + 1) = mean * count + value :=
  Nat.div_add_mod _ _

/-- No value is counted with more than it has. -/
theorem length_mul_after_le (values : List Nat) : values.length * after values ≤ values.sum := by
  induction values with
  | nil => simp
  | cons value earlier ih =>
    have exact := next_exact (after earlier) earlier.length value
    rw [Nat.mul_comm] at ih
    rw [after_cons, List.length_cons, List.sum_cons]
    omega

/-- The value that comes after `count` others loses at most `count`, so twice the loss is
at most that of all values. -/
theorem sum_le_length_mul_after (values : List Nat) :
    2 * values.sum + values.length ≤ 2 * (values.length * after values) + values.length * values.length := by
  induction values with
  | nil => simp
  | cons value earlier ih =>
    have exact := next_exact (after earlier) earlier.length value
    have lost : (after earlier * earlier.length + value) % (earlier.length + 1) < earlier.length + 1 :=
      Nat.mod_lt _ (Nat.succ_pos _)
    have square : (earlier.length + 1) * (earlier.length + 1) = earlier.length * earlier.length +
        2 * earlier.length + 1 := by
      ring
    rw [Nat.mul_comm earlier.length (after earlier)] at ih
    rw [after_cons, List.length_cons, List.sum_cons, square]
    omega

theorem le_after {low : Nat} (some : values ≠ []) (bound : ∀ value ∈ values, low ≤ value) : low ≤ after values := by
  induction values with
  | nil => exact absurd rfl some
  | cons value earlier ih =>
    have here := bound value List.mem_cons_self
    rw [after_cons, next, Nat.le_div_iff_mul_le (Nat.succ_pos _)]
    by_cases first : earlier = []
    · subst first
      simpa using here
    · have before := ih first fun other member => bound other (List.mem_cons_of_mem _ member)
      calc low * (earlier.length + 1) = low * earlier.length + low := by ring
        _ ≤ after earlier * earlier.length + value := Nat.add_le_add (Nat.mul_le_mul_right _ before) here

theorem after_le {high : Nat} (bound : ∀ value ∈ values, value ≤ high) : after values ≤ high := by
  induction values with
  | nil => exact Nat.zero_le _
  | cons value earlier ih =>
    have before := ih fun other member => bound other (List.mem_cons_of_mem _ member)
    have here := bound value List.mem_cons_self
    refine Nat.div_le_of_le_mul ?_
    calc after earlier * earlier.length + value ≤ high * earlier.length + high :=
          Nat.add_le_add (Nat.mul_le_mul_right _ before) here
      _ = (earlier.length + 1) * high := by ring

theorem minimum_le_after (some : values ≠ []) : values.minimum ≤ (after values : WithTop Nat) := by
  have least := List.coe_minimum_of_length_pos (List.length_pos_iff.mpr some)
  rw [← least]
  refine WithTop.coe_le_coe.mpr (le_after some fun value member => ?_)
  exact List.minimum_of_length_pos_le_of_mem member (List.length_pos_iff.mpr some)

theorem after_le_maximum (some : values ≠ []) : (after values : WithBot Nat) ≤ values.maximum := by
  have greatest := List.coe_maximum_of_length_pos (List.length_pos_iff.mpr some)
  rw [← greatest]
  refine WithBot.coe_le_coe.mpr (after_le fun value member => ?_)
  exact List.le_maximum_of_length_pos_of_mem member (List.length_pos_iff.mpr some)

/-- The rebuilt mean never exceeds the mean. -/
theorem after_le_mean (some : values ≠ []) : (after values : ℚ) ≤ values.sum / values.length := by
  have positive : (0 : ℚ) < values.length := by exact_mod_cast List.length_pos_iff.mpr some
  rw [le_div_iff₀ positive, mul_comm]
  exact_mod_cast length_mul_after_le values

/-- It falls behind the mean by less than half a unit for each value. -/
theorem mean_sub_after_le (some : values ≠ []) :
    (values.sum / values.length : ℚ) - after values ≤ (values.length - 1) / 2 := by
  have positive : (0 : ℚ) < values.length := by exact_mod_cast List.length_pos_iff.mpr some
  have behind : (2 * values.sum + values.length : ℚ) ≤ 2 * (values.length * after values) +
      values.length * values.length := by
    exact_mod_cast sum_le_length_mul_after values
  rw [sub_le_iff_le_add, div_le_iff₀ positive]
  linarith

end RunningMean
