import Mathlib.Data.BitVec
import Mathlib.Logic.Function.Basic

namespace PackedBits
variable {words : Nat → BitVec 32} {x : BitVec 32} {slot other : Nat}

/-- A bit of an array of words, by its place in all of them. -/
def bitAt (words : Nat → BitVec 32) (slot : Nat) : Bool :=
  (words (slot / 32)).getLsbD (slot % 32)

theorem place_lt (slot : Nat) : slot % 32 < 32 := Nat.mod_lt _ (by decide)

theorem and_twoPow_eq_zero {k : Nat} (inside : k < 32) : x &&& BitVec.twoPow 32 k = 0#32 ↔ x.getLsbD k = false := by
  rw [BitVec.and_twoPow]
  split_ifs with bit
  · refine iff_of_false (fun zero => ?_) (by simp [bit])
    have same := congrArg (BitVec.getLsbD · k) zero
    simp [inside] at same
  · simpa using bit

theorem bitAt_eq_false : words (slot / 32) &&& BitVec.twoPow 32 (slot % 32) = 0#32 ↔ bitAt words slot = false :=
  and_twoPow_eq_zero (place_lt slot)

/-- Taking a bit that is set off a word clears it. -/
theorem sub_twoPow {k : Nat} (inside : k < 32) (bit : x.getLsbD k = true) :
    x - BitVec.twoPow 32 k = x &&& ~~~BitVec.twoPow 32 k := by
  have split : (x &&& ~~~BitVec.twoPow 32 k) + BitVec.twoPow 32 k = x := by
    rw [BitVec.add_eq_or_of_and_eq_zero]
    · ext i below
      by_cases same : k = i
      · subst same
        simp [inside, ← BitVec.getLsbD_eq_getElem, bit]
      · simp [BitVec.getElem_twoPow, Ne.symm same]
    · ext i below
      simp
  rw [BitVec.sub_eq_iff_eq_add]
  exact split.symm

theorem bitAt_sub (bit : bitAt words slot = true) : bitAt
    (Function.update words (slot / 32) (words (slot / 32) - BitVec.twoPow 32 (slot % 32))) other =
      (bitAt words other && decide (other ≠ slot)) := by
  unfold bitAt at *
  by_cases word : other / 32 = slot / 32
  · rw [word, Function.update_self, sub_twoPow (place_lt slot) bit, BitVec.getLsbD_and, BitVec.getLsbD_not,
      BitVec.getLsbD_twoPow]
    have same : slot % 32 = other % 32 ↔ other = slot := by omega
    simp [place_lt, same]
  · have differ : other ≠ slot := fun same => word (by rw [same])
    rw [Function.update_of_ne word]
    simp [differ]

theorem bitAt_or :
    bitAt (Function.update words (slot / 32) (words (slot / 32) ||| BitVec.twoPow 32 (slot % 32))) other =
    (bitAt words other || decide (other = slot)) := by
  unfold bitAt
  by_cases word : other / 32 = slot / 32
  · rw [word, Function.update_self, BitVec.getLsbD_or, BitVec.getLsbD_twoPow]
    have same : slot % 32 = other % 32 ↔ other = slot := by omega
    simp [place_lt, same]
  · have differ : other ≠ slot := fun same => word (by rw [same])
    rw [Function.update_of_ne word]
    simp [differ]

end PackedBits
