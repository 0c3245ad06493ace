import Mathlib.Data.BitVec
import Mathlib.Data.List.Count
import Mathlib.Tactic.IntervalCases

namespace Upmem

/-- `dpu_bitfield_t`: one bit for each DPU of a control interface. -/
abbrev DpuBitfield := BitVec 8

/-- `dpu_selected_mask_t`. -/
abbrev DpuSelectedMask := BitVec 32

def DPU_MAX_NR_CIS : Nat := 8
def DPU_MAX_NR_DPUS_PER_CI : Nat := 8

/-- `__builtin_popcount`. -/
def popcount {w : Nat} (m : BitVec w) : Nat :=
  (List.range w).countP fun i => m.getLsbD i

def dpuMaskEmpty : DpuBitfield := 0#8

def dpuMaskOne (dpuId : Nat) : DpuBitfield := 1#8 <<< dpuId

def dpuMaskAll (nbOfDpus : Nat) : DpuBitfield := BitVec.ofNat 8 (1 <<< nbOfDpus - 1)

def dpuMaskIntersection (mask₁ mask₂ : DpuBitfield) : DpuBitfield := mask₁ &&& mask₂

def dpuMaskIsSelected (mask : DpuBitfield) (dpuId : Nat) : Bool :=
  dpuMaskIntersection mask (dpuMaskOne dpuId) != dpuMaskEmpty

def dpuMaskCount (mask : DpuBitfield) : Nat := popcount mask

theorem popcount_eq_zero {w : Nat} {m : BitVec w} : popcount m = 0 ↔ m = 0#w := by
  simp only [popcount, List.countP_eq_zero, List.mem_range, Bool.not_eq_true]
  constructor
  · intro none
    exact BitVec.eq_of_getLsbD_eq fun i inside => by simpa using none i inside
  · rintro rfl i _
    exact BitVec.getLsbD_zero

@[simp] theorem dpuMaskOne_getLsbD {dpuId i : Nat} (inside : i < 8) :
    (dpuMaskOne dpuId).getLsbD i = decide (i = dpuId) := by
  simp only [dpuMaskOne, BitVec.getLsbD_shiftLeft, BitVec.getLsbD_one, inside, decide_true, Bool.true_and]
  by_cases below : i < dpuId
  · simp [below, below.ne]
  · simp only [below, decide_false, Bool.not_false, Bool.true_and]
    exact decide_eq_decide.mpr (by omega)

/-- A bitfield of all DPUs of a control interface holds those below their number. -/
theorem dpuMaskAll_getLsbD {nbOfDpus : Nat} (small : nbOfDpus ≤ 8) (i : Nat) :
    (dpuMaskAll nbOfDpus).getLsbD i = decide (i < nbOfDpus) := by
  rw [dpuMaskAll, BitVec.getLsbD_ofNat, Nat.one_shiftLeft, Nat.testBit_two_pow_sub_one]
  by_cases below : i < nbOfDpus
  · simp [below, below.trans_le small]
  · simp [below]

/-- Selecting a DPU leaves the bits of every other DPU as they are. -/
theorem getLsbD_or_dpuMaskOne_of_ne {m : DpuBitfield} {dpuId i : Nat} (inside : i < 8) (other : i ≠ dpuId) :
    (m ||| dpuMaskOne dpuId).getLsbD i = m.getLsbD i := by
  rw [BitVec.getLsbD_or, dpuMaskOne_getLsbD inside]
  simp [other]

/-- Selecting a DPU that a bitfield does not hold adds one to its count. -/
theorem popcount_or_dpuMaskOne {m : DpuBitfield} {dpuId : Nat} (inside : dpuId < 8)
    (clear : m.getLsbD dpuId = false) : popcount (m ||| dpuMaskOne dpuId) = popcount m + 1 := by
  have split : List.range 8 = List.range dpuId ++ dpuId :: List.range' (dpuId + 1) (7 - dpuId) := by
    interval_cases dpuId <;> rfl
  have below : (List.range dpuId).countP (fun i => (m ||| dpuMaskOne dpuId).getLsbD i) =
      (List.range dpuId).countP (fun i => m.getLsbD i) := by
    refine List.countP_congr fun i member => ?_
    have lower := List.mem_range.mp member
    rw [getLsbD_or_dpuMaskOne_of_ne (by omega) lower.ne]
  have above : (List.range' (dpuId + 1) (7 - dpuId)).countP (fun i => (m ||| dpuMaskOne dpuId).getLsbD i) =
      (List.range' (dpuId + 1) (7 - dpuId)).countP (fun i => m.getLsbD i) := by
    refine List.countP_congr fun i member => ?_
    obtain ⟨lower, upper⟩ := List.mem_range'_1.mp member
    rw [getLsbD_or_dpuMaskOne_of_ne (by omega) (by omega)]
  have here : (m ||| dpuMaskOne dpuId).getLsbD dpuId = true := by
    rw [BitVec.getLsbD_or, dpuMaskOne_getLsbD inside]
    simp
  simp only [popcount, split, List.countP_append, List.countP_cons, below, above, here, clear,
    Bool.false_eq_true, if_true, if_false]
  omega

theorem dpuMaskIsSelected_eq {mask : DpuBitfield} {dpuId : Nat} (inside : dpuId < 8) :
    dpuMaskIsSelected mask dpuId = mask.getLsbD dpuId := by
  simp only [dpuMaskIsSelected, dpuMaskIntersection, dpuMaskEmpty]
  cases at_bit : mask.getLsbD dpuId with
  | true =>
    rw [bne_iff_ne]
    intro empty
    have := congrArg (BitVec.getLsbD · dpuId) empty
    simp [at_bit, dpuMaskOne_getLsbD inside] at this
  | false =>
    rw [bne_eq_false_iff_eq]
    refine BitVec.eq_of_getLsbD_eq fun i small => ?_
    rw [BitVec.getLsbD_and, dpuMaskOne_getLsbD small, BitVec.getLsbD_zero]
    by_cases same : i = dpuId
    · simp [same, at_bit]
    · simp [same]

end Upmem
