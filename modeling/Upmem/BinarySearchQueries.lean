import Mathlib.Data.Nat.Log
import Upmem.BinarySearchKernel

namespace Upmem.BinarySearch

/-- The blocks that the loop over the blocks reads in a step. -/
def Kernel.blocksRead (k : Kernel) (t : Tasklet) : List Nat :=
  match t.phase with
  | .block _ _ current => [current]
  | .startCheck _ _ current => if current < k.heap + BLOCK_SIZE then [current] else []
  | .endCheck _ finish current _ => if current > finish - BLOCK_SIZE then [finish - BLOCK_SIZE] else []
  | _ => []

/-- A block, whose address the DMA rounds down, is inside the input. -/
def Kernel.Inside (k : Kernel) (addr : Nat) : Prop :=
  k.heap ≤ addr / SIZEOF_DTYPE * SIZEOF_DTYPE ∧ addr / SIZEOF_DTYPE * SIZEOF_DTYPE + BLOCK_SIZE ≤ k.endOfInput

def Kernel.input (k : Kernel) (j : Nat) : Int := k.mram (k.heap / SIZEOF_DTYPE + j)

/-- The index of a value in the input, -1 for one that is absent. -/
def Kernel.position (k : Kernel) (x : Int) : Int :=
  match (List.range k.inputSize).find? fun j => k.input j = x with
  | some j => j
  | none => -1

/-- A tasklet after a number of steps, from what `DPU_RESULTS` has for it. -/
def Kernel.run (k : Kernel) (result : DpuResults) (steps : Nat) : Tasklet :=
  k.step^[steps] { Tasklet.start with result }

/-- A tasklet is back at the head of its loop after a number of queries. -/
def Tasklet.Through (t : Tasklet) (queries : Nat) : Prop :=
  t.phase = .target ∧ t.targets = queries

/-- The loop over the blocks reads inside the input only, and comes to an end
for each query with its answer. -/
structure Kernel.Searches (k : Kernel) (result : DpuResults) : Prop where
  reads : ∀ steps, ∀ addr ∈ k.blocksRead (k.run result steps), k.Inside addr
  answers : ∀ q < k.interval, ∃ steps, (k.run result steps).Through (q + 1) ∧
    Answers k.input k.inputSize (k.query q) (k.run result steps).result.found

/-- The middle of a range has a block of the range on both sides. -/
def Kernel.Splits (k : Kernel) (start finish : Nat) : Prop :=
  k.heap + BLOCK_SIZE ≤ (start + finish) / 2 ∧ (start + finish) / 2 + BLOCK_SIZE ≤ finish

/-- The ranges that are left of the input by halving. -/
inductive Kernel.Range (k : Kernel) : Nat → Nat → Prop
  | input : k.Range k.heap k.endOfInput
  | left {start finish : Nat} (range : k.Range start finish) (splits : k.Splits start finish) :
    k.Range start ((start + finish) / 2)
  | right {start finish : Nat} (range : k.Range start finish) (splits : k.Splits start finish) :
    k.Range ((start + finish) / 2) finish

/-- An entry is in a range, and not in the block that was read at its start. -/
def Kernel.Holds (k : Kernel) (j start finish : Nat) : Prop :=
  (start = k.heap ∨ start / SIZEOF_DTYPE + BLOCK_SIZE / SIZEOF_DTYPE ≤ k.heap / SIZEOF_DTYPE + j) ∧
    k.heap / SIZEOF_DTYPE + j < finish / SIZEOF_DTYPE

/-- The check of the end adds to the index: the last block of the range begins
that many entries before its middle, whose address is the base of the index. -/
def Kernel.Adds (k : Kernel) (j n : Nat) : Prop :=
  ∃ start finish, k.Range start finish ∧ k.Holds j start finish ∧
    finish / SIZEOF_DTYPE ≤ k.heap / SIZEOF_DTYPE + j + BLOCK_SIZE / SIZEOF_DTYPE ∧
    (start + finish) / 2 / SIZEOF_DTYPE + BLOCK_SIZE / SIZEOF_DTYPE = finish / SIZEOF_DTYPE + n

/-- The check of the end adds one to the index. -/
def Kernel.AddsOne (k : Kernel) (j : Nat) : Prop := k.Adds j 1

/-- How many entries at the start of the input no block that is read reaches. -/
def Kernel.missed (k : Kernel) : Nat :=
  k.inputSize / 2 ^ Nat.log 2 (k.inputSize / (BLOCK_SIZE / SIZEOF_DTYPE)) - BLOCK_SIZE / SIZEOF_DTYPE

/-- The decrement at the end of a query gives its answer: it takes off the one
that was added, or a query that is missed comes where the decrement of the result before it fits. -/
def Kernel.DecrementFits (k : Kernel) (before answer : Int) : Prop :=
  (∃ j : Nat, answer = j ∧ k.AddsOne j) ∨ answer < k.missed ∧ (before = answer + 1 ∨ before = -1 ∧ answer = -1)

/-- The result that a query finds in `DPU_RESULTS` when the queries before it have been answered. -/
def Kernel.before (k : Kernel) (result : DpuResults) : Nat → Int
  | 0 => result.found
  | q + 1 => k.position (k.query q)

section Reads
variable {k : Kernel} {t : Tasklet} {start finish : Nat}

theorem Kernel.Range.bounds (long : k.heap + 2 * BLOCK_SIZE ≤ k.endOfInput) (range : k.Range start finish) :
    (start = k.heap ∨ k.heap + BLOCK_SIZE ≤ start) ∧ start ≤ finish ∧ k.heap + BLOCK_SIZE ≤ finish ∧
      finish ≤ k.endOfInput := by
  induction range with
  | input => exact ⟨.inl rfl, by omega, by omega, le_rfl⟩
  | left range splits ih =>
    obtain ⟨above, room⟩ := splits
    exact ⟨ih.1, by omega, above, by omega⟩
  | right range splits ih =>
    obtain ⟨above, room⟩ := splits
    exact ⟨.inr above, by omega, ih.2.2⟩

/-- The range of a tasklet that searches. -/
def Kernel.Ranged (k : Kernel) : Phase → Prop
  | .block start finish current => k.Range start finish ∧ current = (start + finish) / 2 ∧ k.Splits start finish
  | .startCheck start finish current => k.Range start finish ∧ current = (start + finish) / 2
  | .endCheck start finish current ended =>
    k.Range start finish ∧ current = (start + finish) / 2 ∧ (ended = false → k.heap + BLOCK_SIZE ≤ current)
  | _ => True

theorem Kernel.splits_input (long : k.heap + 2 * BLOCK_SIZE ≤ k.endOfInput) : k.Splits k.heap k.endOfInput := by
  constructor <;> omega

theorem Kernel.Ranged.step (long : k.heap + 2 * BLOCK_SIZE ≤ k.endOfInput) (ranged : k.Ranged t.phase) :
    k.Ranged (k.step t).phase := by
  obtain ⟨targets, searchingFor, phase, result⟩ := t
  cases phase with
  | target =>
    simp only [Kernel.step]
    split_ifs
    · exact ⟨.input, rfl, splits_input long⟩
    · trivial
  | block start finish current =>
    obtain ⟨range, rfl, splits⟩ := ranged
    simp only [Kernel.step]
    split_ifs
    · trivial
    · exact ⟨range.left splits, by rw [Nat.add_comm]⟩
    · exact ⟨range.right splits, rfl⟩
  | startCheck start finish current =>
    obtain ⟨range, middle⟩ := ranged
    by_cases low : current < k.heap + BLOCK_SIZE
    · simp only [Kernel.step, if_pos low]
      exact ⟨range, middle, fun ended => by cases ended⟩
    · simp only [Kernel.step, if_neg low]
      exact ⟨range, middle, fun _ => not_lt.mp low⟩
  | endCheck start finish current ended =>
    obtain ⟨range, rfl, above⟩ := ranged
    have bounds := range.bounds long
    by_cases high : (start + finish) / 2 > finish - BLOCK_SIZE
    · simp only [Kernel.step, if_pos high]
      trivial
    · simp only [Kernel.step, if_neg high]
      split_ifs with ends
      · trivial
      · exact ⟨range, rfl, above (by simpa using ends), by omega⟩
  | decrement => trivial
  | index => trivial
  | done => trivial

theorem Kernel.ranged (long : k.heap + 2 * BLOCK_SIZE ≤ k.endOfInput) (result : DpuResults) (steps : Nat) :
    k.Ranged (k.run result steps).phase := by
  induction steps with
  | zero => trivial
  | succ steps ih =>
    rw [Kernel.run, Function.iterate_succ_apply']
    exact Kernel.Ranged.step long ih

/-- Every block that is read is inside an input of two blocks at least. -/
theorem Kernel.reads_inside (long : k.heap + 2 * BLOCK_SIZE ≤ k.endOfInput) (ranged : k.Ranged t.phase) {addr : Nat}
    (reads : addr ∈ k.blocksRead t) : k.Inside addr := by
  suffices k.heap ≤ addr ∧ addr + BLOCK_SIZE ≤ k.endOfInput by
    obtain ⟨word, start⟩ := k.aligned
    unfold Kernel.Inside SIZEOF_DTYPE at *
    omega
  obtain ⟨targets, searchingFor, phase, result⟩ := t
  cases phase with
  | block start finish current =>
    obtain ⟨range, rfl, above, room⟩ := ranged
    have bounds := range.bounds long
    rw [List.mem_singleton.mp reads]
    omega
  | startCheck start finish current =>
    obtain ⟨range, rfl⟩ := ranged
    have bounds := range.bounds long
    simp only [Kernel.blocksRead] at reads
    split_ifs at reads with low
    · rw [List.mem_singleton.mp reads]
      omega
    · cases reads
  | endCheck start finish current ended =>
    obtain ⟨range, rfl, _⟩ := ranged
    have bounds := range.bounds long
    simp only [Kernel.blocksRead] at reads
    split_ifs at reads
    · rw [List.mem_singleton.mp reads]
      omega
    · cases reads
  | target => cases reads
  | decrement => cases reads
  | index => cases reads
  | done => cases reads

end Reads

section Blocks
variable {k : Kernel} {j addr : Nat}

theorem Kernel.input_le_iff (sorted : Sorted k.input k.inputSize) {i : Nat} (inside : j < k.inputSize)
    (bound : i < k.inputSize) : k.input i ≤ k.input j ↔ i ≤ j := by
  constructor
  · intro le
    by_contra after
    exact absurd (sorted j i (not_le.mp after) bound) (not_lt.mpr le)
  · intro le
    rcases Nat.lt_or_eq_of_le le with before | same
    · exact (sorted i j before inside).le
    · rw [same]

/-- A block inside the input has its entries from an index on. -/
theorem Kernel.mramRead_input (lower : k.heap ≤ addr) (i : Nat) :
    k.mramRead addr i = k.input (addr / SIZEOF_DTYPE - k.heap / SIZEOF_DTYPE + i) := by
  have words : k.heap / SIZEOF_DTYPE ≤ addr / SIZEOF_DTYPE := Nat.div_le_div_right lower
  rw [Kernel.mramRead, Kernel.input]
  congr 1
  omega

theorem Kernel.block_fits (lower : k.heap ≤ addr) (upper : addr + BLOCK_SIZE ≤ k.endOfInput) :
    addr / SIZEOF_DTYPE - k.heap / SIZEOF_DTYPE + BLOCK_SIZE / SIZEOF_DTYPE ≤ k.inputSize := by
  obtain ⟨word, start⟩ := k.aligned
  unfold Kernel.endOfInput BLOCK_SIZE SIZEOF_DTYPE at *
  omega

section Sorted
variable (addr) (sorted : Sorted k.input k.inputSize) (inside : j < k.inputSize) (lower : k.heap ≤ addr)
  (upper : addr + BLOCK_SIZE ≤ k.endOfInput)
include sorted inside lower upper

/-- An entry ahead of a block. -/
theorem Kernel.search_ahead (ahead : k.heap / SIZEOF_DTYPE + j < addr / SIZEOF_DTYPE) :
    search (k.mramRead addr) (k.input j) = -2 := by
  have wide : 0 < BLOCK_SIZE / SIZEOF_DTYPE := by decide
  have fits := k.block_fits lower upper
  refine if_neg ?_
  rw [k.mramRead_input lower, k.input_le_iff sorted inside (by omega)]
  omega

/-- An entry of a block. -/
theorem Kernel.search_inside (above : addr / SIZEOF_DTYPE ≤ k.heap / SIZEOF_DTYPE + j)
    (below : k.heap / SIZEOF_DTYPE + j < addr / SIZEOF_DTYPE + BLOCK_SIZE / SIZEOF_DTYPE) :
    search (k.mramRead addr) (k.input j) = (k.heap / SIZEOF_DTYPE + j - addr / SIZEOF_DTYPE : Nat) := by
  have fits := k.block_fits lower upper
  have words : k.heap / SIZEOF_DTYPE ≤ addr / SIZEOF_DTYPE := Nat.div_le_div_right lower
  have found : ((List.range (BLOCK_SIZE / SIZEOF_DTYPE)).find? fun i => k.mramRead addr i = k.input j) =
      some (k.heap / SIZEOF_DTYPE + j - addr / SIZEOF_DTYPE) := by
    rw [List.find?_range_eq_some]
    refine ⟨?_, List.mem_range.mpr (by omega), fun i before => ?_⟩
    · rw [k.mramRead_input lower, decide_eq_true_eq]
      congr 1
      omega
    · have less := sorted (addr / SIZEOF_DTYPE - k.heap / SIZEOF_DTYPE + i) j (by omega) inside
      simp [k.mramRead_input lower, less.ne]
  rw [search, found, if_pos]
  rw [k.mramRead_input lower, k.input_le_iff sorted inside (by omega)]
  omega

/-- An entry behind a block. -/
theorem Kernel.search_behind (behind : addr / SIZEOF_DTYPE +
      BLOCK_SIZE / SIZEOF_DTYPE ≤ k.heap / SIZEOF_DTYPE + j) :
    search (k.mramRead addr) (k.input j) = -1 := by
  have wide : 0 < BLOCK_SIZE / SIZEOF_DTYPE := by decide
  have fits := k.block_fits lower upper
  have words : k.heap / SIZEOF_DTYPE ≤ addr / SIZEOF_DTYPE := Nat.div_le_div_right lower
  have missing :
      ((List.range (BLOCK_SIZE / SIZEOF_DTYPE)).find? fun i => k.mramRead addr i = k.input j) = none := by
    rw [List.find?_eq_none]
    intro i member
    have below := List.mem_range.mp member
    have less := sorted (addr / SIZEOF_DTYPE - k.heap / SIZEOF_DTYPE + i) j (by omega) inside
    simp [k.mramRead_input lower, less.ne]
  rw [search, missing]
  exact if_pos ((k.mramRead_input lower 0).trans_le ((k.input_le_iff sorted inside (by omega)).mpr (by omega)))

end Sorted

end Blocks

section Missed
variable {k : Kernel} {start finish : Nat}

theorem Kernel.Range.at_heap (range : k.Range start finish) (front : start = k.heap) :
    ∃ i, finish = k.heap + SIZEOF_DTYPE * k.inputSize / 2 ^ i := by
  induction range with
  | input => exact ⟨0, by rw [pow_zero, Nat.div_one, Kernel.endOfInput]⟩
  | left range splits ih =>
    subst front
    obtain ⟨i, rfl⟩ := ih rfl
    refine ⟨i + 1, ?_⟩
    rw [pow_succ, ← Nat.div_div_eq_div_mul]
    omega
  | right range splits ih =>
    have above : k.heap + BLOCK_SIZE ≤ k.heap := front ▸ splits.1
    exact absurd above (Nat.not_le.mpr (Nat.lt_add_of_pos_right (by decide)))

theorem Kernel.missed_lt : k.missed < BLOCK_SIZE / SIZEOF_DTYPE := by
  have small := Nat.lt_pow_succ_log_self one_lt_two (k.inputSize / (BLOCK_SIZE / SIZEOF_DTYPE))
  have positive : 0 < 2 ^ Nat.log 2 (k.inputSize / (BLOCK_SIZE / SIZEOF_DTYPE)) := Nat.two_pow_pos _
  rw [Kernel.missed]
  have fewer : k.inputSize / 2 ^ Nat.log 2 (k.inputSize / (BLOCK_SIZE / SIZEOF_DTYPE)) < 64 := by
    rw [Nat.div_lt_iff_lt_mul positive]
    rw [Nat.div_lt_iff_lt_mul (by decide), pow_succ] at small
    calc k.inputSize < 2 ^ Nat.log 2 (k.inputSize / (BLOCK_SIZE / SIZEOF_DTYPE)) * 2 * 32 := small
      _ = 64 * 2 ^ Nat.log 2 (k.inputSize / (BLOCK_SIZE / SIZEOF_DTYPE)) := by ring
  have wide : BLOCK_SIZE / SIZEOF_DTYPE = 32 := rfl
  omega

/-- The range at the front that is not halved again ends behind what is missed and one block. -/
theorem Kernel.Range.missed_eq (long : k.heap + 2 * BLOCK_SIZE ≤ k.endOfInput) (range : k.Range k.heap finish)
    (ends : ¬k.Splits k.heap finish) :
    finish / SIZEOF_DTYPE = k.heap / SIZEOF_DTYPE + BLOCK_SIZE / SIZEOF_DTYPE + k.missed := by
  have bounds := range.bounds long
  obtain ⟨i, rfl⟩ := range.at_heap rfl
  obtain ⟨word, start⟩ := k.aligned
  have positive : 0 < 2 ^ i := Nat.two_pow_pos _
  unfold Kernel.Splits BLOCK_SIZE at *
  have lower : 2 ^ i ≤ k.inputSize / 32 := by
    have enough : 256 ≤ SIZEOF_DTYPE * k.inputSize / 2 ^ i := by omega
    rw [Nat.le_div_iff_mul_le positive, SIZEOF_DTYPE] at enough
    omega
  have upper : k.inputSize / 32 < 2 ^ (i + 1) := by
    have less : SIZEOF_DTYPE * k.inputSize / 2 ^ i < 512 := by omega
    rw [Nat.div_lt_iff_lt_mul positive, SIZEOF_DTYPE] at less
    omega
  have log : Nat.log 2 (k.inputSize / 32) = i := Nat.log_eq_of_pow_le_of_lt_pow lower upper
  have entries : SIZEOF_DTYPE * k.inputSize / 2 ^ i / SIZEOF_DTYPE = k.inputSize / 2 ^ i := by
    rw [Nat.div_div_eq_div_mul, Nat.mul_comm (2 ^ i), Nat.mul_div_mul_left _ _ (by decide)]
  have enough : 32 ≤ k.inputSize / 2 ^ i := by
    rw [Nat.le_div_iff_mul_le positive]
    omega
  have missed : k.missed = k.inputSize / 2 ^ i - 32 := by rw [← log]; rfl
  rw [missed]
  unfold SIZEOF_DTYPE at *
  omega

end Missed

section Checks
variable {k : Kernel} {t : Tasklet} {j start finish current addr : Nat}

variable (j current addr) in
/-- A hit is stored as an index that is off by how far the block is from the current one. -/
theorem Kernel.store_inside (base : k.heap ≤ current) (above : addr / SIZEOF_DTYPE ≤ k.heap / SIZEOF_DTYPE + j)
    (near : addr / SIZEOF_DTYPE ≤ current / SIZEOF_DTYPE) :
    k.store t (k.heap / SIZEOF_DTYPE + j - addr / SIZEOF_DTYPE : Nat) current =
      { t.result with found := (j + (current / SIZEOF_DTYPE - addr / SIZEOF_DTYPE) : Nat) } := by
  have index : (current - k.heap) / SIZEOF_DTYPE = current / SIZEOF_DTYPE - k.heap / SIZEOF_DTYPE := by
    obtain ⟨word, start⟩ := k.aligned
    unfold SIZEOF_DTYPE at *
    omega
  have words : k.heap / SIZEOF_DTYPE ≤ current / SIZEOF_DTYPE := Nat.div_le_div_right base
  rw [Kernel.store, index, ← Nat.cast_add]
  congr 2
  omega

theorem nonneg_hit (n : Nat) : (n : Int) > -1 := by omega

section Sorted
variable (sorted : Sorted k.input k.inputSize) (inside : j < k.inputSize) (searching : t.searchingFor = k.input j)
  (long : k.heap + 2 * BLOCK_SIZE ≤ k.endOfInput) (range : k.Range start finish) (holds : k.Holds j start finish)
include sorted inside searching long range holds

/-- The check of the start at a range that is not halved again. -/
theorem Kernel.step_startCheck (ends : ¬k.Splits start finish)
    (at_phase : t.phase = .startCheck start finish ((start + finish) / 2)) :
    k.step t = { t with
      result := if (start + finish) / 2 < k.heap + BLOCK_SIZE ∧
          (start + finish) / 2 / SIZEOF_DTYPE ≤ k.heap / SIZEOF_DTYPE + j then { t.result with found := j }
        else t.result
      phase := .endCheck start finish ((start + finish) / 2) ((start + finish) / 2 < k.heap + BLOCK_SIZE) } := by
  have bounds := range.bounds long
  obtain ⟨_, below⟩ := holds
  by_cases low : (start + finish) / 2 < k.heap + BLOCK_SIZE
  · by_cases above : (start + finish) / 2 / SIZEOF_DTYPE ≤ k.heap / SIZEOF_DTYPE + j
    · have found := k.search_inside _ sorted inside (by omega) (by omega) above (by
        have narrow : ¬(k.heap + 256 ≤ (start + finish) / 2 ∧ (start + finish) / 2 + 256 ≤ finish) := ends
        unfold BLOCK_SIZE SIZEOF_DTYPE at *
        omega)
      have stored := k.store_inside (t := t) j ((start + finish) / 2) ((start + finish) / 2) (by omega) above le_rfl
      rw [Nat.sub_self, Nat.add_zero] at stored
      rw [Kernel.step, at_phase]
      simp only [searching, found, if_pos (nonneg_hit _), stored, low, above, and_self, if_true, decide_true]
    · have ahead := k.search_ahead ((start + finish) / 2) sorted inside (by omega) (by omega) (by omega)
      simp [Kernel.step, at_phase, low, above, searching, ahead]
  · simp [Kernel.step, at_phase, low]

/-- The check of the end where it ends the loop. -/
theorem Kernel.step_endCheck {ended : Bool}
    (at_phase : t.phase = .endCheck start finish ((start + finish) / 2) ended)
    (ends : (start + finish) / 2 > finish - BLOCK_SIZE ∨ ended = true) :
    k.step t = { t with
      result := if (start + finish) / 2 > finish - BLOCK_SIZE ∧
          finish / SIZEOF_DTYPE ≤ k.heap / SIZEOF_DTYPE + j + BLOCK_SIZE / SIZEOF_DTYPE then
          { t.result with found := (j + ((start + finish) / 2 / SIZEOF_DTYPE + BLOCK_SIZE / SIZEOF_DTYPE -
            finish / SIZEOF_DTYPE) : Nat) }
        else t.result
      phase := .decrement } := by
  have bounds := range.bounds long
  obtain ⟨_, below⟩ := holds
  by_cases high : (start + finish) / 2 > finish - BLOCK_SIZE
  · have block : (finish - BLOCK_SIZE) / SIZEOF_DTYPE = finish / SIZEOF_DTYPE - BLOCK_SIZE / SIZEOF_DTYPE := by
      unfold BLOCK_SIZE SIZEOF_DTYPE at *
      omega
    have wide : BLOCK_SIZE / SIZEOF_DTYPE ≤ finish / SIZEOF_DTYPE := Nat.div_le_div_right (by omega)
    by_cases above : finish / SIZEOF_DTYPE ≤ k.heap / SIZEOF_DTYPE + j + BLOCK_SIZE / SIZEOF_DTYPE
    · have found := k.search_inside (finish - BLOCK_SIZE) sorted inside (by omega) (by omega) (by omega) (by omega)
      have stored := k.store_inside (t := t) j ((start + finish) / 2) (finish - BLOCK_SIZE)
        (by omega) (by omega) (Nat.div_le_div_right (by omega))
      have shift : (start + finish) / 2 / SIZEOF_DTYPE - (finish - BLOCK_SIZE) / SIZEOF_DTYPE =
          (start + finish) / 2 / SIZEOF_DTYPE + BLOCK_SIZE / SIZEOF_DTYPE - finish / SIZEOF_DTYPE := by
        omega
      rw [shift] at stored
      rw [Kernel.step, at_phase]
      simp only [if_pos high, searching, found, if_pos (nonneg_hit _), stored, above, and_true]
    · have ahead := k.search_ahead (finish - BLOCK_SIZE) sorted inside (by omega) (by omega) (by omega)
      simp [Kernel.step, at_phase, high, above, searching, ahead]
  · simp [Kernel.step, at_phase, high, ends.resolve_left high]

/-- The checks at a range that is not halved again. -/
theorem Kernel.checks_end (ends : ¬k.Splits start finish)
    (at_phase : t.phase = .startCheck start finish ((start + finish) / 2)) :
    k.step (k.step t) = { t with
      result := if finish / SIZEOF_DTYPE ≤ k.heap / SIZEOF_DTYPE + j + BLOCK_SIZE / SIZEOF_DTYPE then
          { t.result with found := (j + ((start + finish) / 2 / SIZEOF_DTYPE + BLOCK_SIZE / SIZEOF_DTYPE -
            finish / SIZEOF_DTYPE) : Nat) }
        else t.result
      phase := .decrement } := by
  have bounds := range.bounds long
  have first := k.step_startCheck sorted inside searching long range holds ends at_phase
  have stops : (start + finish) / 2 > finish - BLOCK_SIZE ∨
      decide ((start + finish) / 2 < k.heap + BLOCK_SIZE) = true := by
    unfold Kernel.Splits at ends
    rw [decide_eq_true_eq]
    omega
  have second := k.step_endCheck (t := k.step t) sorted inside (by rw [first]; exact searching) long range holds
    (by rw [first]) stops
  rw [second, first]
  by_cases high : (start + finish) / 2 > finish - BLOCK_SIZE
  · by_cases above : finish / SIZEOF_DTYPE ≤ k.heap / SIZEOF_DTYPE + j + BLOCK_SIZE / SIZEOF_DTYPE
    · simp only [high, above, and_self, if_true]
      split_ifs <;> rfl
    · have ahead : ¬(start + finish) / 2 / SIZEOF_DTYPE ≤ k.heap / SIZEOF_DTYPE + j := by
        unfold BLOCK_SIZE SIZEOF_DTYPE at *
        omega
      simp only [above, ahead, and_false, if_false]
  · -- the last range of the front is then one byte short of two blocks
    have low : (start + finish) / 2 < k.heap + BLOCK_SIZE := by
      unfold Kernel.Splits at ends
      omega
    have block : finish / SIZEOF_DTYPE = (start + finish) / 2 / SIZEOF_DTYPE + BLOCK_SIZE / SIZEOF_DTYPE := by
      obtain ⟨word, front⟩ := k.aligned
      unfold BLOCK_SIZE SIZEOF_DTYPE at *
      omega
    simp only [high, low, block, true_and, false_and, if_false, Nat.add_le_add_iff_right, Nat.sub_self,
      Nat.add_zero]

end Sorted

/-- The checks at a range that is halved again. -/
theorem Kernel.checks_split (splits : k.Splits start finish)
    (at_phase : t.phase = .startCheck start finish ((start + finish) / 2)) :
    k.step (k.step t) = { t with phase := .block start finish ((start + finish) / 2) } := by
  obtain ⟨above, room⟩ := splits
  have low : ¬(start + finish) / 2 < k.heap + BLOCK_SIZE := by omega
  have high : ¬(start + finish) / 2 > finish - BLOCK_SIZE := by omega
  have first : k.step t = { t with phase := .endCheck start finish ((start + finish) / 2) false } := by
    simp [Kernel.step, at_phase, low]
  rw [first]
  simp only [Kernel.step, if_neg high, Bool.false_eq_true, if_false]

end Checks

section Descent
variable {k : Kernel} {t : Tasklet} {j start finish : Nat} (sorted : Sorted k.input k.inputSize)
  (inside : j < k.inputSize) (searching : t.searchingFor = k.input j)
    (long : k.heap + 2 * BLOCK_SIZE ≤ k.endOfInput)
include sorted inside searching long

section Block
variable (range : k.Range start finish) (splits : k.Splits start finish)
  (at_phase : t.phase = .block start finish ((start + finish) / 2))
include range splits at_phase

theorem Kernel.step_left (ahead : k.heap / SIZEOF_DTYPE + j < (start + finish) / 2 / SIZEOF_DTYPE) :
    k.step t =
      { t with phase := .startCheck start ((start + finish) / 2) ((start + (start + finish) / 2) / 2) } := by
  have bounds := range.bounds long
  obtain ⟨above, room⟩ := splits
  have left := k.search_ahead _ sorted inside (by omega) (by omega) ahead
  simp [Kernel.step, at_phase, searching, left, Nat.add_comm ((start + finish) / 2)]

theorem Kernel.step_right
    (behind : (start + finish) / 2 / SIZEOF_DTYPE + BLOCK_SIZE / SIZEOF_DTYPE ≤ k.heap / SIZEOF_DTYPE + j) :
    k.step t =
      { t with phase := .startCheck ((start + finish) / 2) finish (((start + finish) / 2 + finish) / 2) } := by
  have bounds := range.bounds long
  obtain ⟨above, room⟩ := splits
  have right := k.search_behind _ sorted inside (by omega) (by omega) behind
  simp [Kernel.step, at_phase, searching, right]

theorem Kernel.step_hit (above : (start + finish) / 2 / SIZEOF_DTYPE ≤ k.heap / SIZEOF_DTYPE + j)
    (below : k.heap / SIZEOF_DTYPE + j < (start + finish) / 2 / SIZEOF_DTYPE + BLOCK_SIZE / SIZEOF_DTYPE) :
    k.step t = { t with result := { t.result with found := j }, phase := .decrement } := by
  have bounds := range.bounds long
  obtain ⟨front, room⟩ := splits
  have found := k.search_inside _ sorted inside (by omega) (by omega) above below
  have stored := k.store_inside (t := t) j ((start + finish) / 2) ((start + finish) / 2) (by omega) above le_rfl
  rw [Nat.sub_self, Nat.add_zero] at stored
  rw [Kernel.step, at_phase]
  simp only [searching, found, if_pos (nonneg_hit _), stored]

end Block

omit sorted inside searching long in
/-- A range that is halved again, with the search of the block in its middle. -/
theorem Kernel.split_steps (splits : k.Splits start finish)
    (at_phase : t.phase = .startCheck start finish ((start + finish) / 2)) :
    k.step^[3] t = k.step { t with phase := .block start finish ((start + finish) / 2) } :=
  congrArg k.step (k.checks_split splits at_phase)

/-- The search gets to every range of the input that has the entry. -/
theorem Kernel.Range.reached (range : k.Range start finish) (holds : k.Holds j start finish) :
    ∃ steps, k.step^[steps] { t with phase := .startCheck k.heap k.endOfInput ((k.heap + k.endOfInput) / 2) } =
      { t with phase := .startCheck start finish ((start + finish) / 2) } := by
  induction range with
  | input => exact ⟨0, rfl⟩
  | @left start finish range splits ih =>
    have bounds := range.bounds long
    obtain ⟨front, below⟩ := holds
    obtain ⟨steps, reached⟩ := ih ⟨front, below.trans_le (Nat.div_le_div_right (by omega))⟩
    refine ⟨3 + steps, ?_⟩
    rw [Function.iterate_add_apply, reached, k.split_steps splits rfl]
    exact k.step_left (t := { t with phase := .block .. }) sorted inside searching long range splits rfl below
  | @right start finish range splits ih =>
    have bounds := range.bounds long
    have ⟨above, _⟩ := splits
    obtain ⟨front, below⟩ := holds
    have wide : 0 < BLOCK_SIZE := by decide
    have behind := front.resolve_left (by omega)
    have earlier : start / SIZEOF_DTYPE ≤ (start + finish) / 2 / SIZEOF_DTYPE := Nat.div_le_div_right (by omega)
    obtain ⟨steps, reached⟩ := ih ⟨.inr (by omega), below⟩
    refine ⟨3 + steps, ?_⟩
    rw [Function.iterate_add_apply, reached, k.split_steps splits rfl]
    exact k.step_right (t := { t with phase := .block .. }) sorted inside searching long range splits rfl behind

/-- What the search of an entry leaves as the result, before the decrement. -/
def Kernel.Outcome (k : Kernel) (j : Nat) (before after : DpuResults) : Prop :=
  (∃ n > 0, k.Adds j n) ∨ k.missed ≤ j ∧ after = { before with found := j } ∨ j < k.missed ∧ after = before

omit sorted searching inside in
/-- A range that is not halved again is the one at the front, or has the entry in its last block. -/
theorem Kernel.Range.front_or (range : k.Range start finish) (holds : k.Holds j start finish)
    (ends : ¬k.Splits start finish) :
    start = k.heap ∧ finish / SIZEOF_DTYPE = k.heap / SIZEOF_DTYPE + BLOCK_SIZE / SIZEOF_DTYPE + k.missed ∨
      BLOCK_SIZE / SIZEOF_DTYPE ≤ j ∧
      finish / SIZEOF_DTYPE ≤ k.heap / SIZEOF_DTYPE + j + BLOCK_SIZE / SIZEOF_DTYPE := by
  have bounds := range.bounds long
  have wide : 0 < BLOCK_SIZE := by decide
  rcases bounds.1 with rfl | behind
  · exact .inl ⟨rfl, range.missed_eq long ends⟩
  · refine .inr ?_
    have passed := holds.1.resolve_left (by omega)
    have narrow : ¬(k.heap + 256 ≤ (start + finish) / 2 ∧ (start + finish) / 2 + 256 ≤ finish) := ends
    unfold BLOCK_SIZE SIZEOF_DTYPE at *
    omega

omit sorted searching inside in
/-- The outcome at a range that is not halved again. -/
theorem Kernel.outcome_end (range : k.Range start finish) (holds : k.Holds j start finish)
    (ends : ¬k.Splits start finish) (before : DpuResults) :
    k.Outcome j before (if finish / SIZEOF_DTYPE ≤ k.heap / SIZEOF_DTYPE + j + BLOCK_SIZE / SIZEOF_DTYPE then
      { before with found := (j + ((start + finish) / 2 / SIZEOF_DTYPE + BLOCK_SIZE / SIZEOF_DTYPE -
        finish / SIZEOF_DTYPE) : Nat) } else before) := by
  have few := k.missed_lt
  have front := range.front_or long holds ends
  split_ifs with above
  · rcases Nat.eq_zero_or_pos ((start + finish) / 2 / SIZEOF_DTYPE + BLOCK_SIZE / SIZEOF_DTYPE -
      finish / SIZEOF_DTYPE) with same | more
    · refine .inr (.inl ⟨by omega, ?_⟩)
      rw [same, Nat.add_zero]
    · exact .inl ⟨_, more, start, finish, range, holds, above, by omega⟩
  · exact .inr (.inr ⟨by omega, rfl⟩)

omit sorted searching inside in
/-- Only an entry that a block reaches has something added to its index. -/
theorem Kernel.Adds.missed_le {n : Nat} (adds : k.Adds j n) (some : 0 < n) : k.missed ≤ j := by
  obtain ⟨start, finish, range, holds, above, shift⟩ := adds
  have few := k.missed_lt
  have ends : ¬k.Splits start finish := by
    rintro ⟨_, room⟩
    unfold BLOCK_SIZE SIZEOF_DTYPE at *
    omega
  have front := range.front_or long holds ends
  omega

/-- The search of an entry ends, with one of these outcomes. -/
theorem Kernel.search_entry (range : k.Range start finish) (holds : k.Holds j start finish)
    (at_phase : t.phase = .startCheck start finish ((start + finish) / 2)) :
    ∃ steps result, k.step^[steps + 2] t = { t with result, phase := .decrement } ∧
      k.Outcome j t.result result := by
  induction width : finish - start using Nat.strong_induction_on generalizing t start finish with
  | h width ih =>
    subst width
    have bounds := range.bounds long
    by_cases splits : k.Splits start finish
    · have ⟨front, room⟩ := splits
      have wide : 1 < BLOCK_SIZE := by decide
      have block := k.split_steps splits at_phase
      have earlier : start / SIZEOF_DTYPE ≤ (start + finish) / 2 / SIZEOF_DTYPE := Nat.div_le_div_right (by omega)
      by_cases ahead : k.heap / SIZEOF_DTYPE + j < (start + finish) / 2 / SIZEOF_DTYPE
      · rw [k.step_left (t := { t with phase := .block .. }) sorted inside searching long range splits
          rfl ahead] at block
        obtain ⟨steps, result, ends, outcome⟩ := ih ((start + finish) / 2 - start) (by omega)
          (t := { t with phase := .startCheck .. }) searching (range.left splits) ⟨holds.1, ahead⟩ rfl rfl
        refine ⟨steps + 3, result, ?_, outcome⟩
        rw [Nat.add_right_comm, Function.iterate_add_apply, block, ends]
      · by_cases behind :
          (start + finish) / 2 / SIZEOF_DTYPE + BLOCK_SIZE / SIZEOF_DTYPE ≤ k.heap / SIZEOF_DTYPE + j
        · rw [k.step_right (t := { t with phase := .block .. }) sorted inside searching long range splits rfl
            behind] at block
          obtain ⟨steps, result, ends, outcome⟩ := ih (finish - (start + finish) / 2) (by omega)
            (t := { t with phase := .startCheck .. }) searching (range.right splits) ⟨.inr behind, holds.2⟩ rfl rfl
          refine ⟨steps + 3, result, ?_, outcome⟩
          rw [Nat.add_right_comm, Function.iterate_add_apply, block, ends]
        · rw [k.step_hit (t := { t with phase := .block .. }) sorted inside searching long range splits
            rfl (by omega)
            (by omega)] at block
          have few := k.missed_lt
          have base : k.heap / SIZEOF_DTYPE + BLOCK_SIZE / SIZEOF_DTYPE ≤ (start + finish) / 2 / SIZEOF_DTYPE := by
            unfold BLOCK_SIZE SIZEOF_DTYPE at *
            omega
          exact ⟨1, _, block, .inr (.inl ⟨by omega, rfl⟩)⟩
    · exact ⟨0, _, k.checks_end sorted inside searching long range holds splits at_phase,
        k.outcome_end long range holds splits t.result⟩

end Descent

section Answers
variable {k : Kernel} {x answer : Int} {j : Nat}

theorem Kernel.position_answers (x : Int) : Answers k.input k.inputSize x (k.position x) := by
  rw [Kernel.position]
  split
  next j found =>
    obtain ⟨same, member, _⟩ := List.find?_range_eq_some.mp found
    exact .inl ⟨j, List.mem_range.mp member, by simpa using same, rfl⟩
  next missing =>
    rw [List.find?_eq_none] at missing
    exact .inr ⟨fun j inside => by simpa using missing j (List.mem_range.mpr inside), rfl⟩

theorem Kernel.answers_iff (sorted : Sorted k.input k.inputSize) :
    Answers k.input k.inputSize x answer ↔ answer = k.position x := by
  constructor
  · intro answers
    rcases answers, k.position_answers x with
      ⟨⟨j, inside, same, rfl⟩ | ⟨absent, rfl⟩, ⟨i, bound, found, index⟩ | ⟨missing, index⟩⟩
    · rw [index, le_antisymm ((k.input_le_iff sorted bound inside).mp (same.trans found.symm).le)
        ((k.input_le_iff sorted inside bound).mp (found.trans same.symm).le)]
    · exact absurd same (missing j inside)
    · exact absurd found (absent i bound)
    · exact index.symm
  · rintro rfl
    exact k.position_answers x

end Answers

section Queries
variable {k : Kernel} {t : Tasklet} {j : Nat}

/-- What comes behind the search of a query. -/
theorem Kernel.decrement_steps (at_phase : t.phase = .decrement) :
    k.step^[2] t = ⟨t.targets + 1, t.searchingFor, .target,
      ⟨if t.result.found > -1 then t.result.found - 1 else t.result.found, t.targets⟩⟩ := by
  rw [Function.iterate_succ_apply, Function.iterate_one]
  simp only [Kernel.step, at_phase]
  split_ifs <;> rfl

/-- The first step of a query is to where the checks of the whole input lead. -/
theorem Kernel.target_steps (long : k.heap + 2 * BLOCK_SIZE ≤ k.endOfInput) (at_phase : t.phase = .target)
    (more : t.targets < k.interval) (steps : Nat) :
    k.step^[steps + 1] t = k.step^[steps + 2] { t with
      searchingFor := k.query t.targets
      phase := .startCheck k.heap k.endOfInput ((k.heap + k.endOfInput) / 2) } := by
  have checks := k.checks_split (t := { t with
      searchingFor := k.query t.targets
      phase := .startCheck k.heap k.endOfInput ((k.heap + k.endOfInput) / 2) }) (splits_input long) rfl
  rw [Function.iterate_succ_apply, Function.iterate_add_apply _ steps 2]
  refine congrArg _ (Eq.trans ?_ checks.symm)
  simp [Kernel.step, at_phase, more]

/-- An index is stored for an entry of the input. -/
def Kernel.StoredAs (k : Kernel) (j i : Nat) : Prop :=
  (∃ n > 0, k.Adds j n ∧ i = j + n) ∨ (∀ n > 0, ¬k.Adds j n) ∧ k.missed ≤ j ∧ i = j

/-- An entry that blocks reach is stored as an index, one that they miss is not. -/
theorem Kernel.storedAs_or_missed (k : Kernel) (j : Nat) : (∃ i, k.StoredAs j i) ∨ j < k.missed := by
  by_cases adds : ∃ n > 0, k.Adds j n
  · obtain ⟨n, some, adds⟩ := adds
    exact .inl ⟨_, .inl ⟨n, some, adds, rfl⟩⟩
  · rcases Nat.lt_or_ge j k.missed with missed | read
    · exact .inr missed
    · exact .inl ⟨j, .inr ⟨by simpa using adds, read, rfl⟩⟩

section Entry
variable (sorted : Sorted k.input k.inputSize) (long : k.heap + 2 * BLOCK_SIZE ≤ k.endOfInput)
  (at_phase : t.phase = .target) (more : t.targets < k.interval) (inside : j < k.inputSize)
  (present : k.query t.targets = k.input j)
include sorted long at_phase more inside present

theorem Kernel.query_entry :
    ∃ steps result, k.step^[steps + 1] t = ⟨t.targets, k.query t.targets, .decrement, result⟩ ∧
      k.Outcome j t.result result := by
  have whole : k.Holds j k.heap k.endOfInput := by
    refine ⟨.inl rfl, ?_⟩
    unfold Kernel.endOfInput SIZEOF_DTYPE
    omega
  obtain ⟨steps, result, ends, outcome⟩ := k.search_entry
    (t := { t with searchingFor := k.query t.targets, phase := .startCheck .. }) sorted inside present long .input
    whole rfl
  exact ⟨steps, result, (k.target_steps long at_phase more steps).trans ends, outcome⟩

/-- The index for an entry is stored. -/
theorem Kernel.query_stores {i : Nat} (stored : k.StoredAs j i) :
    ∃ steps, k.step^[steps + 1] t =
      ⟨t.targets, k.query t.targets, .decrement, { t.result with found := i }⟩ := by
  rcases stored with ⟨n, some, ⟨start, finish, range, holds, above, shift⟩, rfl⟩ | ⟨none, read, rfl⟩
  · have ends : ¬k.Splits start finish := by
      rintro ⟨_, room⟩
      unfold BLOCK_SIZE SIZEOF_DTYPE at *
      omega
    obtain ⟨steps, reached⟩ :=
      range.reached (t := { t with searchingFor := k.query t.targets }) sorted inside present long holds
    have checks := k.checks_end (t := { t with searchingFor := k.query t.targets, phase := .startCheck .. })
      sorted inside present long range holds ends rfl
    rw [if_pos above, shift, Nat.add_sub_cancel_left] at checks
    refine ⟨steps, (k.target_steps long at_phase more steps).trans ?_⟩
    rw [Nat.add_comm, Function.iterate_add_apply, reached]
    exact checks
  · obtain ⟨steps, result, ends, ⟨n, some, adds⟩ | ⟨_, rfl⟩ | ⟨missed, _⟩⟩ :=
      k.query_entry sorted long at_phase more inside present
    · exact absurd adds (none n some)
    · exact ⟨steps, ends⟩
    · exact absurd missed (not_lt.mpr read)

/-- An entry that no block reaches is not stored. -/
theorem Kernel.query_misses (missed : j < k.missed) :
    ∃ steps, k.step^[steps + 1] t = ⟨t.targets, k.query t.targets, .decrement, t.result⟩ := by
  obtain ⟨steps, result, ends, ⟨n, some, adds⟩ | ⟨read, _⟩ | ⟨_, rfl⟩⟩ :=
    k.query_entry sorted long at_phase more inside present
  · exact absurd missed (not_lt.mpr (adds.missed_le long some))
  · exact absurd missed (not_lt.mpr read)
  · exact ⟨steps, ends⟩

/-- An entry of the input is answered right if and only if the decrement fits. -/
theorem Kernel.present_right_iff :
    ∃ steps result, k.step^[steps + 1] t = ⟨t.targets, k.query t.targets, .decrement, result⟩ ∧
      ((if result.found > -1 then result.found - 1 else result.found) = j ↔ k.DecrementFits t.result.found j) := by
  by_cases one : k.AddsOne j
  · obtain ⟨steps, ends⟩ :=
      k.query_stores sorted long at_phase more inside present (.inl ⟨1, Nat.one_pos, one, rfl⟩)
    refine ⟨steps, _, ends, iff_of_true ?_ (.inl ⟨j, rfl, one⟩)⟩
    rw [if_pos (nonneg_hit _)]
    simp
  rcases k.storedAs_or_missed j with ⟨i, stored⟩ | missed
  · obtain ⟨steps, ends⟩ := k.query_stores sorted long at_phase more inside present stored
    have read : k.missed ≤ j ∧ i ≠ j + 1 := by
      rcases stored with ⟨n, some, adds, rfl⟩ | ⟨_, read, rfl⟩
      · refine ⟨adds.missed_le long some, fun next => one ?_⟩
        obtain rfl : n = 1 := by omega
        exact adds
      · exact ⟨read, by omega⟩
    refine ⟨steps, _, ends, ?_⟩
    rw [if_pos (nonneg_hit i)]
    refine iff_of_false (by simp only; omega) ?_
    rintro (⟨i, same, adds⟩ | ⟨less, _⟩)
    · exact one (Nat.cast_inj.mp same ▸ adds)
    · omega
  · obtain ⟨steps, ends⟩ := k.query_misses sorted long at_phase more inside present missed
    refine ⟨steps, _, ends, ?_⟩
    have fits : k.DecrementFits t.result.found j ↔ t.result.found = j + 1 := by
      constructor
      · rintro (⟨i, same, adds⟩ | ⟨_, before | ⟨_, absent⟩⟩)
        · exact absurd (Nat.cast_inj.mp same ▸ adds) one
        · exact before
        · omega
      · exact fun before => .inr ⟨by exact_mod_cast missed, .inl before⟩
    rw [fits]
    split_ifs <;> omega

end Entry

/-- A query ends, and with its answer if and only if the decrement fits. -/
theorem Kernel.query_right_iff (sorted : Sorted k.input k.inputSize) (long : k.heap + 2 * BLOCK_SIZE ≤ k.endOfInput)
    (at_phase : t.phase = .target) (more : t.targets < k.interval) :
    ∃ steps, (k.step^[steps] t).Through (t.targets + 1) ∧
      ((k.step^[steps] t).result.found = k.position (k.query t.targets) ↔
        k.DecrementFits t.result.found (k.position (k.query t.targets))) := by
  rcases k.position_answers (k.query t.targets) with ⟨j, inside, same, index⟩ | ⟨absent, index⟩
  · obtain ⟨steps, result, ends, right⟩ := k.present_right_iff sorted long at_phase more inside same.symm
    refine ⟨2 + (steps + 1), ?_⟩
    rw [Function.iterate_add_apply, ends, k.decrement_steps rfl, index]
    exact ⟨⟨rfl, rfl⟩, right⟩
  · obtain ⟨steps, ends⟩ := k.target_ends long at_phase more absent
    refine ⟨steps, ?_⟩
    rw [ends, index]
    refine ⟨⟨rfl, rfl⟩, ?_⟩
    constructor
    · intro right
      simp only at right
      refine .inr ⟨by omega, ?_⟩
      split_ifs at right <;> omega
    · rintro (⟨j, same, _⟩ | ⟨_, before | ⟨before, _⟩⟩)
      · omega
      · simp [before]
      · simp [before]

/-- How far a tasklet has come with its queries. -/
def Tasklet.progress (t : Tasklet) : Nat := 2 * t.targets + if t.phase = .target then 0 else 1

theorem Kernel.progress_le (k : Kernel) (t : Tasklet) :
    t.progress ≤ (k.step t).progress ∧ (t.phase = .target → t.progress < (k.step t).progress) := by
  obtain ⟨targets, searchingFor, phase, result⟩ := t
  cases phase <;> simp only [Kernel.step, Tasklet.progress] <;> split_ifs <;> simp_all

section Run
variable (k : Kernel) (result : DpuResults)

theorem Kernel.run_add (more steps : Nat) : k.step^[more] (k.run result steps) = k.run result (more + steps) :=
  (Function.iterate_add_apply ..).symm

theorem Kernel.progress_mono : Monotone fun steps => (k.run result steps).progress :=
  monotone_nat_of_le_succ fun steps => by
    have step := (k.progress_le (k.run result steps)).1
    rwa [← Function.iterate_one k.step, k.run_add, Nat.add_comm] at step

variable {k result}

/-- A tasklet is back at the head of its loop once after each query. -/
theorem Kernel.through_unique {q steps others : Nat} (through : (k.run result steps).Through q)
    (there : (k.run result others).Through q) : k.run result steps = k.run result others := by
  have later {first second : Nat} (at_first : (k.run result first).Through q)
      (at_second : (k.run result second).Through q) : second ≤ first := by
    by_contra before
    have step := (k.progress_le (k.run result first)).2 at_first.1
    rw [← Function.iterate_one k.step, k.run_add, Nat.add_comm] at step
    have between := k.progress_mono result (show first + 1 ≤ second by omega)
    simp only [Tasklet.progress, at_first.1, at_first.2, at_second.1, at_second.2] at step between
    omega
  rw [le_antisymm (later there through) (later through there)]

/-- A tasklet without a query reads no block. -/
theorem Kernel.no_reads (none : k.interval = 0) (steps : Nat) : k.blocksRead (k.run result steps) = [] := by
  cases steps with
  | zero => rfl
  | succ steps =>
    have first : k.step { Tasklet.start with result } = { Tasklet.start with result, phase := .done } :=
      if_neg (by rw [none]; exact Nat.lt_irrefl 0)
    have last : k.step^[steps] { Tasklet.start with result, phase := .done } = _ := Function.iterate_fixed rfl steps
    rw [Kernel.run, Function.iterate_succ_apply, first, last]
    rfl

/-- The first block that is read is inside a whole number of blocks only if there are two. -/
theorem Kernel.long_of_reads (whole : BLOCK_SIZE ∣ SIZEOF_DTYPE * k.inputSize) (some_query : 0 < k.interval)
    (reads : ∀ addr ∈ k.blocksRead (k.run result 1), k.Inside addr) :
    2 * BLOCK_SIZE ≤ SIZEOF_DTYPE * k.inputSize := by
  have first : k.run result 1 = { Tasklet.start with
      searchingFor := k.query 0
      phase := .block k.heap k.endOfInput ((k.heap + k.endOfInput) / 2)
      result } := if_pos some_query
  rw [first] at reads
  obtain ⟨_, room⟩ := reads _ (List.mem_singleton_self _)
  obtain ⟨blocks, size⟩ := whole
  obtain ⟨word, start⟩ := k.aligned
  unfold Kernel.endOfInput BLOCK_SIZE SIZEOF_DTYPE at *
  omega

end Run

end Queries

/-- A tasklet of `main_kernel1` searches all its queries right if and only if
the input has two blocks, and the decrement of the result fits at each query. -/
theorem Kernel.searches_iff {k : Kernel} (result : DpuResults) (sorted : Sorted k.input k.inputSize)
    (whole : BLOCK_SIZE ∣ SIZEOF_DTYPE * k.inputSize) :
    k.Searches result ↔ ∀ q < k.interval, 2 * BLOCK_SIZE ≤ SIZEOF_DTYPE * k.inputSize ∧
      k.DecrementFits (k.before result q) (k.position (k.query q)) := by
  constructor
  · rintro ⟨reads, answers⟩ q inside
    have size := k.long_of_reads whole (by omega) (reads 1)
    have long : k.heap + 2 * BLOCK_SIZE ≤ k.endOfInput := Nat.add_le_add_left size _
    refine ⟨size, ?_⟩
    obtain ⟨steps, ⟨at_phase, targets⟩, found⟩ : ∃ steps, (k.run result steps).Through q ∧
        (k.run result steps).result.found = k.before result q := by
      cases q with
      | zero => exact ⟨0, ⟨rfl, rfl⟩, rfl⟩
      | succ q =>
        obtain ⟨steps, through, answer⟩ := answers q (by omega)
        exact ⟨steps, through, (k.answers_iff sorted).mp answer⟩
    obtain ⟨more, through, right⟩ := k.query_right_iff (t := k.run result steps) sorted long at_phase (by omega)
    rw [k.run_add, targets] at through right
    rw [found] at right
    obtain ⟨others, there, answer⟩ := answers q inside
    refine right.mp ?_
    rw [k.through_unique through there]
    exact (k.answers_iff sorted).mp answer
  · intro fits
    rcases Nat.eq_zero_or_pos k.interval with none | some
    · refine ⟨fun steps addr reads => ?_, fun q inside => absurd inside (by omega)⟩
      rw [k.no_reads none] at reads
      cases reads
    · have long : k.heap + 2 * BLOCK_SIZE ≤ k.endOfInput := Nat.add_le_add_left (fits 0 some).1 _
      have reaches (q : Nat) (inside : q ≤ k.interval) : ∃ steps, (k.run result steps).Through q ∧
          (k.run result steps).result.found = k.before result q := by
        induction q with
        | zero => exact ⟨0, ⟨rfl, rfl⟩, rfl⟩
        | succ q ih =>
          obtain ⟨steps, ⟨at_phase, targets⟩, found⟩ := ih (by omega)
          obtain ⟨more, through, right⟩ :=
            k.query_right_iff (t := k.run result steps) sorted long at_phase (by omega)
          rw [k.run_add, targets] at through right
          rw [found] at right
          exact ⟨more + steps, through, right.mpr (fits q inside).2⟩
      refine ⟨fun steps addr reads => k.reads_inside long (k.ranged long result steps) reads, fun q inside => ?_⟩
      obtain ⟨steps, through, found⟩ := reaches (q + 1) inside
      exact ⟨steps, through, (k.answers_iff sorted).mpr found⟩

theorem oneTasklet_sorted {stride : Int} (positive : 0 < stride) (query : Int) :
    Sorted (oneTasklet stride query).input (oneTasklet stride query).inputSize := by
  have loaded := oneTasklet_loaded stride query
  intro i j before inside
  have smaller : i < (oneTasklet stride query).inputSize := before.trans inside
  exact (loaded.input i smaller).trans_lt
    ((oneQuery_sorted positive query i j before inside).trans_eq (loaded.input j inside).symm)

theorem oneTasklet_searches_absent : (oneTasklet 2 1).Searches ⟨0, 0⟩ := by
  refine (Kernel.searches_iff ⟨0, 0⟩ (oneTasklet_sorted (by decide) 1) (by decide)).mpr fun q inside =>
    ⟨by decide, ?_⟩
  obtain rfl : q = 0 := Nat.lt_one_iff.mp inside
  have answer : (oneTasklet 2 1).position ((oneTasklet 2 1).query 0) = -1 := by decide
  rw [answer]
  exact .inr ⟨by omega, .inl rfl⟩

/-- A tasklet that finds 32 at index 32 leaves 31. -/
theorem oneTasklet_searches_wrong : ¬∀ (k : Kernel) (result : DpuResults), Sorted k.input k.inputSize →
    BLOCK_SIZE ∣ SIZEOF_DTYPE * k.inputSize → k.Searches result := by
  intro always
  obtain ⟨steps, through, answer⟩ :=
    (always (oneTasklet 1 32) ⟨0, 0⟩ (oneTasklet_sorted (by decide) 32) (by decide)).answers 0 (by decide)
  have ends : (oneTasklet 1 32).run ⟨0, 0⟩ 4 = ⟨1, 32, .target, ⟨31, 0⟩⟩ := by decide
  have there : ((oneTasklet 1 32).run ⟨0, 0⟩ 4).Through 1 := by
    rw [ends]
    exact ⟨rfl, rfl⟩
  rw [Kernel.through_unique through there, ends, Kernel.answers_iff (oneTasklet_sorted (by decide) 32)] at answer
  exact absurd answer (by decide)

end Upmem.BinarySearch
