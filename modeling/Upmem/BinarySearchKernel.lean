import Mathlib.Logic.Function.Iterate
import Upmem.BinarySearch

namespace Upmem.BinarySearch

def BLOCK_SIZE : Nat := 256

/-- `sizeof(DTYPE)`. -/
def SIZEOF_DTYPE : Nat := 8

/-- Where MRAM begins. -/
def MRAM_START : Nat := 0x08000000

/-- `search` in a buffer of `BLOCK_SIZE` bytes. -/
def search (bufferA : Nat → Int) (searchingFor : Int) : Int :=
  if bufferA 0 ≤ searchingFor then
    match (List.range (BLOCK_SIZE / SIZEOF_DTYPE)).find? fun i => bufferA i = searchingFor with
    | some i => i
    | none => -1
  else -2

/-- What a tasklet of `main_kernel1` works on: `DPU_INPUT_ARGUMENTS`, its
`me()`, the address of the heap and the values in MRAM, by the index of their
eight bytes. -/
structure Kernel where
  inputSize : Nat
  slicePerDpu : Nat
  NR_TASKLETS : Nat
  taskletId : Nat
  heap : Nat
  aligned : SIZEOF_DTYPE ∣ heap
  inMram : MRAM_START ≤ heap
  mram : Nat → Int

def Kernel.interval (k : Kernel) : Nat := k.slicePerDpu / k.NR_TASKLETS

/-- The end of the input in MRAM. -/
def Kernel.endOfInput (k : Kernel) : Nat := k.heap + SIZEOF_DTYPE * k.inputSize

/-- `mram_read` of a block, whose address the DMA rounds down. -/
def Kernel.mramRead (k : Kernel) (addr : Nat) (i : Nat) : Int := k.mram (addr / SIZEOF_DTYPE + i)

def Kernel.query (k : Kernel) (targets : Nat) : Int :=
  k.mramRead (k.endOfInput + k.taskletId * k.interval * SIZEOF_DTYPE + SIZEOF_DTYPE * targets) 0

/-- Where a tasklet is: at the head of its loop over the queries, at the
search in the current block between two addresses, at one of the boundary checks, at the
decrement of the result, at the store of the index, or done. -/
inductive Phase
  | target
  | block (start finish current : Nat)
  | startCheck (start finish current : Nat)
  | endCheck (start finish current : Nat) (ended : Bool)
  | decrement
  | index
  | done
  deriving DecidableEq

structure Tasklet where
  targets : Nat
  searchingFor : Int
  phase : Phase
  result : DpuResults
  deriving DecidableEq

def Tasklet.start : Tasklet := ⟨0, 0, .target, ⟨0, 0⟩⟩

/-- `result->found` for a hit in a block, as an index from the start of the heap. -/
def Kernel.store (k : Kernel) (t : Tasklet) (found : Int) (current : Nat) : DpuResults :=
  { t.result with found := found + ((current - k.heap) / SIZEOF_DTYPE : Nat) }

/-- A step of a tasklet, with one store to `DPU_RESULTS` at most. -/
def Kernel.step (k : Kernel) (t : Tasklet) : Tasklet :=
  match t.phase with
  | .target =>
    if t.targets < k.interval then
      { t with searchingFor := k.query t.targets,
               phase := .block k.heap k.endOfInput ((k.heap + k.endOfInput) / 2) }
    else { t with phase := .done }
  | .block start finish current =>
    let found := search (k.mramRead current) t.searchingFor
    if found > -1 then { t with result := k.store t found current, phase := .decrement }
    else if found = -2 then { t with phase := .startCheck start current ((current + start) / 2) }
    else { t with phase := .startCheck current finish ((current + finish) / 2) }
  | .startCheck start finish current =>
    if current < k.heap + BLOCK_SIZE then
      let found := search (k.mramRead current) t.searchingFor
      { t with result := if found > -1 then k.store t found current else t.result
               phase := .endCheck start finish current true }
    else { t with phase := .endCheck start finish current false }
  | .endCheck start finish current ended =>
    if current > finish - BLOCK_SIZE then
      let found := search (k.mramRead (finish - BLOCK_SIZE)) t.searchingFor
      { t with result := if found > -1 then k.store t found current else t.result, phase := .decrement }
    else if ended then { t with phase := .decrement }
    else { t with phase := .block start finish current }
  | .decrement =>
    { t with result := if t.result.found > -1 then { t.result with found := t.result.found - 1 } else t.result
             phase := .index }
  | .index => { t with result := { t.result with idx := t.targets }, targets := t.targets + 1, phase := .target }
  | .done => t

/-- A tasklet after a number of steps. -/
def Kernel.after (k : Kernel) (steps : Nat) : Tasklet :=
  k.step^[steps] .start

section Tasklets
variable {k : Kernel} {t : Tasklet}

theorem Kernel.after_succ (steps : Nat) : k.after (steps + 1) = k.step (k.after steps) :=
  Function.iterate_succ_apply' _ _ _

/-- The index stored is one of the interval, and so is the target outside the head of the loop. -/
structure Kernel.Indexed (k : Kernel) (t : Tasklet) : Prop where
  idx : t.result.idx < k.interval
  targets : t.phase ≠ .target → t.phase ≠ .done → t.targets < k.interval

theorem Kernel.Indexed.step (indexed : k.Indexed t) : k.Indexed (k.step t) := by
  obtain ⟨idx, targets⟩ := indexed
  obtain ⟨target, searchingFor, phase, result⟩ := t
  cases phase with
  | target =>
    simp only [Kernel.step]
    split_ifs with more
    · exact ⟨idx, fun _ _ => more⟩
    · exact ⟨idx, fun _ past => absurd rfl past⟩
  | block start finish current =>
    have inside := targets (by simp) (by simp)
    simp only [Kernel.step]
    split_ifs <;> exact ⟨idx, fun _ _ => inside⟩
  | startCheck start finish current =>
    have inside := targets (by simp) (by simp)
    simp only [Kernel.step]
    split_ifs <;> exact ⟨idx, fun _ _ => inside⟩
  | endCheck start finish current ended =>
    have inside := targets (by simp) (by simp)
    simp only [Kernel.step]
    split_ifs <;> exact ⟨idx, fun _ _ => inside⟩
  | decrement =>
    have inside := targets (by simp) (by simp)
    simp only [Kernel.step]
    split_ifs <;> exact ⟨idx, fun _ _ => inside⟩
  | index => exact ⟨targets (by simp) (by simp), fun past => absurd rfl past⟩
  | done => exact ⟨idx, targets⟩

/-- Wherever a tasklet is stopped, its index is one of the interval. -/
theorem Kernel.indexed (some_query : 0 < k.interval) (steps : Nat) : k.Indexed (k.after steps) := by
  induction steps with
  | zero => exact ⟨some_query, fun past => absurd rfl past⟩
  | succ steps ih =>
    rw [Kernel.after_succ]
    exact ih.step

/-- A value is not in the input. -/
def Kernel.Absent (k : Kernel) (x : Int) : Prop :=
  ∀ j < k.inputSize, k.mram (k.heap / SIZEOF_DTYPE + j) ≠ x

/-- An absent value is not found in a block inside the input. -/
theorem Kernel.Absent.search {x : Int} (absent : k.Absent x) (addr : Nat) (lower : k.heap ≤ addr)
    (upper : addr + BLOCK_SIZE ≤ k.endOfInput) : ¬ search (k.mramRead addr) x > -1 := by
  have outside (i : Nat) (inside : i < BLOCK_SIZE / SIZEOF_DTYPE) : k.mramRead addr i ≠ x := by
    have aligned := k.aligned
    unfold Kernel.endOfInput BLOCK_SIZE SIZEOF_DTYPE at *
    have entry := absent (addr / 8 + i - k.heap / 8) (by omega)
    rwa [SIZEOF_DTYPE, show k.heap / 8 + (addr / 8 + i - k.heap / 8) = addr / 8 + i by omega] at entry
  have none_found : ((List.range (BLOCK_SIZE / SIZEOF_DTYPE)).find? fun i => k.mramRead addr i = x) = none := by
    simpa using fun i inside => outside i inside
  unfold BinarySearch.search
  rw [none_found]
  split_ifs <;> decide

/-- The addresses of a search that has begun in the middle of a long enough input. -/
def Kernel.Within (k : Kernel) : Phase → Prop
  | .block start finish current =>
    k.heap ≤ start ∧ current = (start + finish) / 2 ∧ k.heap + BLOCK_SIZE ≤ current ∧
      current + BLOCK_SIZE ≤ finish ∧
      finish ≤ k.endOfInput
  | .startCheck start finish current =>
    k.heap ≤ start ∧ start ≤ finish ∧ current = (start + finish) / 2 ∧ k.heap + BLOCK_SIZE ≤ finish ∧
      finish ≤ k.endOfInput
  | _ => True

/-- The checks of the boundaries find no absent value: they end the search or go on with the block. -/
theorem Kernel.step_checks {start finish current : Nat} (long : k.heap + 2 * BLOCK_SIZE ≤ k.endOfInput)
    (absent : k.Absent t.searchingFor) (at_phase : t.phase = .startCheck start finish current)
    (within : k.Within (.startCheck start finish current)) :
    k.step (k.step t) = { t with phase := .decrement } ∨
      k.step (k.step t) = { t with phase := .block start finish current } ∧
      k.Within (.block start finish current) := by
  obtain ⟨lower, order, middle, above, below⟩ := within
  have missed_end := absent.search (finish - BLOCK_SIZE) (by omega) (by omega)
  by_cases low : current < k.heap + BLOCK_SIZE
  · have missed := absent.search current (by omega) (by omega)
    have first : k.step t = { t with phase := .endCheck start finish current true } := by
      simp [Kernel.step, at_phase, low, missed]
    refine .inl ?_
    rw [first]
    simp only [Kernel.step, missed_end, if_false]
    split <;> rfl
  · have first : k.step t = { t with phase := .endCheck start finish current false } := by
      simp [Kernel.step, at_phase, low]
    rw [first]
    by_cases high : current > finish - BLOCK_SIZE
    · refine .inl ?_
      simp only [Kernel.step, if_pos high, missed_end, if_false]
    · refine .inr ⟨?_, lower, middle, by omega, by omega, below⟩
      simp only [Kernel.step, if_neg high, Bool.false_eq_true, if_false]

/-- A search for an absent value ends without a store. -/
theorem Kernel.search_ends {start finish current : Nat} (long : k.heap + 2 * BLOCK_SIZE ≤ k.endOfInput)
    (absent : k.Absent t.searchingFor) (at_phase : t.phase = .block start finish current)
    (within : k.Within (.block start finish current)) :
    ∃ steps, k.step^[steps] t = { t with phase := .decrement } := by
  induction width : finish - start using Nat.strong_induction_on generalizing t start finish current with
  | h width ih =>
    subst width
    obtain ⟨lower, middle, above, fits, below⟩ := within
    have missed := absent.search current (by omega) (by omega)
    have wide : 1 < BLOCK_SIZE := by decide
    obtain ⟨start', finish', current', next, within', narrower⟩ : ∃ start' finish' current',
        k.step t = { t with phase := .startCheck start' finish' current' } ∧
          k.Within (.startCheck start' finish' current') ∧ finish' - start' < finish - start := by
      by_cases left : BinarySearch.search (k.mramRead current) t.searchingFor = -2
      · refine ⟨start, current, (current + start) / 2, ?_,
          ⟨lower, by omega, by omega, by omega, by omega⟩, by omega⟩
        simp [Kernel.step, at_phase, left]
      · refine ⟨current, finish, (current + finish) / 2, ?_,
          ⟨by omega, by omega, by omega, by omega, by omega⟩, by omega⟩
        simp [Kernel.step, at_phase, left, missed]
    rcases k.step_checks (t := k.step t) long (by rw [next]; exact absent)
      (by rw [next]) within' with ends | ⟨again, inside⟩
    · refine ⟨3, ?_⟩
      rw [Function.iterate_succ_apply, Function.iterate_succ_apply, Function.iterate_succ_apply, ends, next]
      rfl
    · obtain ⟨steps, ends⟩ := ih _ narrower (t := k.step (k.step (k.step t))) (by rw [again, next]; exact absent)
        (by rw [again]) inside rfl
      refine ⟨steps + 3, ?_⟩
      rw [Function.iterate_add_apply]
      refine ends.trans ?_
      rw [again, next]

/-- An absent query only decrements a result that is not negative. -/
theorem Kernel.target_ends (long : k.heap + 2 * BLOCK_SIZE ≤ k.endOfInput) (at_phase : t.phase = .target)
    (more : t.targets < k.interval) (absent : k.Absent (k.query t.targets)) :
    ∃ steps, k.step^[steps] t = ⟨t.targets + 1, k.query t.targets, .target,
      ⟨if t.result.found > -1 then t.result.found - 1 else t.result.found, t.targets⟩⟩ := by
  have wide : 0 < BLOCK_SIZE := by decide
  have size : k.endOfInput = k.heap + SIZEOF_DTYPE * k.inputSize := rfl
  have begins : k.step t = { t with searchingFor := k.query t.targets,
                                    phase := .block k.heap k.endOfInput ((k.heap + k.endOfInput) / 2) } := by
    simp [Kernel.step, at_phase, more]
  obtain ⟨steps, ends⟩ := k.search_ends (t := k.step t) long (by rw [begins]; exact absent) (by rw [begins])
    ⟨le_rfl, rfl, by omega, by omega, le_rfl⟩
  refine ⟨2 + steps + 1, ?_⟩
  rw [Function.iterate_succ_apply, Function.iterate_add_apply, ends, begins, Function.iterate_succ_apply,
    Function.iterate_one]
  simp only [Kernel.step]
  split_ifs <;> rfl

end Tasklets

/-- The tasklet of a DPU has what the host has sent. -/
structure Kernel.Loaded (k : Kernel) (host : Host) (dpuIndex i : Nat) : Prop where
  inputSize : k.inputSize = host.globalInputSize
  slicePerDpu : k.slicePerDpu = host.slice
  NR_TASKLETS : k.NR_TASKLETS = host.NR_TASKLETS
  taskletId : k.taskletId = i
  input : ∀ j < host.globalInputSize, k.mram (k.heap / SIZEOF_DTYPE + j) = host.globalInput j
  querys : ∀ q < host.slice,
    k.mram (k.heap / SIZEOF_DTYPE + host.globalInputSize + q) = host.globalQuery (dpuIndex * host.slice + q)

section Loaded
variable {host : Host} {k : Kernel} {dpuIndex i : Nat}

theorem Kernel.Loaded.interval (loaded : k.Loaded host dpuIndex i) : k.interval = host.interval := by
  rw [Kernel.interval, loaded.slicePerDpu, loaded.NR_TASKLETS, Host.interval]

end Loaded

section Example

/-- One tasklet of one DPU that searches a value in the multiples of a step. -/
def oneQuery (stride query : Int) : Host where
  NR_DPUS := 1
  NR_TASKLETS := 1
  globalInput j := stride * j
  globalQuery _ := query
  globalInputSize := 64
  numberQuery := 1

def oneTasklet (stride query : Int) : Kernel where
  inputSize := 64
  slicePerDpu := 1
  NR_TASKLETS := 1
  taskletId := 0
  heap := MRAM_START
  aligned := ⟨MRAM_START / 8, rfl⟩
  inMram := le_rfl
  mram word := if word < MRAM_START / 8 + 64 then stride * (word - MRAM_START / 8 : Nat) else query

theorem oneTasklet_loaded (stride query : Int) : (oneTasklet stride query).Loaded (oneQuery stride query) 0 0 where
  inputSize := rfl
  slicePerDpu := (Nat.div_one 1).symm
  NR_TASKLETS := rfl
  taskletId := rfl
  input j inside := by
    have below : MRAM_START / 8 + j < MRAM_START / 8 + 64 := Nat.add_lt_add_left inside _
    have offset : MRAM_START / 8 + j - MRAM_START / 8 = j := Nat.add_sub_cancel_left ..
    show (if MRAM_START / 8 + j < MRAM_START / 8 + 64 then
      stride * ((MRAM_START / 8 + j - MRAM_START / 8 : Nat) : Int)
      else query) = stride * j
    rw [if_pos below, offset]
  querys q inside := by
    have beyond : ¬ MRAM_START / 8 + 64 + q < MRAM_START / 8 + 64 := by omega
    exact if_neg beyond

theorem oneQuery_interval (stride query : Int) : (oneQuery stride query).interval = 1 := by
  simp [oneQuery, Host.interval, Host.slice]

theorem oneQuery_sorted {stride : Int} (positive : 0 < stride) (query : Int) :
    Sorted (oneQuery stride query).globalInput (oneQuery stride query).globalInputSize := by
  intro i j before _
  exact Int.mul_lt_mul_of_pos_left (by exact_mod_cast before) positive

end Example

end Upmem.BinarySearch
