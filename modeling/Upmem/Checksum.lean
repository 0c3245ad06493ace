import Mathlib.Data.BitVec
import Upmem.Lib.Loops
import Upmem.Lib.Stores

namespace Upmem.Checksum
open Finset Loops Stores

def BUFFER_SIZE : Nat := 8 <<< 20
def BLOCK_SIZE : Nat := 256
def REPEAT_TIMES : Nat := 10

/-- `dpu_result_t`. Indices into the buffer stay far below the bound of a `uint32_t`. -/
structure DpuResult where
  checksum : BitVec 32
  cycles : BitVec 32
  idx : Nat
  deriving DecidableEq, Repr

/-- `isSame`, which tells that the first `n` entries are not all the same. -/
def isSame (a : List (BitVec 32)) : Nat → Bool
  | 0 => true
  | n + 1 => if 0 < n ∧ a.getD n 0 = a.getD 0 0 then isSame a n else decide (n ≠ 0)

/-- `mram_read` of one block into the cache of the tasklet. -/
def mramRead (buffer : Nat → BitVec 8) (bufferIdx cacheIdx : Nat) : BitVec 8 :=
  buffer (bufferIdx + cacheIdx)

def addCache (cache : Nat → BitVec 8) (checksum : BitVec 32) : BitVec 32 :=
  (List.range BLOCK_SIZE).foldl (fun checksum cacheIdx => checksum + (cache cacheIdx).setWidth 32) checksum

def storeResult (cycles checksum : BitVec 32) (idx : Nat) : Traced DpuResult Unit := do
  store fun result => { result with cycles := cycles }
  store fun result => { result with checksum := checksum }
  store fun result => { result with idx := idx }

/-- One block of a repetition. -/
def blockTurn (buffer : Nat → BitVec 8) (perfcounter : Nat → BitVec 32) (checksum : BitVec 32) (bufferIdx : Nat) :
    Traced DpuResult (BitVec 32) := do
  let checksum := addCache (mramRead buffer bufferIdx) checksum
  storeResult (perfcounter bufferIdx) checksum bufferIdx
  pure checksum

/-- One of the repetitions, from `checksum` and `sum_arr`. -/
def repetition (nrTasklets : Nat) (buffer : Nat → BitVec 8) (perfcounter : Nat → Nat → BitVec 32) (taskletId : Nat)
    (locals : BitVec 32 × List (BitVec 32)) (i : Nat) : Traced DpuResult (BitVec 32 × List (BitVec 32)) := do
  let blocks := counted (nrTasklets * BLOCK_SIZE) BUFFER_SIZE (taskletId * BLOCK_SIZE)
  let checksum ← blocks.foldlM (blockTurn buffer (perfcounter i)) locals.1
  pure (0, locals.2.set i checksum)

/-- `main` of the DPU program, as a tasklet runs it. The readings of the cycle
counter are given by the repetition and the index they are taken at. -/
def main (nrTasklets : Nat) (buffer : Nat → BitVec 8) (perfcounter : Nat → Nat → BitVec 32) (taskletId : Nat) :
    Traced DpuResult Unit := do
  store fun result => { result with checksum := 0 }
  let locals ← (List.range REPEAT_TIMES).foldlM (repetition nrTasklets buffer perfcounter taskletId)
    (0, List.replicate REPEAT_TIMES 0)
  let sumArr := locals.2
  let checksum := if isSame sumArr REPEAT_TIMES then sumArr.getD 0 0 else sumArr.getD (REPEAT_TIMES - 1) 0
  let bufferIdx := exitValue (nrTasklets * BLOCK_SIZE) BUFFER_SIZE (taskletId * BLOCK_SIZE)
  storeResult (perfcounter REPEAT_TIMES bufferIdx) checksum bufferIdx

/-- What `host_func_resume` does to the result of one tasklet of an aborted DPU. -/
def resumeTasklet (nrTasklets : Nat) (globalData : Nat → BitVec 8) (result : DpuResult) : DpuResult :=
  let blocks := counted (nrTasklets * BLOCK_SIZE) BUFFER_SIZE (result.idx + nrTasklets * BLOCK_SIZE)
  { result with
    checksum := blocks.foldl (fun checksum bufferIdx =>
      (counted 1 (bufferIdx + BLOCK_SIZE) bufferIdx).foldl
        (fun checksum cacheIdx => checksum + (globalData cacheIdx).setWidth 32) checksum) result.checksum }

/-- The checksum of a tasklet that is stopped after `n` of its assignments,
from a zeroed result on, and then resumed by the host. -/
def resumed (nrTasklets : Nat) (buffer : Nat → BitVec 8) (perfcounter : Nat → Nat → BitVec 32) (taskletId n : Nat) :
    BitVec 32 :=
  (resumeTasklet nrTasklets buffer
    (stoppedAfter n (main nrTasklets buffer perfcounter taskletId).stores ⟨0, 0, 0⟩)).checksum

/-- The sum of all bytes of the buffer. -/
def bufferSum (buffer : Nat → BitVec 8) : BitVec 32 :=
  ∑ i ∈ range BUFFER_SIZE, (buffer i).setWidth 32

/-- The sum of the bytes of the blocks that belong to a tasklet. -/
def stripeSum (nrTasklets : Nat) (buffer : Nat → BitVec 8) (taskletId : Nat) : BitVec 32 :=
  ∑ i ∈ range BUFFER_SIZE with i / BLOCK_SIZE % nrTasklets = taskletId, (buffer i).setWidth 32

/-- The number of blocks of each stripe. -/
def blocksPerStripe (nrTasklets : Nat) : Nat :=
  BUFFER_SIZE / (nrTasklets * BLOCK_SIZE)

/-- The index of block `k` of a stripe. -/
def blockIdx (nrTasklets taskletId k : Nat) : Nat :=
  taskletId * BLOCK_SIZE + k * (nrTasklets * BLOCK_SIZE)

/-- The sum of the bytes of block `k` of a stripe. -/
def blockSum (nrTasklets : Nat) (buffer : Nat → BitVec 8) (taskletId k : Nat) : BitVec 32 :=
  ∑ c ∈ range BLOCK_SIZE, (buffer (blockIdx nrTasklets taskletId k + c)).setWidth 32

section
variable {nrTasklets taskletId : Nat} (buffer : Nat → BitVec 8)

theorem addCache_eq (k : Nat) (checksum : BitVec 32) :
    addCache (mramRead buffer (blockIdx nrTasklets taskletId k)) checksum =
      checksum + blockSum nrTasklets buffer taskletId k :=
  foldl_add_range _ BLOCK_SIZE checksum

theorem addGlobalData_eq (k : Nat) (checksum : BitVec 32) :
    (counted 1 (blockIdx nrTasklets taskletId k + BLOCK_SIZE) (blockIdx nrTasklets taskletId k)).foldl
        (fun checksum cacheIdx => checksum + (buffer cacheIdx).setWidth 32) checksum =
      checksum + blockSum nrTasklets buffer taskletId k := by
  rw [counted_one, Nat.add_sub_cancel_left, List.foldl_map]
  exact foldl_add_range _ BLOCK_SIZE checksum

/-- The sum of the bytes of the first `k` blocks of a stripe. -/
def prefixSum (nrTasklets : Nat) (buffer : Nat → BitVec 8) (taskletId k : Nat) : BitVec 32 :=
  ∑ each ∈ range k, blockSum nrTasklets buffer taskletId each

section
variable {nrTasklets taskletId : Nat} (tiles : nrTasklets * BLOCK_SIZE ∣ BUFFER_SIZE)
include tiles

theorem bufferSize_eq : blocksPerStripe nrTasklets * (nrTasklets * BLOCK_SIZE) = BUFFER_SIZE :=
  Nat.div_mul_cancel tiles

theorem stride_pos : 0 < nrTasklets * BLOCK_SIZE :=
  Nat.pos_of_dvd_of_pos tiles (by decide)

theorem blocksPerStripe_pos : 0 < blocksPerStripe nrTasklets :=
  Nat.div_pos (Nat.le_of_dvd (by decide) tiles) (stride_pos tiles)

variable (inside : taskletId < nrTasklets)
include inside

omit tiles in
theorem taskletId_lt_stride : taskletId * BLOCK_SIZE < nrTasklets * BLOCK_SIZE :=
  Nat.mul_lt_mul_of_pos_right inside (by decide)

/-- A loop over the blocks of a stripe visits those that are left. -/
theorem counted_blocks (k : Nat) :
    counted (nrTasklets * BLOCK_SIZE) BUFFER_SIZE (blockIdx nrTasklets taskletId k) =
      (List.range (blocksPerStripe nrTasklets - k)).map fun d => blockIdx nrTasklets taskletId (k + d) := by
  rw [← bufferSize_eq tiles]
  exact counted_eq_map (taskletId_lt_stride inside) (blocksPerStripe nrTasklets) k

theorem exitValue_blocks :
    exitValue (nrTasklets * BLOCK_SIZE) BUFFER_SIZE (taskletId * BLOCK_SIZE) =
      blockIdx nrTasklets taskletId (blocksPerStripe nrTasklets) := by
  have exits := exitValue_eq (taskletId_lt_stride inside) (Nat.zero_le (blocksPerStripe nrTasklets))
  simpa only [blockIdx, bufferSize_eq tiles, Nat.zero_mul, Nat.add_zero] using exits

/-- The stores of block `k` of repetition `i`. -/
def blockStores (nrTasklets : Nat) (buffer : Nat → BitVec 8) (perfcounter : Nat → Nat → BitVec 32)
    (taskletId i k : Nat) :
    List (DpuResult → DpuResult) :=
  (storeResult (perfcounter i (blockIdx nrTasklets taskletId k)) (prefixSum nrTasklets buffer taskletId (k + 1))
    (blockIdx nrTasklets taskletId k)).stores

omit tiles inside in
theorem blockTurn_eq (perfcounter : Nat → Nat → BitVec 32) (i k : Nat) :
    blockTurn buffer (perfcounter i) (prefixSum nrTasklets buffer taskletId k) (blockIdx nrTasklets taskletId k) =
      ⟨prefixSum nrTasklets buffer taskletId (k + 1), blockStores nrTasklets buffer perfcounter taskletId i k⟩ := by
  have sum :
    addCache (mramRead buffer (blockIdx nrTasklets taskletId k)) (prefixSum nrTasklets buffer taskletId k) =
      prefixSum nrTasklets buffer taskletId (k + 1) := by
    rw [prefixSum, prefixSum, sum_range_succ]
    exact addCache_eq buffer k _
  simp only [blockTurn, sum]
  rfl

theorem repetition_eq (perfcounter : Nat → Nat → BitVec 32) (sumArr : List (BitVec 32)) (i : Nat) :
    repetition nrTasklets buffer perfcounter taskletId (0, sumArr) i =
      ⟨(0, sumArr.set i (prefixSum nrTasklets buffer taskletId (blocksPerStripe nrTasklets))),
        (List.range (blocksPerStripe nrTasklets)).flatMap
          (blockStores nrTasklets buffer perfcounter taskletId i)⟩ := by
  have blocks := counted_blocks tiles inside 0
  simp only [blockIdx, Nat.zero_mul, Nat.add_zero, Nat.sub_zero, Nat.zero_add] at blocks
  have turns : (List.range (blocksPerStripe nrTasklets)).foldlM
      (fun checksum k => blockTurn buffer (perfcounter i) checksum (blockIdx nrTasklets taskletId k))
      (prefixSum nrTasklets buffer taskletId 0) = _ :=
    foldlM_range fun k _ => blockTurn_eq buffer perfcounter i k
  have none : prefixSum nrTasklets buffer taskletId 0 = 0 := sum_range_zero _
  rw [none] at turns
  simp only [repetition, blocks, List.foldlM_map]
  refine (congrArg (· >>= fun checksum => pure (0, sumArr.set i checksum)) turns).trans ?_
  exact congrArg (Traced.mk _) (List.append_nil _)

/-- `sum_arr` once `i` repetitions have filled it with the same sum. -/
def sumArrAfter (sum : BitVec 32) : Nat → List (BitVec 32)
  | 0 => List.replicate REPEAT_TIMES 0
  | i + 1 => (sumArrAfter sum i).set i sum

/-- The local variables at the start of repetition `i`. -/
def localsAt (nrTasklets : Nat) (buffer : Nat → BitVec 8) (taskletId i : Nat) : BitVec 32 × List (BitVec 32) :=
  (0, sumArrAfter (prefixSum nrTasklets buffer taskletId (blocksPerStripe nrTasklets)) i)

/-- The stores of repetition `i`. -/
def repetitionStores (nrTasklets : Nat) (buffer : Nat → BitVec 8) (perfcounter : Nat → Nat → BitVec 32)
    (taskletId i : Nat) : List (DpuResult → DpuResult) :=
  (List.range (blocksPerStripe nrTasklets)).flatMap (blockStores nrTasklets buffer perfcounter taskletId i)

/-- The stores after the last repetition. -/
def finalStores (nrTasklets : Nat) (buffer : Nat → BitVec 8) (perfcounter : Nat → Nat → BitVec 32)
    (taskletId : Nat) : List (DpuResult → DpuResult) :=
  (storeResult (perfcounter REPEAT_TIMES (blockIdx nrTasklets taskletId (blocksPerStripe nrTasklets)))
    (prefixSum nrTasklets buffer taskletId (blocksPerStripe nrTasklets))
    (blockIdx nrTasklets taskletId (blocksPerStripe nrTasklets))).stores

theorem repetitions_eq (perfcounter : Nat → Nat → BitVec 32) :
    (List.range REPEAT_TIMES).foldlM (repetition nrTasklets buffer perfcounter taskletId)
        (0, List.replicate REPEAT_TIMES 0) =
      ⟨localsAt nrTasklets buffer taskletId REPEAT_TIMES,
        (List.range REPEAT_TIMES).flatMap (repetitionStores nrTasklets buffer perfcounter taskletId)⟩ :=
  @foldlM_range _ _ (repetition nrTasklets buffer perfcounter taskletId) (localsAt nrTasklets buffer taskletId)
    (repetitionStores nrTasklets buffer perfcounter taskletId) REPEAT_TIMES
    fun i _ => repetition_eq buffer tiles inside perfcounter _ i

theorem main_stores (perfcounter : Nat → Nat → BitVec 32) :
    (main nrTasklets buffer perfcounter taskletId).stores =
      (fun result => { result with checksum := 0 }) ::
        ((List.range REPEAT_TIMES).flatMap (repetitionStores nrTasklets buffer perfcounter taskletId) ++
          finalStores nrTasklets buffer perfcounter taskletId) := by
  have filled (sum : BitVec 32) : sumArrAfter sum REPEAT_TIMES = List.replicate REPEAT_TIMES sum := rfl
  simp only [main, bind_stores, store_stores, repetitions_eq buffer tiles inside, localsAt, filled,
    exitValue_blocks tiles inside,
    List.singleton_append, finalStores]
  congr 3
  split_ifs <;> rfl

/-- A host that finds the index of a block adds the blocks after it. -/
theorem resumeTasklet_checksum {result : DpuResult} {k : Nat}
    (at_block : result.idx = blockIdx nrTasklets taskletId k) :
    (resumeTasklet nrTasklets buffer result).checksum =
      result.checksum + ∑ each ∈ Ico (k + 1) (blocksPerStripe nrTasklets),
      blockSum nrTasklets buffer taskletId each := by
  have next : result.idx + nrTasklets * BLOCK_SIZE = blockIdx nrTasklets taskletId (k + 1) := by
    rw [at_block, blockIdx, blockIdx]
    ring
  simp only [resumeTasklet, next, counted_blocks tiles inside, List.foldl_map, addGlobalData_eq]
  rw [sum_Ico_eq_sum_range]
  exact foldl_add_range _ _ result.checksum

end

end

/-- The result once block `k` of repetition `i` is complete. -/
def blockResult (nrTasklets : Nat) (buffer : Nat → BitVec 8) (perfcounter : Nat → Nat → BitVec 32)
    (taskletId i k : Nat) : DpuResult where
  checksum := prefixSum nrTasklets buffer taskletId (k + 1)
  cycles := perfcounter i (blockIdx nrTasklets taskletId k)
  idx := blockIdx nrTasklets taskletId k

/-- The result at the start of repetition `i`. -/
def repetitionReached (nrTasklets : Nat) (buffer : Nat → BitVec 8) (perfcounter : Nat → Nat → BitVec 32)
    (taskletId : Nat) : Nat → DpuResult
  | 0 => ⟨0, 0, 0⟩
  | i + 1 => blockResult nrTasklets buffer perfcounter taskletId i (blocksPerStripe nrTasklets - 1)

/-- The result at the start of block `k` of repetition `i`. -/
def blockReached (nrTasklets : Nat) (buffer : Nat → BitVec 8) (perfcounter : Nat → Nat → BitVec 32)
    (taskletId i : Nat) : Nat → DpuResult
  | 0 => repetitionReached nrTasklets buffer perfcounter taskletId i
  | k + 1 => blockResult nrTasklets buffer perfcounter taskletId i k

section
variable {nrTasklets taskletId : Nat} (buffer : Nat → BitVec 8) (perfcounter : Nat → Nat → BitVec 32)

theorem perform_repetitionStores (some : 0 < blocksPerStripe nrTasklets) (i : Nat) :
    perform (repetitionStores nrTasklets buffer perfcounter taskletId i)
        (repetitionReached nrTasklets buffer perfcounter taskletId i) =
      repetitionReached nrTasklets buffer perfcounter taskletId (i + 1) := by
  obtain ⟨last, blocks⟩ := Nat.exists_eq_add_of_lt some
  have chain := @perform_turns _ (blockStores nrTasklets buffer perfcounter taskletId i)
    (blockReached nrTasklets buffer perfcounter taskletId i) (blocksPerStripe nrTasklets) fun _ _ => rfl
  rw [repetitionReached, repetitionStores]
  refine chain.trans ?_
  rw [blocks]
  rfl

theorem length_repetitionStores (i : Nat) :
    (repetitionStores nrTasklets buffer perfcounter taskletId i).length = blocksPerStripe nrTasklets * 3 :=
  length_turns fun _ _ => rfl

theorem length_repetitions :
    ((List.range REPEAT_TIMES).flatMap (repetitionStores nrTasklets buffer perfcounter taskletId)).length =
      REPEAT_TIMES * (blocksPerStripe nrTasklets * 3) :=
  length_turns fun i _ => length_repetitionStores buffer perfcounter i

variable (tiles : nrTasklets * BLOCK_SIZE ∣ BUFFER_SIZE) (inside : taskletId < nrTasklets)
include tiles inside

/-- The record of a stopped tasklet, past the store that clears its checksum. -/
theorem stopped_eq (n : Nat) :
    stoppedAfter n (main nrTasklets buffer perfcounter taskletId).stores ⟨0, 0, 0⟩ =
      stoppedAfter (n - 1 - REPEAT_TIMES * (blocksPerStripe nrTasklets * 3))
        (finalStores nrTasklets buffer perfcounter taskletId)
        (stoppedAfter (n - 1)
          ((List.range REPEAT_TIMES).flatMap (repetitionStores nrTasklets buffer perfcounter taskletId))
          (repetitionReached nrTasklets buffer perfcounter taskletId 0)) := by
  rw [main_stores buffer tiles inside, ← length_repetitions buffer perfcounter, ← stoppedAfter_append]
  cases n <;> rfl

/-- Stopped in block `k` of repetition `i`, a tasklet has executed some of the
three stores of that block. -/
theorem stopped_inside {n : Nat} (running : n - 1 < REPEAT_TIMES * (blocksPerStripe nrTasklets * 3)) :
    stoppedAfter n (main nrTasklets buffer perfcounter taskletId).stores ⟨0, 0, 0⟩ =
      stoppedAfter ((n - 1) % (blocksPerStripe nrTasklets * 3) % 3)
        (blockStores nrTasklets buffer perfcounter taskletId ((n - 1) / (blocksPerStripe nrTasklets * 3))
          ((n - 1) % (blocksPerStripe nrTasklets * 3) / 3))
        (blockReached nrTasklets buffer perfcounter taskletId ((n - 1) / (blocksPerStripe nrTasklets * 3))
          ((n - 1) % (blocksPerStripe nrTasklets * 3) / 3)) := by
  have some := blocksPerStripe_pos tiles
  have small := Nat.mod_lt (n - 1) (show 0 < blocksPerStripe nrTasklets * 3 by omega)
  rw [stopped_eq buffer perfcounter tiles inside, Nat.sub_eq_zero_of_le running.le, stoppedAfter_zero,
    stoppedAfter_turns (fun i _ => length_repetitionStores buffer perfcounter i)
      (fun i _ => perform_repetitionStores buffer perfcounter some i) running]
  exact @stoppedAfter_turns _ (blockStores nrTasklets buffer perfcounter taskletId _)
    (blockReached nrTasklets buffer perfcounter taskletId _) 3 _ _ (fun _ _ => rfl) (fun _ _ => rfl) small

/-- Stopped after the last repetition, a tasklet has the checksum of its stripe. -/
theorem stopped_past {n : Nat} (past : REPEAT_TIMES * (blocksPerStripe nrTasklets * 3) ≤ n - 1) :
    ∃ last, blocksPerStripe nrTasklets ≤ last + 1 ∧
      (stoppedAfter n (main nrTasklets buffer perfcounter taskletId).stores ⟨0, 0, 0⟩).idx =
        blockIdx nrTasklets taskletId last ∧
      (stoppedAfter n (main nrTasklets buffer perfcounter taskletId).stores ⟨0, 0, 0⟩).checksum =
        prefixSum nrTasklets buffer taskletId (blocksPerStripe nrTasklets) := by
  have some := blocksPerStripe_pos tiles
  have complete : stoppedAfter (n - 1)
      ((List.range REPEAT_TIMES).flatMap (repetitionStores nrTasklets buffer perfcounter taskletId))
      (repetitionReached nrTasklets buffer perfcounter taskletId 0) =
        blockResult nrTasklets buffer perfcounter taskletId 9 (blocksPerStripe nrTasklets - 1) := by
    rw [stoppedAfter_of_le (by rwa [length_repetitions])]
    exact perform_turns fun i _ => perform_repetitionStores buffer perfcounter some i
  have sum : prefixSum nrTasklets buffer taskletId (blocksPerStripe nrTasklets - 1 + 1) =
      prefixSum nrTasklets buffer taskletId (blocksPerStripe nrTasklets) := by rw [Nat.sub_add_cancel some]
  rw [stopped_eq buffer perfcounter tiles inside, complete]
  match n - 1 - REPEAT_TIMES * (blocksPerStripe nrTasklets * 3) with
  | 0 | 1 => exact ⟨blocksPerStripe nrTasklets - 1, by omega, rfl, sum⟩
  | 2 => exact ⟨blocksPerStripe nrTasklets - 1, by omega, rfl, rfl⟩
  | beyond + 3 =>
    refine ⟨blocksPerStripe nrTasklets, by omega, ?_⟩
    rw [stoppedAfter_of_le (by simp [finalStores, storeResult])]
    exact ⟨rfl, rfl⟩

/-- The condition under which the host completes the stripe of a tasklet that
is stopped after `n` of its assignments. Between the stores of the checksum and
of the index of a block, that block is added twice, unless it is the first of a
repetition: then the others are missing. Before the first index is stored, the
blocks added are those of the first tasklet. -/
def Recoverable (nrTasklets : Nat) (buffer : Nat → BitVec 8) (taskletId n : Nat) : Prop :=
  let blocks := blocksPerStripe nrTasklets
  let i := (n - 1) / (blocks * 3)
  let k := (n - 1) % (blocks * 3) / 3
  let own := ∑ each ∈ Ico 1 blocks, blockSum nrTasklets buffer taskletId each
  let first := ∑ each ∈ Ico 1 blocks, blockSum nrTasklets buffer 0 each
  if REPEAT_TIMES ≤ i then True
  else if (n - 1) % (blocks * 3) % 3 = 2 then
    if k ≠ 0 then blockSum nrTasklets buffer taskletId k = 0
    else if i ≠ 0 then own = 0
    else first = own
  else k = 0 → i = 0 → first = blockSum nrTasklets buffer taskletId 0 + own

/-- What a tasklet stopped at the start of a block has left, and what the host
makes of it together with the checksum of the block, if that has been stored. -/
theorem resume_blockReached {i k : Nat} (below : k < blocksPerStripe nrTasklets) {result : DpuResult}
    (idx : result.idx = (blockReached nrTasklets buffer perfcounter taskletId i k).idx) :
    (resumeTasklet nrTasklets buffer result).checksum = result.checksum +
      if k ≠ 0 then ∑ each ∈ Ico k (blocksPerStripe nrTasklets), blockSum nrTasklets buffer taskletId each
      else if i ≠ 0 then 0
      else ∑ each ∈ Ico 1 (blocksPerStripe nrTasklets), blockSum nrTasklets buffer 0 each := by
  match k, i with
  | k + 1, i => exact resumeTasklet_checksum buffer tiles inside idx
  | 0, i + 1 =>
    refine (resumeTasklet_checksum buffer tiles inside idx).trans ?_
    rw [Nat.sub_add_cancel below]
    simp
  | 0, 0 =>
    have first : result.idx = blockIdx nrTasklets 0 0 := by rw [idx, blockIdx, Nat.zero_mul, Nat.zero_mul]; rfl
    exact resumeTasklet_checksum buffer tiles (Nat.zero_lt_of_lt inside) first

omit tiles inside in
theorem prefixSum_add {k : Nat} (below : k ≤ blocksPerStripe nrTasklets) :
    prefixSum nrTasklets buffer taskletId k +
        ∑ each ∈ Ico k (blocksPerStripe nrTasklets), blockSum nrTasklets buffer taskletId each =
      prefixSum nrTasklets buffer taskletId (blocksPerStripe nrTasklets) :=
  sum_range_add_sum_Ico _ below

/-- A stop before the checksum of block `k` is stored. -/
theorem resume_before_iff {i k : Nat} (below : k < blocksPerStripe nrTasklets) {result : DpuResult}
    (idx : result.idx = (blockReached nrTasklets buffer perfcounter taskletId i k).idx)
    (checksum : result.checksum = (blockReached nrTasklets buffer perfcounter taskletId i k).checksum) :
    (resumeTasklet nrTasklets buffer result).checksum =
        prefixSum nrTasklets buffer taskletId (blocksPerStripe nrTasklets) ↔
      (k = 0 → i = 0 → ∑ each ∈ Ico 1 (blocksPerStripe nrTasklets), blockSum nrTasklets buffer 0 each =
        blockSum nrTasklets buffer taskletId 0 +
          ∑ each ∈ Ico 1 (blocksPerStripe nrTasklets), blockSum nrTasklets buffer taskletId each) := by
  rw [resume_blockReached buffer perfcounter tiles inside below idx, checksum]
  cases k with
  | succ k =>
    refine iff_of_true ?_ fun zero => absurd zero (Nat.succ_ne_zero k)
    rw [if_pos (Nat.succ_ne_zero k)]
    exact prefixSum_add buffer below.le
  | zero =>
    cases i with
    | succ i => simp [blockReached, repetitionReached, blockResult, Nat.sub_add_cancel below]
    | zero =>
      rw [← prefixSum_add buffer (Nat.succ_le_of_lt below)]
      simp [blockReached, repetitionReached, prefixSum]

/-- A stop between the stores of the checksum and of the index of block `k`. -/
theorem resume_between_iff {i k : Nat} (below : k < blocksPerStripe nrTasklets) {result : DpuResult}
    (idx : result.idx = (blockReached nrTasklets buffer perfcounter taskletId i k).idx)
    (checksum : result.checksum = prefixSum nrTasklets buffer taskletId (k + 1)) :
    (resumeTasklet nrTasklets buffer result).checksum =
        prefixSum nrTasklets buffer taskletId (blocksPerStripe nrTasklets) ↔
      if k ≠ 0 then blockSum nrTasklets buffer taskletId k = 0
      else if i ≠ 0 then ∑ each ∈ Ico 1 (blocksPerStripe nrTasklets), blockSum nrTasklets buffer taskletId each = 0
      else ∑ each ∈ Ico 1 (blocksPerStripe nrTasklets), blockSum nrTasklets buffer 0 each =
        ∑ each ∈ Ico 1 (blocksPerStripe nrTasklets), blockSum nrTasklets buffer taskletId each := by
  rw [resume_blockReached buffer perfcounter tiles inside below idx, checksum]
  cases k with
  | succ k =>
    rw [← prefixSum_add buffer below.le]
    simp [prefixSum, sum_range_succ _ (k + 1)]
  | zero =>
    rw [← prefixSum_add buffer (Nat.succ_le_of_lt below)]
    cases i <;> simp [eq_comm]

theorem resumed_eq_iff (n : Nat) :
    resumed nrTasklets buffer perfcounter taskletId n =
        prefixSum nrTasklets buffer taskletId (blocksPerStripe nrTasklets) ↔
      Recoverable nrTasklets buffer taskletId n := by
  have some := blocksPerStripe_pos tiles
  by_cases running : n - 1 < REPEAT_TIMES * (blocksPerStripe nrTasklets * 3)
  · have early : ¬ REPEAT_TIMES ≤ (n - 1) / (blocksPerStripe nrTasklets * 3) := by
      rw [not_le, Nat.div_lt_iff_lt_mul (by omega)]
      exact running
    have below : (n - 1) % (blocksPerStripe nrTasklets * 3) / 3 < blocksPerStripe nrTasklets := by
      have small := Nat.mod_lt (n - 1) (show 0 < blocksPerStripe nrTasklets * 3 by omega)
      omega
    have stores := Nat.mod_lt ((n - 1) % (blocksPerStripe nrTasklets * 3)) (show 0 < 3 by omega)
    have stopped := stopped_inside buffer perfcounter tiles inside running
    simp only [resumed, stopped, Recoverable, if_neg early]
    match stored : (n - 1) % (blocksPerStripe nrTasklets * 3) % 3 with
    | 0 | 1 =>
      simp only [Nat.reduceEqDiff, if_false]
      exact resume_before_iff buffer perfcounter tiles inside below rfl rfl
    | 2 =>
      simp only [if_true]
      exact resume_between_iff buffer perfcounter tiles inside below rfl rfl
    | beyond + 3 => omega
  · obtain ⟨last, beyond, idx, checksum⟩ := stopped_past buffer perfcounter tiles inside (not_lt.mp running)
    refine iff_of_true ?_ ?_
    · rw [resumed, resumeTasklet_checksum buffer tiles inside idx, checksum, Ico_eq_empty_of_le beyond, sum_empty,
        add_zero]
    · have late : REPEAT_TIMES ≤ (n - 1) / (blocksPerStripe nrTasklets * 3) :=
        (Nat.le_div_iff_mul_le (by omega)).mpr (not_lt.mp running)
      simp only [Recoverable, if_pos late]

omit tiles inside in
theorem blockIdx_div (nrTasklets taskletId k : Nat) {c : Nat} (small : c < BLOCK_SIZE) :
    (blockIdx nrTasklets taskletId k + c) / BLOCK_SIZE = taskletId + nrTasklets * k ∧
      (blockIdx nrTasklets taskletId k + c) % BLOCK_SIZE = c := by
  have shape : blockIdx nrTasklets taskletId k + c = c + BLOCK_SIZE * (taskletId + nrTasklets * k) := by
    rw [blockIdx]
    ring
  rw [shape, Nat.add_mul_div_left _ _ (by decide), Nat.div_eq_of_lt small, Nat.add_mul_mod_self_left,
    Nat.mod_eq_of_lt small, Nat.zero_add]
  exact ⟨rfl, rfl⟩

omit tiles inside in
theorem blockIdx_of_byte {i : Nat} (own : i / BLOCK_SIZE % nrTasklets = taskletId) :
    blockIdx nrTasklets taskletId (i / BLOCK_SIZE / nrTasklets) + i % BLOCK_SIZE = i := by
  have blocks := Nat.div_add_mod (i / BLOCK_SIZE) nrTasklets
  rw [own] at blocks
  calc blockIdx nrTasklets taskletId (i / BLOCK_SIZE / nrTasklets) + i % BLOCK_SIZE
      = BLOCK_SIZE * (nrTasklets * (i / BLOCK_SIZE / nrTasklets) + taskletId) + i % BLOCK_SIZE := by
        rw [blockIdx]
        ring
    _ = i := by rw [blocks, Nat.div_add_mod]

/-- The blocks of a tasklet make up its stripe. -/
theorem stripeSum_eq :
    stripeSum nrTasklets buffer taskletId = prefixSum nrTasklets buffer taskletId (blocksPerStripe nrTasklets) := by
  have size := bufferSize_eq tiles
  rw [stripeSum, prefixSum]
  simp only [blockSum]
  rw [← sum_product']
  refine sum_nbij' (fun i => (i / BLOCK_SIZE / nrTasklets, i % BLOCK_SIZE))
    (fun at_byte => blockIdx nrTasklets taskletId at_byte.1 + at_byte.2) ?_ ?_ ?_ ?_ ?_
  · intro i member
    obtain ⟨small, own⟩ := mem_filter.mp member
    refine mem_product.mpr ⟨mem_range.mpr ?_, mem_range.mpr (Nat.mod_lt _ (by decide))⟩
    rw [Nat.div_div_eq_div_mul, Nat.div_lt_iff_lt_mul (Nat.mul_comm _ _ ▸ stride_pos tiles),
      Nat.mul_comm BLOCK_SIZE, size]
    exact mem_range.mp small
  · rintro ⟨k, c⟩ member
    have below : k < blocksPerStripe nrTasklets := mem_range.mp (mem_product.mp member).1
    obtain ⟨block, byte⟩ := blockIdx_div nrTasklets taskletId k (mem_range.mp (mem_product.mp member).2)
    refine mem_filter.mpr ⟨mem_range.mpr ?_, ?_⟩
    · change blockIdx nrTasklets taskletId k + c < BUFFER_SIZE
      have strides := Nat.mul_le_mul_left nrTasklets (Nat.succ_le_of_lt below)
      rw [Nat.mul_succ] at strides
      rw [← size, ← Nat.mul_assoc, ← Nat.div_lt_iff_lt_mul (by decide), block, Nat.mul_comm _ nrTasklets]
      omega
    · rw [block, Nat.add_mul_mod_self_left, Nat.mod_eq_of_lt inside]
  · intro i member
    exact blockIdx_of_byte (mem_filter.mp member).2
  · rintro ⟨k, c⟩ member
    obtain ⟨block, byte⟩ := blockIdx_div nrTasklets taskletId k (mem_range.mp (mem_product.mp member).2)
    simp only [block, byte, Nat.add_mul_div_left _ _ (Nat.zero_lt_of_lt inside), Nat.div_eq_of_lt inside,
      Nat.zero_add]
  · intro i member
    rw [blockIdx_of_byte (mem_filter.mp member).2]

theorem resumed_eq_stripeSum_iff (n : Nat) :
    resumed nrTasklets buffer perfcounter taskletId n = stripeSum nrTasklets buffer taskletId ↔
      Recoverable nrTasklets buffer taskletId n := by
  rw [stripeSum_eq buffer tiles inside]
  exact resumed_eq_iff buffer perfcounter tiles inside n

end

/-- The tasklets share out the bytes of the buffer. -/
theorem sum_stripeSum {nrTasklets : Nat} (some : 0 < nrTasklets) (buffer : Nat → BitVec 8) :
    ∑ taskletId ∈ range nrTasklets, stripeSum nrTasklets buffer taskletId = bufferSum buffer :=
  sum_fiberwise_of_maps_to (fun _ _ => mem_range.mpr (Nat.mod_lt _ some)) _

/-- The resumed tasklets have the sums of their stripes, and together that of the buffer. -/
def Completes (nrTasklets : Nat) (buffer : Nat → BitVec 8) (perfcounter : Nat → Nat → BitVec 32)
    (stop : Nat → Nat) :
    Prop :=
  (∀ taskletId < nrTasklets,
      resumed nrTasklets buffer perfcounter taskletId (stop taskletId) = stripeSum nrTasklets buffer taskletId) ∧
    ∑ taskletId ∈ range nrTasklets, resumed nrTasklets buffer perfcounter taskletId
      (stop taskletId) = bufferSum buffer

/-- Whatever assignments the tasklets are stopped after, the host completes
their stripes exactly if every one of them is recoverable there. -/
theorem stripes_completed_iff {nrTasklets : Nat} (tiles : nrTasklets * BLOCK_SIZE ∣ BUFFER_SIZE)
    (buffer : Nat → BitVec 8)
    (perfcounter : Nat → Nat → BitVec 32) (stop : Nat → Nat) :
    Completes nrTasklets buffer perfcounter stop ↔
      ∀ taskletId < nrTasklets, Recoverable nrTasklets buffer taskletId (stop taskletId) := by
  constructor
  · rintro ⟨stripes, _⟩ taskletId inside
    exact (resumed_eq_stripeSum_iff buffer perfcounter tiles inside _).mp (stripes taskletId inside)
  · intro recoverable
    have stripes (taskletId : Nat) (inside : taskletId < nrTasklets) :=
      (resumed_eq_stripeSum_iff buffer perfcounter tiles inside _).mpr (recoverable taskletId inside)
    refine ⟨stripes, ?_⟩
    rw [← sum_stripeSum (Nat.pos_of_mul_pos_right (stride_pos tiles)) buffer]
    exact sum_congr rfl fun taskletId member => stripes taskletId (mem_range.mp member)

/-- Sixteen tasklets, each stopped at the start of another block of its first repetition. -/
theorem stripes_completed_inside :
    Completes 16 (fun b => BitVec.ofNat 8 b) (fun _ _ => 0) fun taskletId => 7 + 3 * taskletId := by
  refine (stripes_completed_iff (by decide) _ _ _).mpr fun taskletId inside => ?_
  have blocks : blocksPerStripe 16 * 3 = 6144 := by decide
  have repetition : (7 + 3 * taskletId - 1) / 6144 = 0 := Nat.div_eq_of_lt (by omega)
  have place : (7 + 3 * taskletId - 1) % 6144 = 3 * (taskletId + 2) := by omega
  simp only [Recoverable, blocks, repetition, place, Nat.mul_mod_right]
  rw [if_neg (by decide), if_neg (by decide), Nat.mul_div_cancel_left _ (by decide)]
  exact fun none => absurd none (Nat.succ_ne_zero _)

/-- The host takes the zeroed index of a tasklet that is stopped at once for a
block that is complete, and leaves out the first block of the stripe. -/
theorem sixteen_stripes_not_completed :
    ¬ ∀ (nrTasklets : Nat) (buffer : Nat → BitVec 8) (perfcounter : Nat → Nat → BitVec 32) (stop : Nat → Nat),
      nrTasklets * BLOCK_SIZE ∣ BUFFER_SIZE → Completes nrTasklets buffer perfcounter stop := by
  intro always
  have stripe := (always 16 (fun _ => 1) (fun _ _ => 0) (fun _ => 0) (by decide)).1 0 (by decide)
  have recoverable := (resumed_eq_stripeSum_iff _ _ (by decide) (by decide) 0).mp stripe
  have early : ¬ REPEAT_TIMES ≤ 0 := by decide
  have unstored : (0 : Nat) ≠ 2 := by decide
  simp only [Recoverable, Nat.zero_sub, Nat.zero_div, Nat.zero_mod, if_neg early, if_neg unstored] at recoverable
  have missing : blockSum 16 (fun _ => 1) 0 0 = 0 :=
    left_eq_add.mp ((recoverable trivial trivial).trans (add_comm _ _))
  have bytes : blockSum 16 (fun _ => 1) 0 0 = 256 := by
    simp [blockSum, BLOCK_SIZE]
  exact absurd (bytes.symm.trans missing) (by decide)

end Upmem.Checksum
