import Upmem.Mask
import Upmem.Lib.Loops

namespace Upmem

/-- `dpu_error_t`. -/
inductive DpuError
  | ok | internal | system | driver | allocation | invalidDpuSet | invalidThreadId | invalidNotifyId
  | invalidWramAccess | invalidIramAccess | invalidMramAccess | invalidSymbolAccess | mramBusy
  | transferAlreadySet | noProgramLoaded | differentDpuPrograms | corruptedMemory | dpuDisabled
  | dpuAlreadyRunning | invalidMemoryTransfer | invalidLaunchPolicy | dpuFault | elfInvalidFile
  | elfNoSuchFile | elfNoSuchSection | timeout | invalidProfile | unknownSymbol | logFormat
  | logContextMissing | logBufferTooSmall | vpdInvalidFile | vpdNoRepair | noThreadPerRank
  | invalidBufferSize | nonblockingSyncCallback | tooManyTasklets | sgTooManyBlocks | sgLengthMismatch
  | sgNotActivated | sgNotMramSymbol
  deriving DecidableEq, Repr

/-- The topology of a rank, within the sizes of the arrays indexed by it. -/
structure Topology where
  nrOfControlInterfaces : Nat
  nrOfDpusPerControlInterface : Nat
  cis_le : nrOfControlInterfaces ≤ DPU_MAX_NR_CIS
  dpus_le : nrOfDpusPerControlInterface ≤ DPU_MAX_NR_DPUS_PER_CI

section Sizes

theorem one_le_DPU_MAX_NR_CIS : 1 ≤ DPU_MAX_NR_CIS := by decide

theorem one_le_DPU_MAX_NR_DPUS_PER_CI : 1 ≤ DPU_MAX_NR_DPUS_PER_CI := by decide

theorem two_le_DPU_MAX_NR_DPUS_PER_CI : 2 ≤ DPU_MAX_NR_DPUS_PER_CI := by decide

theorem eight_le_DPU_MAX_NR_DPUS_PER_CI : 8 ≤ DPU_MAX_NR_DPUS_PER_CI := by decide

end Sizes

/-- The part of `struct _dpu_description_t` the modelled functions read. -/
structure Description where
  topology : Topology
  nrOfThreads : Nat
  mramSize : BitVec 32
  mramAccessByDpuOnly : Bool
  apiMustSwitchMramMux : Bool
  initMramMux : Bool
  doIramRepair : Bool
  doWramRepair : Bool

/-- `struct dpu_memory_repair_address_t`. -/
structure MemoryRepairAddress where
  address : BitVec 32
  faultyBits : BitVec 64

/-- `struct dpu_memory_repair_t`. -/
structure MemoryRepair where
  corruptedAddresses : Nat → MemoryRepairAddress
  nrOfCorruptedAddresses : Nat

/-- `struct dpu_t`: whether the DPU is enabled and the defects of its memories. -/
structure Dpu where
  enabled : Bool
  iramRepair : MemoryRepair
  wramRepair : Nat → MemoryRepair

/-- `struct dpu_configuration_slice_info_t`. -/
structure SliceInfo where
  hostMuxMramState : DpuBitfield
  enabledDpus : DpuSelectedMask
  allDpusAreEnabled : Bool

/-- `struct _dpu_run_context_t`. -/
structure RunContext where
  dpuRunning : Nat → DpuBitfield
  dpuInFault : Nat → DpuBitfield
  pollStatus : DpuError
  nbDpuRunning : Nat

/-- `struct dpu_rank_t`. Control interfaces and DPUs are numbered from 0;
the functions of the source read the entries below the topology's bounds. -/
structure Rank where
  description : Description
  dpus : Nat → Nat → Dpu
  nrDpusEnabled : Nat
  sliceInfo : Nat → SliceInfo
  runContext : RunContext

abbrev Rank.nrCis (rank : Rank) : Nat :=
  rank.description.topology.nrOfControlInterfaces

abbrev Rank.nrDpusPerCi (rank : Rank) : Nat :=
  rank.description.topology.nrOfDpusPerControlInterface

theorem Rank.nrDpusPerCi_le (rank : Rank) : rank.nrDpusPerCi ≤ 8 :=
  rank.description.topology.dpus_le

/-- The enabled DPUs of a control interface as the bitfields of the run
context hold them. -/
def Rank.enabledMask (rank : Rank) (ci : Nat) : DpuBitfield :=
  (rank.sliceInfo ci).enabledDpus.setWidth 8

/-- The sum of a quantity over the control interfaces of a rank. -/
def Rank.sumCis (rank : Rank) (f : Nat → Nat) : Nat :=
  (List.range rank.nrCis).foldl (fun total ci => total + f ci) 0

/-- The number of DPUs that the bitmaps of the run context record as running. -/
def Rank.recordedRunning (rank : Rank) : Nat :=
  rank.sumCis fun ci => popcount (rank.runContext.dpuRunning ci)

/-- The counter of running DPUs agrees with the bitmaps. -/
def Rank.CounterAgrees (rank : Rank) : Prop :=
  rank.runContext.nbDpuRunning = rank.recordedRunning

theorem Rank.sumCis_eq_sum (rank : Rank) (f : Nat → Nat) :
    rank.sumCis f = ((List.range rank.nrCis).map f).sum := by
  rw [Rank.sumCis, Loops.foldl_add, Nat.zero_add]

theorem Rank.sumCis_eq_zero {rank : Rank} {f : Nat → Nat} :
    rank.sumCis f = 0 ↔ ∀ ci < rank.nrCis, f ci = 0 := by
  simp [Rank.sumCis_eq_sum, List.sum_eq_zero_iff_forall_eq_nat]

theorem Rank.sumCis_congr {rank : Rank} {f g : Nat → Nat} (same : ∀ ci < rank.nrCis, f ci = g ci) :
    rank.sumCis f = rank.sumCis g := by
  rw [Rank.sumCis_eq_sum, Rank.sumCis_eq_sum]
  exact congrArg List.sum (List.map_congr_left fun ci member => same ci (List.mem_range.mp member))

/-- Adding one at a single control interface adds one to the sum. -/
theorem Rank.sumCis_update {rank : Rank} {f g : Nat → Nat} {at_ci : Nat} (inside : at_ci < rank.nrCis)
    (here : g at_ci = f at_ci + 1) (other : ∀ ci, ci ≠ at_ci → g ci = f ci) :
    rank.sumCis g = rank.sumCis f + 1 := by
  rw [Rank.sumCis_eq_sum, Rank.sumCis_eq_sum]
  revert inside
  induction rank.nrCis with
  | zero => exact fun inside => absurd inside (by omega)
  | succ n ih =>
    intro inside
    rw [List.range_succ, List.map_append, List.map_append, List.sum_append, List.sum_append]
    simp only [List.map_cons, List.map_nil, List.sum_cons, List.sum_nil, Nat.add_zero]
    by_cases last : at_ci = n
    · subst last
      have same : (List.range at_ci).map g = (List.range at_ci).map f :=
        List.map_congr_left fun ci member => other ci (List.mem_range.mp member).ne
      rw [same, here]
      omega
    · rw [ih (by omega), other n (by omega)]
      omega

theorem Rank.recordedRunning_eq_zero {rank : Rank} :
    rank.recordedRunning = 0 ↔ ∀ ci < rank.nrCis, rank.runContext.dpuRunning ci = dpuMaskEmpty := by
  simp only [Rank.recordedRunning, Rank.sumCis_eq_zero, popcount_eq_zero]
  rfl

end Upmem
