import Upmem.Rank
import Upmem.Lib.StatusChain

namespace Upmem
open StatusChain

def NB_MAX_REPAIR_ADDR : Nat := 4
def NR_OF_WRAM_BANKS : Nat := 4

/-- `struct dpu_repair_config`. -/
structure RepairConfig where
  abMsbs : BitVec 8
  cdMsbs : BitVec 8
  aLsbs : BitVec 8
  bLsbs : BitVec 8
  cLsbs : BitVec 8
  dLsbs : BitVec 8
  evenIndex : BitVec 8
  oddIndex : BitVec 8
  deriving DecidableEq, Repr

/-- The configuration an extraction starts from. -/
def RepairConfig.unset : RepairConfig := ⟨0xFF#8, 0xFF#8, 0xFF#8, 0xFF#8, 0xFF#8, 0xFF#8, 0xFF#8, 0xFF#8⟩

/-- The slot that a corrupted address takes: A, then B beside A, then C, then
D beside C. -/
def RepairConfig.placeAddress (config : RepairConfig) (address : BitVec 32) : Option RepairConfig :=
  let msbs := (address >>> 4).setWidth 8
  let lsbs := (address &&& 0xF#32).setWidth 8
  if config.aLsbs = 0xFF#8 then some { config with abMsbs := msbs, aLsbs := lsbs }
  else if config.bLsbs = 0xFF#8 ∧ config.abMsbs = msbs then some { config with bLsbs := lsbs }
  else if config.cLsbs = 0xFF#8 then some { config with cdMsbs := msbs, cLsbs := lsbs }
  else if config.dLsbs = 0xFF#8 ∧ config.cdMsbs = msbs then some { config with dLsbs := lsbs }
  else none

def findIndexOfFirstFaultyBit (data : BitVec 64) : BitVec 8 := data.ctz.setWidth 8
def findIndexOfLastFaultyBit (data : BitVec 64) : BitVec 8 := (63#64 - data.clz).setWidth 8

/-- The case of two faulty bits, before it falls through to the case of one. -/
def RepairConfig.placeLastBit (config : RepairConfig) (faultyBits : BitVec 64) : RepairConfig :=
  let lastIndex := findIndexOfLastFaultyBit faultyBits
  if lastIndex &&& 1#8 = 1#8 then { config with oddIndex := lastIndex }
  else { config with evenIndex := lastIndex }

def RepairConfig.placeFirstBit (config : RepairConfig) (faultyBits : BitVec 64) : Option RepairConfig :=
  let firstIndex := findIndexOfFirstFaultyBit faultyBits
  if firstIndex &&& 1#8 = 1#8 then
    if config.oddIndex ≠ 0xFF#8 then none else some { config with oddIndex := firstIndex }
  else if config.evenIndex ≠ 0xFF#8 then none
  else some { config with evenIndex := firstIndex }

def RepairConfig.placeFaultyBits (config : RepairConfig) (faultyBits : BitVec 64) : Option RepairConfig :=
  match popcount faultyBits with
  | 0 => some config
  | 1 => config.placeFirstBit faultyBits
  | 2 => (config.placeLastBit faultyBits).placeFirstBit faultyBits
  | _ => none

/-- The default values of what an extraction left unset. -/
def RepairConfig.withDefaults (config : RepairConfig) : RepairConfig :=
  { config with
    aLsbs := if config.aLsbs = 0xFF#8 then 0xF#8 else config.aLsbs
    bLsbs := if config.bLsbs = 0xFF#8 then 0xF#8 else config.bLsbs
    cLsbs := if config.cLsbs = 0xFF#8 then 0xF#8 else config.cLsbs
    dLsbs := if config.dLsbs = 0xFF#8 then 0xF#8 else config.dLsbs
    evenIndex := if config.evenIndex = 0xFF#8 then 0#8 else config.evenIndex
    oddIndex := if config.oddIndex = 0xFF#8 then 1#8 else config.oddIndex }

/-- `extract_memory_repair_configuration`: the repair of a memory, if it has one. -/
def extractMemoryRepairConfiguration (repairInfo : MemoryRepair) : Option RepairConfig :=
  if NB_MAX_REPAIR_ADDR < repairInfo.nrOfCorruptedAddresses then none
  else
    let corrupted := (List.range repairInfo.nrOfCorruptedAddresses).map repairInfo.corruptedAddresses
    let faultyBits := corrupted.foldl (fun bits entry => bits ||| entry.faultyBits) 0#64
    (corrupted.foldlM (fun (config : RepairConfig) entry => config.placeAddress entry.address) .unset).bind
      fun config =>
      (config.placeFaultyBits faultyBits).map RepairConfig.withDefaults

/-- A memory without defects needs no repair and has one. -/
theorem extractMemoryRepairConfiguration_intact {repairInfo : MemoryRepair}
    (intact : repairInfo.nrOfCorruptedAddresses = 0) :
    (extractMemoryRepairConfiguration repairInfo).isSome := by
  have none_faulty : popcount 0#64 = 0 := popcount_eq_zero.mpr rfl
  simp [extractMemoryRepairConfiguration, intact, RepairConfig.placeFaultyBits, none_faulty]

/-- The marks that a DPU number leaves on the control interfaces where its
repair fails: its flag, its bit and the flag for all DPUs are cleared. -/
def Rank.markUnrepairable (rank : Rank) (eachDpu : Nat) (unrepairable : Nat → Bool) : Rank :=
  { rank with
    dpus := fun ci dpu =>
      if ci < rank.nrCis ∧ dpu = eachDpu ∧ unrepairable ci = true then { rank.dpus ci dpu with enabled := false }
      else rank.dpus ci dpu
    sliceInfo := fun ci =>
      if ci < rank.nrCis ∧ unrepairable ci = true then
        { rank.sliceInfo ci with
          enabledDpus := (rank.sliceInfo ci).enabledDpus &&& ~~~ (1#32 <<< eachDpu)
          allDpusAreEnabled := false }
      else rank.sliceInfo ci }

/-- No control interface has an enabled DPU left. -/
def Rank.allDisabled (rank : Rank) : Bool :=
  (List.range rank.nrCis).all fun ci => (rank.sliceInfo ci).enabledDpus = 0#32

/-- The common body of `try_to_repair_iram` and `try_to_repair_wram`: for each
step, the repair of one DPU number on every control interface, then the
selection of the DPU and the command that configures the repair. -/
def tryToRepair {ι : Type} (dpuOf : ι → Nat) (repairOf : ι → Dpu → MemoryRepair) (select config : ι → DpuError)
    (steps : List ι) (rank : Rank) : DpuError × Rank :=
  let (status, repaired) := loop .ok (fun step rank =>
    (firstFailure .ok [select step, config step],
     rank.markUnrepairable (dpuOf step) fun ci =>
       (extractMemoryRepairConfiguration (repairOf step (rank.dpus ci (dpuOf step)))).isNone)) steps rank
  if status ≠ .ok then (status, repaired)
  else if repaired.allDisabled then (.corruptedMemory, repaired)
  else (.ok, repaired)

def Rank.iramSteps (rank : Rank) : List Nat := List.range rank.nrDpusPerCi

def tryToRepairIram (select config : Nat → DpuError) (rank : Rank) : DpuError × Rank :=
  tryToRepair id (fun _ dpu => dpu.iramRepair) select config rank.iramSteps rank

/-- The DPU numbers and WRAM banks in the order of the nested loops. -/
def Rank.wramSteps (rank : Rank) : List (Nat × Nat) :=
  List.range rank.nrDpusPerCi ×ˢ List.range NR_OF_WRAM_BANKS

def tryToRepairWram (select config : Nat × Nat → DpuError) (rank : Rank) : DpuError × Rank :=
  tryToRepair Prod.fst (fun step dpu => dpu.wramRepair step.2) select config rank.wramSteps rank

end Upmem
