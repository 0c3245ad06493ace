import Upmem.Repair
import Upmem.Mram

namespace Upmem
open StatusChain

/-- The calls of a reset that can fail, whose statuses are all that the
enabled sets depend on. -/
inductive ResetCall
  | eventStart | allSoftReset | eventEnd
  | byteOrder | softReset (configured : Bool) | bitConfig | ciShufflingBoxConfig (again : Bool)
  | identity | thermalConfig | carouselConfig
  | selectAllIram | iramDefaultConfig | selectDpuIram (dpu : Nat) | iramRepairConfig (dpu : Nat)
  | selectAllWram | wramDefaultConfig (bank : Nat)
  | selectDpuWram (dpu bank : Nat) | wramRepairConfig (dpu bank : Nat)
  | dmaConfig | dmaShufflingBoxConfig | wavegenConfig | clearDebug | clearRunBits | setPcMode
  | setStackDirection | resetInternalState | handleAccess
  | selectDpuGroup (ci dpu : Nat) | writeGroup (ci dpu : Nat) | selectAllGroup | writeEnabledGroup
  | setSliceInfo
  deriving DecidableEq, Repr

/-- The two arrays in which `ci_reset_rank` saves the enabled DPUs. -/
structure SavedDpus where
  allDpusAreEnabled : Nat → Bool
  enabledDpus : Nat → DpuSelectedMask

/-- `save_enabled_dpus`, which updates the arrays it is passed, if any. It
leaves every DPU enabled on the control interfaces with an enabled DPU. -/
def saveEnabledDpus (update : Option SavedDpus) (rank : Rank) : SavedDpus × Rank :=
  ({ allDpusAreEnabled := fun ci =>
       if ci < rank.nrCis then
         match update with
         | none => (rank.sliceInfo ci).allDpusAreEnabled
         | some saved => saved.allDpusAreEnabled ci && (rank.sliceInfo ci).allDpusAreEnabled
       else false
     enabledDpus := fun ci =>
       if ci < rank.nrCis then
         match update with
         | none => (rank.sliceInfo ci).enabledDpus
         | some saved => saved.enabledDpus ci &&& (rank.sliceInfo ci).enabledDpus
       else 0#32 },
   { rank with
     dpus := fun ci dpu =>
       if ci < rank.nrCis ∧ dpu < rank.nrDpusPerCi ∧ (rank.sliceInfo ci).enabledDpus ≠ 0#32 then
         { rank.dpus ci dpu with enabled := true }
       else rank.dpus ci dpu
     sliceInfo := fun ci =>
       if ci < rank.nrCis ∧ (rank.sliceInfo ci).enabledDpus ≠ 0#32 then
         { rank.sliceInfo ci with
           enabledDpus := (dpuMaskAll rank.nrDpusPerCi).setWidth 32
           allDpusAreEnabled := true }
       else rank.sliceInfo ci })

def dpuIramRepairConfig (call : ResetCall → DpuError) (rank : Rank) : DpuError × Rank :=
  if rank.description.doIramRepair then
    tryToRepairIram (fun dpu => call (.selectDpuIram dpu)) (fun dpu => call (.iramRepairConfig dpu)) rank
  else (firstFailure .ok [call .selectAllIram, call .iramDefaultConfig], rank)

def dpuWramRepairConfig (call : ResetCall → DpuError) (rank : Rank) : DpuError × Rank :=
  if rank.description.doWramRepair then
    tryToRepairWram (fun step => call (.selectDpuWram step.1 step.2))
      (fun step => call (.wramRepairConfig step.1 step.2)) rank
  else
    (firstFailure .ok
      (call .selectAllWram :: (List.range NR_OF_WRAM_BANKS).map fun bank => call (.wramDefaultConfig bank)), rank)

/-- The calls by which `dpu_init_groups` sorts the DPUs of `nrCis` control
interfaces into groups. -/
def groupCalls (nrCis nrDpusPerCi : Nat) (saved : SavedDpus) : List ResetCall :=
  ((List.range nrCis).flatMap fun ci =>
    if saved.allDpusAreEnabled ci then []
    else if saved.enabledDpus ci ≠ 0#32 then
      (List.range nrDpusPerCi).flatMap fun dpu => [.selectDpuGroup ci dpu, .writeGroup ci dpu]
    else []) ++
  if (List.range nrCis).any saved.allDpusAreEnabled then [.selectAllGroup, .writeEnabledGroup] else []

/-- The rank context set from the saved one. -/
def Rank.restoreEnabledDpus (rank : Rank) (saved : SavedDpus) : Rank :=
  { rank with
    nrDpusEnabled := rank.sumCis fun ci => popcount (saved.enabledDpus ci)
    dpus := fun ci dpu =>
      if ci < rank.nrCis ∧ dpu < rank.nrDpusPerCi then
        { rank.dpus ci dpu with enabled := saved.enabledDpus ci &&& (1#32 <<< dpu) != 0#32 }
      else rank.dpus ci dpu
    sliceInfo := fun ci =>
      if ci < rank.nrCis then
        { rank.sliceInfo ci with
          enabledDpus := saved.enabledDpus ci
          allDpusAreEnabled := saved.allDpusAreEnabled ci }
      else rank.sliceInfo ci }

def dpuInitGroups (call : ResetCall → DpuError) (saved : SavedDpus) (rank : Rank) : DpuError × Rank :=
  let status := firstFailure .ok ((groupCalls rank.nrCis rank.nrDpusPerCi saved).map call)
  if status ≠ .ok then (status, rank) else (.ok, rank.restoreEnabledDpus saved)

/-- The calls in front of the repairs. -/
def ResetCall.beforeRepair : List ResetCall :=
  [.byteOrder, .softReset false, .bitConfig, .ciShufflingBoxConfig false, .softReset true,
   .ciShufflingBoxConfig true, .identity, .thermalConfig, .carouselConfig]

/-- The calls between the repairs and the switch of the muxes. -/
def ResetCall.afterRepair : List ResetCall :=
  [.dmaConfig, .dmaShufflingBoxConfig, .wavegenConfig, .clearDebug, .clearRunBits, .setPcMode,
   .setStackDirection, .resetInternalState]

def ciResetRank (call : ResetCall → DpuError) (rank : Rank) : DpuError × Rank :=
  let (saved, rank) := saveEnabledDpus none rank
  let status := firstFailure .ok (ResetCall.beforeRepair.map call)
  if status ≠ .ok then (status, rank)
  else
  let (status, rank) := dpuIramRepairConfig call rank
  if status ≠ .ok then (status, rank)
  else
  let (saved, rank) := saveEnabledDpus (some saved) rank
  let (status, rank) := dpuWramRepairConfig call rank
  if status ≠ .ok then (status, rank)
  else
  let (saved, rank) := saveEnabledDpus (some saved) rank
  let status := firstFailure .ok (ResetCall.afterRepair.map call)
  if status ≠ .ok then (status, rank)
  else
  let (status, rank) := dpuSwitchMuxForRank rank.description.apiMustSwitchMramMux (call .handleAccess) rank
  if status ≠ .ok then (status, rank)
  else
  let (status, rank) := dpuInitGroups call saved rank
  if status ≠ .ok then (status, rank)
  else (call .setSliceInfo, rank)

def dpuResetRank (call : ResetCall → DpuError) (rank : Rank) : DpuError × Rank :=
  let status := firstFailure .ok [call .eventStart, call .allSoftReset]
  if status ≠ .ok then (status, rank)
  else
  let (status, rank) := ciResetRank call rank
  if status ≠ .ok then (status, rank)
  else (call .eventEnd, rank)

/-- The reset of a rank leaves its description and its run context alone. -/
def Rank.SameRun (before after : Rank) : Prop :=
  after.description = before.description ∧ after.runContext = before.runContext

theorem tryToRepair_sameRun {ι : Type} (dpuOf : ι → Nat) (repairOf : ι → Dpu → MemoryRepair)
    (select config : ι → DpuError) (steps : List ι) (rank : Rank) :
    rank.SameRun (tryToRepair dpuOf repairOf select config steps rank).2 := by
  have repaired : rank.SameRun (loop .ok (fun step rank => (firstFailure .ok [select step, config step],
      rank.markUnrepairable (dpuOf step) fun ci =>
        (extractMemoryRepairConfiguration (repairOf step (rank.dpus ci (dpuOf step)))).isNone)) steps rank).2 :=
    loop_invariant (fun _ _ same => same) steps ⟨rfl, rfl⟩
  unfold tryToRepair
  simp only []
  split_ifs <;> exact repaired

theorem dpuIramRepairConfig_sameRun (call : ResetCall → DpuError) (rank : Rank) :
    rank.SameRun (dpuIramRepairConfig call rank).2 := by
  unfold dpuIramRepairConfig
  split_ifs
  · exact tryToRepair_sameRun ..
  · exact ⟨rfl, rfl⟩

theorem dpuWramRepairConfig_sameRun (call : ResetCall → DpuError) (rank : Rank) :
    rank.SameRun (dpuWramRepairConfig call rank).2 := by
  unfold dpuWramRepairConfig
  split_ifs
  · exact tryToRepair_sameRun ..
  · exact ⟨rfl, rfl⟩

theorem dpuSwitchMuxForRank_sameRun (setMuxForHost : Bool) (handleAccess : DpuError) (rank : Rank) :
    rank.SameRun (dpuSwitchMuxForRank setMuxForHost handleAccess rank).2 := by
  unfold dpuSwitchMuxForRank
  simp only []
  split_ifs <;> exact ⟨rfl, rfl⟩

theorem dpuInitGroups_sameRun (call : ResetCall → DpuError) (saved : SavedDpus) (rank : Rank) :
    rank.SameRun (dpuInitGroups call saved rank).2 := by
  unfold dpuInitGroups
  simp only []
  split_ifs <;> exact ⟨rfl, rfl⟩

theorem Rank.SameRun.trans {first second third : Rank} (before : first.SameRun second)
    (after : second.SameRun third) : first.SameRun third :=
  ⟨after.1.trans before.1, after.2.trans before.2⟩

/-- A reset ends with the rank it has reached when a status fails. -/
theorem Rank.SameRun.ifOk {rank after : Rank} {status : DpuError} {rest : DpuError × Rank}
    (same : rank.SameRun after)
    (later : rank.SameRun rest.2) : rank.SameRun (if status ≠ .ok then (status, after) else rest).2 := by
  split
  · exact same
  · exact later

theorem saveEnabledDpus_sameRun (update : Option SavedDpus) (rank : Rank) :
    rank.SameRun (saveEnabledDpus update rank).2 :=
  ⟨rfl, rfl⟩

theorem ciResetRank_sameRun (call : ResetCall → DpuError) (rank : Rank) :
    rank.SameRun (ciResetRank call rank).2 := by
  simp only [ciResetRank]
  have first := saveEnabledDpus_sameRun none rank
  generalize saveEnabledDpus none rank = before at first ⊢
  refine .ifOk first ?_
  have iram := first.trans (dpuIramRepairConfig_sameRun call before.2)
  generalize dpuIramRepairConfig call before.2 = repaired at iram ⊢
  refine .ifOk iram ?_
  have again := iram.trans (saveEnabledDpus_sameRun (some before.1) repaired.2)
  generalize saveEnabledDpus (some before.1) repaired.2 = between at again ⊢
  have wram := again.trans (dpuWramRepairConfig_sameRun call between.2)
  generalize dpuWramRepairConfig call between.2 = repaired at wram ⊢
  refine .ifOk wram ?_
  have last := wram.trans (saveEnabledDpus_sameRun (some between.1) repaired.2)
  generalize saveEnabledDpus (some between.1) repaired.2 = after at last ⊢
  refine .ifOk last ?_
  have mux := last.trans
    (dpuSwitchMuxForRank_sameRun after.2.description.apiMustSwitchMramMux (call .handleAccess) after.2)
  generalize dpuSwitchMuxForRank after.2.description.apiMustSwitchMramMux (call .handleAccess) after.2 = switched
    at mux ⊢
  have groups := mux.trans (dpuInitGroups_sameRun call after.1 switched.2)
  exact .ifOk mux (.ifOk groups groups)

theorem dpuResetRank_sameRun (call : ResetCall → DpuError) (rank : Rank) :
    rank.SameRun (dpuResetRank call rank).2 := by
  unfold dpuResetRank
  simp only []
  split_ifs
  · exact ⟨rfl, rfl⟩
  · exact ciResetRank_sameRun call rank
  · exact ciResetRank_sameRun call rank

end Upmem
