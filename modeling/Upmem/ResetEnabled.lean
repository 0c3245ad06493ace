import Upmem.EnabledSet
import Upmem.Reset

namespace Upmem
open StatusChain

/-- What a reset saves for a set of enabled DPUs. -/
def Rank.savedOf (rank : Rank) (enabled : DpuSet) : SavedDpus where
  allDpusAreEnabled ci := if ci < rank.nrCis then (List.range rank.nrDpusPerCi).all (enabled ci) else false
  enabledDpus ci := if ci < rank.nrCis then dpuMaskOf rank.nrDpusPerCi (enabled ci) else 0#32

/-- Every DPU of the control interfaces with a DPU of the set. -/
def Rank.talking (rank : Rank) (enabled : DpuSet) : DpuSet :=
  fun ci _ => (List.range rank.nrDpusPerCi).any (enabled ci)

theorem Rank.talking_eq {rank : Rank} {enabled : DpuSet} {ci : Nat} (dpu : Nat) :
    rank.talking enabled ci dpu = (dpuMaskOf rank.nrDpusPerCi (enabled ci) != 0#32) := by
  rw [Bool.eq_iff_iff, bne_iff_ne, ne_eq, dpuMaskOf_eq_zero rank.nrDpusPerCi_le, Bool.not_eq_false]
  rfl

theorem saveEnabledDpus_rank (update : Option SavedDpus) (rank : Rank) (enabled : DpuSet) :
    (saveEnabledDpus update (rank.withEnabled enabled)).2 = rank.withEnabled (rank.talking enabled) := by
  refine Rank.eq_withEnabled rfl rfl rfl (fun ci dpu => ?_) fun ci => ?_
  · by_cases inside : ci < rank.nrCis ∧ dpu < rank.nrDpusPerCi
    · rw [Rank.withEnabled_dpus inside.1 inside.2, Rank.talking_eq]
      by_cases talks : dpuMaskOf rank.nrDpusPerCi (enabled ci) = 0#32
      · have silent : enabled ci dpu = false := by
          have bit := dpuMaskOf_getLsbD rank.nrDpusPerCi_le (enabled ci) dpu
          simpa [talks, inside.2] using bit.symm
        simp [saveEnabledDpus, Rank.withEnabled_sliceInfo inside.1, Rank.withEnabled_dpus inside.1 inside.2,
          talks, silent]
      · simp [saveEnabledDpus, Rank.withEnabled_sliceInfo inside.1, Rank.withEnabled_dpus inside.1 inside.2,
          talks, inside]
    · rw [Rank.withEnabled_dpus_outside inside, ← Rank.withEnabled_dpus_outside inside enabled]
      exact if_neg fun all => inside ⟨all.1, all.2.1⟩
  · by_cases inside : ci < rank.nrCis
    · rw [Rank.withEnabled_sliceInfo inside]
      cases talks : (List.range rank.nrDpusPerCi).any (enabled ci) with
      | true =>
        have mask : dpuMaskOf rank.nrDpusPerCi (enabled ci) ≠ 0#32 := fun empty => by
          simpa [talks] using (dpuMaskOf_eq_zero rank.nrDpusPerCi_le).mp empty
        have all : rank.talking enabled ci = fun _ => true := funext fun _ => talks
        simp [saveEnabledDpus, Rank.withEnabled_sliceInfo inside, inside, mask, all,
          dpuMaskAll_eq rank.nrDpusPerCi_le]
      | false =>
        have mask := (dpuMaskOf_eq_zero rank.nrDpusPerCi_le).mpr talks
        have same : ∀ dpu < rank.nrDpusPerCi, enabled ci dpu = rank.talking enabled ci dpu := fun dpu below =>
          (Bool.eq_false_iff.mpr (List.any_eq_false.mp talks dpu (List.mem_range.mpr below))).trans talks.symm
        rw [← dpuMaskOf_congr same, ← all_range_congr same, ← Rank.withEnabled_sliceInfo inside enabled]
        refine if_neg fun all => all.2 ?_
        rw [Rank.withEnabled_sliceInfo inside]
        exact mask
    · rw [Rank.withEnabled_sliceInfo_outside inside, ← Rank.withEnabled_sliceInfo_outside inside enabled]
      exact if_neg fun all => inside all.1

theorem saveEnabledDpus_first (rank : Rank) (enabled : DpuSet) :
    (saveEnabledDpus none (rank.withEnabled enabled)).1 = rank.savedOf enabled := by
  simp only [saveEnabledDpus, Rank.savedOf, SavedDpus.mk.injEq]
  refine ⟨funext fun ci => ?_, funext fun ci => ?_⟩ <;> by_cases inside : ci < rank.nrCis <;>
    simp [inside, Rank.withEnabled_sliceInfo]

/-- Saving again intersects what was saved with the DPUs enabled now. -/
theorem saveEnabledDpus_again (rank : Rank) (saved enabled : DpuSet) :
    (saveEnabledDpus (some (rank.savedOf saved)) (rank.withEnabled enabled)).1 =
      rank.savedOf fun ci dpu => saved ci dpu && enabled ci dpu := by
  simp only [saveEnabledDpus, Rank.savedOf, SavedDpus.mk.injEq]
  refine ⟨funext fun ci => ?_, funext fun ci => ?_⟩ <;> by_cases inside : ci < rank.nrCis
  · simp [inside, Rank.withEnabled_sliceInfo, all_range_and]
  · simp [inside]
  · simp [inside, Rank.withEnabled_sliceInfo, dpuMaskOf_and rank.nrDpusPerCi_le]
  · simp [inside]

/-- Marking a DPU number takes it out of the enabled set where its repair fails. -/
theorem Rank.markUnrepairable_withEnabled {rank : Rank} {eachDpu : Nat} (below : eachDpu < rank.nrDpusPerCi)
    (enabled : DpuSet) (unrepairable : Nat → Bool) :
    (rank.withEnabled enabled).markUnrepairable eachDpu unrepairable =
      rank.withEnabled fun ci dpu => enabled ci dpu && !(decide (dpu = eachDpu) && unrepairable ci) := by
  refine Rank.eq_withEnabled rfl rfl rfl (fun ci dpu => ?_) fun ci => ?_
  · by_cases inside : ci < rank.nrCis ∧ dpu < rank.nrDpusPerCi
    · rw [Rank.withEnabled_dpus inside.1 inside.2]
      by_cases same : dpu = eachDpu
      · subst same
        cases fails : unrepairable ci <;>
          simp [Rank.markUnrepairable, Rank.withEnabled_dpus inside.1 inside.2, inside, fails]
      · simp [Rank.markUnrepairable, Rank.withEnabled_dpus inside.1 inside.2, same]
    · rw [Rank.withEnabled_dpus_outside inside, ← Rank.withEnabled_dpus_outside inside enabled]
      refine if_neg ?_
      rintro ⟨ciInside, rfl, _⟩
      exact inside ⟨ciInside, below⟩
  · by_cases inside : ci < rank.nrCis
    · rw [Rank.withEnabled_sliceInfo inside]
      cases fails : unrepairable ci with
      | false => simp [Rank.markUnrepairable, fails, Rank.withEnabled_sliceInfo inside]
      | true =>
        simp [Rank.markUnrepairable, fails, Rank.withEnabled_sliceInfo inside, inside,
          dpuMaskOf_clear rank.nrDpusPerCi_le]
        exact ⟨eachDpu, below, fun _ => rfl⟩
    · rw [Rank.withEnabled_sliceInfo_outside inside, ← Rank.withEnabled_sliceInfo_outside inside enabled]
      exact if_neg fun all => inside all.1

section
variable {ι : Type} (dpuOf : ι → Nat) (repairOf : ι → Dpu → MemoryRepair)

/-- The DPUs for which some of the steps finds no repair. -/
def Rank.unrepairable (rank : Rank) (steps : List ι) : DpuSet := fun ci dpu =>
  steps.any fun step =>
    decide (dpu = dpuOf step) &&
      (extractMemoryRepairConfiguration (repairOf step (rank.dpus ci (dpuOf step)))).isNone

/-- The steps of a repair take the DPUs they cannot repair out of the enabled set. -/
theorem Rank.markSteps_withEnabled {rank : Rank}
    (blind : ∀ step (dpu : Dpu) enabled, repairOf step { dpu with enabled := enabled } = repairOf step dpu)
    (steps : List ι) (below : ∀ step ∈ steps, dpuOf step < rank.nrDpusPerCi) (enabled : DpuSet) :
    steps.foldl (fun rank step => rank.markUnrepairable (dpuOf step) fun ci =>
        (extractMemoryRepairConfiguration (repairOf step (rank.dpus ci (dpuOf step)))).isNone)
      (rank.withEnabled enabled) =
    rank.withEnabled fun ci dpu => enabled ci dpu && !rank.unrepairable dpuOf repairOf steps ci dpu := by
  have unseen (set : DpuSet) (step : ι) (ci : Nat) : repairOf step ((rank.withEnabled set).dpus ci (dpuOf step)) =
      repairOf step (rank.dpus ci (dpuOf step)) := by
    by_cases inside : ci < rank.nrCis ∧ dpuOf step < rank.nrDpusPerCi
    · rw [Rank.withEnabled_dpus inside.1 inside.2, blind]
    · rw [Rank.withEnabled_dpus_outside inside]
  induction steps generalizing enabled with
  | nil => simp [Rank.unrepairable]
  | cons step rest ih =>
    rw [List.foldl_cons, Rank.markUnrepairable_withEnabled (below step List.mem_cons_self),
      ih fun later member => below later (List.mem_cons_of_mem _ member)]
    congr 1
    funext ci dpu
    simp only [unseen, Rank.unrepairable, List.any_cons, Bool.not_or, Bool.and_assoc]

/-- No DPU of a set is left on any control interface. -/
def Rank.noneLeft (rank : Rank) (enabled : DpuSet) : Bool :=
  (List.range rank.nrCis).all fun ci => !(List.range rank.nrDpusPerCi).any (enabled ci)

theorem Rank.allDisabled_withEnabled (rank : Rank) (enabled : DpuSet) :
    (rank.withEnabled enabled).allDisabled = rank.noneLeft enabled := by
  refine all_range_congr fun ci below => ?_
  have inside : ci < rank.nrCis := below
  rw [Rank.withEnabled_sliceInfo inside, Bool.eq_iff_iff, decide_eq_true_eq, dpuMaskOf_eq_zero rank.nrDpusPerCi_le,
    Bool.not_eq_true']

/-- The DPUs that a repair leaves enabled, given the steps it begins. -/
def Rank.repairLeft (rank : Rank) (status : ι → DpuError) (steps : List ι) (enabled : DpuSet) : DpuSet :=
  fun ci dpu => enabled ci dpu && !rank.unrepairable dpuOf repairOf (begun .ok status steps) ci dpu

/-- The status of a repair that leaves a set of DPUs enabled. -/
def Rank.repairStatus (rank : Rank) (status : DpuError) (left : DpuSet) : DpuError :=
  if status ≠ .ok then status else if rank.noneLeft left then .corruptedMemory else .ok

theorem tryToRepair_withEnabled {rank : Rank}
    (blind : ∀ step (dpu : Dpu) enabled, repairOf step { dpu with enabled := enabled } = repairOf step dpu)
    (select config : ι → DpuError) (steps : List ι) (below : ∀ step ∈ steps, dpuOf step < rank.nrDpusPerCi)
    (enabled : DpuSet) :
    let status step := firstFailure .ok [select step, config step]
    let left := rank.repairLeft dpuOf repairOf status steps enabled
    tryToRepair dpuOf repairOf select config steps (rank.withEnabled enabled) =
      (rank.repairStatus (firstFailure .ok (steps.map status)) left, rank.withEnabled left) := by
  intro status left
  have marked := Rank.markSteps_withEnabled dpuOf repairOf blind (begun .ok status steps)
    (fun step member => below step (begun_subset member)) enabled
  simp only [tryToRepair, loop_eq (fun _ _ => rfl)]
  rw [marked]
  have disabled : (rank.withEnabled left).allDisabled = rank.noneLeft left := rank.allDisabled_withEnabled left
  change (if _ then (_, rank.withEnabled left) else if (rank.withEnabled left).allDisabled then _ else _) = _
  rw [disabled, Rank.repairStatus]
  split_ifs <;> rfl
end

/-- The statuses of the steps of the IRAM repair. -/
def iramStep (call : ResetCall → DpuError) (dpu : Nat) : DpuError :=
  firstFailure .ok [call (.selectDpuIram dpu), call (.iramRepairConfig dpu)]

def wramStep (call : ResetCall → DpuError) (step : Nat × Nat) : DpuError :=
  firstFailure .ok [call (.selectDpuWram step.1 step.2), call (.wramRepairConfig step.1 step.2)]

/-- The DPUs that the IRAM configuration leaves enabled. -/
def Rank.iramLeft (rank : Rank) (call : ResetCall → DpuError) (enabled : DpuSet) : DpuSet :=
  if rank.description.doIramRepair then
    rank.repairLeft id (fun _ dpu => dpu.iramRepair) (iramStep call) rank.iramSteps enabled
  else enabled

def Rank.iramStatus (rank : Rank) (call : ResetCall → DpuError) (enabled : DpuSet) : DpuError :=
  if rank.description.doIramRepair then
    rank.repairStatus (firstFailure .ok (rank.iramSteps.map (iramStep call))) (rank.iramLeft call enabled)
  else firstFailure .ok [call .selectAllIram, call .iramDefaultConfig]

/-- The DPUs that the WRAM configuration leaves enabled. -/
def Rank.wramLeft (rank : Rank) (call : ResetCall → DpuError) (enabled : DpuSet) : DpuSet :=
  if rank.description.doWramRepair then
    rank.repairLeft Prod.fst (fun step dpu => dpu.wramRepair step.2) (wramStep call) rank.wramSteps enabled
  else enabled

def Rank.wramStatus (rank : Rank) (call : ResetCall → DpuError) (enabled : DpuSet) : DpuError :=
  if rank.description.doWramRepair then
    rank.repairStatus (firstFailure .ok (rank.wramSteps.map (wramStep call))) (rank.wramLeft call enabled)
  else
    firstFailure .ok
      (call .selectAllWram :: (List.range NR_OF_WRAM_BANKS).map fun bank => call (.wramDefaultConfig bank))

theorem dpuIramRepairConfig_withEnabled (call : ResetCall → DpuError) (rank : Rank) (enabled : DpuSet) :
    dpuIramRepairConfig call (rank.withEnabled enabled) =
      (rank.iramStatus call enabled, rank.withEnabled (rank.iramLeft call enabled)) := by
  have below : ∀ dpu ∈ rank.iramSteps, id dpu < rank.nrDpusPerCi := fun dpu member => List.mem_range.mp member
  have repaired := tryToRepair_withEnabled id (fun _ dpu => dpu.iramRepair) (fun _ _ _ => rfl)
    (fun dpu => call (.selectDpuIram dpu)) (fun dpu => call (.iramRepairConfig dpu)) rank.iramSteps below enabled
  by_cases repair : rank.description.doIramRepair = true
  · simp only [dpuIramRepairConfig, Rank.withEnabled_description, repair, if_true, Rank.iramStatus, Rank.iramLeft]
    exact repaired
  · simp [dpuIramRepairConfig, repair, Rank.iramStatus, Rank.iramLeft]

theorem dpuWramRepairConfig_withEnabled (call : ResetCall → DpuError) (rank : Rank) (enabled : DpuSet) :
    dpuWramRepairConfig call (rank.withEnabled enabled) =
      (rank.wramStatus call enabled, rank.withEnabled (rank.wramLeft call enabled)) := by
  have below : ∀ step ∈ rank.wramSteps, step.1 < rank.nrDpusPerCi := fun ⟨_, _⟩ member =>
    List.mem_range.mp (List.pair_mem_product.mp member).1
  have repaired := tryToRepair_withEnabled Prod.fst (fun step dpu => dpu.wramRepair step.2) (fun _ _ _ => rfl)
    (fun step => call (.selectDpuWram step.1 step.2)) (fun step => call (.wramRepairConfig step.1 step.2))
    rank.wramSteps below enabled
  by_cases repair : rank.description.doWramRepair = true
  · simp only [dpuWramRepairConfig, Rank.withEnabled_description, repair, if_true, Rank.wramStatus, Rank.wramLeft]
    exact repaired
  · simp [dpuWramRepairConfig, repair, Rank.wramStatus, Rank.wramLeft]

/-- The switch of the muxes does not look at the enabled DPUs. -/
theorem dpuSwitchMuxForRank_withEnabled (setMuxForHost : Bool) (handleAccess : DpuError) (rank : Rank)
    (enabled : DpuSet) :
    dpuSwitchMuxForRank setMuxForHost handleAccess (rank.withEnabled enabled) =
      ((dpuSwitchMuxForRank setMuxForHost handleAccess rank).1,
       (dpuSwitchMuxForRank setMuxForHost handleAccess rank).2.withEnabled enabled) := by
  have must : muxMustSwitch setMuxForHost (rank.withEnabled enabled) = muxMustSwitch setMuxForHost rank := by
    rw [Bool.eq_iff_iff]
    simp only [muxMustSwitch, List.any_eq_true, List.mem_range, Rank.withEnabled_nrCis]
    refine exists_congr fun ci => and_congr_right fun inside => ?_
    rw [Rank.withEnabled_sliceInfo inside]
    rfl
  have recorded : recordMuxForRank setMuxForHost (rank.withEnabled enabled) =
      (recordMuxForRank setMuxForHost rank).withEnabled enabled := by
    refine Rank.eq_withEnabled rfl rfl rfl (fun ci dpu => rfl) fun ci => ?_
    by_cases inside : ci < rank.nrCis <;> simp [recordMuxForRank, Rank.withEnabled, inside]
  simp only [dpuSwitchMuxForRank, must, recorded]
  split_ifs <;> simp_all [Rank.withEnabled]

/-- The rank with a new count of enabled DPUs. -/
def Rank.withNrDpusEnabled (rank : Rank) (nrDpusEnabled : Nat) : Rank :=
  { rank with nrDpusEnabled := nrDpusEnabled }

/-- Restoring a saved set gives the rank its three representations back,
whatever was enabled before. -/
theorem Rank.restoreEnabledDpus_withEnabled (rank : Rank) (before enabled : DpuSet) :
    ∃ nrDpusEnabled, (rank.withEnabled before).restoreEnabledDpus (rank.savedOf enabled) =
      (rank.withNrDpusEnabled nrDpusEnabled).withEnabled enabled := by
  refine ⟨_, Rank.eq_withEnabled rfl rfl rfl (fun ci dpu => ?_) fun ci => ?_⟩
  · by_cases inside : ci < rank.nrCis ∧ dpu < rank.nrDpusPerCi
    · have small : dpu < 32 := by
        have := rank.nrDpusPerCi_le
        omega
      have bit : (dpuMaskOf rank.nrDpusPerCi (enabled ci) &&& (1#32 <<< dpu) != 0#32) = enabled ci dpu := by
        rw [and_shiftLeft_one_ne_zero small, dpuMaskOf_getLsbD rank.nrDpusPerCi_le]
        simp [inside.2]
      simp [Rank.restoreEnabledDpus, Rank.savedOf, Rank.withEnabled, Rank.withNrDpusEnabled, inside, bit]
    · simp [Rank.restoreEnabledDpus, Rank.withEnabled, Rank.withNrDpusEnabled, inside]
  · by_cases inside : ci < rank.nrCis <;>
      simp [Rank.restoreEnabledDpus, Rank.savedOf, Rank.withEnabled, Rank.withNrDpusEnabled, inside]

/-- How far a reset gets. -/
inductive ResetExit
  | beforeRepair | inIram | inWram | afterRepair | restored
  deriving DecidableEq, Repr

/-- The DPUs enabled when the IRAM repair begins, and after each repair. -/
def Rank.resetIramLeft (rank : Rank) (call : ResetCall → DpuError) : DpuSet :=
  rank.iramLeft call (rank.talking rank.enabledSet)

def Rank.resetWramLeft (rank : Rank) (call : ResetCall → DpuError) : DpuSet :=
  rank.wramLeft call (rank.talking (rank.resetIramLeft call))

/-- The DPUs that a reset which is not cut short leaves enabled. -/
def Rank.resetSaved (rank : Rank) (call : ResetCall → DpuError) : DpuSet := fun ci dpu =>
  rank.enabledSet ci dpu && rank.resetIramLeft call ci dpu && rank.resetWramLeft call ci dpu

/-- How far a reset gets with given statuses of its calls. -/
def resetExit (call : ResetCall → DpuError) (rank : Rank) : ResetExit :=
  if firstFailure .ok (ResetCall.beforeRepair.map call) ≠ .ok then .beforeRepair
  else if rank.iramStatus call (rank.talking rank.enabledSet) ≠ .ok then .inIram
  else if rank.wramStatus call (rank.talking (rank.resetIramLeft call)) ≠ .ok then .inWram
  else if firstFailure .ok (ResetCall.afterRepair.map call) ≠ .ok ∨
    (dpuSwitchMuxForRank rank.description.apiMustSwitchMramMux (call .handleAccess) rank).1 ≠ .ok ∨
    firstFailure .ok ((groupCalls rank.nrCis rank.nrDpusPerCi (rank.savedOf (rank.resetSaved call))).map call) ≠ .ok
  then .afterRepair
  else .restored

/-- The DPUs enabled where a reset ends. -/
def ResetExit.leaves (call : ResetCall → DpuError) (rank : Rank) : ResetExit → DpuSet
  | beforeRepair => rank.talking rank.enabledSet
  | inIram => rank.resetIramLeft call
  | inWram => rank.resetWramLeft call
  | afterRepair => rank.talking (rank.resetWramLeft call)
  | restored => rank.resetSaved call

theorem Rank.savedOf_congr {rank other : Rank} (description : other.description = rank.description)
    (enabled : DpuSet) : other.savedOf enabled = rank.savedOf enabled := by
  simp only [Rank.savedOf, Rank.nrCis, Rank.nrDpusPerCi, description]

/-- The groups are either all written, and the saved set restored, or
nothing has changed. -/
theorem dpuInitGroups_withEnabled {rank base : Rank} (description : base.description = rank.description)
    (call : ResetCall → DpuError) (before enabled : DpuSet) :
    let status := firstFailure .ok ((groupCalls rank.nrCis rank.nrDpusPerCi (rank.savedOf enabled)).map call)
    let result := dpuInitGroups call (rank.savedOf enabled) (base.withEnabled before)
    (status ≠ .ok ∧ result = (status, base.withEnabled before)) ∨
      (status = .ok ∧ ∃ nrDpusEnabled,
        result = (.ok, (base.withNrDpusEnabled nrDpusEnabled).withEnabled enabled)) := by
  intro status result
  have sizes : groupCalls (base.withEnabled before).nrCis (base.withEnabled before).nrDpusPerCi
      (rank.savedOf enabled) = groupCalls rank.nrCis rank.nrDpusPerCi (rank.savedOf enabled) := by
    rw [Rank.withEnabled_nrCis, Rank.withEnabled_nrDpusPerCi, Rank.nrCis, Rank.nrDpusPerCi, description]
  by_cases passed : status = .ok
  · obtain ⟨nrDpusEnabled, restored⟩ := base.restoreEnabledDpus_withEnabled before enabled
    rw [Rank.savedOf_congr description] at restored
    refine .inr ⟨passed, nrDpusEnabled, ?_⟩
    simp only [result, dpuInitGroups, sizes, restored]
    exact if_neg (not_not.mpr passed)
  · refine .inl ⟨passed, ?_⟩
    simp only [result, dpuInitGroups, sizes]
    exact if_pos passed

/-- Where a reset ends, the enabled DPUs are those that its exit leaves. It
succeeds only after the saved set was restored. -/
theorem ciResetRank_exit {rank : Rank} (agrees : rank.Agrees) (call : ResetCall → DpuError) :
    ∃ base : Rank, base.description = rank.description ∧
      (ciResetRank call rank).2 = base.withEnabled ((resetExit call rank).leaves call rank) ∧
      ((ciResetRank call rank).1 = .ok → resetExit call rank = .restored) := by
  generalize run : ciResetRank call rank = result
  rw [← agrees.withEnabled_eq] at run
  have iramLeft : rank.iramLeft call (rank.talking rank.enabledSet) = rank.resetIramLeft call := rfl
  have wramLeft : rank.wramLeft call (rank.talking (rank.resetIramLeft call)) = rank.resetWramLeft call := rfl
  have saved : (fun ci dpu => rank.enabledSet ci dpu && rank.resetIramLeft call ci dpu &&
      rank.resetWramLeft call ci dpu) = rank.resetSaved call := rfl
  simp only [ciResetRank, saveEnabledDpus_first, saveEnabledDpus_rank, dpuIramRepairConfig_withEnabled,
    dpuWramRepairConfig_withEnabled, saveEnabledDpus_again, dpuSwitchMuxForRank_withEnabled,
    Rank.withEnabled_description, iramLeft, wramLeft, saved] at run
  have switched := (dpuSwitchMuxForRank_sameRun rank.description.apiMustSwitchMramMux (call .handleAccess) rank).1
  unfold resetExit
  generalize dpuSwitchMuxForRank rank.description.apiMustSwitchMramMux (call .handleAccess) rank = switch
    at run switched ⊢
  by_cases early : firstFailure .ok (ResetCall.beforeRepair.map call) = .ok
  swap
  · rw [if_pos early] at run ⊢
    subst run
    exact ⟨rank, rfl, rfl, fun ok => absurd ok early⟩
  rw [if_neg (not_not.mpr early)] at run ⊢
  by_cases iram : rank.iramStatus call (rank.talking rank.enabledSet) = .ok
  swap
  · rw [if_pos iram] at run ⊢
    subst run
    exact ⟨rank, rfl, rfl, fun ok => absurd ok iram⟩
  rw [if_neg (not_not.mpr iram)] at run ⊢
  by_cases wram : rank.wramStatus call (rank.talking (rank.resetIramLeft call)) = .ok
  swap
  · rw [if_pos wram] at run ⊢
    subst run
    exact ⟨rank, rfl, rfl, fun ok => absurd ok wram⟩
  rw [if_neg (not_not.mpr wram)] at run ⊢
  by_cases late : firstFailure .ok (ResetCall.afterRepair.map call) = .ok
  swap
  · rw [if_pos late] at run
    rw [if_pos (.inl late)]
    subst run
    exact ⟨rank, rfl, rfl, fun ok => absurd ok late⟩
  rw [if_neg (not_not.mpr late)] at run
  by_cases mux : switch.1 = .ok
  swap
  · rw [if_pos mux] at run
    rw [if_pos (.inr (.inl mux))]
    subst run
    exact ⟨switch.2, switched, rfl, fun ok => absurd ok mux⟩
  rw [if_neg (not_not.mpr mux)] at run
  rcases dpuInitGroups_withEnabled switched call (rank.talking (rank.resetWramLeft call)) (rank.resetSaved call)
    with ⟨failed, groups⟩ | ⟨passed, nrDpusEnabled, groups⟩
  · rw [groups] at run
    rw [if_pos failed] at run
    rw [if_pos (.inr (.inr failed))]
    subst run
    exact ⟨switch.2, switched, rfl, fun ok => absurd ok failed⟩
  · rw [groups] at run
    rw [if_neg (by simp [late, mux, passed])]
    subst run
    exact ⟨switch.2.withNrDpusEnabled nrDpusEnabled, switched, rfl, fun _ => rfl⟩

/-- The rank's IRAM repair, or the repair of one of its WRAM banks, fails for a DPU. -/
def Rank.repairFailed (rank : Rank) : DpuSet := fun ci dpu =>
  (rank.description.doIramRepair && (extractMemoryRepairConfiguration (rank.dpus ci dpu).iramRepair).isNone) ||
  (rank.description.doWramRepair && (List.range NR_OF_WRAM_BANKS).any fun bank =>
    (extractMemoryRepairConfiguration ((rank.dpus ci dpu).wramRepair bank)).isNone)

/-- A reset enables no disabled DPU, and one that succeeds leaves exactly the
enabled DPUs whose repairs did not fail, with the representations in agreement. -/
structure ResetSound (before : Rank) (result : DpuError × Rank) : Prop where
  keepsDisabled : before.KeepsDisabled result.2
  succeeded : result.1 = .ok → result.2.Agrees ∧ ∀ ci < before.nrCis, ∀ dpu < before.nrDpusPerCi,
    result.2.enabledSet ci dpu = (before.enabledSet ci dpu && !before.repairFailed ci dpu)

/-- The DPUs that an exit leaves enabled were all enabled before. -/
def ResetExit.Harmless (call : ResetCall → DpuError) (rank : Rank) (exit : ResetExit) : Prop :=
  ∀ ci < rank.nrCis, ∀ dpu < rank.nrDpusPerCi,
    exit.leaves call rank ci dpu = true → rank.enabledSet ci dpu = true

/-- A repair that begins all of its steps takes out the DPUs that some step
cannot repair. -/
theorem Rank.unrepairable_iram (rank : Rank) {ci dpu : Nat} (below : dpu < rank.nrDpusPerCi) :
    rank.unrepairable id (fun _ dpu => dpu.iramRepair) rank.iramSteps ci dpu =
      (extractMemoryRepairConfiguration (rank.dpus ci dpu).iramRepair).isNone := by
  rw [Bool.eq_iff_iff, Rank.unrepairable, List.any_eq_true]
  simp only [Rank.iramSteps, List.mem_range, id, Bool.and_eq_true, decide_eq_true_eq]
  constructor
  · rintro ⟨step, _, rfl, fails⟩
    exact fails
  · intro fails
    exact ⟨dpu, below, rfl, fails⟩

theorem Rank.unrepairable_wram (rank : Rank) {ci dpu : Nat} (below : dpu < rank.nrDpusPerCi) :
    rank.unrepairable Prod.fst (fun step dpu => dpu.wramRepair step.2) rank.wramSteps ci dpu =
      (List.range NR_OF_WRAM_BANKS).any fun bank =>
        (extractMemoryRepairConfiguration ((rank.dpus ci dpu).wramRepair bank)).isNone := by
  rw [Bool.eq_iff_iff, Rank.unrepairable, List.any_eq_true, List.any_eq_true]
  simp only [Bool.and_eq_true, decide_eq_true_eq]
  constructor
  · rintro ⟨⟨_, bank⟩, member, rfl, fails⟩
    exact ⟨bank, (List.pair_mem_product.mp member).2, fails⟩
  · rintro ⟨bank, member, fails⟩
    exact ⟨(dpu, bank), List.pair_mem_product.mpr ⟨List.mem_range.mpr below, member⟩, rfl, fails⟩

/-- After a successful IRAM configuration, exactly the DPUs without an IRAM
repair are gone. -/
theorem Rank.iramLeft_of_ok {rank : Rank} {call : ResetCall → DpuError} {enabled : DpuSet}
    (succeeded : rank.iramStatus call enabled = .ok) {ci dpu : Nat} (below : dpu < rank.nrDpusPerCi) :
    rank.iramLeft call enabled ci dpu = (enabled ci dpu && !(rank.description.doIramRepair &&
      (extractMemoryRepairConfiguration (rank.dpus ci dpu).iramRepair).isNone)) := by
  by_cases repair : rank.description.doIramRepair = true
  · have steps : firstFailure .ok (rank.iramSteps.map (iramStep call)) = .ok := by
      by_contra failed
      simp [Rank.iramStatus, repair, Rank.repairStatus, failed] at succeeded
    simp only [Rank.iramLeft, repair, if_true, Rank.repairLeft, begun_eq_self steps, rank.unrepairable_iram below,
      Bool.true_and]
  · simp [Rank.iramLeft, repair]

theorem Rank.wramLeft_of_ok {rank : Rank} {call : ResetCall → DpuError} {enabled : DpuSet}
    (succeeded : rank.wramStatus call enabled = .ok) {ci dpu : Nat} (below : dpu < rank.nrDpusPerCi) :
    rank.wramLeft call enabled ci dpu = (enabled ci dpu && !(rank.description.doWramRepair &&
      (List.range NR_OF_WRAM_BANKS).any fun bank =>
        (extractMemoryRepairConfiguration ((rank.dpus ci dpu).wramRepair bank)).isNone)) := by
  by_cases repair : rank.description.doWramRepair = true
  · have steps : firstFailure .ok (rank.wramSteps.map (wramStep call)) = .ok := by
      by_contra failed
      simp [Rank.wramStatus, repair, Rank.repairStatus, failed] at succeeded
    simp only [Rank.wramLeft, repair, if_true, Rank.repairLeft, begun_eq_self steps, rank.unrepairable_wram below,
      Bool.true_and]
  · simp [Rank.wramLeft, repair]

theorem resetExit_restored {call : ResetCall → DpuError} {rank : Rank}
    (restored : resetExit call rank = .restored) :
    rank.iramStatus call (rank.talking rank.enabledSet) = .ok ∧
      rank.wramStatus call (rank.talking (rank.resetIramLeft call)) = .ok := by
  unfold resetExit at restored
  split_ifs at restored with early iram wram late
  exact ⟨not_not.mp iram, not_not.mp wram⟩

/-- A reset that is not cut short saves the enabled DPUs whose repairs did not fail. -/
theorem Rank.resetSaved_eq {call : ResetCall → DpuError} {rank : Rank}
    (restored : resetExit call rank = .restored) {ci dpu : Nat} (below : dpu < rank.nrDpusPerCi) :
    rank.resetSaved call ci dpu = (rank.enabledSet ci dpu && !rank.repairFailed ci dpu) := by
  obtain ⟨iram, wram⟩ := resetExit_restored restored
  have talks {set : DpuSet} (member : set ci dpu = true) : rank.talking set ci dpu = true :=
    List.any_eq_true.mpr ⟨dpu, List.mem_range.mpr below, member⟩
  have iramLeft : rank.resetIramLeft call ci dpu = _ := Rank.iramLeft_of_ok iram below
  have wramLeft : rank.resetWramLeft call ci dpu = _ := Rank.wramLeft_of_ok wram below
  rw [Rank.resetSaved, wramLeft, Rank.repairFailed, Bool.not_or]
  cases enabled : rank.enabledSet ci dpu with
  | false => simp
  | true =>
    cases left : rank.resetIramLeft call ci dpu with
    | false =>
      rw [left, talks enabled, Bool.true_and] at iramLeft
      rw [← iramLeft]
      rfl
    | true =>
      rw [left, talks enabled, Bool.true_and] at iramLeft
      rw [← iramLeft, talks left]
      rfl

/-- A reset is sound exactly when the DPUs that its exit leaves enabled were
all enabled before. -/
theorem ciResetRank_sound_iff {rank : Rank} (agrees : rank.Agrees) (call : ResetCall → DpuError) :
    ResetSound rank (ciResetRank call rank) ↔ (resetExit call rank).Harmless call rank := by
  obtain ⟨base, description, left, succeeded⟩ := ciResetRank_exit agrees call
  constructor
  · rintro ⟨keeps, _⟩
    rw [left, agrees.keepsDisabled_iff description] at keeps
    exact keeps
  · intro harmless
    refine ⟨?_, fun ok => ?_⟩
    · rw [left, agrees.keepsDisabled_iff description]
      exact harmless
    · have restored := succeeded ok
      rw [left, restored]
      refine ⟨base.withEnabled_agrees _, fun ci inside dpu below => ?_⟩
      have ciInside : ci < base.nrCis := by rwa [Rank.nrCis, description]
      have dpuInside : dpu < base.nrDpusPerCi := by rwa [Rank.nrDpusPerCi, description]
      rw [Rank.withEnabled_enabledSet ciInside dpuInside]
      exact Rank.resetSaved_eq restored below

/-- A rank of one control interface with two DPUs, of which only the first is enabled. -/
def halfEnabledRank (nbDpuRunning : Nat) : Rank where
  description :=
    { topology := { nrOfControlInterfaces := 1, nrOfDpusPerControlInterface := 2, cis_le := one_le_DPU_MAX_NR_CIS,
                    dpus_le := two_le_DPU_MAX_NR_DPUS_PER_CI }
      nrOfThreads := 24, mramSize := 0x4000000#32, mramAccessByDpuOnly := false, apiMustSwitchMramMux := true
      initMramMux := true, doIramRepair := false, doWramRepair := false }
  dpus := fun _ dpu =>
    { enabled := dpu = 0
      iramRepair := { corruptedAddresses := fun _ => ⟨0#32, 0#64⟩, nrOfCorruptedAddresses := 0 }
      wramRepair := fun _ => { corruptedAddresses := fun _ => ⟨0#32, 0#64⟩, nrOfCorruptedAddresses := 0 } }
  nrDpusEnabled := 1
  sliceInfo := fun _ => { hostMuxMramState := 0#8, enabledDpus := 1#32, allDpusAreEnabled := false }
  runContext :=
    { dpuRunning := fun _ => BitVec.ofNat 8 nbDpuRunning, dpuInFault := fun _ => 0#8, pollStatus := .ok
      nbDpuRunning := nbDpuRunning }

theorem halfEnabledRank_agrees (nbDpuRunning : Nat) : (halfEnabledRank nbDpuRunning).Agrees := by
  constructor
  · intro ci _ dpu
    change (1#32).getLsbD dpu = (decide (dpu < 2) && decide (dpu = 0))
    rw [BitVec.getLsbD_one]
    by_cases first : dpu = 0 <;> simp [first]
  · intro ci _
    exact iff_of_false Bool.false_ne_true fun all => Bool.false_ne_true (all 1 (Nat.lt_succ_self 1))

theorem ciResetRank_sound_idle :
    ResetSound (halfEnabledRank 0) (ciResetRank (fun _ => .ok) (halfEnabledRank 0)) := by
  refine (ciResetRank_sound_iff (halfEnabledRank_agrees 0) fun _ => .ok).mpr ?_
  have exit : resetExit (fun _ => .ok) (halfEnabledRank 0) = .restored := by decide
  intro ci inside dpu below left
  rw [exit, ResetExit.leaves, Rank.resetSaved, Bool.and_assoc, Bool.and_eq_true] at left
  exact left.1

/-- The reset of a rank that is still running ends with `DPU_ERR_MRAM_BUSY`
and leaves its disabled DPU enabled. -/
theorem ciResetRank_running_not_sound :
    ¬ ∀ (rank : Rank) (call : ResetCall → DpuError), rank.Agrees → ResetSound rank (ciResetRank call rank) := by
  intro always
  have sound := always (halfEnabledRank 1) (fun _ => .ok) (halfEnabledRank_agrees 1)
  have disabled := sound.keepsDisabled.flag 0 (by decide) 1 (by decide) (by decide)
  revert disabled
  decide

end Upmem
