import Upmem.Runner

namespace Upmem

/-- How a transfer that passes the checks reaches the MRAM. -/
inductive MramPath
  | dpuProgram | direct
  deriving DecidableEq, Repr

/-- `verify_mram_access_offset_and_size`, with the addition in 32 bits. -/
def verifyMramAccessOffsetAndSize (offset size mramSize : BitVec 32) : DpuError :=
  if size % 8#32 ≠ 0#32 ∨ offset % 8#32 ≠ 0#32 then .invalidMramAccess
  else if mramSize ≤ offset ∨ mramSize < offset + size then .invalidMramAccess
  else .ok

/-- `dpu_copy_to_mrams` up to the call that accesses the MRAM. -/
def dpuCopyToMrams (offset size : BitVec 32) (rank : Rank) : Except DpuError MramPath :=
  let verified := verifyMramAccessOffsetAndSize offset size rank.description.mramSize
  if verified ≠ .ok then .error verified
  else if 0 < rank.runContext.nbDpuRunning then .error .mramBusy
  else if rank.description.mramAccessByDpuOnly then .ok .dpuProgram
  else .ok .direct

/-- `dpu_copy_from_mrams` up to the call that accesses the MRAM. -/
def dpuCopyFromMrams (offset size : BitVec 32) (rank : Rank) : Except DpuError MramPath :=
  let verified := verifyMramAccessOffsetAndSize offset size rank.description.mramSize
  if verified ≠ .ok then .error verified
  else if 0 < rank.runContext.nbDpuRunning then .error .mramBusy
  else if rank.description.mramAccessByDpuOnly then .ok .dpuProgram
  else .ok .direct

/-- Whether some control interface has a mux in the wrong direction. -/
def muxMustSwitch (setMuxForHost : Bool) (rank : Rank) : Bool :=
  (List.range rank.nrCis).any fun ci =>
    (setMuxForHost && decide (popcount (rank.sliceInfo ci).hostMuxMramState < rank.nrDpusPerCi)) ||
    (!setMuxForHost && (rank.sliceInfo ci).hostMuxMramState != 0#8)

/-- The mux states recorded before the muxes are switched. -/
def recordMuxForRank (setMuxForHost : Bool) (rank : Rank) : Rank :=
  { rank with
    sliceInfo := fun ci =>
      if ci < rank.nrCis then
        { rank.sliceInfo ci with
          hostMuxMramState := if setMuxForHost then dpuMaskAll rank.nrDpusPerCi else 0#8 }
      else rank.sliceInfo ci }

/-- `handleAccess` is the status of `host_handle_access_for_rank`. -/
def dpuSwitchMuxForRank (setMuxForHost : Bool) (handleAccess : DpuError) (rank : Rank) : DpuError × Rank :=
  if 0 < rank.runContext.nbDpuRunning then (.mramBusy, rank)
  else if !muxMustSwitch setMuxForHost rank then (.ok, rank)
  else
    let recorded := recordMuxForRank setMuxForHost rank
    if !rank.description.apiMustSwitchMramMux && !rank.description.initMramMux then (.ok, recorded)
    else (handleAccess, recorded)

/-- The requests of the host for the MRAM of a rank that only the counter of
running DPUs guards. -/
inductive MramRequest
  | copyTo (offset size : BitVec 32)
  | copyFrom (offset size : BitVec 32)
  | switchMux (setMuxForHost : Bool)

/-- The request passes the guards in front of the MRAM. -/
def MramRequest.Granted (rank : Rank) : MramRequest → Prop
  | .copyTo offset size => ∃ path, dpuCopyToMrams offset size rank = .ok path
  | .copyFrom offset size => ∃ path, dpuCopyFromMrams offset size rank = .ok path
  | .switchMux setMuxForHost => (dpuSwitchMuxForRank setMuxForHost .ok rank).1 = .ok

theorem dpuSwitchMuxForRank_busy {setMuxForHost : Bool} {handleAccess : DpuError} {rank : Rank}
    (running : 0 < rank.runContext.nbDpuRunning) :
    dpuSwitchMuxForRank setMuxForHost handleAccess rank = (.mramBusy, rank) := by
  simp [dpuSwitchMuxForRank, running]

/-- A granted request finds the counter of running DPUs at zero. -/
theorem MramRequest.Granted.counter_zero {rank : Rank} {request : MramRequest}
    (granted : request.Granted rank) : rank.runContext.nbDpuRunning = 0 := by
  by_contra running
  have positive : 0 < rank.runContext.nbDpuRunning := Nat.pos_of_ne_zero running
  cases request with
  | copyTo offset size =>
    obtain ⟨path, access⟩ := granted
    unfold dpuCopyToMrams at access
    simp only [positive, if_true] at access
    split at access <;> cases access
  | copyFrom offset size =>
    obtain ⟨path, access⟩ := granted
    unfold dpuCopyFromMrams at access
    simp only [positive, if_true] at access
    split at access <;> cases access
  | switchMux setMuxForHost =>
    simp only [Granted, dpuSwitchMuxForRank_busy positive] at granted
    cases granted

/-- With the counter in agreement with the bitmaps, the host is granted the
MRAM only when no DPU is recorded as running. -/
theorem Rank.CounterAgrees.granted_idle {rank : Rank} (agrees : rank.CounterAgrees) {request : MramRequest}
    (granted : request.Granted rank) :
    ∀ ci < rank.nrCis, rank.runContext.dpuRunning ci = dpuMaskEmpty := by
  rw [← Rank.recordedRunning_eq_zero, ← agrees]
  exact granted.counter_zero

end Upmem
