import Upmem.Rank

namespace Upmem

/-- What one `poll_rank` of the backend returns: its status and, for each
control interface, the run and fault bits of the hardware. The status is
that of the last command the poll needs, the collection of profiling
figures included: none of them touches the run context. -/
structure PollReading where
  status : DpuError
  run : Nat → DpuBitfield
  fault : Nat → DpuBitfield

/-- The statuses a launch depends on: its poll, the preparation of profiling
and the boot commands. -/
structure LaunchReading where
  poll : PollReading
  profiling : DpuError
  boot : DpuError

/-- The run context a poll computes from the bits it read. -/
def pollRunContext (reading : PollReading) (rank : Rank) : RunContext :=
  let inFault ci := reading.fault ci &&& rank.enabledMask ci
  let running ci := (reading.run ci &&& rank.enabledMask ci) &&& ~~~ inFault ci
  { rank.runContext with
    dpuInFault := fun ci => if ci < rank.nrCis then inFault ci else rank.runContext.dpuInFault ci
    dpuRunning := fun ci => if ci < rank.nrCis then running ci else rank.runContext.dpuRunning ci
    nbDpuRunning := rank.sumCis fun ci => popcount (running ci) }

def dpuPollRank (reading : PollReading) (rank : Rank) : DpuError × Rank :=
  if reading.status ≠ .ok then (reading.status, rank)
  else (.ok, { rank with runContext := pollRunContext reading rank })

/-- The run context once every enabled DPU has been booted. -/
def launchRunContext (rank : Rank) : RunContext :=
  { rank.runContext with
    dpuRunning := fun ci => if ci < rank.nrCis then rank.enabledMask ci else rank.runContext.dpuRunning ci
    nbDpuRunning := rank.sumCis fun ci => dpuMaskCount (rank.enabledMask ci) }

def dpuLaunchThreadOnRank (thread : Nat) (reading : LaunchReading) (rank : Rank) : DpuError × Rank :=
  if rank.description.nrOfThreads ≤ thread then (.invalidThreadId, rank)
  else
    let (status, polled) := dpuPollRank reading.poll rank
    if status ≠ .ok then (status, polled)
    else if reading.profiling ≠ .ok then (reading.profiling, polled)
    else if reading.boot ≠ .ok then (reading.boot, polled)
    else (.ok, { polled with runContext := launchRunContext polled })

/-- The run context once one DPU that was not running has been booted. -/
def launchDpuRunContext (ci dpuId : Nat) (rank : Rank) : RunContext :=
  { rank.runContext with
    dpuRunning := Function.update rank.runContext.dpuRunning ci
      (rank.runContext.dpuRunning ci ||| dpuMaskOne dpuId)
    nbDpuRunning := rank.runContext.nbDpuRunning + 1 }

def dpuLaunchThreadOnDpu (ci dpuId thread : Nat) (reading : LaunchReading) (rank : Rank) :
    DpuError × Rank :=
  if !(rank.dpus ci dpuId).enabled then (.dpuDisabled, rank)
  else if rank.description.nrOfThreads ≤ thread then (.invalidThreadId, rank)
  else
    let (status, polled) := dpuPollRank reading.poll rank
    -- the flag that `dpu_poll_dpu` returns beside the status of the poll
    let dpuIsRunning := dpuMaskIsSelected (polled.runContext.dpuRunning ci) dpuId
    if status ≠ .ok then (status, polled)
    else if reading.profiling ≠ .ok then (reading.profiling, polled)
    else if reading.boot ≠ .ok then (reading.boot, polled)
    else if dpuIsRunning then (.ok, polled)
    else (.ok, { polled with runContext := launchDpuRunContext ci dpuId polled })

def DPU_BOOT_THREAD : Nat := 0

/-- `preexecution` is the status of the custom command sent before the boot. -/
def dpuBootRank (preexecution : DpuError) (reading : LaunchReading) (rank : Rank) : DpuError × Rank :=
  if rank.runContext.nbDpuRunning ≠ 0 then (.dpuAlreadyRunning, rank)
  else if preexecution ≠ .ok then (preexecution, rank)
  else dpuLaunchThreadOnRank DPU_BOOT_THREAD reading rank

def dpuBootDpu (ci dpuId : Nat) (preexecution : DpuError) (reading : LaunchReading) (rank : Rank) :
    DpuError × Rank :=
  if !(rank.dpus ci dpuId).enabled then (.dpuDisabled, rank)
  else if dpuMaskIntersection (rank.runContext.dpuRunning ci) (dpuMaskOne dpuId) ≠ dpuMaskEmpty then
    (.dpuAlreadyRunning, rank)
  else if preexecution ≠ .ok then (preexecution, rank)
  else dpuLaunchThreadOnDpu ci dpuId DPU_BOOT_THREAD reading rank

/-- `dpu_status_rank`: its `done` and `fault` results. Its status is always `DPU_OK`. -/
def dpuStatusRank (rank : Rank) : Bool × Bool :=
  ((List.range rank.nrCis).foldl (fun done ci => done && rank.runContext.dpuRunning ci == dpuMaskEmpty) true,
   (List.range rank.nrCis).foldl (fun fault ci => fault || rank.runContext.dpuInFault ci != dpuMaskEmpty) false)

theorem foldl_and_eq_all {p : Nat → Bool} {xs : List Nat} {start : Bool} :
    xs.foldl (fun done ci => done && p ci) start = (start && xs.all p) := by
  induction xs generalizing start with
  | nil => simp
  | cons x xs ih => simp [ih, Bool.and_assoc]

/-- A rank is reported done exactly when no bitmap records a running DPU. -/
theorem dpuStatusRank_done {rank : Rank} :
    (dpuStatusRank rank).1 = true ↔ ∀ ci < rank.nrCis, rank.runContext.dpuRunning ci = dpuMaskEmpty := by
  simp only [dpuStatusRank, foldl_and_eq_all, Bool.true_and, List.all_eq_true, List.mem_range, beq_iff_eq]

theorem dpuPollRank_cases (reading : PollReading) (rank : Rank) :
    (reading.status ≠ .ok ∧ dpuPollRank reading rank = (reading.status, rank)) ∨
    (reading.status = .ok ∧
      dpuPollRank reading rank = (.ok, { rank with runContext := pollRunContext reading rank })) := by
  by_cases succeeded : reading.status = .ok
  · exact Or.inr ⟨succeeded, by simp [dpuPollRank, succeeded]⟩
  · exact Or.inl ⟨succeeded, by simp [dpuPollRank, succeeded]⟩

/-- What a launch on a rank can do: nothing, only the poll, or the poll and
the boot of every enabled DPU. It succeeds in the last case only. -/
theorem dpuLaunchThreadOnRank_cases (thread : Nat) (reading : LaunchReading) (rank : Rank) :
    let result := dpuLaunchThreadOnRank thread reading rank
    let polled := { rank with runContext := pollRunContext reading.poll rank }
    (result.1 ≠ .ok ∧ result.2 = rank) ∨ (result.1 ≠ .ok ∧ result.2 = polled) ∨
      (result.1 = .ok ∧ reading.poll.status = .ok ∧ reading.boot = .ok ∧
        result.2 = { polled with runContext := launchRunContext polled }) := by
  intro result polled
  by_cases bound : rank.description.nrOfThreads ≤ thread
  · simp [result, dpuLaunchThreadOnRank, bound]
  rcases dpuPollRank_cases reading.poll rank with ⟨failed, run⟩ | ⟨read, run⟩
  · simp [result, dpuLaunchThreadOnRank, bound, run, failed]
  · by_cases profiling : reading.profiling = .ok <;> by_cases boot : reading.boot = .ok <;>
      simp [result, polled, dpuLaunchThreadOnRank, bound, run, read, profiling, boot]

theorem dpuLaunchThreadOnDpu_cases (ci dpuId thread : Nat) (reading : LaunchReading) (rank : Rank) :
    let result := dpuLaunchThreadOnDpu ci dpuId thread reading rank
    let polled := { rank with runContext := pollRunContext reading.poll rank }
    (result.1 ≠ .ok ∧ result.2 = rank) ∨ (result.1 ≠ .ok ∧ result.2 = polled) ∨
      (result.1 = .ok ∧ (rank.dpus ci dpuId).enabled = true ∧ reading.poll.status = .ok ∧
        ((dpuMaskIsSelected (polled.runContext.dpuRunning ci) dpuId = true ∧ result.2 = polled) ∨
          (dpuMaskIsSelected (polled.runContext.dpuRunning ci) dpuId = false ∧
            result.2 = { polled with runContext := launchDpuRunContext ci dpuId polled }))) := by
  intro result polled
  by_cases enabled : (rank.dpus ci dpuId).enabled = true
  swap
  · simp [result, dpuLaunchThreadOnDpu, enabled]
  by_cases bound : rank.description.nrOfThreads ≤ thread
  · simp [result, dpuLaunchThreadOnDpu, enabled, bound]
  rcases dpuPollRank_cases reading.poll rank with ⟨failed, run⟩ | ⟨read, run⟩
  · simp [result, dpuLaunchThreadOnDpu, enabled, bound, run, failed]
  · by_cases profiling : reading.profiling = .ok <;> by_cases boot : reading.boot = .ok <;>
      by_cases running : dpuMaskIsSelected ((pollRunContext reading.poll rank).dpuRunning ci) dpuId = true <;>
      simp [result, polled, dpuLaunchThreadOnDpu, enabled, bound, run, read, profiling, boot, running]

theorem dpuBootRank_cases (preexecution : DpuError) (reading : LaunchReading) (rank : Rank) :
    let result := dpuBootRank preexecution reading rank
    (result.1 ≠ .ok ∧ result.2 = rank) ∨
      (rank.runContext.nbDpuRunning = 0 ∧ result = dpuLaunchThreadOnRank DPU_BOOT_THREAD reading rank) := by
  intro result
  by_cases counter : rank.runContext.nbDpuRunning = 0 <;> by_cases custom : preexecution = .ok <;>
    simp [result, dpuBootRank, counter, custom]

theorem dpuBootDpu_cases (ci dpuId : Nat) (preexecution : DpuError) (reading : LaunchReading) (rank : Rank) :
    let result := dpuBootDpu ci dpuId preexecution reading rank
    (result.1 ≠ .ok ∧ result.2 = rank) ∨
      result = dpuLaunchThreadOnDpu ci dpuId DPU_BOOT_THREAD reading rank := by
  intro result
  by_cases enabled : (rank.dpus ci dpuId).enabled = true <;>
    by_cases running : dpuMaskIntersection (rank.runContext.dpuRunning ci) (dpuMaskOne dpuId) = dpuMaskEmpty <;>
    by_cases custom : preexecution = .ok <;>
    simp [result, dpuBootDpu, enabled, running, custom]

end Upmem
