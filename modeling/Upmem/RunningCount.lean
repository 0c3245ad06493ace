import Upmem.Host

namespace Upmem
open Transitions

theorem pollRunContext_agrees (reading : PollReading) (rank : Rank) :
    Rank.CounterAgrees { rank with runContext := pollRunContext reading rank } :=
  Rank.sumCis_congr fun ci inside => by simp [pollRunContext, inside]

theorem launchRunContext_agrees (rank : Rank) :
    Rank.CounterAgrees { rank with runContext := launchRunContext rank } :=
  Rank.sumCis_congr fun ci inside => by simp [launchRunContext, inside, dpuMaskCount]

theorem launchDpuRunContext_agrees {rank : Rank} {ci dpuId : Nat} (agrees : rank.CounterAgrees)
    (ciInside : ci < rank.nrCis) (dpuInside : dpuId < 8)
    (stopped : dpuMaskIsSelected (rank.runContext.dpuRunning ci) dpuId = false) :
    Rank.CounterAgrees { rank with runContext := launchDpuRunContext ci dpuId rank } := by
  rw [dpuMaskIsSelected_eq dpuInside] at stopped
  have sum : rank.sumCis (fun each => popcount ((launchDpuRunContext ci dpuId rank).dpuRunning each)) =
      rank.recordedRunning + 1 := by
    refine Rank.sumCis_update ciInside ?_ fun each other => ?_
    · simp [launchDpuRunContext, popcount_or_dpuMaskOne dpuInside stopped]
    · simp [launchDpuRunContext, Function.update_of_ne other]
  exact (congrArg (· + 1) agrees).trans sum.symm

theorem dpuBootRank_agrees {rank : Rank} (preexecution : DpuError) (reading : LaunchReading)
    (agrees : rank.CounterAgrees) : (dpuBootRank preexecution reading rank).2.CounterAgrees := by
  rcases dpuBootRank_cases preexecution reading rank with ⟨_, unchanged⟩ | ⟨_, launched⟩
  · rwa [unchanged]
  · rw [launched]
    rcases dpuLaunchThreadOnRank_cases DPU_BOOT_THREAD reading rank with
      ⟨_, unchanged⟩ | ⟨_, polled⟩ | ⟨_, _, _, booted⟩
    · rwa [unchanged]
    · rw [polled]
      exact pollRunContext_agrees reading.poll rank
    · rw [booted]
      exact launchRunContext_agrees _

theorem dpuBootDpu_agrees {rank : Rank} {ci dpuId : Nat} (preexecution : DpuError) (reading : LaunchReading)
    (agrees : rank.CounterAgrees) (ciInside : ci < rank.nrCis) (dpuInside : dpuId < rank.nrDpusPerCi) :
    (dpuBootDpu ci dpuId preexecution reading rank).2.CounterAgrees := by
  have small : dpuId < 8 := dpuInside.trans_le rank.nrDpusPerCi_le
  rcases dpuBootDpu_cases ci dpuId preexecution reading rank with ⟨_, unchanged⟩ | launched
  · rwa [unchanged]
  · rw [launched]
    have polledAgrees := pollRunContext_agrees reading.poll rank
    rcases dpuLaunchThreadOnDpu_cases ci dpuId DPU_BOOT_THREAD reading rank with
      ⟨_, unchanged⟩ | ⟨_, polled⟩ | ⟨_, _, _, ⟨_, polled⟩ | ⟨stopped, booted⟩⟩
    · rwa [unchanged]
    · rwa [polled]
    · rwa [polled]
    · rw [booted]
      exact launchDpuRunContext_agrees polledAgrees ciInside small stopped

theorem dpuPollRank_agrees {rank : Rank} (reading : PollReading) (agrees : rank.CounterAgrees) :
    (dpuPollRank reading rank).2.CounterAgrees := by
  rcases dpuPollRank_cases reading rank with ⟨_, run⟩ | ⟨_, run⟩ <;> rw [run]
  · exact agrees
  · exact pollRunContext_agrees reading rank

theorem Rank.SameRun.agrees {before after : Rank} (same : before.SameRun after) (agrees : before.CounterAgrees) :
    after.CounterAgrees := by
  have cis : after.nrCis = before.nrCis := by rw [Rank.nrCis, same.1]
  simp only [Rank.CounterAgrees, Rank.recordedRunning, Rank.sumCis, cis, same.2]
  exact agrees

section
variable {ρ : Type}

theorem HostRank.bootRank_agrees {r : HostRank ρ} (current : Bool) (commands : LaunchCommands)
    (agrees : r.rank.CounterAgrees) : (r.bootRank current commands).2.rank.CounterAgrees := by
  have booted := dpuBootRank_agrees commands.preexecution (r.reading commands) agrees
  unfold HostRank.bootRank
  simp only []
  split_ifs <;> exact booted

theorem HostRank.bootDpu_agrees {r : HostRank ρ} {ci dpu : Nat} (commands : LaunchCommands)
    (agrees : r.rank.CounterAgrees) (ciInside : ci < r.rank.nrCis) (dpuInside : dpu < r.rank.nrDpusPerCi) :
    (r.bootDpu ci dpu commands).2.rank.CounterAgrees := by
  have booted := dpuBootDpu_agrees commands.preexecution (r.reading commands) agrees ciInside dpuInside
  unfold HostRank.bootDpu
  simp only []
  split_ifs <;> exact booted

theorem HostRank.poll_agrees {r : HostRank ρ} (status : DpuError) (agrees : r.rank.CounterAgrees) :
    (r.poll status).rank.CounterAgrees :=
  dpuPollRank_agrees ⟨status, r.run, r.fault⟩ agrees

theorem HostRank.reset_agrees {r : HostRank ρ} (call : ResetCall → DpuError) (run fault : Nat → DpuBitfield)
    (agrees : r.rank.CounterAgrees) : (r.reset call run fault).rank.CounterAgrees :=
  (dpuResetRank_sameRun call r.rank).agrees agrees

/-- Clearing only the counter keeps the agreement of an idle rank, and breaks
that of any other. -/
theorem HostRank.abortStrugglingDpuAdvance_agrees_iff {r : HostRank ρ} (agrees : r.rank.CounterAgrees) :
    r.abortStrugglingDpuAdvance.rank.CounterAgrees ↔ r.rank.runContext.nbDpuRunning = 0 := by
  rw [agrees]
  exact eq_comm

theorem DeviceStep.agrees {r after : HostRank ρ} (step : DeviceStep r after) (agrees : r.rank.CounterAgrees) :
    after.rank.CounterAgrees := by
  cases step with
  | same device => rwa [device.1]
  | bootRank current commands => exact HostRank.bootRank_agrees current commands agrees
  | bootDpu commands ciInside dpuInside => exact HostRank.bootDpu_agrees commands agrees ciInside dpuInside
  | poll status => exact HostRank.poll_agrees status agrees
  | progress => exact agrees
  | reset call run fault => exact HostRank.reset_agrees call run fault agrees

end

/-- The running counters agree with the bitmaps, and the host is granted the
MRAM of a rank only while no DPU of it is recorded as running. -/
def Host.CountsAgree {ρ : Type} (h : Host ρ) : Prop :=
  ∀ r, (h.ranks r).rank.CounterAgrees ∧ ∀ request : MramRequest, request.Granted (h.ranks r).rank →
    ∀ ci < (h.ranks r).rank.nrCis, (h.ranks r).rank.runContext.dpuRunning ci = dpuMaskEmpty

theorem Host.forall_counterAgrees_iff {ρ : Type} {h : Host ρ} :
    h.CountsAgree ↔ ∀ r, (h.ranks r).rank.CounterAgrees :=
  ⟨fun both r => (both r).1, fun agrees r => ⟨agrees r, fun _ granted => (agrees r).granted_idle granted⟩⟩

theorem Host.Allocated.countsAgree {ρ : Type} {h : Host ρ} (allocated : h.Allocated) : h.CountsAgree := by
  refine Host.forall_counterAgrees_iff.mpr fun r => ?_
  have rank := allocated.ranks r
  rw [Rank.CounterAgrees, rank.counter]
  exact (Rank.recordedRunning_eq_zero.mpr rank.bitmaps).symm

variable {ρ : Type} [DecidableEq ρ]

/-- The transition aborts no rank by clearing a counter that is not zero. -/
def KeepsCount (τ : Transition (Host ρ) (HostAction ρ)) : Prop :=
  τ.action = .call .abort → τ.before.kind = .advance → ∀ i, τ.before.call.poller = .abort i →
    i < τ.before.call.preempt.nrRank → τ.before.call.preempt.rankDone i = 0 →
      (τ.before.ranks (τ.before.setRanks i)).rank.runContext.nbDpuRunning = 0

theorem Host.setRank_agrees_iff {h : Host ρ} {r : ρ} {value : HostRank ρ}
    (agrees : ∀ r, (h.ranks r).rank.CounterAgrees) :
    (∀ each, ((h.setRank r value).ranks each).rank.CounterAgrees) ↔ value.rank.CounterAgrees := by
  constructor
  · intro after
    simpa [Host.setRank] using after r
  · intro here each
    by_cases same : each = r
    · subst same
      simpa [Host.setRank] using here
    · simpa [Host.setRank, Function.update_of_ne same] using agrees each

/-- One step keeps the counters in agreement exactly if it clears none that
counts running DPUs. -/
theorem HostStep.keepsCounts_iff {s t : Host ρ} {a : HostAction ρ} (step : HostStep s a t) (agree : s.CountsAgree) :
    t.CountsAgree ↔ KeepsCount ⟨s, a, t⟩ := by
  rw [Host.forall_counterAgrees_iff] at agree ⊢
  rcases step.device with ⟨otherAction, devices⟩ | ⟨rfl, ranks⟩ | ⟨aborted, c, rfl, abort, taken, rfl⟩
  · exact iff_of_true (fun r => (devices r).agrees (agree r)) fun isAbort => absurd isAbort otherAction
  · refine iff_of_true (fun r => ?_) (by simp [KeepsCount])
    rw [ranks r]
    exact agree r
  · cases abort with
    | @last i at_poller beyond =>
      refine iff_of_true agree fun _ _ j at_j inside _ => ?_
      obtain rfl : i = j := PollerPc.abort.inj (at_poller.symm.trans at_j)
      exact absurd inside (not_lt.mpr beyond)
    | @spare i at_poller inside done =>
      refine iff_of_true agree fun _ _ j at_j _ running => ?_
      obtain rfl : i = j := PollerPc.abort.inj (at_poller.symm.trans at_j)
      exact absurd running done
    | restart call run fault at_poller inside running kind =>
      refine iff_of_true ?_ fun _ advance => ?_
      · refine (Host.setRank_agrees_iff agree).mpr ?_
        exact HostRank.reset_agrees call run fault (agree _)
      · exact absurd (kind.symm.trans advance) (by decide)
    | @advance i at_poller inside running kind =>
      have cleared := HostRank.abortStrugglingDpuAdvance_agrees_iff (agree (s.setRanks i))
      refine (Host.setRank_agrees_iff agree).trans (cleared.trans ?_)
      constructor
      · intro zero _ _ j at_j _ _
        obtain rfl : i = j := PollerPc.abort.inj (at_poller.symm.trans at_j)
        exact zero
      · intro keeps
        exact keeps rfl kind i at_poller inside running

/-- From the allocation of the ranks on, the counters agree with the bitmaps
and guard the MRAM exactly as long as no abort clears a counter that is not zero. -/
theorem HostRun.countsAgree_iff {start h : Host ρ} {history : List (Transition (Host ρ) (HostAction ρ))}
    (allocated : start.Allocated) (run : HostRun start history h) :
    (∀ τ ∈ history, τ.after.CountsAgree) ↔ ∀ τ ∈ history, KeepsCount τ :=
  run.guarded_iff (I := fun _ => True) trivial (fun _ _ _ _ _ => trivial) allocated.countsAgree
    fun _ _ _ _ agree step => step.keepsCounts_iff agree

theorem countsAgree_iff_single : ∃ history h, HostRun Host.singleStart history h ∧ h.call = singleAborting ∧
    ((∀ τ ∈ history, τ.after.CountsAgree) ↔ ∀ τ ∈ history, KeepsCount τ) := by
  obtain ⟨history, run⟩ := Host.single_aborting .advance
  exact ⟨history, _, run, rfl, HostRun.countsAgree_iff Host.singleStart_allocated run⟩

/-- When `abort_struggling_dpu_advance` aborts the single rank, its counter is
zero while its bitmaps hold a running DPU. -/
theorem single_advance_not_countsAgree :
    ¬ ∀ (start h : Host Unit) (history : List (Transition (Host Unit) (HostAction Unit))),
      start.Allocated → HostRun start history h → ∀ τ ∈ history, τ.after.CountsAgree := by
  intro always
  obtain ⟨history, run⟩ := Host.single_aborting .advance
  have aborted := run.next (.abort (.advance rfl Nat.zero_lt_one rfl rfl) rfl)
  have agrees := (always _ _ _ Host.singleStart_allocated aborted _ List.mem_cons_self ()).1
  have counter : singleBooted.rank.runContext.nbDpuRunning = 1 := rfl
  have booted : singleBooted.rank.CounterAgrees :=
    counter.trans (show 1 = singleBooted.rank.recordedRunning from rfl)
  have cleared := (HostRank.abortStrugglingDpuAdvance_agrees_iff booted).mp agrees
  exact absurd (counter.symm.trans cleared) Nat.one_ne_zero

end Upmem
