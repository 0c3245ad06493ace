import Upmem.AbortArray
import Upmem.Host

namespace Upmem
open Transitions

section
variable {ρ : Type}

/-- The bitmaps record every DPU of a rank that has not stopped. -/
def HostRank.Recorded (r : HostRank ρ) : Prop :=
  ∀ ci < r.rank.nrCis, ∀ dpu, (r.notStopped ci).getLsbD dpu = true →
    (r.rank.runContext.dpuRunning ci).getLsbD dpu = true

/-- While the current launch runs on a rank, some DPU has not stopped and the
bitmaps record all those. -/
def HostRank.Tracked (r : HostRank ρ) : Prop :=
  r.phase = .running → r.Recorded ∧ ∃ ci < r.rank.nrCis, r.notStopped ci ≠ 0#8

/-- A tracked rank without recorded DPUs is not running. -/
theorem HostRank.Tracked.not_running {r : HostRank ρ} (tracked : r.Tracked)
    (idle : ∀ ci < r.rank.nrCis, r.rank.runContext.dpuRunning ci = dpuMaskEmpty) : r.phase ≠ .running := by
  intro running
  obtain ⟨recorded, ci, inside, some⟩ := tracked running
  refine some (BitVec.eq_of_getLsbD_eq fun dpu _ => ?_)
  have recorded := recorded ci inside dpu
  rw [idle ci inside, dpuMaskEmpty, BitVec.getLsbD_zero] at recorded
  rw [BitVec.getLsbD_zero]
  exact Bool.eq_false_iff.mpr fun notStopped => Bool.false_ne_true (recorded notStopped)

theorem HostRank.notStopped_getLsbD {r : HostRank ρ} {ci dpu : Nat} :
    (r.notStopped ci).getLsbD dpu = true ↔
      (r.run ci).getLsbD dpu = true ∧ (r.rank.enabledMask ci).getLsbD dpu = true ∧
        (r.fault ci).getLsbD dpu = false := by
  simp only [HostRank.notStopped, BitVec.getLsbD_and, BitVec.getLsbD_not, Bool.and_eq_true, decide_eq_true_eq,
    Bool.not_eq_true']
  constructor
  · rintro ⟨⟨run, enabled⟩, _, working⟩
    exact ⟨run, enabled, working⟩
  · rintro ⟨run, enabled, working⟩
    exact ⟨⟨run, enabled⟩, BitVec.lt_of_getLsbD enabled, working⟩

theorem HostRank.allStopped_iff {r : HostRank ρ} :
    r.allStopped = true ↔ ∀ ci < r.rank.nrCis, r.notStopped ci = 0#8 := by
  simp only [HostRank.allStopped, List.all_eq_true, List.mem_range, beq_iff_eq]

/-- Settling tracks a rank whose bitmaps record what has not stopped. -/
theorem HostRank.settle_tracked {r : HostRank ρ} (recorded : r.phase = .running → r.Recorded) :
    r.settle.Tracked := by
  intro running
  unfold HostRank.settle at running
  simp only [] at running
  split_ifs at running with stopped
  refine ⟨recorded running, ?_⟩
  by_contra none
  push Not at none
  exact stopped ⟨running, HostRank.allStopped_iff.mpr none⟩

/-- What a poll records is what has not stopped. -/
theorem HostRank.polled_dpuRunning (r : HostRank ρ) (status : DpuError) {ci dpu : Nat}
    (inside : ci < r.rank.nrCis) :
    ((pollRunContext { status := status, run := r.run, fault := r.fault } r.rank).dpuRunning ci).getLsbD dpu =
      (r.notStopped ci).getLsbD dpu := by
  simp only [pollRunContext, inside, if_true, HostRank.notStopped, BitVec.getLsbD_and, BitVec.getLsbD_not]
  cases (r.rank.enabledMask ci).getLsbD dpu <;> simp

theorem HostRank.polled_recorded (r : HostRank ρ) (status : DpuError) :
    HostRank.Recorded { r with
      rank := { r.rank with
        runContext := pollRunContext { status := status, run := r.run, fault := r.fault } r.rank } } :=
  fun _ inside _ notStopped => (r.polled_dpuRunning status inside).trans notStopped

theorem HostRank.Tracked.runContext {r : HostRank ρ} (tracked : r.Tracked) {context : RunContext}
    (recorded : r.phase = .running →
      HostRank.Recorded { r with rank := { r.rank with runContext := context } }) :
    HostRank.Tracked { r with rank := { r.rank with runContext := context } } :=
  fun running => ⟨recorded running, (tracked running).2⟩

theorem HostRank.Tracked.poll {r : HostRank ρ} (tracked : r.Tracked) (status : DpuError) :
    (r.poll status).Tracked := by
  unfold HostRank.poll
  rcases dpuPollRank_cases { status := status, run := r.run, fault := r.fault } r.rank with ⟨_,
    poll⟩ | ⟨_, poll⟩ <;>
    rw [poll]
  · exact tracked.runContext fun running => (tracked running).1
  · exact tracked.runContext fun _ => r.polled_recorded status

/-- What the boot of a rank can do: nothing, only the poll, or the boot. -/
theorem HostRank.bootRank_cases (r : HostRank ρ) (current : Bool) (commands : LaunchCommands) :
    let polled := { r.rank with runContext := pollRunContext (r.reading commands).poll r.rank }
    (r.bootRank current commands).2 = r ∨ (r.bootRank current commands).2 = { r with rank := polled } ∨
      (r.bootRank current commands).2 = HostRank.settle { r with
        rank := { polled with runContext := launchRunContext polled }
        run := fun ci => r.run ci ||| r.rank.enabledMask ci
        phase := if current = true ∧ r.phase = .pending then .running else r.phase } := by
  intro polled
  unfold HostRank.bootRank
  rcases dpuBootRank_cases commands.preexecution (r.reading commands) r.rank with ⟨failed,
    unchanged⟩ | ⟨_, launched⟩
  · exact .inl (by simp [failed, unchanged])
  · rw [launched]
    rcases dpuLaunchThreadOnRank_cases DPU_BOOT_THREAD (r.reading commands) r.rank with
      ⟨failed, unchanged⟩ | ⟨failed, poll⟩ | ⟨succeeded, _, _, booted⟩
    · exact .inl (by simp [failed, unchanged])
    · exact .inr (.inl (by simp [failed, poll, polled]))
    · exact .inr (.inr (by simp [succeeded, booted, polled]))

theorem HostRank.Tracked.bootRank {r : HostRank ρ} (tracked : r.Tracked) (current : Bool)
    (commands : LaunchCommands) : (r.bootRank current commands).2.Tracked := by
  rcases r.bootRank_cases current commands with unchanged | polled | booted
  · rwa [unchanged]
  · rw [polled]
    exact tracked.runContext fun _ => r.polled_recorded commands.poll
  · rw [booted]
    refine HostRank.settle_tracked fun _ ci inside dpu notStopped => ?_
    have enabled := (HostRank.notStopped_getLsbD.mp notStopped).2.1
    simp only [launchRunContext, if_pos inside]
    exact enabled

/-- What the boot of a DPU can do: nothing, only the poll, or the boot. -/
theorem HostRank.bootDpu_cases (r : HostRank ρ) (ci dpu : Nat) (commands : LaunchCommands) :
    let polled := { r.rank with runContext := pollRunContext (r.reading commands).poll r.rank }
    (r.bootDpu ci dpu commands).2 = r ∨ (r.bootDpu ci dpu commands).2 = { r with rank := polled } ∨
      ∃ context, (r.bootDpu ci dpu commands).2 = { r with
          rank := { r.rank with runContext := context }
          run := Function.update r.run ci (r.run ci ||| dpuMaskOne dpu) } ∧
        ((dpuMaskIsSelected (polled.runContext.dpuRunning ci) dpu = true ∧ context = polled.runContext) ∨
          context = launchDpuRunContext ci dpu polled) := by
  intro polled
  unfold HostRank.bootDpu
  rcases dpuBootDpu_cases ci dpu commands.preexecution (r.reading commands) r.rank with ⟨failed,
    unchanged⟩ | launched
  · exact .inl (by simp [failed, unchanged])
  · rw [launched]
    rcases dpuLaunchThreadOnDpu_cases ci dpu DPU_BOOT_THREAD (r.reading commands) r.rank with
      ⟨failed, unchanged⟩ | ⟨failed, poll⟩ | ⟨succeeded, _, _, ⟨selected, poll⟩ | ⟨_, booted⟩⟩
    · exact .inl (by simp [failed, unchanged])
    · exact .inr (.inl (by simp [failed, poll, polled]))
    · exact .inr (.inr ⟨polled.runContext, by simp [succeeded, poll, polled], .inl ⟨selected, rfl⟩⟩)
    · exact .inr (.inr ⟨launchDpuRunContext ci dpu polled, by simp [succeeded, booted, polled], .inr rfl⟩)

/-- The bitmaps after the boot of a DPU record that DPU and what the poll recorded. -/
theorem launchDpuRunContext_records {rank : Rank} {ci dpu : Nat} {context : RunContext} (inside : dpu < 8)
    (started : (dpuMaskIsSelected (rank.runContext.dpuRunning ci) dpu = true ∧ context = rank.runContext) ∨
      context = launchDpuRunContext ci dpu rank) :
    (context.dpuRunning ci).getLsbD dpu = true ∧
      ∀ each d, (rank.runContext.dpuRunning each).getLsbD d = true →
      (context.dpuRunning each).getLsbD d = true := by
  rcases started with ⟨selected, rfl⟩ | rfl
  · exact ⟨dpuMaskIsSelected_eq inside ▸ selected, fun _ _ => id⟩
  · refine ⟨?_, fun each d recorded => ?_⟩
    · simp [launchDpuRunContext, dpuMaskOne_getLsbD inside]
    · by_cases same : each = ci
      · subst same
        simp [launchDpuRunContext, recorded]
      · simpa [launchDpuRunContext, Function.update_of_ne same] using recorded

theorem HostRank.Tracked.bootDpu {r : HostRank ρ} (tracked : r.Tracked) {ci dpu : Nat}
    (commands : LaunchCommands) (inside : dpu < r.rank.nrDpusPerCi) : (r.bootDpu ci dpu commands).2.Tracked := by
  rcases r.bootDpu_cases ci dpu commands with unchanged | polled | ⟨context, booted, started⟩
  · rwa [unchanged]
  · rw [polled]
    exact tracked.runContext fun _ => r.polled_recorded commands.poll
  · rw [booted]
    intro running
    obtain ⟨_, each, eachInside, some⟩ := tracked running
    obtain ⟨here, grown⟩ := launchDpuRunContext_records (inside.trans_le r.rank.nrDpusPerCi_le) started
    have polled {ci' d : Nat} (inside' : ci' < r.rank.nrCis) (notStopped : (r.notStopped ci').getLsbD d = true) :
        (context.dpuRunning ci').getLsbD d = true :=
      grown ci' d ((r.polled_dpuRunning commands.poll inside').trans notStopped)
    have more {ci' d : Nat} (runs : (r.run ci').getLsbD d = true) :
        (Function.update r.run ci (r.run ci ||| dpuMaskOne dpu) ci').getLsbD d = true := by
      by_cases same : ci' = ci
      · subst same
        simp [runs]
      · rwa [Function.update_of_ne same]
    refine ⟨fun ci' inside' d notStopped => ?_, each, eachInside, fun none => some ?_⟩
    · obtain ⟨runs, enabled, working⟩ := HostRank.notStopped_getLsbD.mp notStopped
      by_cases started : ci' = ci ∧ d = dpu
      · obtain ⟨rfl, rfl⟩ := started
        exact here
      · refine polled inside' (HostRank.notStopped_getLsbD.mpr ⟨?_, enabled, working⟩)
        by_cases same : ci' = ci
        · subst same
          have other : d ≠ dpu := fun at_dpu => started ⟨rfl, at_dpu⟩
          rw [← getLsbD_or_dpuMaskOne_of_ne (BitVec.lt_of_getLsbD enabled) other]
          simpa using runs
        · simpa [Function.update_of_ne same] using runs
    · refine BitVec.eq_of_getLsbD_eq fun d _ => ?_
      rw [BitVec.getLsbD_zero]
      refine Bool.eq_false_iff.mpr fun notStopped => ?_
      obtain ⟨runs, enabled, working⟩ := HostRank.notStopped_getLsbD.mp notStopped
      refine Bool.false_ne_true
        (BitVec.getLsbD_zero.symm.trans ((congrArg (BitVec.getLsbD · d) none).symm.trans ?_))
      exact HostRank.notStopped_getLsbD.mpr ⟨more runs, enabled, working⟩

/-- Stopping more DPUs tracks the rank still. -/
theorem HostRank.Tracked.progress {r : HostRank ρ} (tracked : r.Tracked) {run fault : Nat → DpuBitfield}
    (less : ∀ ci dpu, (run ci).getLsbD dpu = true → (r.run ci).getLsbD dpu = true)
    (more : ∀ ci dpu, (r.fault ci).getLsbD dpu = true → (fault ci).getLsbD dpu = true) :
    (r.progress run fault).Tracked := by
  refine HostRank.settle_tracked fun running ci inside dpu notStopped => ?_
  obtain ⟨runs, enabled, working⟩ := HostRank.notStopped_getLsbD.mp notStopped
  refine (tracked running).1 ci inside dpu (HostRank.notStopped_getLsbD.mpr ⟨less ci dpu runs, enabled, ?_⟩)
  exact Bool.eq_false_iff.mpr fun failed => by simp [more ci dpu failed] at working

theorem HostRank.Tracked.reset (r : HostRank ρ) (call : ResetCall → DpuError) (run fault : Nat → DpuBitfield) :
    (r.reset call run fault).Tracked := by
  intro running
  unfold HostRank.reset LaunchPhase.interrupt at running
  simp only [] at running
  split at running <;> simp_all

theorem DeviceStep.tracked {r after : HostRank ρ} (step : DeviceStep r after) (tracked : r.Tracked) :
    after.Tracked := by
  cases step with
  | same device =>
    obtain ⟨rank, run, fault, phase⟩ := device
    simpa only [HostRank.Tracked, HostRank.Recorded, HostRank.notStopped, rank, run, fault, phase] using tracked
  | bootRank current commands => exact tracked.bootRank current commands
  | bootDpu commands _ inside => exact tracked.bootDpu commands inside
  | poll status => exact tracked.poll status
  | progress run fault less more => exact tracked.progress less more
  | reset call run fault => exact HostRank.Tracked.reset r call run fault

/-- A launch that has ended on a rank has ended for good. -/
theorem DeviceStep.ended {r after : HostRank ρ} (step : DeviceStep r after) {fault : Bool}
    (ended : r.phase = .ended fault) : after.phase = .ended fault := by
  cases step with
  | same device => rw [device.2.2.2, ended]
  | bootRank current commands =>
    rcases r.bootRank_cases current commands with unchanged | polled | booted
    · rw [unchanged, ended]
    · rw [polled, ← ended]
    · rw [booted]
      simp [HostRank.settle, ended]
  | bootDpu commands =>
    rcases r.bootDpu_cases _ _ commands with unchanged | polled | ⟨context, booted, _⟩
    · rw [unchanged, ended]
    · rw [polled, ← ended]
    · rw [booted, ← ended]
  | poll => exact ended
  | progress => simp [HostRank.progress, HostRank.settle, ended]
  | reset => simp [HostRank.reset, LaunchPhase.interrupt, ended]

end

/-- The abort phase has gone past a rank without aborting it. -/
def Call.Spared (c : Call) (r : Nat) : Prop :=
  r < c.written ∧ c.abort r = 0

theorem eachRankStatus_rankDone {r each time : Nat} {done fault : Bool} {p : PreemptInfo}
    (marked : (eachRankStatus each done fault time p).rankDone r = 1) :
    p.rankDone r = 1 ∨ (r = each ∧ done = true ∧ p.rankDone r = 0) := by
  unfold eachRankStatus at marked
  by_cases same : r = each
  · subst same
    split_ifs at marked with reported first failed
    · exact .inr ⟨rfl, reported, first⟩
    · exact .inl marked
    · simp at marked
    · exact .inl marked
  · refine .inl ?_
    split_ifs at marked <;> simpa [Function.update_of_ne same] using marked

theorem eachRankStatus_marks {each time : Nat} (fault : Bool) {p : PreemptInfo} (first : p.rankDone each = 0) :
    (eachRankStatus each true fault time p).rankDone each = 1 := by
  simp [eachRankStatus, first]

/-- The check of a rank marks it done. -/
def MarksDone (c : Call) (a : CallAction) (r : Nat) : Prop :=
  c.poller = .check r ∧ r < c.preempt.nrRank ∧ c.preempt.rankDone r = 0 ∧ ∃ fault time, a = .check true fault time

/-- An iteration of the abort loop spares a rank. -/
def Spares (c : Call) (a : CallAction) (r : Nat) : Prop :=
  a = .abort ∧ c.poller = .abort r ∧ r < c.preempt.nrRank ∧ c.preempt.rankDone r ≠ 0

theorem Call.rankDone_step {c d : Call} {a : CallAction} {r : Nat} (taken : c.step a = some d)
    (marked : d.preempt.rankDone r = 1) : c.preempt.rankDone r = 1 ∨ MarksDone c a r := by
  cases Call.step_sound taken with
  | getJobs => simp [initPreempt] at marked
  | check at_poller inside later =>
    rcases eachRankStatus_rankDone marked with old | ⟨rfl, rfl, first⟩
    · exact .inl old
    · exact .inr ⟨at_poller, inside, first, _, _, rfl⟩
  | getJobsFailed | doJobs | cleanPreempt | join | stopped | poll | allChecked | enterAbort | keepPolling
      | allAborted
    | abortRank | spareRank => exact .inl marked

theorem MarksDone.rankDone {c d : Call} {a : CallAction} {r : Nat} (marks : MarksDone c a r)
    (taken : c.step a = some d) : d.preempt.rankDone r = 1 := by
  obtain ⟨at_poller, inside, first, fault, time, rfl⟩ := marks
  cases Call.step_sound taken with
  | allChecked at_check last =>
    obtain rfl := PollerPc.check.inj (at_poller.symm.trans at_check)
    exact absurd inside (not_lt.mpr last)
  | check at_check inside later =>
    obtain rfl := PollerPc.check.inj (at_poller.symm.trans at_check)
    exact eachRankStatus_marks fault first

theorem Call.Phased.spared_step {c d : Call} {a : CallAction} {r : Nat} (phased : c.Phased)
    (taken : c.step a = some d) (spared : d.Spared r) : c.Spared r ∨ Spares c a r := by
  obtain ⟨past, zero⟩ := spared
  cases Call.step_sound taken with
  | getJobsFailed | doJobs | cleanPreempt | join => exact .inl ⟨past, zero⟩
  | getJobs | poll | allChecked | check | keepPolling | enterAbort => simp [Call.written] at past
  | stopped at_poller stop =>
    have fresh : ¬ c.entry.isSome := fun entered => by simpa [at_poller] using phased.entered_past entered
    simp [Call.written, fresh] at past
  | @allAborted i at_poller last =>
    have entered := (phased.abort_entered i at_poller).1
    simp only [Call.written, entered, if_true] at past
    exact .inl ⟨by simpa [Call.written, at_poller] using past.trans_le last, zero⟩
  | @abortRank i at_poller inside running =>
    have other : r ≠ i := by
      rintro rfl
      simp at zero
    simp only [Call.written] at past
    simp only [Function.update_of_ne other] at zero
    exact .inl ⟨by simp only [Call.written, at_poller]; omega, zero⟩
  | @spareRank i at_poller inside done =>
    by_cases same : r = i
    · subst same
      exact .inr ⟨rfl, at_poller, inside, done⟩
    · simp only [Call.written] at past
      simp only [Function.update_of_ne same] at zero
      exact .inl ⟨by simp only [Call.written, at_poller]; omega, zero⟩

theorem Spares.spared {c d : Call} {a : CallAction} {r : Nat} (spares : Spares c a r)
    (taken : c.step a = some d) : d.Spared r := by
  obtain ⟨rfl, at_poller, inside, done⟩ := spares
  cases Call.step_sound taken with
  | allAborted at_abort last =>
    obtain rfl := PollerPc.abort.inj (at_poller.symm.trans at_abort)
    exact absurd inside (not_lt.mpr last)
  | abortRank at_abort _ running =>
    obtain rfl := PollerPc.abort.inj (at_poller.symm.trans at_abort)
    exact absurd running done
  | spareRank at_abort =>
    obtain rfl := PollerPc.abort.inj (at_poller.symm.trans at_abort)
    exact ⟨by simp [Call.written], by simp⟩

variable {ρ : Type}

/-- How far the current launch has come on the rank of an index. -/
def Host.launchPhase (h : Host ρ) (i : Nat) : LaunchPhase :=
  (h.ranks (h.setRanks i)).phase

/-- A rank is recorded done only after the launch has ended on it, and spared
only if it has ended without a fault. -/
def Host.DoneEnded (h : Host ρ) : Prop :=
  ∀ i, (h.call.preempt.rankDone i = 1 → ∃ fault, h.launchPhase i = .ended fault) ∧
    (h.call.Spared i → h.launchPhase i = .ended false)

/-- What holds of the launch in progress in every state. -/
structure Host.Launching (h : Host ρ) : Prop where
  phased : h.call.Phased
  tracked : ∀ r, (h.ranks r).Tracked

theorem Host.Allocated.launching {h : Host ρ} (allocated : h.Allocated) : h.Launching := by
  refine ⟨?_, fun r running => ?_⟩
  · rw [allocated.call]
    constructor <;> simp [Call.start]
  · rw [(allocated.ranks r).phase] at running
    cases running

/-- Before its poller runs, a launch has recorded nothing. -/
theorem Host.doneEnded_absent {h : Host ρ} (done : h.call.preempt = initPreempt 0)
    (absent : h.call.poller = .absent) :
    h.DoneEnded := by
  refine fun i => ⟨fun marked => ?_, fun spared => ?_⟩
  · simp [done, initPreempt] at marked
  · simp [Call.Spared, Call.written, absent] at spared

theorem Host.Allocated.doneEnded {h : Host ρ} (allocated : h.Allocated) : h.DoneEnded :=
  Host.doneEnded_absent (by rw [allocated.call]; rfl) (by rw [allocated.call]; rfl)

/-- The poller checks a rank not yet recorded and finds its bitmaps empty. -/
def Host.FindsIdle (h : Host ρ) (a : HostAction ρ) (i : Nat) : Prop :=
  (∃ done fault time, a = .call (.check done fault time)) ∧ h.call.poller = .check i ∧ i < h.call.preempt.nrRank ∧
    h.call.preempt.rankDone i = 0 ∧
    ∀ ci < (h.ranks (h.setRanks i)).rank.nrCis,
      (h.ranks (h.setRanks i)).rank.runContext.dpuRunning ci = dpuMaskEmpty

/-- The poller finds no rank idle before its LAUNCH job has booted it or after
it has been reset, and the abort loop spares no rank that has failed, nor one
recorded as failing that the launch has not left without a fault. -/
def ChecksLaunched (τ : Transition (Host ρ) (HostAction ρ)) : Prop :=
  ∀ i, (τ.before.FindsIdle τ.action i →
      τ.before.launchPhase i ≠ .pending ∧ τ.before.launchPhase i ≠ .interrupted) ∧
    ((∃ action, τ.action = .call action ∧ Spares τ.before.call action i) →
      (τ.before.call.preempt.rankDone i = 1 → τ.before.launchPhase i ≠ .ended true) ∧
        (τ.before.call.preempt.rankDone i ≠ 1 → τ.before.launchPhase i = .ended false))

variable [DecidableEq ρ]

theorem HostStep.findsIdle_iff {s t : Host ρ} {a : HostAction ρ} (step : HostStep s a t) {i : Nat} :
    s.FindsIdle a i ↔ ∃ action, a = .call action ∧ MarksDone s.call action i := by
  constructor
  · rintro ⟨⟨done, fault, time, rfl⟩, at_poller, inside, first, idle⟩
    have status := (step.check_status at_poller).1
    have finished : done = true := (congrArg Prod.fst status).trans (dpuStatusRank_done.mpr idle)
    exact ⟨_, rfl, at_poller, inside, first, fault, time, finished ▸ rfl⟩
  · rintro ⟨_, rfl, at_poller, inside, first, fault, time, rfl⟩
    have status := (step.check_status at_poller).1
    exact ⟨⟨true, fault, time, rfl⟩, at_poller, inside, first, dpuStatusRank_done.mp (Prod.mk.inj status).1.symm⟩

theorem HostAbort.ranks {s aborted : Host ρ} (abort : HostAbort s aborted) (r : ρ) :
    aborted.ranks r = s.ranks r ∨
      (∃ call run fault, aborted.ranks r = (s.ranks r).abortStrugglingDpu call run fault) ∨
      aborted.ranks r = (s.ranks r).abortStrugglingDpuAdvance := by
  cases abort with
  | last | spare => exact .inl rfl
  | @restart i call run fault =>
    by_cases same : r = s.setRanks i
    · exact .inr (.inl ⟨call, run, fault, by simp [Host.setRank, same]⟩)
    · exact .inl (by simp [Host.setRank, Function.update_of_ne same])
  | @advance i =>
    by_cases same : r = s.setRanks i
    · exact .inr (.inr (by simp [Host.setRank, same]))
    · exact .inl (by simp [Host.setRank, Function.update_of_ne same])

theorem HostStep.tracked {s t : Host ρ} {a : HostAction ρ} (step : HostStep s a t)
    (tracked : ∀ r, (s.ranks r).Tracked) (r : ρ) : (t.ranks r).Tracked := by
  rcases step.device with ⟨_, devices⟩ | ⟨_, ranks⟩ | ⟨aborted, c, _, abort, _, rfl⟩
  · exact (devices r).tracked (tracked r)
  · intro running
    rw [ranks r] at running
    cases running
  · change (aborted.ranks r).Tracked
    rcases abort.ranks r with same | ⟨call, run, fault, restarted⟩ | advanced
    · rw [same]
      exact tracked r
    · rw [restarted]
      exact HostRank.Tracked.reset _ call run fault
    · rw [advanced]
      exact tracked r

theorem Host.Launching.step {s t : Host ρ} {a : HostAction ρ} (launching : s.Launching) (step : HostStep s a t) :
    t.Launching := by
  refine ⟨?_, step.tracked launching.tracked⟩
  rcases step.call_step with ⟨_, _, same, _⟩ | ⟨_, setup, started⟩ | ⟨_, _, taken, _⟩
  · rw [same]
    exact launching.phased
  · rw [started]
    exact .start setup
  · exact launching.phased.step taken

/-- A launch that has ended on a rank has ended for good, until the next one. -/
theorem HostStep.ended {s t : Host ρ} {a : HostAction ρ} (step : HostStep s a t) (going : a ≠ .launchPreempt)
    {r : ρ} {fault : Bool} (ended : (s.ranks r).phase = .ended fault) : (t.ranks r).phase = .ended fault := by
  rcases step.device with ⟨_, devices⟩ | ⟨launch, _⟩ | ⟨aborted, c, _, abort, _, rfl⟩
  · exact (devices r).ended ended
  · exact absurd launch going
  · change (aborted.ranks r).phase = .ended fault
    rcases abort.ranks r with same | ⟨call, run, fault, restarted⟩ | advanced
    · rw [same, ended]
    · rw [restarted]
      simp [HostRank.abortStrugglingDpu, HostRank.reset, LaunchPhase.interrupt, ended]
    · rw [advanced]
      exact ended

/-- Neither a check nor the sparing of a rank touches any rank. -/
theorem HostStep.ranks_eq {s t : Host ρ} {action : CallAction} {i : Nat} (step : HostStep s (.call action) t)
    (about : MarksDone s.call action i ∨ Spares s.call action i) (r : ρ) : t.ranks r = s.ranks r := by
  rcases about with ⟨at_poller, _, _, fault, time, rfl⟩ | ⟨rfl, at_poller, inside, done⟩
  · exact (step.check_status at_poller).2 r
  · cases step with
    | call _ isLocal => cases isLocal
    | abort abort taken =>
      cases abort with
      | last | spare => rfl
      | @restart j _ _ _ at_abort _ running | @advance j at_abort _ running =>
        obtain rfl : i = j := PollerPc.abort.inj (at_poller.symm.trans at_abort)
        exact absurd running done

theorem HostStep.call_taken {s t : Host ρ} {action : CallAction} (step : HostStep s (.call action) t) :
    s.call.step action = some t.call ∧ t.setRanks = s.setRanks := by
  rcases step.call_step with ⟨other, _⟩ | ⟨launch, _⟩ | ⟨_, ⟨rfl⟩, taken⟩
  · exact absurd rfl (other action)
  · cases launch
  · exact taken

/-- A step that marks or spares a rank leaves its phase. -/
theorem HostStep.launchPhase_eq {s t : Host ρ} {action : CallAction} {i : Nat} (step : HostStep s (.call action) t)
    (about : MarksDone s.call action i ∨ Spares s.call action i) : t.launchPhase i = s.launchPhase i := by
  rw [Host.launchPhase, step.call_taken.2, step.ranks_eq about]
  rfl

/-- What a step other than a new launch adds to the ranks recorded done and spared. -/
theorem HostStep.recorded {s t : Host ρ} {a : HostAction ρ} (step : HostStep s a t) (launching : s.Launching)
    (going : a ≠ .launchPreempt) (i : Nat) :
    (t.call.preempt.rankDone i = 1 → s.call.preempt.rankDone i = 1 ∨ ∃ action, a = .call action ∧
      MarksDone s.call action i) ∧
      (t.call.Spared i → s.call.Spared i ∨ ∃ action, a = .call action ∧ Spares s.call action i) ∧
      ∀ fault, s.launchPhase i = .ended fault → t.launchPhase i = .ended fault := by
  have ended {fault : Bool} (setRanks : t.setRanks = s.setRanks) (before : s.launchPhase i = .ended fault) :
      t.launchPhase i = .ended fault := by
    rw [Host.launchPhase, setRanks]
    exact step.ended going before
  rcases step.call_step with ⟨_, _, same, setRanks⟩ | ⟨launch, _⟩ | ⟨action, rfl, taken, setRanks⟩
  · rw [same]
    exact ⟨.inl, .inl, fun _ => ended setRanks⟩
  · exact absurd launch going
  · refine ⟨fun done => ?_, fun spared => ?_, fun _ => ended setRanks⟩
    · exact (Call.rankDone_step taken done).imp_right fun marks => ⟨action, rfl, marks⟩
    · exact (launching.phased.spared_step taken spared).imp_right fun spares => ⟨action, rfl, spares⟩

theorem HostStep.keepsDoneEnded_iff {s t : Host ρ} {a : HostAction ρ} (step : HostStep s a t)
    (launching : s.Launching)
    (ended : s.DoneEnded) : t.DoneEnded ↔ ChecksLaunched ⟨s, a, t⟩ := by
  constructor
  · refine fun after i => ⟨fun idle => ?_, ?_⟩
    · obtain ⟨action, rfl, marks⟩ := step.findsIdle_iff.mp idle
      obtain ⟨fault, now⟩ := (after i).1 (marks.rankDone step.call_taken.1)
      rw [step.launchPhase_eq (.inl marks)] at now
      simp [now]
    · rintro ⟨action, rfl, spares⟩
      have now := (after i).2 (spares.spared step.call_taken.1)
      rw [step.launchPhase_eq (.inr spares)] at now
      simp [now]
  · intro checks i
    obtain ⟨idle, spares⟩ := checks i
    by_cases launch : a = .launchPreempt
    · subst launch
      cases step with
      | launchPreempt setup => exact Host.doneEnded_absent rfl rfl i
    · obtain ⟨done, spared, kept⟩ := step.recorded launching launch i
      constructor
      · intro now
        rcases done now with before | marks
        · exact ((ended i).1 before).imp kept
        · have found := step.findsIdle_iff.mpr marks
          obtain ⟨booted, notReset⟩ := idle found
          have stopped := (launching.tracked (s.setRanks i)).not_running found.2.2.2.2
          cases phase : s.launchPhase i with
          | pending => exact absurd phase booted
          | running => exact absurd phase stopped
          | interrupted => exact absurd phase notReset
          | ended fault => exact ⟨fault, kept fault phase⟩
      · intro now
        rcases spared now with before | sparing
        · exact kept false ((ended i).2 before)
        · obtain ⟨noFault, left⟩ := spares sparing
          by_cases marked : s.call.preempt.rankDone i = 1
          · obtain ⟨fault, phase⟩ := (ended i).1 marked
            cases fault with
            | false => exact kept false phase
            | true => exact absurd phase (noFault marked)
          · exact kept false (left marked)

/-- From the allocation of the ranks on, ranks are recorded done and spared
only after the launch has ended on them exactly as long as the poller finds
idle only ranks on which it has ended. -/
theorem HostRun.doneEnded_iff {start h : Host ρ} {history : List (Transition (Host ρ) (HostAction ρ))}
    (allocated : start.Allocated) (run : HostRun start history h) :
    (∀ τ ∈ history, τ.after.DoneEnded) ↔ ∀ τ ∈ history, ChecksLaunched τ :=
  run.guarded_iff allocated.launching (fun _ _ _ launching step => launching.step step) allocated.doneEnded
    fun _ _ _ launching ended step => step.keepsDoneEnded_iff launching ended

theorem doneEnded_iff_single : ∃ history h, HostRun Host.singleStart history h ∧ h.call = singleAborting ∧
    ((∀ τ ∈ history, τ.after.DoneEnded) ↔ ∀ τ ∈ history, ChecksLaunched τ) := by
  obtain ⟨history, run⟩ := Host.single_aborting .restart
  exact ⟨history, _, run, rfl, HostRun.doneEnded_iff Host.singleStart_allocated run⟩

/-- The poller finds the single rank idle before its LAUNCH job is even added
and records it done. -/
theorem single_launched_not_doneEnded :
    ¬ ∀ (start h : Host Unit) (history : List (Transition (Host Unit) (HostAction Unit))),
      start.Allocated → HostRun start history h → ∀ τ ∈ history, τ.after.DoneEnded := by
  intro always
  obtain ⟨history, run⟩ := Host.single_launched .restart
  have tested := run.next (.call .test rfl rfl (by simp))
  have checked := tested.next (@HostStep.check Unit _ _ _ 0 50 rfl rfl)
  have done := (always _ _ _ Host.singleStart_allocated checked _ List.mem_cons_self 0).1
  obtain ⟨fault, ended⟩ := done rfl
  cases ended

end Upmem
