import Upmem.Preempt

namespace Upmem
open Transitions

/-- A launch has entered its abort phase, if at all, after some rank was
recorded done, with enough ranks done and past the window of the average
completion time. A rank is only aborted in an abort phase. -/
structure Call.WithinWindow (c : Call) : Prop where
  aborted_entered : ∀ r, c.aborted r = true → c.entry.isSome
  entered : ∀ elapsed, c.entry = some elapsed →
    1 ≤ c.preempt.numDone ∧ c.preempt.nrRankThreshold ≤ c.preempt.numDone ∧
      (1 + EXECUTION_WINDOW) * c.preempt.avgExecutionDur < elapsed

/-- A decision that meets the threshold at a positive elapsed time, although
no rank is recorded done or the window of the average is not over. -/
def PrematureDecision (elapsed : Nat) (preempt : PreemptInfo) : Prop :=
  preempt.nrRankThreshold ≤ preempt.numDone ∧ 0 < elapsed ∧
    (preempt.numDone = 0 ∨ (elapsed : ℚ) ≤ (1 + EXECUTION_WINDOW) * preempt.avgExecutionDur)

/-- The transition is no premature decision of the poller. -/
def TimelyDecision (τ : Transition Call CallAction) : Prop :=
  ∀ elapsed, τ.action = .decide elapsed → ¬ PrematureDecision elapsed τ.before.preempt

@[simp] theorem timelyDecision_decide {c d : Call} {elapsed : Nat} :
    TimelyDecision ⟨c, .decide elapsed, d⟩ ↔ ¬ PrematureDecision elapsed c.preempt := by
  simp [TimelyDecision]

/-- The figures of the poller never run ahead of its clock. -/
structure Call.Timed (c : Call) : Prop where
  phased : c.Phased
  average_le : c.preempt.avgExecutionDur ≤ c.clock
  none_done : c.preempt.numDone = 0 → c.preempt.avgExecutionDur = 0

theorem eachRankStatus_average_le {r time bound : Nat} {done fault : Bool} {p : PreemptInfo}
    (average : p.avgExecutionDur ≤ bound) (later : bound ≤ time) :
    (eachRankStatus r done fault time p).avgExecutionDur ≤ time := by
  unfold eachRankStatus
  split_ifs with isDone first isFault
  · refine Nat.div_le_of_le_mul ?_
    calc p.avgExecutionDur * p.numDone + time
        ≤ time * p.numDone + time := by gcongr; omega
      _ = (p.numDone + 1) * time := by ring
  all_goals exact average.trans later

theorem eachRankStatus_none_done {r time : Nat} {done fault : Bool} {p : PreemptInfo}
    (before : p.numDone = 0 → p.avgExecutionDur = 0)
    (none : (eachRankStatus r done fault time p).numDone = 0) :
    (eachRankStatus r done fault time p).avgExecutionDur = 0 := by
  unfold eachRankStatus at none ⊢
  split_ifs at none ⊢ <;> exact before none

theorem Call.Timed.start (setup : CallSetup) : (Call.start setup).Timed :=
  ⟨.start setup, Nat.zero_le _, fun _ => rfl⟩

theorem Call.Timed.step {c d : Call} {a : CallAction} (timed : c.Timed) (taken : c.step a = some d) :
    d.Timed := by
  obtain ⟨phased, average, none_done⟩ := timed
  have phasedAfter := phased.step taken
  cases Call.step_sound taken with
  | getJobs at_caller => exact ⟨phasedAfter, Nat.zero_le _, fun _ => rfl⟩
  | check at_poller inside later =>
    exact ⟨phasedAfter, eachRankStatus_average_le average later, eachRankStatus_none_done none_done⟩
  | enterAbort at_poller later struggle | keepPolling at_poller later struggle =>
    exact ⟨phasedAfter, average.trans later, none_done⟩
  | getJobsFailed | doJobs | cleanPreempt | join | stopped | poll | allChecked | allAborted | abortRank
      | spareRank =>
    exact ⟨phasedAfter, average, none_done⟩

/-- Entering the abort phase keeps the window exactly at a decision that is
not premature. -/
theorem enterAbort_withinWindow_iff {elapsed : Nat} {p : PreemptInfo} (average : p.avgExecutionDur ≤ elapsed)
    (struggle : determineStruggleDpu elapsed p = true) :
    (1 ≤ p.numDone ∧ p.nrRankThreshold ≤ p.numDone ∧ (1 + EXECUTION_WINDOW) * p.avgExecutionDur < elapsed) ↔
      ¬ PrematureDecision elapsed p := by
  obtain ⟨enough, positive⟩ := (determineStruggleDpu_iff average).mp struggle
  simp only [PrematureDecision, enough, positive, true_and, not_or, not_le, Nat.one_le_iff_ne_zero, ne_eq]

/-- A decision to go on with the polling is never premature. -/
theorem keepPolling_timely {elapsed : Nat} {p : PreemptInfo} (average : p.avgExecutionDur ≤ elapsed)
    (struggle : determineStruggleDpu elapsed p = false) : ¬ PrematureDecision elapsed p := by
  rintro ⟨enough, positive, _⟩
  have := (determineStruggleDpu_iff average).mpr ⟨enough, positive⟩
  simp [struggle] at this

theorem Call.WithinWindow.start (setup : CallSetup) : (Call.start setup).WithinWindow := by
  constructor <;> simp [Call.start]

/-- One step keeps the window exactly if it is no premature decision. -/
theorem Call.WithinWindow.step_iff {c d : Call} {a : CallAction} (timed : c.Timed) (within : c.WithinWindow)
    (taken : c.step a = some d) : d.WithinWindow ↔ TimelyDecision ⟨c, a, d⟩ := by
  obtain ⟨aborted_entered, entered⟩ := within
  cases Call.step_sound taken with
  | getJobsFailed | doJobs | cleanPreempt | join | stopped | poll | allChecked | allAborted | spareRank =>
    exact iff_of_true ⟨aborted_entered, entered⟩ (by simp [TimelyDecision])
  | getJobs at_caller =>
    have fresh : ¬ c.entry.isSome :=
      fun some => by simpa [timed.phased.not_started at_caller] using timed.phased.entered_past some
    refine iff_of_true ⟨aborted_entered, fun elapsed entry => ?_⟩ (by simp [TimelyDecision])
    exact absurd (by simp [show c.entry = some elapsed from entry]) fresh
  | check at_poller inside later =>
    have fresh : ¬ c.entry.isSome := fun some => by simpa [at_poller] using timed.phased.entered_past some
    refine iff_of_true ⟨aborted_entered, fun elapsed entry => ?_⟩ (by simp [TimelyDecision])
    exact absurd (by simp [show c.entry = some elapsed from entry]) fresh
  | @enterAbort elapsed at_poller later struggle =>
    have decision := enterAbort_withinWindow_iff (timed.average_le.trans later) struggle
    rw [timelyDecision_decide, ← decision]
    constructor
    · intro now
      exact now.entered elapsed rfl
    · intro timely
      refine ⟨fun _ _ => rfl, fun reading entry => ?_⟩
      obtain rfl : elapsed = reading := Option.some.inj entry
      exact timely
  | @keepPolling elapsed at_poller later struggle =>
    refine iff_of_true ⟨aborted_entered, entered⟩ (timelyDecision_decide.mpr ?_)
    exact keepPolling_timely (timed.average_le.trans later) struggle
  | abortRank at_poller inside running =>
    refine iff_of_true ⟨fun _ _ => (timed.phased.abort_entered _ at_poller).1, entered⟩ (by simp [TimelyDecision])

/-- The launch of a single rank that is still running at the first poll
enters its abort phase at that poll. -/
theorem callRun_onRanks_one (abort : Nat → Int) :
    ∃ history c, CallRun (.onRanks 1 abort) history c ∧ c.entry = some 50 ∧ c.preempt.numDone = 0 := by
  have executed : execute Call.step
      [.getJobs true, .doJobs, .test, .check false false 50, .check false false 50, .decide 50]
      (.start (.onRanks 1 abort)) = some { Call.start (.onRanks 1 abort) with
        preempt := initPreempt 1, stopPolling := true, poller := .abort 0, caller := .cleanPreempt,
        clock := 50, entry := some 50 } := by
    simp [execute, Call.step, Call.start, CallSetup.onRanks, CallSetup.syncNrRanks, eachRankStatus,
      determineStruggleDpu_one, show (initPreempt 1).nrRank = 1 from rfl]
  obtain ⟨history, run⟩ := execute_run executed
  exact ⟨history, _, run, rfl, rfl⟩

/-- A preempted launch stays within the window of its average in all of its
states exactly when the poller takes no premature decision. -/
theorem CallRun.withinWindow_iff {setup : CallSetup} {history : List (Transition Call CallAction)} {c : Call}
    (run : CallRun setup history c) :
    (∀ τ ∈ history, τ.after.WithinWindow) ↔ ∀ τ ∈ history, TimelyDecision τ :=
  run.guarded_iff (.start setup) (fun _ _ _ timed taken => timed.step taken) (.start setup)
    fun _ _ _ timed within taken => within.step_iff timed taken

theorem withinWindow_iff_onRanks_one : ∃ history c, CallRun (.onRanks 1 fun _ => 0) history c ∧
    c.entry = some 50 ∧ ((∀ τ ∈ history, τ.after.WithinWindow) ↔ ∀ τ ∈ history, TimelyDecision τ) := by
  obtain ⟨history, c, run, entry, _⟩ := callRun_onRanks_one fun _ => 0
  exact ⟨history, c, run, entry, CallRun.withinWindow_iff run⟩

/-- A single rank that is still running at the first poll is aborted 50 ms
into the launch, although no rank is done. -/
theorem onRanks_one_not_withinWindow :
    ¬ ∀ (nrRanks : Nat) (abort : Nat → Int) (history : List (Transition Call CallAction)) (c : Call),
      1 ≤ nrRanks → CallRun (.onRanks nrRanks abort) history c → ∀ τ ∈ history, τ.after.WithinWindow := by
  intro always
  obtain ⟨history, c, run, entry, none_done⟩ := callRun_onRanks_one fun _ => 0
  cases run with
  | start => simp [Call.start] at entry
  | next previous step =>
    have within := always 1 (fun _ => 0) _ c le_rfl (.next previous step) _ List.mem_cons_self
    have positive := (within.entered 50 entry).1
    simp only [none_done] at positive
    omega

end Upmem
