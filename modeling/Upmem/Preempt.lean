import Mathlib.Data.Rat.Floor
import Mathlib.Tactic
import Upmem.Lib.Transitions

namespace Upmem
open Transitions

def RANK_THRESHOLD : ℚ := 4 / 10
def EXECUTION_WINDOW : ℚ := 2 / 10

/-- `struct preempt_info`: the figures that the poller of a preempted launch
keeps about the ranks, which it knows by their index in the set. Times are in ms. -/
structure PreemptInfo where
  avgExecutionDur : Nat
  nrRank : Nat
  nrRankThreshold : Nat
  rankDone : Nat → Nat
  executionTimes : Nat → Nat
  numDone : Nat

/-- The figures that `init_preempt` starts from. -/
def initPreempt (nrRank : Nat) : PreemptInfo where
  avgExecutionDur := 0
  nrRank := nrRank
  nrRankThreshold := ⌊RANK_THRESHOLD * nrRank⌋₊
  rankDone _ := 0
  executionTimes _ := 0
  numDone := 0

/-- One iteration of `each_rank_status`: what `dpu_status_rank` answered
about a rank, and the elapsed time in case it is read. -/
def eachRankStatus (eachRank : Nat) (rankDone rankFault : Bool) (elapsedTime : Nat)
    (preempt : PreemptInfo) : PreemptInfo :=
  if rankDone then
    if preempt.rankDone eachRank = 0 then
      { preempt with
        rankDone := Function.update preempt.rankDone eachRank 1
        executionTimes := Function.update preempt.executionTimes eachRank elapsedTime
        avgExecutionDur := (preempt.avgExecutionDur * preempt.numDone + elapsedTime) / (preempt.numDone + 1)
        numDone := preempt.numDone + 1 }
    else preempt
  else if rankFault then { preempt with rankDone := Function.update preempt.rankDone eachRank 2 }
  else preempt

def determineStruggleDpu (elapsed : Nat) (preempt : PreemptInfo) : Bool :=
  if preempt.numDone < preempt.nrRankThreshold then false
  else decide ((elapsed : ℚ) * (1 + EXECUTION_WINDOW) > preempt.avgExecutionDur)

/-- Since no average exceeds the time it is taken at, the threshold and a
positive reading are all that a decision needs. -/
theorem determineStruggleDpu_iff {elapsed : Nat} {p : PreemptInfo} (average : p.avgExecutionDur ≤ elapsed) :
    determineStruggleDpu elapsed p = true ↔ p.nrRankThreshold ≤ p.numDone ∧ 0 < elapsed := by
  have cast : (p.avgExecutionDur : ℚ) ≤ elapsed := by exact_mod_cast average
  unfold determineStruggleDpu EXECUTION_WINDOW
  split_ifs with below
  · simp [Nat.not_le.mpr below]
  · simp only [decide_eq_true_eq, not_lt.mp below, true_and]
    constructor
    · intro beyond
      by_contra zero
      obtain rfl : elapsed = 0 := by omega
      rw [Nat.cast_zero] at cast beyond
      linarith
    · intro positive
      have : (0 : ℚ) < elapsed := by exact_mod_cast positive
      linarith

/-- On a single rank the threshold is zero: a positive reading is enough. -/
theorem determineStruggleDpu_one : determineStruggleDpu 50 (initPreempt 1) = true := by
  refine (determineStruggleDpu_iff (Nat.zero_le _)).mpr ⟨?_, by decide⟩
  norm_num [initPreempt, RANK_THRESHOLD, Nat.floor_eq_zero]

/-- Where the polling thread is: before it is created, at the loop test, in
`each_rank_status` or at the decision that ends an iteration, in the loop
that aborts the struggling ranks, or over. -/
inductive PollerPc
  | absent | test | check (eachRank : Nat) | decide | abort (i : Nat) | finished
  deriving DecidableEq, Repr

/-- Where the caller of `dpu_launch_preempt*` is. -/
inductive CallerPc
  | getJobs | doJobs | cleanPreempt | join | returned
  deriving DecidableEq, Repr

/-- What a preempted launch is called with. The synchronisation object is an
uninitialised local variable until `dpu_thread_job_init_sync_job` sets it. -/
structure CallSetup where
  nrRanks : Nat
  synchronous : Bool
  callbackTidSet : Bool
  indeterminate : Nat
  abort : Nat → Int

/-- `sync->nr_ranks` after `DPU_THREAD_JOB_GET_JOBS`. -/
def CallSetup.syncNrRanks (setup : CallSetup) : Nat :=
  if setup.synchronous && (setup.nrRanks != 1 || !setup.callbackTidSet) then setup.nrRanks
  else setup.indeterminate

/-- A synchronous launch on the DPUs of `nrRanks` ranks, outside a callback. -/
def CallSetup.onRanks (nrRanks : Nat) (abort : Nat → Int) : CallSetup where
  nrRanks := nrRanks
  synchronous := true
  callbackTidSet := false
  indeterminate := 0
  abort := abort

/-- A preempted launch in progress: its caller, its polling thread and what
they share. `clock` is the latest time reading. The last two fields
record history: the reading at which the abort phase was entered, and the
ranks handed to `abort_struggling_dpu`. -/
structure Call where
  setup : CallSetup
  preempt : PreemptInfo
  stopPolling : Bool
  poller : PollerPc
  caller : CallerPc
  clock : Nat
  abort : Nat → Int
  entry : Option Nat
  aborted : Nat → Bool

def Call.start (setup : CallSetup) : Call where
  setup := setup
  preempt := initPreempt 0
  stopPolling := false
  poller := .absent
  caller := .getJobs
  clock := 0
  abort := setup.abort
  entry := none
  aborted _ := false

inductive CallAction
  /-- `DPU_THREAD_JOB_GET_JOBS` fails or succeeds; then `init_preempt` creates the poller. -/
  | getJobs (succeeded : Bool)
  /-- `dpu_thread_job_do_jobs` returns. -/
  | doJobs
  /-- `clean_preempt` asks the poller to stop, then joins it. -/
  | cleanPreempt
  | join
  /-- The loop test of the poller. -/
  | test
  | check (rankDone rankFault : Bool) (elapsedTime : Nat)
  | decide (elapsed : Nat)
  /-- One iteration of `abort_struggling_dpus`. -/
  | abort
  deriving DecidableEq, Repr

/-- One step of a preempted launch. Readings of the clock never go back. -/
def Call.step (c : Call) : CallAction → Option Call
  | .getJobs succeeded =>
    if c.caller ≠ .getJobs then none
    else if !succeeded then some { c with caller := .returned }
    else some { c with preempt := initPreempt c.setup.syncNrRanks, stopPolling := false, poller := .test,
                       caller := .doJobs }
  | .doJobs => if c.caller = .doJobs then some { c with caller := .cleanPreempt } else none
  | .cleanPreempt =>
    if c.caller = .cleanPreempt then some { c with stopPolling := true, caller := .join } else none
  | .join =>
    if c.caller = .join ∧ c.poller = .finished then some { c with caller := .returned } else none
  | .test =>
    if c.poller ≠ .test then none
    else if c.stopPolling then some { c with poller := .finished }
    else some { c with poller := .check 0 }
  | .check rankDone rankFault elapsedTime =>
    match c.poller with
    | .check eachRank =>
      if c.preempt.nrRank ≤ eachRank then some { c with poller := .decide }
      else if elapsedTime < c.clock then none
      else some { c with preempt := eachRankStatus eachRank rankDone rankFault elapsedTime c.preempt,
                         clock := elapsedTime, poller := .check (eachRank + 1) }
    | _ => none
  | .decide elapsed =>
    if c.poller ≠ .decide ∨ elapsed < c.clock then none
    else if determineStruggleDpu elapsed c.preempt then
      some { c with stopPolling := true, clock := elapsed, entry := some elapsed, poller := .abort 0 }
    else some { c with clock := elapsed, poller := .test }
  | .abort =>
    match c.poller with
    | .abort i =>
      if c.preempt.nrRank ≤ i then some { c with poller := .finished }
      else if c.preempt.rankDone i = 0 then
        some { c with abort := Function.update c.abort i 1, aborted := Function.update c.aborted i true,
                      poller := .abort (i + 1) }
      else some { c with abort := Function.update c.abort i 0, poller := .abort (i + 1) }
    | _ => none

/-- What a step of a preempted launch can do. -/
inductive CallStep (c : Call) : CallAction → Call → Prop
  | getJobsFailed : c.caller = .getJobs → CallStep c (.getJobs false) { c with caller := .returned }
  | getJobs : c.caller = .getJobs →
      CallStep c (.getJobs true) { c with preempt := initPreempt c.setup.syncNrRanks, stopPolling := false,
                                          poller := .test, caller := .doJobs }
  | doJobs : c.caller = .doJobs → CallStep c .doJobs { c with caller := .cleanPreempt }
  | cleanPreempt : c.caller = .cleanPreempt →
      CallStep c .cleanPreempt { c with stopPolling := true, caller := .join }
  | join : c.caller = .join → c.poller = .finished → CallStep c .join { c with caller := .returned }
  | stopped : c.poller = .test → c.stopPolling = true → CallStep c .test { c with poller := .finished }
  | poll : c.poller = .test → c.stopPolling = false → CallStep c .test { c with poller := .check 0 }
  | allChecked {eachRank rankDone rankFault elapsedTime} :
      c.poller = .check eachRank → c.preempt.nrRank ≤ eachRank →
      CallStep c (.check rankDone rankFault elapsedTime) { c with poller := .decide }
  | check {eachRank rankDone rankFault elapsedTime} :
      c.poller = .check eachRank → eachRank < c.preempt.nrRank → c.clock ≤ elapsedTime →
      CallStep c (.check rankDone rankFault elapsedTime)
        { c with preempt := eachRankStatus eachRank rankDone rankFault elapsedTime c.preempt,
                 clock := elapsedTime, poller := .check (eachRank + 1) }
  | enterAbort {elapsed} : c.poller = .decide → c.clock ≤ elapsed → determineStruggleDpu elapsed c.preempt = true →
      CallStep c (.decide elapsed)
        { c with stopPolling := true, clock := elapsed, entry := some elapsed, poller := .abort 0 }
  | keepPolling {elapsed} : c.poller = .decide → c.clock ≤ elapsed →
      determineStruggleDpu elapsed c.preempt = false →
      CallStep c (.decide elapsed) { c with clock := elapsed, poller := .test }
  | allAborted {i} : c.poller = .abort i → c.preempt.nrRank ≤ i → CallStep c .abort { c with poller := .finished }
  | abortRank {i} : c.poller = .abort i → i < c.preempt.nrRank → c.preempt.rankDone i = 0 →
      CallStep c .abort { c with abort := Function.update c.abort i 1,
                                 aborted := Function.update c.aborted i true, poller := .abort (i + 1) }
  | spareRank {i} : c.poller = .abort i → i < c.preempt.nrRank → c.preempt.rankDone i ≠ 0 →
      CallStep c .abort { c with abort := Function.update c.abort i 0, poller := .abort (i + 1) }

theorem Call.step_sound {c d : Call} {a : CallAction} (taken : c.step a = some d) : CallStep c a d := by
  cases a with
  | getJobs succeeded =>
    simp only [Call.step] at taken
    split_ifs at taken with at_caller failed <;> cases taken
    · obtain rfl : succeeded = false := by simpa using failed
      exact .getJobsFailed (not_not.mp at_caller)
    · obtain rfl : succeeded = true := by simpa using failed
      exact .getJobs (not_not.mp at_caller)
  | doJobs =>
    simp only [Call.step] at taken
    split_ifs at taken with at_caller
    cases taken
    exact .doJobs at_caller
  | cleanPreempt =>
    simp only [Call.step] at taken
    split_ifs at taken with at_caller
    cases taken
    exact .cleanPreempt at_caller
  | join =>
    simp only [Call.step] at taken
    split_ifs at taken with joined
    cases taken
    exact .join joined.1 joined.2
  | test =>
    simp only [Call.step] at taken
    split_ifs at taken with at_poller stopped <;> cases taken
    · exact .stopped (not_not.mp at_poller) stopped
    · exact .poll (not_not.mp at_poller) (Bool.eq_false_iff.mpr stopped)
  | check rankDone rankFault elapsedTime =>
    simp only [Call.step] at taken
    split at taken
    · rename_i eachRank at_poller
      split_ifs at taken with last early <;> cases taken
      · exact .allChecked at_poller last
      · exact .check at_poller (not_le.mp last) (not_lt.mp early)
    · cases taken
  | decide elapsed =>
    simp only [Call.step] at taken
    split_ifs at taken with unready struggle <;> cases taken
    all_goals
      obtain ⟨at_poller, late⟩ := not_or.mp unready
    · exact .enterAbort (not_not.mp at_poller) (not_lt.mp late) struggle
    · exact .keepPolling (not_not.mp at_poller) (not_lt.mp late) (Bool.eq_false_iff.mpr struggle)
  | abort =>
    simp only [Call.step] at taken
    split at taken
    · rename_i i at_poller
      split_ifs at taken with last running <;> cases taken
      · exact .allAborted at_poller last
      · exact .abortRank at_poller (not_le.mp last) running
      · exact .spareRank at_poller (not_le.mp last) running
    · cases taken

theorem Call.step_enterAbort {c : Call} {elapsed : Nat} (at_poller : c.poller = .decide) (later : c.clock ≤ elapsed)
    (struggle : determineStruggleDpu elapsed c.preempt = true) :
    c.step (.decide elapsed) =
      some { c with stopPolling := true, clock := elapsed, entry := some elapsed, poller := .abort 0 } := by
  simp [Call.step, at_poller, later, struggle]

theorem Call.step_allChecked {c : Call} {eachRank elapsedTime : Nat} {rankDone rankFault : Bool}
    (at_poller : c.poller = .check eachRank) (last : c.preempt.nrRank ≤ eachRank) :
    c.step (.check rankDone rankFault elapsedTime) = some { c with poller := .decide } := by
  simp [Call.step, at_poller, last]

abbrev CallRun (setup : CallSetup) (history : List (Transition Call CallAction)) (c : Call) : Prop :=
  Run (fun s a t => Call.step s a = some t) (Call.start setup) history c

@[simp] theorem eachRankStatus_nrRank (r : Nat) (done fault : Bool) (time : Nat) (p : PreemptInfo) :
    (eachRankStatus r done fault time p).nrRank = p.nrRank := by
  unfold eachRankStatus
  split_ifs <;> rfl

@[simp] theorem eachRankStatus_nrRankThreshold (r : Nat) (done fault : Bool) (time : Nat) (p : PreemptInfo) :
    (eachRankStatus r done fault time p).nrRankThreshold = p.nrRankThreshold := by
  unfold eachRankStatus
  split_ifs <;> rfl

/-- Which phase the caller and the poller may be in together. -/
structure Call.Phased (c : Call) : Prop where
  not_started : c.caller = .getJobs → c.poller = .absent
  returned : c.caller = .returned → c.poller = .absent ∨ c.poller = .finished
  nrRank_eq : c.poller ≠ .absent → c.preempt.nrRank = c.setup.syncNrRanks
  abort_entered : ∀ i, c.poller = .abort i → c.entry.isSome ∧ i ≤ c.preempt.nrRank
  entered_past : c.entry.isSome → c.poller = .finished ∨ ∃ i, c.poller = .abort i

theorem Call.Phased.start (setup : CallSetup) : (Call.start setup).Phased := by
  constructor <;> simp [Call.start]

theorem Call.Phased.step {c d : Call} {a : CallAction} (phased : c.Phased) (taken : c.step a = some d) :
    d.Phased := by
  obtain ⟨not_started, returned, nrRank_eq, abort_entered, past⟩ := phased
  cases Call.step_sound taken with
  | getJobsFailed at_caller =>
    exact ⟨by simp, fun _ => .inl (not_started at_caller), nrRank_eq, abort_entered, past⟩
  | getJobs at_caller =>
    have fresh : ¬ c.entry.isSome := fun entered => by simpa [not_started at_caller] using past entered
    exact ⟨by simp, by simp, fun _ => rfl, by simp, fun entered => absurd entered fresh⟩
  | doJobs at_caller | cleanPreempt at_caller => exact ⟨by simp, by simp, nrRank_eq, abort_entered, past⟩
  | join at_caller at_poller => exact ⟨by simp, fun _ => .inr at_poller, nrRank_eq, abort_entered, past⟩
  | stopped at_poller stop =>
    exact ⟨by simpa [at_poller] using not_started, fun _ => .inr rfl, fun _ => nrRank_eq (by simp [at_poller]),
      by simp, fun _ => .inl rfl⟩
  | poll at_poller stop | allChecked at_poller last | keepPolling at_poller later struggle =>
    exact ⟨by simpa [at_poller] using not_started, by simpa [at_poller] using returned,
      fun _ => nrRank_eq (by simp [at_poller]), by simp, by simpa [at_poller] using past⟩
  | check at_poller inside later =>
    exact ⟨by simpa [at_poller] using not_started, by simpa [at_poller] using returned,
      fun _ => by simpa using nrRank_eq (by simp [at_poller]), by simp, by simpa [at_poller] using past⟩
  | enterAbort at_poller later struggle =>
    exact ⟨by simpa [at_poller] using not_started, by simpa [at_poller] using returned,
      fun _ => nrRank_eq (by simp [at_poller]), by simp, fun _ => .inr ⟨0, rfl⟩⟩
  | allAborted at_poller last =>
    exact ⟨by simpa [at_poller] using not_started, fun _ => .inr rfl, fun _ => nrRank_eq (by simp [at_poller]),
      by simp, fun _ => .inl rfl⟩
  | abortRank at_poller inside running | spareRank at_poller inside running =>
    refine ⟨by simpa [at_poller] using not_started, by simpa [at_poller] using returned,
      fun _ => nrRank_eq (by simp [at_poller]), fun j at_next => ?_, fun _ => .inr ⟨_, rfl⟩⟩
    obtain rfl := PollerPc.abort.inj at_next
    exact ⟨(abort_entered _ at_poller).1, inside⟩

theorem CallRun.phased {setup : CallSetup} {history : List (Transition Call CallAction)} {c : Call}
    (run : CallRun setup history c) : c.Phased :=
  run.reachable.invariant (.start setup) fun _ _ _ phased taken => phased.step taken

end Upmem
