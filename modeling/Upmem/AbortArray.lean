import Upmem.Preempt

namespace Upmem
open Transitions

/-- An entry of the abort array reports whether its rank was aborted. -/
def Call.Reports (c : Call) (r : Nat) : Prop :=
  (c.abort r = 0 ∨ c.abort r = 1) ∧ (c.abort r = 1 ↔ c.aborted r = true)

/-- The transition is the decision that starts the abort phase. -/
def EntersAbort (τ : Transition Call CallAction) : Prop :=
  ∃ elapsed, τ.action = .decide elapsed ∧ determineStruggleDpu elapsed τ.before.preempt = true

/-- How many entries of the abort array the abort phase has gone past. -/
def Call.written (c : Call) : Nat :=
  match c.poller with
  | .abort i => i
  | .finished => if c.entry.isSome then c.preempt.nrRank else 0
  | _ => 0

/-- The entries gone past report, and the others are as the caller passed them. -/
def Call.ArrayKept (c : Call) : Prop :=
  ∀ r, (r < c.written → c.abort r = if c.aborted r then 1 else 0) ∧
    (c.written ≤ r → c.abort r = c.setup.abort r ∧ c.aborted r = false)

theorem Call.ArrayKept.start (setup : CallSetup) : (Call.start setup).ArrayKept := by
  intro r
  simp [Call.written, Call.start]

/-- A step outside the abort loop leaves the array and what counts as written. -/
theorem Call.ArrayKept.frame {c d : Call} (kept : c.ArrayKept) (written : d.written = c.written)
    (abort : d.abort = c.abort) (aborted : d.aborted = c.aborted) (setup : d.setup = c.setup) : d.ArrayKept := by
  intro r
  rw [written, abort, aborted, setup]
  exact kept r

/-- One iteration of the abort loop settles one more entry. -/
theorem Call.ArrayKept.settle {c d : Call} (i : Nat) (value : Int) (now : Bool) (kept : c.ArrayKept)
    (before : c.written = i) (after : d.written = i + 1) (setup : d.setup = c.setup)
    (abort : d.abort = Function.update c.abort i value) (aborted : d.aborted = Function.update c.aborted i now)
    (report : value = if now then 1 else 0) : d.ArrayKept := by
  intro r
  obtain ⟨past, ahead⟩ := kept r
  rw [before] at past ahead
  rw [after, abort, aborted, setup]
  by_cases here : r = i
  · subst here
    exact ⟨fun _ => by simpa using report, fun beyond => absurd beyond (by omega)⟩
  · simp only [Function.update_of_ne here]
    exact ⟨fun inside => past (by omega), fun beyond => ahead (by omega)⟩

theorem Call.ArrayKept.step {c d : Call} {a : CallAction} (phased : c.Phased) (kept : c.ArrayKept)
    (taken : c.step a = some d) : d.ArrayKept := by
  cases Call.step_sound taken with
  | getJobsFailed | doJobs | cleanPreempt | join => exact kept.frame rfl rfl rfl rfl
  | getJobs at_caller =>
    refine kept.frame ?_ rfl rfl rfl
    simp [Call.written, phased.not_started at_caller]
  | stopped at_poller stop =>
    have fresh : ¬ c.entry.isSome := fun entered => by simpa [at_poller] using phased.entered_past entered
    refine kept.frame ?_ rfl rfl rfl
    simp [Call.written, at_poller, fresh]
  | poll at_poller | allChecked at_poller | check at_poller | enterAbort at_poller | keepPolling at_poller =>
    refine kept.frame ?_ rfl rfl rfl
    simp [Call.written, at_poller]
  | @allAborted i at_poller last =>
    obtain ⟨entered, within⟩ := phased.abort_entered i at_poller
    refine kept.frame ?_ rfl rfl rfl
    simp only [Call.written, at_poller, entered, if_true]
    omega
  | @abortRank i at_poller inside running =>
    refine kept.settle i 1 true ?_ rfl rfl rfl rfl rfl
    simp [Call.written, at_poller]
  | @spareRank i at_poller inside running =>
    have untouched : c.aborted i = false := ((kept i).2 (by simp [Call.written, at_poller])).2
    refine kept.settle i 0 false ?_ rfl rfl rfl ?_ rfl
    · simp [Call.written, at_poller]
    · rw [← untouched, Function.update_eq_self]

theorem CallRun.arrayKept {setup : CallSetup} {history : List (Transition Call CallAction)} {c : Call}
    (run : CallRun setup history c) : c.ArrayKept := by
  induction run with
  | start => exact .start setup
  | next previous taken ih => exact ih.step (CallRun.phased previous) taken

/-- The abort phase has been entered exactly if some transition entered it. -/
theorem CallRun.entered_iff {setup : CallSetup} {history : List (Transition Call CallAction)} {c : Call}
    (run : CallRun setup history c) : c.entry.isSome ↔ ∃ τ ∈ history, EntersAbort τ := by
  induction run with
  | start => simp [Call.start]
  | @next earlier before a after previous taken ih =>
    have now : after.entry.isSome ↔ EntersAbort ⟨before, a, after⟩ ∨ before.entry.isSome := by
      cases Call.step_sound taken with
      | enterAbort at_poller later struggle => exact iff_of_true rfl (.inl ⟨_, rfl, struggle⟩)
      | keepPolling at_poller later struggle => simp [EntersAbort, struggle]
      | getJobsFailed | getJobs | doJobs | cleanPreempt | join | stopped | poll | allChecked | check | allAborted
        | abortRank | spareRank => simp [EntersAbort]
    rw [now, ih, List.exists_mem_cons_iff]

theorem CallRun.setup_eq {setup : CallSetup} {history : List (Transition Call CallAction)} {c : Call}
    (run : CallRun setup history c) : c.setup = setup := by
  induction run with
  | start => rfl
  | next _ taken ih =>
    rw [← ih]
    cases Call.step_sound taken <;> rfl

/-- When a call returns, its abort phase has gone past every rank it knows,
or has never begun. -/
theorem Call.Phased.written_returned {c : Call} (phased : c.Phased) (returned : c.caller = .returned) :
    c.written = if c.entry.isSome then c.setup.syncNrRanks else 0 := by
  rcases phased.returned returned with absent | finished
  · have fresh : ¬ c.entry.isSome := fun entered => by simpa [absent] using phased.entered_past entered
    simp [Call.written, absent, fresh]
  · simp [Call.written, finished, phased.nrRank_eq (by simp [finished])]

/-- An entry reports exactly if the abort phase went past it or the caller
had cleared it. -/
theorem Call.ArrayKept.entry_reports_iff {c : Call} (kept : c.ArrayKept) (r : Nat) :
    c.Reports r ↔ r < c.written ∨ c.setup.abort r = 0 := by
  obtain ⟨past, ahead⟩ := kept r
  by_cases inside : r < c.written
  · cases aborted : c.aborted r <;> simp [Call.Reports, inside, past inside, aborted]
  · obtain ⟨same, spared⟩ := ahead (not_lt.mp inside)
    simp only [Call.Reports, inside, same, spared, false_or, Bool.false_eq_true, iff_false]
    constructor
    · rintro ⟨zero | one, other⟩
      · exact zero
      · exact absurd one other
    · intro zero
      simp [zero]

theorem eachRankStatus_fault_numDone (r time : Nat) (p : PreemptInfo) :
    (eachRankStatus r false true time p).numDone = p.numDone := rfl

/-- A launch on three ranks that all fault before the first poll ends without
an abort phase. -/
theorem callRun_onRanks_three (abort : Nat → Int) :
    ∃ history c, CallRun (.onRanks 3 abort) history c ∧ c.caller = .returned ∧ c.abort = abort ∧
      c.entry = none := by
  have ranks : (initPreempt 3).nrRank = 3 := rfl
  have none_done : (initPreempt 3).numDone = 0 := rfl
  have threshold : (initPreempt 3).nrRankThreshold = 1 := by
    norm_num [initPreempt, RANK_THRESHOLD, Nat.floor_eq_iff]
  have undecided : determineStruggleDpu 50 (eachRankStatus 2 false true 50 (eachRankStatus 1 false true 50
      (eachRankStatus 0 false true 50 (initPreempt 3)))) = false := by
    simp [determineStruggleDpu, threshold, eachRankStatus_fault_numDone, none_done]
  have executed : execute Call.step
      [.getJobs true, .doJobs, .test, .check false true 50, .check false true 50, .check false true 50,
        .check false true 50, .decide 50, .cleanPreempt, .test, .join]
      (.start (.onRanks 3 abort)) = some { Call.start (.onRanks 3 abort) with
        preempt := eachRankStatus 2 false true 50 (eachRankStatus 1 false true 50
          (eachRankStatus 0 false true 50 (initPreempt 3))),
        stopPolling := true, poller := .finished, caller := .returned, clock := 50 } := by
    simp [execute, Call.step, Call.start, CallSetup.onRanks, CallSetup.syncNrRanks, ranks, undecided]
  obtain ⟨history, run⟩ := execute_run executed
  exact ⟨history, _, run, rfl, rfl, rfl⟩

/-- When a preempted launch returns, the abort array reports the aborted
ranks exactly if, for every rank of the set, the abort phase was entered and
knew the rank, or the entry was zero before the call. -/
theorem CallRun.reports_iff {setup : CallSetup} {history : List (Transition Call CallAction)} {c : Call}
    (run : CallRun setup history c) (returned : c.caller = .returned) :
    (∀ r < setup.nrRanks, c.Reports r) ↔
      ∀ r < setup.nrRanks,
        ((∃ τ ∈ history, EntersAbort τ) ∧ r < setup.syncNrRanks) ∨ setup.abort r = 0 := by
  refine forall₂_congr fun r _ => ?_
  rw [run.arrayKept.entry_reports_iff, run.phased.written_returned returned, ← run.entered_iff, run.setup_eq]
  by_cases entered : c.entry.isSome <;> simp [entered]

theorem reports_iff_onRanks_three : ∃ history c, CallRun (.onRanks 3 fun _ => 0) history c ∧
    ((∀ r < 3, c.Reports r) ↔
      ∀ r < 3, ((∃ τ ∈ history, EntersAbort τ) ∧ r < 3) ∨ (0 : Int) = 0) := by
  obtain ⟨history, c, run, returned, _⟩ := callRun_onRanks_three fun _ => 0
  exact ⟨history, c, run, CallRun.reports_iff run returned⟩

/-- With three faulting ranks and an array that holds 7, every entry still
holds 7 when the launch returns. -/
theorem onRanks_three_not_reports :
    ¬ ∀ (setup : CallSetup) (history : List (Transition Call CallAction)) (c : Call),
      setup.synchronous = true → CallRun setup history c → c.caller = .returned →
        ∀ r < setup.nrRanks, c.Reports r := by
  intro always
  obtain ⟨history, c, run, returned, abort, _⟩ := callRun_onRanks_three fun _ => 7
  have reports := always _ history c rfl run returned 0 (by decide)
  simp [Call.Reports, abort] at reports

end Upmem
