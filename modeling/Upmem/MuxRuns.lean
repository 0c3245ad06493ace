import Upmem.MuxCoherence
import Upmem.UfiRuns

namespace Upmem.Mux
open StatusChain Transitions

/-- A call of one of the two switch functions, or a change of the DPUs that run. -/
inductive MuxAction
  | switchRank (setMuxForHost : Bool) (answers : AccessAnswers)
  | switchLine (dpuId : Nat) (mask : BitVec 8) (answers : Nat → AccessAnswers)
  | dpusRun (runContext : RunContext)

section Runs
variable (unchecked : Bool)

def MuxAction.exec : MuxAction → MuxState → DpuError × MuxState
  | .switchRank setMuxForHost answers => dpuSwitchMuxForRank unchecked setMuxForHost answers
  | .switchLine dpuId mask answers => dpuSwitchMuxForDpuLine unchecked dpuId mask answers
  | .dpusRun runContext => fun s => (.ok, { s with rank := { s.rank with runContext := runContext } })

/-- The lines that are switched are lines of the rank. -/
def MuxAction.Valid (s : MuxState) : MuxAction → Prop
  | .switchLine dpuId _ _ => dpuId < s.rank.nrDpusPerCi
  | _ => True

def muxStep (s : MuxState) (action : MuxAction) (t : MuxState) : Prop :=
  action.Valid s ∧ t = (action.exec unchecked s).2

/-- A switch function that returns without an error has the muxes that it
covers in the position asked for, on every control interface with an enabled DPU. -/
def SwitchSound (τ : Transition MuxState MuxAction) : Prop :=
  (τ.action.exec unchecked τ.before).1 = .ok → ∀ ci, τ.before.rank.talks ci = true →
    ∀ dpu < τ.before.rank.nrDpusPerCi,
    match τ.action with
    | .switchRank setMuxForHost _ => τ.after.mux ci dpu = setMuxForHost
    | .switchLine dpuId mask _ => dpuPairBaseId dpu = dpuPairBaseId dpuId → τ.after.mux ci dpu = mask.getLsbD ci
    | .dpusRun _ => True

/-- The commands of a switch arrive, if it sends any. -/
def Arrive (s : MuxState) : MuxAction → Prop
  | .switchRank setMuxForHost answers => switchesRank setMuxForHost s.rank = true →
      AccessArrives answers (List.range s.rank.nrDpusPerCi) (fun _ => setMuxForHost) s
  | .switchLine dpuId mask answers => runningOn (linesToSwitch dpuId mask s.rank) s.rank = 0 →
      LinesArrive unchecked answers (fun ci => mask.getLsbD ci) s (linesToSwitch dpuId mask s.rank)
  | .dpusRun _ => True

variable {unchecked} {start s t : MuxState} {history : List (Transition MuxState MuxAction)}

/-- A switch whose commands arrive keeps the records in agreement with the muxes. -/
theorem Arrive.sound {action : MuxAction} (agrees : s.Agrees) (arrives : Arrive unchecked s action)
    (taken : muxStep unchecked s action t) : t.Agrees ∧ SwitchSound unchecked ⟨s, action, t⟩ := by
  obtain ⟨valid, rfl⟩ := taken
  cases action with
  | switchRank setMuxForHost answers => exact dpuSwitchMuxForRank_agrees agrees arrives
  | switchLine dpuId mask answers => exact dpuSwitchMuxForDpuLine_agrees agrees valid arrives
  | dpusRun runContext => exact ⟨⟨agrees.must, agrees.below, agrees.same⟩, fun _ _ _ _ _ => trivial⟩

/-- In every history in which the commands of the switches arrive, a switch
function that returns without an error has the muxes in position. -/
theorem arrive_switchSound (agrees : start.Agrees) (run : Run (muxStep unchecked) start history s)
    (arrive : ∀ τ ∈ history, Arrive unchecked τ.before τ.action) : ∀ τ ∈ history, SwitchSound unchecked τ :=
  (run.guarded_transitions (Q := MuxState.Agrees) agrees
    (fun _ _ _ before taken arrives => arrives.sound before taken) arrive).2

end Runs

section Boots
variable {unchecked : Bool} {s t : MuxState} {history : List (Transition MuxState MuxAction)}

/-- The switches of the lines of a boot continue a run. -/
theorem bootLines_run {answers : BootAnswers} (dpus : List Nat) (small : ∀ dpu ∈ dpus, dpu < t.rank.nrDpusPerCi)
    (run : Run (muxStep unchecked) s history t) : ∃ longer, Run (muxStep unchecked) s longer
      (loop .ok (fun dpu s => dpuSwitchMuxForDpuLine unchecked dpu (bootMuxMask answers.ciMask dpu s.rank)
        (answers.line dpu) s) dpus t).2 := by
  induction dpus generalizing t history with
  | nil => exact ⟨history, run⟩
  | cons dpu rest ih =>
    obtain ⟨first, small⟩ := List.forall_mem_cons.mp small
    have taken :
        muxStep unchecked t (.switchLine dpu (bootMuxMask answers.ciMask dpu t.rank) (answers.line dpu)) _ :=
      ⟨first, rfl⟩
    have next := run.next taken
    rw [loop]
    split
    · refine ih (fun other member => ?_) next
      have same : SameButMux t.rank (dpuSwitchMuxForDpuLine unchecked dpu (bootMuxMask answers.ciMask dpu t.rank)
        (answers.line dpu) t).2.rank := dpuSwitchMuxForDpuLine_same
      exact (small other member).trans_eq same.nrDpusPerCi.symm
    · exact ⟨_, next⟩

/-- What a boot does to the muxes are the switches that it calls, in their order. -/
theorem ciStartThreadRank_run (answers : BootAnswers) (s : MuxState) :
    ∃ history, Run (muxStep unchecked) s history (ciStartThreadRank unchecked answers s).2 := by
  unfold ciStartThreadRank
  split
  · exact ⟨[], .start⟩
  · rw [andThen_snd]
    split
    · have taken : muxStep unchecked s (.switchRank false answers.rank) _ := ⟨trivial, rfl⟩
      exact ⟨_, Run.start.next taken⟩
    · exact bootLines_run _ (fun _ => List.mem_range.mp) .start

theorem ciStartThreadDpu_run {ci dpuId : Nat} (answers : BootAnswers) (given : dpuId < s.rank.nrDpusPerCi) :
    ∃ history, Run (muxStep unchecked) s history (ciStartThreadDpu unchecked ci dpuId answers s).2 := by
  rw [ciStartThreadDpu, andThen_snd]
  have taken :
      muxStep unchecked s (.switchLine dpuId (bootMuxMask (1#8 <<< ci) dpuId s.rank) (answers.line dpuId)) _ :=
    ⟨given, rfl⟩
  exact ⟨_, Run.start.next taken⟩

end Boots

section Example

/-- All muxes of the paired rank at the side of the DPUs. -/
def dpuSideState : MuxState := ⟨Ufi.pairedRank, fun _ _ => false⟩

theorem dpuSideState_agrees : dpuSideState.Agrees where
  must := rfl
  below := fun _ _ dpu _ => by simp [dpuGetHostMuxMramState, dpuSideState, Ufi.pairedRank]
  same := fun _ _ dpu _ => by simp [dpuGetHostMuxMramState, dpuSideState, Ufi.pairedRank]

/-- Answers of commands that all succeed, with muxes that follow at once. -/
def prompt : AccessAnswers := ⟨.ok, .ok, .ok, fun _ _ => .ok, fun _ _ => 0⟩

/-- Answers of a select that times out. -/
def silent : AccessAnswers := ⟨.timeout, .ok, .ok, fun _ _ => .ok, fun _ _ => 0⟩

/-- The host takes all MRAMs. -/
def takeRank (answers : AccessAnswers) : Transition MuxState MuxAction :=
  let action : MuxAction := .switchRank true answers
  ⟨dpuSideState, action, (action.exec false dpuSideState).2⟩

theorem arrive_switchSound_takeRank : SwitchSound false (takeRank prompt) := by
  have run : Run (muxStep false) dpuSideState [takeRank prompt] (takeRank prompt).after :=
    Run.start.next ⟨trivial, rfl⟩
  have arrives : Arrive false (takeRank prompt).before (takeRank prompt).action :=
    have soon : 0 < TIMEOUT_MUX_STATUS := by decide
    fun _ _ _ _ _ => .inr ⟨rfl, soon⟩
  exact arrive_switchSound dpuSideState_agrees run (List.forall_mem_singleton.mpr arrives) _ List.mem_cons_self

/-- A switch that times out makes the next one succeed without a command. -/
theorem silentSwitch_not_sound :
    ¬ ∀ (unchecked : Bool) (start s : MuxState) (history : List (Transition MuxState MuxAction)),
    start.Agrees → Run (muxStep unchecked) start history s → ∀ τ ∈ history, SwitchSound unchecked τ := by
  intro sound
  have run : Run (muxStep false) dpuSideState
      [⟨(takeRank silent).after, .switchRank true prompt, _⟩, takeRank silent] _ :=
    Run.next (Run.start.next ⟨trivial, rfl⟩) ⟨trivial, rfl⟩
  have second := sound _ _ _ _ dpuSideState_agrees run _ List.mem_cons_self (by decide) 0 (by decide) 0 (by decide)
  revert second
  decide

end Example

end Upmem.Mux
