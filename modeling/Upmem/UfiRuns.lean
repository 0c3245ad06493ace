import Upmem.Lib.Transitions
import Upmem.UfiCoherence

namespace Upmem.Ufi
open Ci StatusChain Transitions

/-- A structure of a frame. -/
abbrev Structure := { value : BitVec 64 // value ≠ CI_EMPTY }

/-- The `ufi_select_*` functions with their parameters. -/
inductive Select
  | all | allUncached | allEvenDisabled
  | group (groupId : Fin DPU_MAX_NR_GROUPS) | groupUncached (groupId : Fin DPU_MAX_NR_GROUPS)
  | dpu (dpuId : Nat) | dpuUncached (dpuId : Nat) | dpuEvenDisabled (dpuId : Nat)

def Select.kind : Select → SelectKind
  | .all => .each wantAll
  | .allUncached => .uncached .all
  | .allEvenDisabled => .each wantAllEvenDisabled
  | .group groupId => .one (.group groupId) (groupNonempty groupId)
  | .groupUncached groupId => .uncached (.group groupId)
  | .dpu dpuId => .one (.dpu dpuId) (dpuEnabled dpuId)
  | .dpuUncached dpuId => .uncached (.dpu dpuId)
  | .dpuEvenDisabled dpuId => .one (.dpu dpuId) anyEnabled

def Select.exec (misread : Misread) : Select → FrameOutcomes → BitVec 8 → UfiState → DpuError × UfiState
  | .all => ufiSelectAll misread
  | .allUncached => ufiSelectAllUncached misread
  | .allEvenDisabled => ufiSelectAllEvenDisabled misread
  | .group groupId => ufiSelectGroup misread groupId
  | .groupUncached groupId => ufiSelectGroupUncached misread groupId
  | .dpu dpuId => ufiSelectDpu misread dpuId
  | .dpuUncached dpuId => ufiSelectDpuUncached misread dpuId
  | .dpuEvenDisabled dpuId => ufiSelectDpuEvenDisabled misread dpuId

/-- An operation on the control interfaces: a select, the write of a group, or
a frame that changes neither, which is the same for a whole mask or is filled
in for each control interface. -/
inductive UfiCall
  | select (select : Select)
  | writeGroup (group : Fin DPU_MAX_NR_GROUPS)
  | frame (structure_ : Structure) (word : BitVec 64)
  | frames (waitMask : Bool) (structure_ : Structure) (words : Nat → BitVec 64)

structure UfiAction where
  call : UfiCall
  mask : BitVec 8
  outcomes : FrameOutcomes

def UfiAction.exec (misread : Misread) (action : UfiAction) : UfiState → DpuError × UfiState :=
  match action.call with
  | .select select => select.exec misread action.outcomes action.mask
  | .writeGroup group => ufiWriteGroup misread group action.outcomes action.mask
  | .frame structure_ word => execFrame misread action.outcomes action.mask structure_ (.other word)
  | .frames waitMask structure_ words =>
    execFrames misread waitMask action.outcomes action.mask structure_ fun ci => .other (words ci)

def ufiStep (misread : Misread) (s : UfiState) (action : UfiAction) (t : UfiState) : Prop :=
  t = (action.exec misread s.begin).2

/-- The state that `ci_exec_reset_cmd` leaves: no selection, and all DPUs in group 0. -/
structure AfterReset (s : UfiState) : Prop where
  targets : ∀ ci < s.rank.nrCis, (s.cache ci).sliceTarget = .none
  groups : ∀ ci < s.rank.nrCis, ∀ group < DPU_MAX_NR_GROUPS,
    (s.cache ci).dpusPerGroup group = if group = 0 then dpuMaskAll s.rank.nrDpusPerCi else 0#8
  hardware : ∀ ci < s.rank.nrCis, ∀ dpu < s.rank.nrDpusPerCi, (s.hardware ci).group dpu = 0
  known : s.StructuresKnown
  settled : s.Settled

theorem AfterReset.coherent {s : UfiState} (reset : AfterReset s) : s.Coherent := by
  refine ⟨fun ci inside => ⟨⟨.inl (reset.targets ci inside), ?_⟩, reset.known ci inside, ?_, ?_⟩, reset.settled⟩
  · intro group given
    rw [reset.targets ci inside] at given
    cases given
  · intro dpu small
    rw [reset.hardware ci inside dpu small]
    decide
  · intro group given dpu small
    rw [reset.groups ci inside group given, reset.hardware ci inside dpu small]
    by_cases zero : group = 0
    · simp [zero, dpuMaskAll_getLsbD s.rank.nrDpusPerCi_le, small]
    · simp [zero, Ne.symm zero]

theorem Select.exec_eq (misread : Misread) (select : Select) : select.exec misread = select.kind.exec misread := by
  cases select <;> rfl

theorem Select.selectable (select : Select) {info : SliceInfo} {cache : SliceCache} {target : SliceTarget}
    (wanted : select.kind.want info cache = some target) : Selectable target := by
  have all : Selectable .all := ⟨by simp, by simp⟩
  have group {groupId : Nat} (small : groupId < DPU_MAX_NR_GROUPS) : Selectable (.group groupId) :=
    ⟨by simp, fun other same => SliceTarget.group.inj same ▸ small⟩
  have enabled : Selectable (.group DPU_ENABLED_GROUP) := group (by decide)
  have dpu (dpuId : Nat) : Selectable (.dpu dpuId) := ⟨by simp, by simp⟩
  cases select with
  | group groupId | groupUncached groupId =>
    have this := group groupId.isLt
    simp only [Select.kind, SelectKind.want] at wanted
    grind
  | _ =>
    simp only [Select.kind, SelectKind.want, wantAll, wantAllEvenDisabled] at wanted
    grind

/-- What is promised of an operation. A select that succeeds leaves the
requested selection on the control interfaces it returns, an operation that
succeeds has executed every frame with its own structure loaded, and the
groups are those of the hardware. -/
structure CallSound (misread : Misread) (τ : Transition UfiState UfiAction) : Prop where
  selection : ∀ select, τ.action.call = .select select → (τ.action.exec misread τ.before.begin).1 = .ok →
    ∀ ci, τ.before.on (select.kind.returned τ.before τ.action.mask) ci = true →
      τ.before.wanted select.kind.want ci = some (τ.after.hardware ci).selected
  structures : (τ.action.exec misread τ.before.begin).1 = .ok → τ.after.Matched
  groups : ∀ ci < τ.after.rank.nrCis, GroupsAgree τ.after.rank.nrDpusPerCi (τ.after.cache ci) (τ.after.hardware ci)

/-- The commands of an operation arrive. Those of a select or a group write
must also succeed up to the last frame, and a group is written where there is
a selection or not at all; the structure of another frame need only be loaded. -/
def Arrives (s : UfiState) (action : UfiAction) : Prop :=
  match action.call with
  | .select select => select.kind.Arrives s action.mask action.outcomes
  | .writeGroup group => s.GroupRefused action.mask ∨ s.GroupArrives group action.mask action.outcomes
  | .frame structure_ _ | .frames _ structure_ _ =>
    s.mustWrite (s.onMask action.mask structure_) = true →
      s.Loads (s.onMask action.mask structure_) action.outcomes.struct

section Runs
variable {misread : Misread} {start s t : UfiState} {history : List (Transition UfiState UfiAction)}

theorem UfiState.Coherent.begin (coherent : s.Coherent) : s.begin.Coherent :=
  ⟨coherent.each, coherent.settled⟩

theorem callSound_of_coherent {action : UfiAction} (other : ∀ select, action.call ≠ .select select)
    (after : t.Coherent) (matched : t.Matched) : t.Coherent ∧ CallSound misread ⟨s, action, t⟩ :=
  ⟨after,
    fun select same => absurd same (other select), fun _ => matched, fun ci inside => (after.each ci inside).groups⟩

@[simp] theorem begin_matched : s.begin.Matched := by
  simp [UfiState.Matched, UfiState.begin]

/-- An operation whose commands arrive keeps the caches coherent and does what is promised. -/
theorem Arrives.sound {action : UfiAction} (coherent : s.Coherent) (arrives : Arrives s action)
    (taken : ufiStep misread s action t) : t.Coherent ∧ CallSound misread ⟨s, action, t⟩ := by
  obtain ⟨call, mask, outcomes⟩ := action
  subst taken
  have before := coherent.begin
  cases call with
  | select select =>
    have exec_eq : UfiAction.exec misread ⟨.select select, mask, outcomes⟩ s.begin =
        select.kind.exec misread outcomes mask s.begin :=
      congrFun (congrFun (congrFun (select.exec_eq misread) outcomes) mask) s.begin
    have selectable : ∀ info cache target, select.kind.want info cache = some target → Selectable target :=
      fun _ _ _ => select.selectable
    have arrived : select.kind.Arrives s.begin mask outcomes := ⟨arrives.struct, arrives.frame⟩
    obtain ⟨after, selects⟩ := SelectKind.exec_selects misread before selectable arrived
    have done := SelectKind.exec_done misread before selectable arrived
    rw [exec_eq]
    refine ⟨after, fun other same _ => ?_, fun _ => ?_, fun ci inside => (after.each ci inside).groups⟩
    · obtain rfl := UfiCall.select.inj same
      exact selects
    · exact done.matched (by simp [UfiState.Matched, UfiState.recordTargets, UfiState.begin])
  | writeGroup group =>
    rcases arrives with refused | arrived
    · have unchanged : UfiAction.exec misread ⟨.writeGroup group, mask, outcomes⟩ s.begin = (.internal, s.begin) :=
        ufiWriteGroup_refused refused
      have after : (UfiAction.exec misread ⟨.writeGroup group, mask, outcomes⟩ s.begin).2.Coherent :=
        unchanged ▸ before
      have matched : (UfiAction.exec misread ⟨.writeGroup group, mask, outcomes⟩ s.begin).2.Matched :=
        unchanged ▸ begin_matched
      exact callSound_of_coherent (by simp) after matched
    · obtain ⟨after, matched⟩ := ufiWriteGroup_coherent misread group.isLt before
        ⟨arrived.selected, arrived.struct, arrived.frame⟩
      exact callSound_of_coherent (by simp) after (matched begin_matched)
  | frame structure_ word =>
    have done := execFrame_other misread outcomes before.known structure_.property arrives word
    have after := done.coherent_other before fun ci structure' frame given =>
      ⟨word, (Prod.mk.inj (framesOn_some given).2).2⟩
    exact callSound_of_coherent (by simp) after (done.matched begin_matched)
  | frames waitMask structure_ words =>
    have done := execFrames_other misread outcomes waitMask before.known
      before.settled structure_.property arrives words
    have after := done.coherent_other before fun ci structure' frame given =>
      ⟨words ci, (Prod.mk.inj (framesOn_some given).2).2⟩
    exact callSound_of_coherent (by simp) after (done.matched begin_matched)

/-- In every run after a reset whose commands arrive, all operations do what is promised. -/
theorem arrives_callSound (reset : AfterReset start) (run : Run (ufiStep misread) start history s)
    (arrives : ∀ τ ∈ history, Arrives τ.before τ.action) : ∀ τ ∈ history, CallSound misread τ :=
  (run.guarded_transitions (Q := UfiState.Coherent) reset.coherent
    (fun _ _ _ coherent taken good => good.sound coherent taken) arrives).2

end Runs

section Example

/-- A rank with two control interfaces of two enabled DPUs each. -/
def pairedRank : Rank where
  description :=
    { topology := ⟨2, 2, by decide, two_le_DPU_MAX_NR_DPUS_PER_CI⟩
      nrOfThreads := 24
      mramSize := 0x4000000#32
      mramAccessByDpuOnly := false
      apiMustSwitchMramMux := true
      initMramMux := true
      doIramRepair := false
      doWramRepair := false }
  dpus := fun _ _ => ⟨true, ⟨fun _ => ⟨0, 0⟩, 0⟩, fun _ => ⟨fun _ => ⟨0, 0⟩, 0⟩⟩
  nrDpusEnabled := 4
  sliceInfo := fun _ => ⟨0#8, 0b11#32, true⟩
  runContext := ⟨fun _ => 0#8, fun _ => 0#8, .ok, 0⟩

/-- The paired rank after a reset, with a structure register that holds nothing known. -/
def resetState : UfiState where
  rank := pairedRank
  cache := fun _ => ⟨⟨.none, fun group => if group = 0 then dpuMaskAll 2 else 0#8⟩, CI_EMPTY⟩
  cmds := fun _ => .empty
  hardware := fun _ => ⟨0#64, .none, fun _ => 0⟩
  built := fun _ => false
  sent := []
  executed := []

theorem resetState_afterReset : AfterReset resetState where
  targets := fun _ _ => rfl
  groups := fun _ _ _ _ => rfl
  hardware := fun _ _ _ _ => rfl
  known := fun _ _ => .inl rfl
  settled := fun _ _ => trivial

/-- A command that succeeds. -/
def success : Outcome := ⟨.ok, fun _ => true, fun _ _ => rfl⟩

/-- A command that times out before any control interface has seen it. -/
def lost : Outcome := ⟨.timeout, fun _ => false, fun passed => by cases passed⟩

/-- The first DPU of all control interfaces is selected, with all commands arriving. -/
def selectFirst : Transition UfiState UfiAction :=
  let select : UfiAction := ⟨.select (.dpu 0), 0xff#8, ⟨success, success⟩⟩
  ⟨resetState, select, (select.exec (fun _ _ hardware => hardware) resetState.begin).2⟩

/-- The selected DPUs are put in another group. -/
def writeSecond : Transition UfiState UfiAction :=
  let writeGroup : UfiAction := ⟨.writeGroup ⟨1, by decide⟩, 0xff#8, ⟨success, success⟩⟩
  ⟨selectFirst.after, writeGroup, (writeGroup.exec (fun _ _ hardware => hardware) selectFirst.after.begin).2⟩

theorem selectFirst_arrives : Arrives selectFirst.before selectFirst.action :=
  ⟨fun _ => rfl, fun _ _ _ _ _ => .inl rfl⟩

theorem writeSecond_arrives : Arrives writeSecond.before writeSecond.action := by
  refine .inr ⟨fun ci on => ?_, fun _ => rfl, fun _ _ _ _ _ => .inl rfl⟩
  have inside : ci < 2 := of_decide_eq_true (Bool.and_eq_true_iff.mp on).1
  clear on
  interval_cases ci <;> decide

theorem arrives_callSound_selectThenWrite :
    CallSound (fun _ _ hardware => hardware) selectFirst ∧
      CallSound (fun _ _ hardware => hardware) writeSecond := by
  have run : Run (ufiStep fun _ _ hardware => hardware) resetState [writeSecond, selectFirst] writeSecond.after :=
    (Run.start.next rfl).next rfl
  have sound := arrives_callSound resetState_afterReset run
    (List.forall_mem_cons.mpr ⟨writeSecond_arrives, List.forall_mem_singleton.mpr selectFirst_arrives⟩)
  exact ⟨sound _ (List.mem_cons_of_mem _ List.mem_cons_self), sound _ List.mem_cons_self⟩

/-- The first DPU of all control interfaces is selected twice. The first frame is lost. -/
def selectTwice : List (Transition UfiState UfiAction) :=
  let first : UfiAction := ⟨.select (.dpu 0), 0xff#8, ⟨success, lost⟩⟩
  let second : UfiAction := ⟨.select (.dpu 0), 0xff#8, ⟨success, success⟩⟩
  let between := (first.exec (fun _ _ hardware => hardware) resetState.begin).2
  let after := (second.exec (fun _ _ hardware => hardware) between.begin).2
  [⟨between, second, after⟩, ⟨resetState, first, between⟩]

/-- The second select succeeds without a command, and nothing is selected. -/
theorem lostSelect_not_callSound :
    ¬ ∀ (misread : Misread) (start s : UfiState) (history : List (Transition UfiState UfiAction)),
    AfterReset start → Run (ufiStep misread) start history s → ∀ τ ∈ history, CallSound misread τ := by
  intro sound
  have run : Run (ufiStep fun _ _ hardware => hardware) resetState selectTwice _ :=
    (Run.start.next rfl).next rfl
  have selection :=
    (sound _ _ _ _ resetState_afterReset run _ List.mem_cons_self).selection (.dpu 0) rfl (by decide) 0
    (by decide)
  revert selection
  decide

end Example

end Upmem.Ufi
