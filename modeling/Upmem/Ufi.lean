import Upmem.CiCommands
import Upmem.Lib.StatusChain

namespace Upmem.Ufi
open Ci StatusChain

def DPU_MAX_NR_GROUPS : Nat := 8
def DPU_ENABLED_GROUP : Nat := 0

def CI_SELECT_DPU_STRUCT : BitVec 64 := 0x1100000000000002
def CI_SELECT_GROUP_STRUCT : BitVec 64 := 0x1100000000000002
def CI_SELECT_ALL_STRUCT : BitVec 64 := 0x1100000000000000
def CI_WRITE_GROUP_STRUCT : BitVec 64 := 0x1100000000000002

/-- What a frame tells a control interface: to select DPUs, to write the group
of the selected DPUs or something that changes neither selection nor groups. -/
inductive Frame
  | select (target : SliceTarget)
  | writeGroup (group : Nat)
  | other (word : BitVec 64)
  deriving DecidableEq

/-- A word of a command: `CI_EMPTY`, a structure or a frame that was built for a structure. -/
inductive Command
  | empty
  | struct (value : BitVec 64)
  | frame (structure_ : BitVec 64) (frame : Frame)
  deriving DecidableEq

/-- A control interface as the commands change it. -/
structure CiHardware where
  loaded : BitVec 64
  selected : SliceTarget
  group : Nat → Nat

/-- What a control interface makes of a frame when another structure is loaded. -/
abbrev Misread := BitVec 64 → Frame → CiHardware → CiHardware

/-- The selected DPUs. -/
def CiHardware.Addressed (hardware : CiHardware) (dpu : Nat) : Prop :=
  match hardware.selected with
  | .none => False
  | .dpu dpuId => dpu = dpuId
  | .all => True
  | .group groupId => hardware.group dpu = groupId

instance (hardware : CiHardware) (dpu : Nat) : Decidable (hardware.Addressed dpu) := by
  unfold CiHardware.Addressed
  cases hardware.selected <;> infer_instance

def CiHardware.perform (hardware : CiHardware) : Frame → CiHardware
  | .select target => { hardware with selected := target }
  | .writeGroup group =>
    { hardware with group := fun dpu => if hardware.Addressed dpu then group else hardware.group dpu }
  | .other _ => hardware

def CiHardware.execute (misread : Misread) (hardware : CiHardware) : Command → CiHardware
  | .empty => hardware
  | .struct value => { hardware with loaded := value }
  | .frame structure_ frame =>
    if hardware.loaded = structure_ then hardware.perform frame else misread structure_ frame hardware

/-- The part of `struct dpu_configuration_slice_info_t` that spares commands. -/
structure SliceCache extends SliceSelection where
  structureValue : BitVec 64

def SliceCache.withStructure (cache : SliceCache) (structure_ : BitVec 64) : SliceCache :=
  { cache with structureValue := structure_ }

/-- `CI_MASK_ON` for a control interface that a rank has. -/
def ciMaskOn (nrCis : Nat) (mask : BitVec 8) (ci : Nat) : Bool := decide (ci < nrCis) && mask.getLsbD ci

/-- What is recorded once structures are written. -/
def withStructures (cache : Nat → SliceCache) (structures : Nat → Option (BitVec 64)) (ci : Nat) : SliceCache :=
  match structures ci with
  | some structure_ => (cache ci).withStructure structure_
  | none => cache ci

/-- Some control interface has another structure than the one given for it. -/
def structuresDiffer (nrCis : Nat) (cache : Nat → SliceCache) (structures : Nat → Option (BitVec 64)) : Bool :=
  (List.range nrCis).any fun ci =>
    match structures ci with
    | some structure_ => (cache ci).structureValue != structure_
    | none => false

/-- `compute_masks` finds a command for a control interface without a selection. -/
def selectionLacks (nrCis : Nat) (cache : Nat → SliceCache) (commanded : Nat → Prop) [DecidablePred commanded] :
    Bool :=
  (List.range nrCis).any fun ci => decide (commanded ci ∧ (cache ci).sliceTarget = .none)

/-- How a command ends: its status and the control interfaces that execute it, which are all when it succeeds. -/
structure Outcome where
  status : DpuError
  reached : Nat → Bool
  all_reached : status = .ok → ∀ ci, reached ci = true

/-- How the write of a structure and the frame after it end. -/
structure FrameOutcomes where
  struct : Outcome
  frame : Outcome

/-- The control interfaces of a rank. For the operation in progress, `built`
tells which entries of `cmds` it has filled, `sent` lists the commands it has
sent and `executed` the structures that the executed frames were built for,
each with the one that was loaded. -/
structure UfiState where
  rank : Rank
  cache : Nat → SliceCache
  cmds : Nat → Command
  hardware : Nat → CiHardware
  built : Nat → Bool
  sent : List (Nat → Command × Bool)
  executed : List (BitVec 64 × BitVec 64)

/-- The state in which an operation begins. -/
def UfiState.begin (s : UfiState) : UfiState :=
  { s with built := fun _ => false, sent := [], executed := [] }

def UfiState.on (s : UfiState) (mask : BitVec 8) (ci : Nat) : Bool := ciMaskOn s.rank.nrCis mask ci

/-- A value for each control interface of a mask. -/
def UfiState.onMask {α : Type} (s : UfiState) (mask : BitVec 8) (value : α) (ci : Nat) : Option α :=
  if s.on mask ci then some value else none

/-- The record of a frame that a control interface executes. -/
def executedFrame (hardware : CiHardware) : Command → Option (BitVec 64 × BitVec 64)
  | .frame structure_ _ => some (structure_, hardware.loaded)
  | _ => none

section Operations
variable (misread : Misread)

/-- `exec_cmd` as the control interfaces see it. -/
def execCmd (outcome : Outcome) (commands : Nat → Command × Bool) (s : UfiState) : DpuError × UfiState :=
  (outcome.status,
    { s with
      hardware := fun ci =>
        if ci < s.rank.nrCis ∧ outcome.reached ci = true then (s.hardware ci).execute misread (commands ci).1
        else s.hardware ci
      sent := s.sent ++ [commands]
      executed := s.executed ++ (List.range s.rank.nrCis).filterMap fun ci =>
        if outcome.reached ci then executedFrame (s.hardware ci) (commands ci).1 else none })

/-- `ci_exec_void_cmd`, `ci_exec_8bit_cmd` and `ci_exec_32bit_cmd` of `rank->cmds`. -/
def ciExecCmds (outcome : Outcome) (s : UfiState) : DpuError × UfiState :=
  execCmd misread outcome (fun ci => (s.cmds ci, s.built ci)) s

/-- `ci_prepare_mask` on `rank->cmds`. -/
def ciPrepareMask (mask : BitVec 8) (data : Command) (s : UfiState) : UfiState :=
  { s with cmds := fun ci => if mask.getLsbD ci then data else .empty, built := fun _ => true }

def UfiState.recordStructures (s : UfiState) (structures : Nat → Option (BitVec 64)) : UfiState :=
  { s with cache := withStructures s.cache structures }

def UfiState.mustWrite (s : UfiState) (structures : Nat → Option (BitVec 64)) : Bool :=
  structuresDiffer s.rank.nrCis s.cache structures

/-- `UFI_exec_write_structure`. -/
def execWriteStructure (outcome : Outcome) (mask : BitVec 8) (structure_ : BitVec 64) (s : UfiState) :
    DpuError × UfiState :=
  let structures := s.onMask mask structure_
  if s.mustWrite structures then
    ciExecCmds misread outcome (ciPrepareMask mask (.struct structure_) (s.recordStructures structures))
  else (.ok, s.recordStructures structures)

/-- `UFI_exec_write_structures`, where no structure stands for `CI_EMPTY`. -/
def execWriteStructures (outcome : Outcome) (mask : BitVec 8) (structures : Nat → Option (BitVec 64))
    (s : UfiState) :
    DpuError × UfiState :=
  let inMask := fun ci => if s.on mask ci then structures ci else none
  if s.mustWrite inMask then
    execCmd misread outcome
      (fun ci => (match structures ci with | some structure_ => .struct structure_ | none => .empty, true))
      (s.recordStructures inMask)
  else (.ok, s.recordStructures inMask)

/-- `UFI_exec_void_frame`, `UFI_exec_8bit_frame` and `UFI_exec_32bit_frame`. -/
def execFrame (outcomes : FrameOutcomes) (mask : BitVec 8) (structure_ : BitVec 64) (frame : Frame) :
    UfiState → DpuError × UfiState :=
  andThen .ok (execWriteStructure misread outcomes.struct mask structure_) fun s =>
    ciExecCmds misread outcomes.frame (ciPrepareMask mask (.frame structure_ frame) s)

/-- `UFI_exec_void_frames` with the frames in `rank->cmds`. -/
def execVoidFrames (outcomes : FrameOutcomes) (mask : BitVec 8) (structures : Nat → Option (BitVec 64)) :
    UfiState → DpuError × UfiState :=
  andThen .ok (execWriteStructures misread outcomes.struct mask structures) (ciExecCmds misread outcomes.frame)

/-- The loop `for_each_ci` that fills the entries of `rank->cmds` of a mask with frames. -/
def fillCmds (mask : BitVec 8) (structure_ : BitVec 64) (frames : Nat → Frame) (s : UfiState) : UfiState :=
  { s with
    cmds := fun ci => if s.on mask ci then .frame structure_ (frames ci) else s.cmds ci
    built := fun ci => s.on mask ci || s.built ci }

def UfiState.lacksSelection (s : UfiState) : Bool := selectionLacks s.rank.nrCis s.cache fun ci => s.cmds ci ≠ .empty

/-- `ci_exec_wait_mask_cmd` of `rank->cmds`. -/
def ciExecWaitMaskCmds (outcome : Outcome) (s : UfiState) : DpuError × UfiState :=
  if s.lacksSelection then (.internal, s) else ciExecCmds misread outcome s

/-- A frame of its own for each control interface of a mask, as in `ufi_wram_write`. -/
def execFrames (waitMask : Bool) (outcomes : FrameOutcomes) (mask : BitVec 8) (structure_ : BitVec 64)
    (frames : Nat → Frame) : UfiState → DpuError × UfiState :=
  andThen .ok (execWriteStructure misread outcomes.struct mask structure_) fun s =>
    let s := fillCmds mask structure_ frames s
    if waitMask then ciExecWaitMaskCmds misread outcomes.frame s else ciExecCmds misread outcomes.frame s

/-- The structure of the command that selects a target. -/
def selectStruct : SliceTarget → BitVec 64
  | .none => CI_EMPTY
  | .dpu _ => CI_SELECT_DPU_STRUCT
  | .all => CI_SELECT_ALL_STRUCT
  | .group _ => CI_SELECT_GROUP_STRUCT

/-- What a select wants on a control interface, and nothing where the select removes it from the mask. -/
abbrev Want := SliceInfo → SliceCache → Option SliceTarget

def UfiState.wanted (s : UfiState) (want : Want) (ci : Nat) : Option SliceTarget :=
  want (s.rank.sliceInfo ci) (s.cache ci)

/-- The target to select on a control interface of the mask that has another one recorded. -/
def UfiState.toSelect (s : UfiState) (want : Want) (mask : BitVec 8) (ci : Nat) : Option SliceTarget :=
  if s.on mask ci then (s.wanted want ci).filter fun target => (s.cache ci).sliceTarget ≠ target else none

/-- The mask without the control interfaces that a select removes. -/
def UfiState.keptMask (s : UfiState) (want : Want) (mask : BitVec 8) : BitVec 8 :=
  (List.range s.rank.nrCis).foldl
    (fun mask ci => if (s.wanted want ci).isNone then mask &&& ~~~ ciMaskOne ci else mask) mask

def UfiState.recordTargets (s : UfiState) (targets : Nat → Option SliceTarget) : UfiState :=
  { s with
    cache := fun ci =>
      match targets ci with
      | some target => { s.cache ci with sliceTarget := target }
      | none => s.cache ci }

/-- Some control interface gets another target. -/
def UfiState.doSelect (s : UfiState) (want : Want) (mask : BitVec 8) : Bool :=
  (List.range s.rank.nrCis).any fun ci => (s.toSelect want mask ci).isSome

/-- A select with a frame of its own for each control interface. -/
def selectEach (want : Want) (outcomes : FrameOutcomes) (mask : BitVec 8) (s : UfiState) : DpuError × UfiState :=
  let targets := s.toSelect want mask
  let filled : UfiState :=
    { s.recordTargets targets with
      cmds := fun ci =>
        match targets ci with
        | some target => .frame (selectStruct target) (.select target)
        | none => s.cmds ci
      built := fun ci => (targets ci).isSome || s.built ci }
  if s.doSelect want mask then
    execVoidFrames misread outcomes (s.keptMask want mask) (fun ci => (targets ci).map selectStruct) filled
  else (.ok, filled)

/-- A select with one target for all control interfaces that it keeps. -/
def selectOne (target : SliceTarget) (keeps : SliceInfo → SliceCache → Bool) (outcomes : FrameOutcomes)
    (mask : BitVec 8) (s : UfiState) : DpuError × UfiState :=
  let want : Want := fun info cache => if keeps info cache then some target else none
  let recorded := s.recordTargets (s.toSelect want mask)
  if s.doSelect want mask then
    execFrame misread outcomes (s.keptMask want mask) (selectStruct target) (.select target) recorded
  else (.ok, recorded)

/-- A select that does not look at the recorded target. -/
def selectUncached (target : SliceTarget) (outcomes : FrameOutcomes) (mask : BitVec 8) (s : UfiState) :
    DpuError × UfiState :=
  execFrame misread outcomes mask (selectStruct target) (.select target)
    (s.recordTargets (s.onMask mask target))

def wantAll : Want := fun info cache =>
  if info.allDpusAreEnabled then some .all
  else if cache.sliceTarget = .group DPU_ENABLED_GROUP ∨ info.enabledDpus ≠ 0#32 then
    some (.group DPU_ENABLED_GROUP)
  else none

def wantAllEvenDisabled : Want := fun info _ =>
  if info.enabledDpus ≠ 0#32 then some .all else none

def groupNonempty (group : Nat) : SliceInfo → SliceCache → Bool := fun _ cache => cache.dpusPerGroup group ≠ 0#8

def dpuEnabled (dpu : Nat) : SliceInfo → SliceCache → Bool := fun info _ => info.enabledDpus &&& 1#32 <<< dpu ≠ 0#32

def anyEnabled : SliceInfo → SliceCache → Bool := fun info _ => info.enabledDpus ≠ 0#32

def ufiSelectAll := selectEach misread wantAll

def ufiSelectAllUncached := selectUncached misread .all

def ufiSelectAllEvenDisabled := selectEach misread wantAllEvenDisabled

def ufiSelectGroup (group : Nat) := selectOne misread (.group group) (groupNonempty group)

def ufiSelectGroupUncached (group : Nat) := selectUncached misread (.group group)

def ufiSelectDpu (dpu : Nat) := selectOne misread (.dpu dpu) (dpuEnabled dpu)

def ufiSelectDpuUncached (dpu : Nat) := selectUncached misread (.dpu dpu)

def ufiSelectDpuEvenDisabled (dpu : Nat) := selectOne misread (.dpu dpu) anyEnabled

/-- The groups of a control interface once its selected DPUs are in a group. -/
def SliceCache.regroup (cache : SliceCache) (dpuMask : BitVec 8) (group : Nat) : SliceCache :=
  { cache with
    dpusPerGroup := fun eachGroup =>
      if eachGroup = group then cache.dpusPerGroup eachGroup &&& ~~~ dpuMask ||| dpuMask
      else cache.dpusPerGroup eachGroup &&& ~~~ dpuMask }

/-- One turn of the loop of `ufi_write_group`. -/
def writeGroupTurn (group ci : Nat) (s : UfiState) : DpuError × UfiState :=
  match ciFillSelectedDpuMask s.rank.nrDpusPerCi (s.cache ci).toSliceSelection with
  | some dpuMask => (.ok, { s with cache := Function.update s.cache ci ((s.cache ci).regroup dpuMask group) })
  | none => (.internal, s)

def ufiWriteGroup (group : Nat) (outcomes : FrameOutcomes) (mask : BitVec 8) (s : UfiState) : DpuError × UfiState :=
  andThen .ok (loop .ok (writeGroupTurn group) ((List.range s.rank.nrCis).filter fun ci => s.on mask ci))
    (execFrame misread outcomes mask CI_WRITE_GROUP_STRUCT (.writeGroup group)) s

end Operations

end Upmem.Ufi
