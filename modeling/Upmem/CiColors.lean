import Upmem.MuxCoherence
import Upmem.UfiRuns

namespace Upmem.CiColors
open Ci Ufi StatusChain Transitions

/-- A word for a control interface: one of the commands of a frame, a command that needs
no structure, a software reset, or a NOP that shows a result. -/
inductive Word
  | command (command : Command)
  | direct (word : BitVec 64)
  | softwareReset (word : BitVec 64)
  | nop (result : BitVec 32)
  deriving DecidableEq

/-- `CI_EMPTY`. -/
def Word.empty : Word := .command .empty

/-- A control interface with its color, which it shows as a byte. -/
structure ColoredCi extends CiHardware where
  color : Bool

/-- A command changes the color, also one that is not understood. A reset leaves the
structure register, since its value stays recorded over a reset. -/
def ColoredCi.execute (misread : Misread) (ci : ColoredCi) : Word → ColoredCi
  | .command command =>
    ⟨ci.toCiHardware.execute misread command, if command = .empty then ci.color else !ci.color⟩
  | .direct _ => { ci with color := !ci.color }
  | .softwareReset _ => ⟨⟨ci.loaded, .none, fun _ => 0⟩, false⟩
  | .nop _ => ci

/-- What is recorded of a control interface of the debuggee. -/
structure DebugSliceInfo where
  structureValue : BitVec 64
  sliceTarget : SliceTarget

/-- `rank->debug`. -/
structure DebugInfo where
  color : BitVec 8
  result : Nat → BitVec 32
  sliceInfo : Nat → DebugSliceInfo

/-- A rank with what the library keeps of its control interfaces. -/
structure ColorState where
  rank : Rank
  cache : Nat → SliceCache
  cmds : Nat → Word
  color : BitVec 8
  debug : DebugInfo
  hardware : Nat → ColoredCi

/-- `compute_ci_mask`. -/
def computeCiMask (nrCis : Nat) (commands : Nat → Word) : BitVec 8 :=
  (List.range nrCis).foldl (fun mask ci => if commands ci ≠ .empty then mask ||| ciMaskOne ci else mask) 0#8

def ColorState.on (s : ColorState) (mask : BitVec 8) (ci : Nat) : Bool := ciMaskOn s.rank.nrCis mask ci

section Operations
variable (misread : Misread)

/-- `ci_commit_commands`: the control interfaces that are reached execute their words. -/
def ColorState.commit (reached : Nat → Bool) (commands : Nat → Word) (s : ColorState) : ColorState :=
  { s with
    hardware := fun ci =>
      if ci < s.rank.nrCis ∧ reached ci = true then (s.hardware ci).execute misread (commands ci)
        else s.hardware ci }

/-- `exec_cmd`, and `ci_exec_byte_discovery`: the color is inverted before the commit. -/
def execCmd (outcome : Outcome) (commands : Nat → Word) (s : ColorState) : DpuError × ColorState :=
  (outcome.status,
    { s with color := s.color ^^^ computeCiMask s.rank.nrCis commands }.commit misread outcome.reached commands)

def ciPrepareMask (mask : BitVec 8) (data : Word) (s : ColorState) : ColorState :=
  { s with cmds := fun ci => if mask.getLsbD ci then data else .empty }

def ciExecCmds (outcome : Outcome) (s : ColorState) : DpuError × ColorState := execCmd misread outcome s.cmds s

def ColorState.lacksSelection (s : ColorState) : Bool :=
  selectionLacks s.rank.nrCis s.cache fun ci => s.cmds ci ≠ .empty

def ciExecWaitMaskCmds (outcome : Outcome) (s : ColorState) : DpuError × ColorState :=
  if s.lacksSelection then (.internal, s) else ciExecCmds misread outcome s

/-- What `ci_exec_reset_cmd` resets of the colors, the selections and the groups. -/
def ColorState.clear (s : ColorState) (resetMask : BitVec 8) : ColorState :=
  { s with
    color := s.color &&& ~~~resetMask
    cache := fun ci =>
      { s.cache ci with
        sliceTarget := .none
        dpusPerGroup := fun group => if group = 0 then dpuMaskAll s.rank.nrDpusPerCi else 0#8 } }

/-- `ci_exec_reset_cmd`. -/
def ciExecResetCmd (outcome : Outcome) (s : ColorState) : DpuError × ColorState :=
  andThen .ok (ciExecCmds misread outcome) (fun t => (.ok, t.clear (computeCiMask s.rank.nrCis s.cmds))) s

def ColorState.recordStructures (s : ColorState) (structures : Nat → Option (BitVec 64)) : ColorState :=
  { s with cache := withStructures s.cache structures }

def ColorState.mustWrite (s : ColorState) (structures : Nat → Option (BitVec 64)) : Bool :=
  structuresDiffer s.rank.nrCis s.cache structures

/-- The structure for the control interfaces of a mask. -/
def ColorState.onMask (s : ColorState) (mask : BitVec 8) (structure_ : BitVec 64) (ci : Nat) : Option (BitVec 64) :=
  if s.on mask ci then some structure_ else none

/-- `UFI_exec_write_structure`. -/
def execWriteStructure (outcome : Outcome) (mask : BitVec 8) (structure_ : BitVec 64) (s : ColorState) :
    DpuError × ColorState :=
  let structures := s.onMask mask structure_
  if s.mustWrite structures then
    ciExecCmds misread outcome (ciPrepareMask mask (.command (.struct structure_)) (s.recordStructures structures))
  else (.ok, s.recordStructures structures)

/-- `UFI_exec_write_structures`, where no structure stands for `CI_EMPTY`. -/
def execWriteStructures (outcome : Outcome) (mask : BitVec 8) (structures : Nat → Option (BitVec 64))
    (s : ColorState) :
    DpuError × ColorState :=
  let inMask := fun ci => if s.on mask ci then structures ci else none
  if s.mustWrite inMask then
    execCmd misread outcome
      (fun ci => match structures ci with | some structure_ => .command (.struct structure_) | none => .empty)
      (s.recordStructures inMask)
  else (.ok, s.recordStructures inMask)

/-- `UFI_exec_void_frame`, `UFI_exec_8bit_frame` and `UFI_exec_32bit_frame`. -/
def execFrame (outcomes : FrameOutcomes) (mask : BitVec 8) (structure_ : BitVec 64) (frame : Frame) :
    ColorState → DpuError × ColorState :=
  andThen .ok (execWriteStructure misread outcomes.struct mask structure_) fun s =>
    ciExecCmds misread outcomes.frame (ciPrepareMask mask (.command (.frame structure_ frame)) s)

/-- A frame of its own for each control interface of a mask. -/
def execFrames (waitMask : Bool) (outcomes : FrameOutcomes) (mask : BitVec 8) (structure_ : BitVec 64)
    (frames : Nat → Frame) : ColorState → DpuError × ColorState :=
  andThen .ok (execWriteStructure misread outcomes.struct mask structure_) fun s =>
    let s :=
      { s with cmds := fun ci => if s.on mask ci then .command (.frame structure_ (frames ci)) else s.cmds ci }
    if waitMask then ciExecWaitMaskCmds misread outcomes.frame s else ciExecCmds misread outcomes.frame s

/-- A target that a select can have. -/
abbrev Selection := { target : SliceTarget // target ≠ .none }

/-- What `ufi_select_all` and `ufi_select_all_even_disabled` send for the targets that they select on a mask. -/
def execSelects (outcomes : FrameOutcomes) (mask : BitVec 8) (targets : Nat → Option Selection) (s : ColorState) :
    DpuError × ColorState :=
  let targets := fun ci => if s.on mask ci then targets ci else none
  let filled : ColorState :=
    { s with
      cmds := fun ci =>
        match targets ci with
        | some target => .command (.frame (selectStruct target) (.select target))
        | none => s.cmds ci }
  andThen .ok (execWriteStructures misread outcomes.struct mask fun ci => (targets ci).map (selectStruct ·.1))
    (ciExecCmds misread outcomes.frame) filled

/-- A command that needs no structure, such as `ufi_identity`, `ufi_thermal_config`, `ufi_bit_config` and
`ufi_byte_order` send it. -/
def execDirect (outcome : Outcome) (mask : BitVec 8) (word : BitVec 64) (s : ColorState) : DpuError × ColorState :=
  ciExecCmds misread outcome (ciPrepareMask mask (.direct word) s)

def ufiSoftReset (outcome : Outcome) (mask : BitVec 8) (word : BitVec 64) (s : ColorState) :
    DpuError × ColorState :=
  ciExecResetCmd misread outcome (ciPrepareMask mask (.softwareReset word) s)

/-- What the `ufi_select_*` functions and `ufi_write_group` record before they send a frame. -/
def ColorState.recordSelections (s : ColorState) (change : Nat → SliceSelection → SliceSelection) : ColorState :=
  { s with cache := fun ci => { s.cache ci with toSliceSelection := change ci (s.cache ci).toSliceSelection } }

/-- The parts of which the operations are made. -/
inductive Turn
  | record (change : Nat → SliceSelection → SliceSelection)
  | frame (structure_ : Structure) (frame : Frame)
  | frames (waitMask : Bool) (structure_ : Structure) (frames : Nat → Frame)
  | selects (targets : Nat → Option Selection)
  | direct (word : BitVec 64)
  | softReset (word : BitVec 64)

structure TurnAction where
  turn : Turn
  mask : BitVec 8
  outcomes : FrameOutcomes

def TurnAction.exec (action : TurnAction) : ColorState → DpuError × ColorState :=
  match action.turn with
  | .record change => fun s => (.ok, s.recordSelections change)
  | .frame structure_ frame => execFrame misread action.outcomes action.mask structure_ frame
  | .frames waitMask structure_ frames => execFrames misread waitMask action.outcomes action.mask structure_ frames
  | .selects targets => execSelects misread action.outcomes action.mask targets
  | .direct word => execDirect misread action.outcomes.frame action.mask word
  | .softReset word => ufiSoftReset misread action.outcomes.frame action.mask word

/-- A turn of an operation, which may also fail. -/
def turnStep (s : ColorState) (action : TurnAction) (t : ColorState) : Prop := t = (action.exec misread s).2

end Operations

/-- The turn leaves entries of `rank->cmds` as they are and sends them. -/
def Turn.Fills : Turn → Prop
  | .frames .. | .selects _ => True
  | _ => False

/-- The control interfaces execute what is sent to them, whatever is reported. A reset
is also waited for, and is not sent again with what another operation fills in. -/
structure Executed (s : ColorState) (action : TurnAction) : Prop where
  struct : ∀ ci, action.outcomes.struct.reached ci = true
  frame : ∀ ci, action.outcomes.frame.reached ci = true
  reset : ∀ word, action.turn = .softReset word → action.outcomes.frame.status = .ok
  leftover : action.turn.Fills → ∀ ci < s.rank.nrCis, ∀ word, s.cmds ci ≠ .softwareReset word

/-- A word that finds its structure loaded, if it is a structure or needs one. -/
def ColoredCi.Latches (ci : ColoredCi) : Word → Prop
  | .command (.struct value) => ci.loaded = value
  | .command (.frame structure_ _) => ci.loaded = structure_
  | .nop _ => False
  | _ => True

/-- The recorded color of a control interface is not its color. -/
def ColorState.differs (s : ColorState) (ci : Nat) : Bool := s.color.getLsbD ci ^^ (s.hardware ci).color

/-- The structure registers hold what is recorded for them. -/
def ColorState.Known (s : ColorState) : Prop :=
  ∀ ci < s.rank.nrCis, StructureKnown (s.cache ci) (s.hardware ci).toCiHardware

def ColorState.Latches (s : ColorState) : Prop := ∀ ci < s.rank.nrCis, (s.hardware ci).Latches (s.cmds ci)

variable {misread : Misread} {outcome : Outcome} {outcomes : FrameOutcomes} {s t : ColorState} {mask : BitVec 8}
  {commands : Nat → Word}

/-- A mask that a loop over the control interfaces collects. -/
theorem foldl_ciMaskOne_getLsbD (P : Nat → Prop) [DecidablePred P] {nrCis ci : Nat} (small : nrCis ≤ 8)
    (inside : ci < nrCis) :
    ((List.range nrCis).foldl (fun mask ci => if P ci then mask ||| ciMaskOne ci else mask) 0#8).getLsbD ci =
      decide (P ci) := by
  have collected := @Mux.foldl_maskOne_getLsbD (fun ci => decide (P ci)) nrCis ci (inside.trans_le small)
  simpa only [ciMaskOne, decide_eq_true_eq, decide_eq_true inside, Bool.true_and] using collected

theorem computeCiMask_getLsbD {nrCis ci : Nat} (small : nrCis ≤ 8) (inside : ci < nrCis) :
    (computeCiMask nrCis commands).getLsbD ci = decide (commands ci ≠ .empty) :=
  foldl_ciMaskOne_getLsbD _ small inside

theorem ColorState.nrCis_le (s : ColorState) : s.rank.nrCis ≤ 8 := s.rank.description.topology.cis_le

/-- A word that changes the color unless it is empty. -/
def Word.Plain : Word → Prop
  | .softwareReset _ | .nop _ => False
  | _ => True

theorem ColoredCi.execute_color {ci : ColoredCi} {word : Word} (plain : word.Plain) :
    (ci.execute misread word).color = (ci.color ^^ decide (word ≠ .empty)) := by
  cases word with
  | command command => by_cases sent : command = .empty <;> simp [ColoredCi.execute, Word.empty, sent]
  | direct word => simp [ColoredCi.execute, Word.empty]
  | softwareReset | nop => exact plain.elim

/-- A word that latches leaves the structure register. -/
theorem ColoredCi.Latches.execute_loaded {ci : ColoredCi} {word : Word} (latches : ci.Latches word) :
    (ci.execute misread word).loaded = ci.loaded := by
  cases word with
  | command command =>
    cases command with
    | empty => rfl
    | struct value => exact latches.symm
    | frame structure_ frame =>
      have loaded : ci.loaded = structure_ := latches
      simp [ColoredCi.execute, CiHardware.execute, loaded]
  | direct | softwareReset => rfl
  | nop => exact latches.elim

theorem ColoredCi.Latches.of_loaded {ci other : ColoredCi} {word : Word} (latches : ci.Latches word)
    (same : other.loaded = ci.loaded) : other.Latches word := by
  cases word with
  | command command => cases command <;> simp_all [ColoredCi.Latches]
  | direct | softwareReset => trivial
  | nop => exact latches.elim

theorem ColoredCi.Latches.plain {ci : ColoredCi} {word : Word} (latches : ci.Latches word)
    (other : ∀ reset, word ≠ .softwareReset reset) : word.Plain := by
  cases word with
  | command | direct => trivial
  | softwareReset reset => exact absurd rfl (other reset)
  | nop => exact latches.elim

/-- What is recorded for a debugger stays, and so does every difference of colors. -/
structure Keeps (s t : ColorState) : Prop where
  rank : t.rank = s.rank
  debug : t.debug = s.debug
  differs : ∀ ci < s.rank.nrCis, t.differs ci = s.differs ci

theorem Keeps.refl (s : ColorState) : Keeps s s := ⟨rfl, rfl, fun _ _ => rfl⟩

theorem Keeps.trans {u : ColorState} (first : Keeps s t) (second : Keeps t u) : Keeps s u :=
  ⟨second.rank.trans first.rank, second.debug.trans first.debug, fun ci inside =>
    (second.differs ci (first.rank ▸ inside)).trans (first.differs ci inside)⟩

theorem execCmd_color {ci : Nat} (inside : ci < s.rank.nrCis) :
    (execCmd misread outcome commands s).2.color.getLsbD ci =
      (s.color.getLsbD ci ^^ decide (commands ci ≠ .empty)) := by
  rw [← computeCiMask_getLsbD s.nrCis_le inside, ← BitVec.getLsbD_xor]
  rfl

section Commands
variable (all : ∀ ci, outcome.reached ci = true)
include all

theorem execCmd_hardware {ci : Nat} (inside : ci < s.rank.nrCis) :
    (execCmd misread outcome commands s).2.hardware ci = (s.hardware ci).execute misread (commands ci) :=
  if_pos ⟨inside, all ci⟩

theorem execCmd_keeps (plain : ∀ ci < s.rank.nrCis, (commands ci).Plain) :
    Keeps s (execCmd misread outcome commands s).2 := by
  refine ⟨rfl, rfl, fun ci inside => ?_⟩
  rw [ColorState.differs, execCmd_color inside, execCmd_hardware all inside,
    ColoredCi.execute_color (plain ci inside), ColorState.differs]
  cases s.color.getLsbD ci <;> cases (s.hardware ci).color <;> cases decide (commands ci ≠ .empty) <;> rfl

/-- Commands that latch are executed. -/
theorem ciExecCmds_steady (known : s.Known) (latches : s.Latches)
    (other : ∀ ci < s.rank.nrCis, ∀ reset, s.cmds ci ≠ .softwareReset reset) :
    Keeps s (ciExecCmds misread outcome s).2 ∧ (ciExecCmds misread outcome s).2.Known ∧
      (ciExecCmds misread outcome s).2.Latches := by
  have loaded (ci : Nat) (inside : ci < s.rank.nrCis) :
      ((ciExecCmds misread outcome s).2.hardware ci).loaded = (s.hardware ci).loaded := by
    rw [ciExecCmds, execCmd_hardware all inside, (latches ci inside).execute_loaded]
  refine ⟨execCmd_keeps all fun ci inside => (latches ci inside).plain (other ci inside), fun ci inside => ?_,
    fun ci inside => (latches ci inside).of_loaded (loaded ci inside)⟩
  exact (known ci inside).imp_right (loaded ci inside).trans

end Commands

/-- The structures are loaded and recorded. -/
structure Wrote (structures : Nat → Option (BitVec 64)) (s t : ColorState) : Prop where
  keeps : Keeps s t
  cache : ∀ ci, t.cache ci = match structures ci with
    | some structure_ => (s.cache ci).withStructure structure_
    | none => s.cache ci
  hardware : ∀ ci < s.rank.nrCis, (t.hardware ci).toCiHardware = match structures ci with
    | some structure_ => (s.hardware ci).toCiHardware.load structure_
    | none => (s.hardware ci).toCiHardware

variable {structures : Nat → Option (BitVec 64)} {structure_ : BitVec 64}

theorem Wrote.known (wrote : Wrote structures s t) (known : s.Known) : t.Known := by
  intro ci inside
  rw [wrote.keeps.rank] at inside
  rw [wrote.cache, wrote.hardware ci inside]
  cases structures ci with
  | none => exact known ci inside
  | some structure_ => exact .inr rfl

theorem Wrote.loaded (wrote : Wrote structures s t) {ci : Nat} (inside : ci < s.rank.nrCis)
    (given : structures ci = some structure_) : (t.hardware ci).loaded = structure_ := by
  rw [wrote.hardware ci inside, given]
  rfl

theorem Wrote.kept (wrote : Wrote structures s t) {ci : Nat} (inside : ci < s.rank.nrCis)
    (other : structures ci = none) :
    (t.hardware ci).loaded = (s.hardware ci).loaded := by
  rw [wrote.hardware ci inside, other]

/-- A structure that is recorded is not written again. -/
theorem recordStructures_wrote (known : s.Known)
    (nonempty : ∀ ci structure_, structures ci = some structure_ → structure_ ≠ CI_EMPTY)
    (recorded : s.mustWrite structures = false) : Wrote structures s (s.recordStructures structures) := by
  refine ⟨⟨rfl, rfl, fun _ _ => rfl⟩, fun _ => rfl, fun ci inside => ?_⟩
  cases given : structures ci with
  | none => rfl
  | some structure_ =>
    have same : (s.cache ci).structureValue = structure_ :=
      structuresDiffer_eq_false.mp recorded ci inside structure_ given
    rcases known ci inside with never | loaded
    · exact absurd (same.symm.trans never) (nonempty ci structure_ given)
    · exact (CiHardware.load_same (loaded.trans same)).symm

/-- Structures that are sent are loaded. -/
theorem execCmd_wrote (all : ∀ ci, outcome.reached ci = true)
    (words : ∀ ci < s.rank.nrCis, commands ci = match structures ci with
      | some structure_ => .command (.struct structure_)
      | none => .empty) :
    Wrote structures s (execCmd misread outcome commands (s.recordStructures structures)).2 := by
  have plain (ci : Nat) (inside : ci < s.rank.nrCis) : (commands ci).Plain := by
    rw [words ci inside]
    cases structures ci <;> trivial
  have recorded : Keeps s (s.recordStructures structures) := ⟨rfl, rfl, fun _ _ => rfl⟩
  refine ⟨recorded.trans (execCmd_keeps all plain), fun _ => rfl, fun ci inside => ?_⟩
  have executed : (execCmd misread outcome commands (s.recordStructures structures)).2.hardware ci =
      (s.hardware ci).execute misread (commands ci) := execCmd_hardware all inside
  rw [executed, words ci inside]
  cases structures ci <;> rfl

theorem onMask_some {ci : Nat} {other : BitVec 64} (given : s.onMask mask structure_ ci = some other) :
    s.on mask ci = true ∧ structure_ = other := by
  unfold ColorState.onMask at given
  split_ifs at given with on
  exact ⟨on, Option.some.inj given⟩

theorem on_iff {ci : Nat} (inside : ci < s.rank.nrCis) : s.on mask ci = mask.getLsbD ci := by
  rw [ColorState.on, ciMaskOn, decide_eq_true inside, Bool.true_and]

/-- The words of a mask after `ci_prepare_mask`, where nothing is left of other words. -/
theorem ciPrepareMask_cmds {ci : Nat} (inside : ci < s.rank.nrCis) (data : Word) :
    (ciPrepareMask mask data s).cmds ci = if s.on mask ci then data else .empty := by
  rw [on_iff inside]
  rfl

/-- The entries that are left of `rank->cmds` hold no reset. -/
def ColorState.NoReset (s : ColorState) : Prop := ∀ ci < s.rank.nrCis, ∀ word, s.cmds ci ≠ .softwareReset word

theorem ciPrepareMask_noReset {data : Word} (other : ∀ word, data ≠ .softwareReset word) :
    (ciPrepareMask mask data s).NoReset := by
  intro ci _ word
  change (if mask.getLsbD ci then data else .empty) ≠ _
  split_ifs
  · exact other word
  · exact Word.noConfusion

/-- What the write of a structure does where it reaches the control interfaces. -/
structure WroteOne (mask : BitVec 8) (structure_ : BitVec 64) (s t : ColorState) : Prop
    extends Wrote (s.onMask mask structure_) s t where
  latches : s.Latches → t.Latches
  noReset : s.NoReset → t.NoReset

theorem execWriteStructure_wrote (misread : Misread) (mask : BitVec 8)
    (all : s.mustWrite (s.onMask mask structure_) = true → ∀ ci, outcome.reached ci = true) (known : s.Known)
    (nonempty : structure_ ≠ CI_EMPTY) :
    WroteOne mask structure_ s (execWriteStructure misread outcome mask structure_ s).2 := by
  rw [execWriteStructure]
  by_cases must : s.mustWrite (s.onMask mask structure_) = true
  · have words (ci : Nat) (inside : ci < s.rank.nrCis) :
        (ciPrepareMask mask (.command (.struct structure_))
          (s.recordStructures (s.onMask mask structure_))).cmds ci =
          match s.onMask mask structure_ ci with
          | some structure_ => .command (.struct structure_)
          | none => .empty := by
      refine (ciPrepareMask_cmds (s := s) inside _).trans ?_
      unfold ColorState.onMask
      split_ifs <;> rfl
    have sent : Wrote (s.onMask mask structure_) s (execCmd misread outcome
        (ciPrepareMask mask (.command (.struct structure_)) (s.recordStructures (s.onMask mask structure_))).cmds
        (s.recordStructures (s.onMask mask structure_))).2 := execCmd_wrote (all must) words
    have wrote : Wrote (s.onMask mask structure_) s (ciExecCmds misread outcome
        (ciPrepareMask mask (.command (.struct structure_)) (s.recordStructures (s.onMask mask structure_)))).2 :=
      ⟨⟨sent.keeps.rank, sent.keeps.debug, sent.keeps.differs⟩, sent.cache, sent.hardware⟩
    rw [if_pos must]
    refine ⟨wrote, fun _ ci inside => ?_, fun _ => ciPrepareMask_noReset (by simp)⟩
    have inside : ci < s.rank.nrCis := inside
    refine (words ci inside) ▸ ?_
    cases given : s.onMask mask structure_ ci with
    | none => trivial
    | some value => exact wrote.loaded inside given
  · have recorded : s.mustWrite (s.onMask mask structure_) = false := Bool.eq_false_iff.mpr must
    have wrote := recordStructures_wrote known (fun ci other given => (onMask_some given).2 ▸ nonempty) recorded
    rw [if_neg must]
    exact ⟨wrote, id, id⟩

/-- What the write of a structure for each control interface does where it reaches them. -/
theorem execWriteStructures_wrote (misread : Misread) (all : ∀ ci, outcome.reached ci = true) (known : s.Known)
    (onlyMask : ∀ ci, s.on mask ci = false → structures ci = none)
    (nonempty : ∀ ci structure_, structures ci = some structure_ → structure_ ≠ CI_EMPTY) :
    Wrote structures s (execWriteStructures misread outcome mask structures s).2 ∧
      (execWriteStructures misread outcome mask structures s).2.cmds = s.cmds := by
  have inMask : (fun ci => if s.on mask ci = true then structures ci else none) = structures := by
    funext ci
    split_ifs with on
    · rfl
    · exact (onlyMask ci (Bool.eq_false_iff.mpr on)).symm
  rw [execWriteStructures, inMask]
  split_ifs with must
  · exact ⟨execCmd_wrote all fun _ _ => rfl, rfl⟩
  · exact ⟨recordStructures_wrote known nonempty (Bool.eq_false_iff.mpr must), rfl⟩

/-- What a turn keeps whose commands are executed. -/
structure Steady (s t : ColorState) : Prop where
  keeps : Keeps s t
  known : t.Known
  latches : t.Latches

/-- New entries in `rank->cmds` that find their structures loaded. -/
theorem ciExecCmds_filled (all : ∀ ci, outcome.reached ci = true) (known : s.Known) (cmds : Nat → Word)
    (latches : ∀ ci < s.rank.nrCis, (s.hardware ci).Latches (cmds ci))
    (other : ∀ ci < s.rank.nrCis, ∀ reset, cmds ci ≠ .softwareReset reset) :
    Steady s (ciExecCmds misread outcome { s with cmds := cmds }).2 := by
  have filled : Keeps s { s with cmds := cmds } := ⟨rfl, rfl, fun _ _ => rfl⟩
  obtain ⟨keeps, after, latched⟩ :=
    @ciExecCmds_steady misread outcome { s with cmds := cmds } all known latches other
  exact ⟨filled.trans keeps, after, latched⟩

theorem Steady.after {u : ColorState} (steady : Steady t u) (before : Keeps s t) : Steady s u :=
  ⟨before.trans steady.keeps, steady.known, steady.latches⟩

/-- A frame on the control interfaces of a mask that its structure has been written to. -/
theorem sendFrame_steady (reached : ∀ ci, outcome.reached ci = true) (known : s.Known)
    (wrote : WroteOne mask structure_ s t)
    (frame : Frame) :
    Steady s (ciExecCmds misread outcome (ciPrepareMask mask (.command (.frame structure_ frame)) t)).2 := by
  refine (ciExecCmds_filled reached (wrote.known known) _ (fun ci inside => ?_) fun ci _ reset =>
    ?_).after wrote.keeps
  · have inside : ci < s.rank.nrCis := wrote.keeps.rank ▸ inside
    split_ifs with on
    · exact wrote.loaded inside (if_pos ((on_iff inside).trans on))
    · trivial
  · split_ifs <;> exact Word.noConfusion

section Turns
variable (struct : ∀ ci, outcomes.struct.reached ci = true) (reached : ∀ ci, outcomes.frame.reached ci = true)
include struct reached

theorem execFrame_steady (known : s.Known) (latches : s.Latches) (nonempty : structure_ ≠ CI_EMPTY)
    (frame : Frame) :
    Steady s (execFrame misread outcomes mask structure_ frame s).2 := by
  have wrote := execWriteStructure_wrote misread mask (fun _ => struct) known nonempty
  rw [execFrame, andThen]
  split_ifs
  · exact sendFrame_steady reached known wrote frame
  · exact ⟨wrote.keeps, wrote.known known, wrote.latches latches⟩

theorem execFrames_steady (known : s.Known) (latches : s.Latches) (left : s.NoReset)
    (nonempty : structure_ ≠ CI_EMPTY)
    (waitMask : Bool) (frames : Nat → Frame) :
    Steady s (execFrames misread waitMask outcomes mask structure_ frames s).2 := by
  have wrote := execWriteStructure_wrote misread mask (fun _ => struct) known nonempty
  have after := wrote.known known
  have latched := wrote.latches latches
  have clean := wrote.noReset left
  rw [execFrames, andThen]
  by_cases passed : (execWriteStructure misread outcomes.struct mask structure_ s).1 = .ok
  · rw [if_pos passed]
    generalize (execWriteStructure misread outcomes.struct mask structure_ s).2 = t at *
    have filled (ci : Nat) (inside : ci < t.rank.nrCis) : (t.hardware ci).Latches
        (if t.on mask ci = true then .command (.frame structure_ (frames ci)) else t.cmds ci) := by
      split_ifs with on
      · rw [ColorState.on, wrote.keeps.rank] at on
        exact wrote.loaded (wrote.keeps.rank ▸ inside) (if_pos on)
      · exact latched ci inside
    have other (ci : Nat) (inside : ci < t.rank.nrCis) (reset : BitVec 64) :
        (if t.on mask ci = true then Word.command (.frame structure_ (frames ci))
          else t.cmds ci) ≠ .softwareReset reset := by
      split_ifs
      · exact Word.noConfusion
      · exact clean ci inside reset
    have sent := (@ciExecCmds_filled misread outcomes.frame t reached after _ filled other).after wrote.keeps
    cases waitMask with
    | false => exact sent
    | true =>
      dsimp only
      rw [if_pos rfl, ciExecWaitMaskCmds]
      split_ifs
      · exact ⟨⟨wrote.keeps.rank, wrote.keeps.debug, wrote.keeps.differs⟩, after, filled⟩
      · exact sent
  · rw [if_neg passed]
    exact ⟨wrote.keeps, after, latched⟩

/-- New entries in `rank->cmds` for the control interfaces of a mask, whose structures are written at once. -/
theorem fillSelects_steady (known : s.Known) (latches : s.Latches) (left : s.NoReset)
    {sent : Nat → Option Selection}
    (onlyMask : ∀ ci, s.on mask ci = false → sent ci = none) {cmds : Nat → Word}
    (entries : ∀ ci, cmds ci = match sent ci with
      | some target => .command (.frame (selectStruct target) (.select target))
      | none => s.cmds ci) :
    Steady s
      (andThen .ok (execWriteStructures misread outcomes.struct mask fun ci => (sent ci).map (selectStruct ·.1))
      (ciExecCmds misread outcomes.frame) { s with cmds := cmds }).2 := by
  obtain ⟨wrote, same⟩ := @execWriteStructures_wrote outcomes.struct { s with cmds := cmds } mask
    (fun ci => (sent ci).map (selectStruct ·.1)) misread struct known (fun ci off => by rw [onlyMask ci off]; rfl)
    (fun ci value given => by
      obtain ⟨target, _, rfl⟩ := Option.map_eq_some_iff.mp given
      exact selectStruct_ne target.2)
  have filled : Keeps s { s with cmds := cmds } := ⟨rfl, rfl, fun _ _ => rfl⟩
  have after := wrote.known known
  rw [andThen]
  generalize execWriteStructures misread outcomes.struct mask (fun ci => (sent ci).map (selectStruct ·.1))
    { s with cmds := cmds } = written at *
  have same : written.2.cmds = cmds := same
  have latched (ci : Nat) (inside : ci < written.2.rank.nrCis) :
      (written.2.hardware ci).Latches (written.2.cmds ci) := by
    have inside : ci < s.rank.nrCis := wrote.keeps.rank ▸ inside
    rw [same, entries ci]
    cases given : sent ci with
    | none => exact (latches ci inside).of_loaded (wrote.kept inside (by simp [given]))
    | some target => exact wrote.loaded inside (by simp [given])
  have other (ci : Nat) (inside : ci < written.2.rank.nrCis) (reset : BitVec 64) :
      written.2.cmds ci ≠ .softwareReset reset := by
    rw [same, entries ci]
    cases sent ci with
    | none => exact left ci (wrote.keeps.rank ▸ inside) reset
    | some target => exact Word.noConfusion
  split_ifs
  · obtain ⟨keeps, knownAfter, latchedAfter⟩ :=
      @ciExecCmds_steady misread outcomes.frame written.2 reached after latched other
    exact ⟨filled.trans (wrote.keeps.trans keeps), knownAfter, latchedAfter⟩
  · exact ⟨filled.trans wrote.keeps, after, latched⟩

theorem execSelects_steady (known : s.Known) (latches : s.Latches) (left : s.NoReset)
    (targets : Nat → Option Selection) :
    Steady s (execSelects misread outcomes mask targets s).2 :=
  fillSelects_steady struct reached known latches left (fun _ off => if_neg (Bool.eq_false_iff.mp off)) fun _ => rfl

end Turns

section Sends
variable (all : ∀ ci, outcome.reached ci = true)
include all

theorem execDirect_steady (known : s.Known) (word : BitVec 64) :
    Steady s (execDirect misread outcome mask word s).2 := by
  refine ciExecCmds_filled all known _ (fun ci _ => ?_) fun ci _ reset => ?_
  · split_ifs <;> trivial
  · split_ifs <;> exact Word.noConfusion

end Sends

section SoftReset
variable (done : outcome.status = .ok) (word : BitVec 64)
include done

theorem ufiSoftReset_eq : (ufiSoftReset misread outcome mask word s).2 =
    (ciExecCmds misread outcome (ciPrepareMask mask (.softwareReset word) s)).2.clear
      (computeCiMask s.rank.nrCis (ciPrepareMask mask (.softwareReset word) s).cmds) := by
  have passed : (ciExecCmds misread outcome (ciPrepareMask mask (.softwareReset word) s)).1 = .ok := done
  rw [ufiSoftReset, ciExecResetCmd, andThen_ok passed]
  rfl

theorem ufiSoftReset_hardware {ci : Nat} (inside : ci < s.rank.nrCis) :
    (ufiSoftReset misread outcome mask word s).2.hardware ci =
      if mask.getLsbD ci = true then ⟨⟨(s.hardware ci).loaded, .none, fun _ => 0⟩, false⟩ else s.hardware ci := by
  rw [ufiSoftReset_eq done]
  refine (execCmd_hardware (s := ciPrepareMask mask (.softwareReset word) s)
    (outcome.all_reached done) inside).trans ?_
  change (s.hardware ci).execute misread (if mask.getLsbD ci = true then .softwareReset word else .empty) = _
  split_ifs <;> rfl

/-- The color is inverted for the commit and cleared after it. -/
theorem ufiSoftReset_color {ci : Nat} (inside : ci < s.rank.nrCis) :
    (ufiSoftReset misread outcome mask word s).2.color.getLsbD ci = (s.color.getLsbD ci && !mask.getLsbD ci) := by
  have color : (ufiSoftReset misread outcome mask word s).2.color =
      (s.color ^^^ computeCiMask s.rank.nrCis (ciPrepareMask mask (.softwareReset word) s).cmds) &&&
        ~~~computeCiMask s.rank.nrCis (ciPrepareMask mask (.softwareReset word) s).cmds := by
    rw [ufiSoftReset_eq done]
    rfl
  have sent : (computeCiMask s.rank.nrCis (ciPrepareMask mask (.softwareReset word) s).cmds).getLsbD ci =
      mask.getLsbD ci := by
    rw [computeCiMask_getLsbD s.nrCis_le inside]
    change decide ((if mask.getLsbD ci = true then .softwareReset word else .empty) ≠ Word.empty) = mask.getLsbD ci
    cases mask.getLsbD ci <;> simp [Word.empty]
  have small : ci < 8 := inside.trans_le s.nrCis_le
  rw [color, BitVec.getLsbD_and, BitVec.getLsbD_xor, BitVec.getLsbD_not, sent, decide_eq_true small]
  cases s.color.getLsbD ci <;> cases mask.getLsbD ci <;> rfl

/-- A reset clears the color on both sides, where it is sent. -/
theorem ufiSoftReset_steady (known : s.Known) (agree : ∀ ci < s.rank.nrCis, s.differs ci = false) :
    Steady s (ufiSoftReset misread outcome mask word s).2 := by
  have rank : (ufiSoftReset misread outcome mask word s).2.rank = s.rank := by
    rw [ufiSoftReset_eq done]
    rfl
  have debug : (ufiSoftReset misread outcome mask word s).2.debug = s.debug := by
    rw [ufiSoftReset_eq done]
    rfl
  refine ⟨⟨rank, debug, fun ci inside => ?_⟩, fun ci inside => ?_, fun ci inside => ?_⟩
  · have before := agree ci inside
    rw [ColorState.differs] at before
    rw [agree ci inside, ColorState.differs, ufiSoftReset_color done word inside,
      ufiSoftReset_hardware done word inside]
    cases mask.getLsbD ci with
    | false => simpa using before
    | true => simp
  · have inside : ci < s.rank.nrCis := rank ▸ inside
    have value : ((ufiSoftReset misread outcome mask word s).2.cache ci).structureValue =
        (s.cache ci).structureValue := by
      rw [ufiSoftReset_eq done]
      rfl
    rw [StructureKnown, value, ufiSoftReset_hardware done word inside]
    split_ifs <;> exact known ci inside
  · have entry : (ufiSoftReset misread outcome mask word s).2.cmds ci =
        if mask.getLsbD ci = true then .softwareReset word else .empty := by
      rw [ufiSoftReset_eq done]
      rfl
    rw [entry]
    split_ifs <;> trivial

end SoftReset

/-- A frame that succeeds is performed by the control interfaces of its mask. -/
theorem execFrame_ok {frame : Frame} (known : s.Known) (nonempty : structure_ ≠ CI_EMPTY)
    (passed : execFrame misread outcomes mask structure_ frame s = (.ok, t)) :
    Steady s t ∧ ∀ ci < s.rank.nrCis, (t.hardware ci).toCiHardware =
      if s.on mask ci = true then ((s.hardware ci).load structure_).perform frame
      else (s.hardware ci).toCiHardware := by
  obtain ⟨u, written, sent⟩ := andThen_inv passed
  have all (must : s.mustWrite (s.onMask mask structure_) = true) : ∀ ci, outcomes.struct.reached ci = true := by
    rw [execWriteStructure, if_pos must] at written
    exact outcomes.struct.all_reached (congrArg Prod.fst written)
  have wrote : WroteOne mask structure_ s u := by
    have wrote := execWriteStructure_wrote misread mask all known nonempty
    rwa [written] at wrote
  have reached : ∀ ci, outcomes.frame.reached ci = true := outcomes.frame.all_reached (congrArg Prod.fst sent)
  obtain rfl :
      (ciExecCmds misread outcomes.frame (ciPrepareMask mask (.command (.frame structure_ frame)) u)).2 = t :=
    congrArg Prod.snd sent
  refine ⟨sendFrame_steady reached known wrote frame, fun ci inside => ?_⟩
  have within : ci < u.rank.nrCis := wrote.keeps.rank.symm ▸ inside
  have executed :
    (ciExecCmds misread outcomes.frame (ciPrepareMask mask (.command (.frame structure_ frame)) u)).2.hardware ci =
      (u.hardware ci).execute misread (if u.on mask ci = true then .command (.frame structure_ frame)
        else .empty) := by
    rw [← ciPrepareMask_cmds within]
    exact execCmd_hardware reached within
  have hardware := wrote.hardware ci inside
  rw [executed, on_iff within, on_iff inside]
  rw [ColorState.onMask, on_iff inside] at hardware
  split_ifs at hardware ⊢ with on
  · have loaded : (u.hardware ci).loaded = structure_ := wrote.loaded inside (if_pos ((on_iff inside).trans on))
    exact (if_pos loaded).trans (congrArg (CiHardware.perform · frame) hardware)
  · exact hardware

/-- The colors that are recorded are those of the control interfaces, and nothing is assumed of a structure register
that it does not hold. -/
structure ColorState.InStep (s : ColorState) : Prop where
  agree : ∀ ci < s.rank.nrCis, s.differs ci = false
  known : s.Known
  latches : s.Latches

/-- A turn whose commands are executed keeps the colors, and what is recorded of the debuggee. -/
theorem turnStep_steady {action : TurnAction} (inStep : s.InStep) (executed : Executed s action)
    (taken : turnStep misread s action t) : Steady s t := by
  obtain ⟨turn, mask, outcomes⟩ := action
  obtain ⟨struct, frame, reset, leftover⟩ := executed
  subst taken
  cases turn with
  | record change => exact ⟨⟨rfl, rfl, fun _ _ => rfl⟩, inStep.known, inStep.latches⟩
  | frame structure_ word =>
    exact execFrame_steady struct frame inStep.known inStep.latches structure_.property word
  | frames waitMask structure_ words =>
    exact execFrames_steady struct frame inStep.known inStep.latches
      (leftover trivial) structure_.property waitMask words
  | selects targets => exact execSelects_steady struct frame inStep.known inStep.latches (leftover trivial) targets
  | direct word => exact execDirect_steady frame inStep.known word
  | softReset word => exact ufiSoftReset_steady (reset word rfl) word inStep.known inStep.agree

theorem Steady.inStep (steady : Steady s t) (inStep : s.InStep) : t.InStep := by
  refine ⟨fun ci inside => ?_, steady.known, steady.latches⟩
  have inside : ci < s.rank.nrCis := steady.keeps.rank ▸ inside
  exact (steady.keeps.differs ci inside).trans (inStep.agree ci inside)

/-- All along a run whose commands are executed the recorded colors are those of the control interfaces. -/
theorem run_steady {start : ColorState} {history : List (Transition ColorState TurnAction)}
    (run : Run (turnStep misread) start history s) (inStep : start.InStep)
    (executed : ∀ τ ∈ history, Executed τ.before τ.action) : s.InStep ∧ Keeps start s := by
  refine (run.guarded (I := fun _ => True) (P := fun s => s.InStep ∧ Keeps start s) trivial
    (fun _ _ _ _ _ => trivial)
    ⟨inStep, Keeps.refl start⟩ ?_ executed).1
  intro before action after _ holds taken good
  have steady := turnStep_steady holds.1 good taken
  exact ⟨steady.inStep holds.1, holds.2.trans steady.keeps⟩

end Upmem.CiColors
