import Upmem.Ufi

namespace Upmem.Ufi
open Ci StatusChain

@[simp] theorem CiHardware.execute_empty (misread : Misread) (hardware : CiHardware) :
    hardware.execute misread .empty = hardware := rfl

@[simp] theorem CiHardware.perform_other (hardware : CiHardware) (word : BitVec 64) :
    hardware.perform (.other word) = hardware := rfl

/-- A command that a control interface may execute once more without a change. -/
def CiHardware.Settled (hardware : CiHardware) : Command → Prop
  | .empty => True
  | .struct value => hardware.loaded = value
  | .frame structure_ frame => hardware.loaded = structure_ ∧ hardware.perform frame = hardware

theorem CiHardware.Settled.execute {hardware : CiHardware} {command : Command} (settled : hardware.Settled command)
    (misread : Misread) : hardware.execute misread command = hardware := by
  cases command with
  | empty => rfl
  | struct value =>
    obtain rfl : hardware.loaded = value := settled
    rfl
  | frame structure_ frame =>
    obtain ⟨loaded, same⟩ := settled
    simp [CiHardware.execute, loaded, same]

/-- Writing a group twice is writing it once. -/
theorem CiHardware.perform_twice (hardware : CiHardware) (frame : Frame) :
    (hardware.perform frame).perform frame = hardware.perform frame := by
  cases frame with
  | select target => rfl
  | other word => rfl
  | writeGroup group =>
    obtain ⟨loaded, selected, groups⟩ := hardware
    simp only [CiHardware.perform, CiHardware.mk.injEq, true_and]
    funext dpu
    cases selected with
    | group groupId => by_cases member : groups dpu = groupId <;> simp_all [CiHardware.Addressed]
    | dpu dpuId => by_cases member : dpu = dpuId <;> simp [CiHardware.Addressed, member]
    | _ => simp [CiHardware.Addressed]

@[simp] theorem CiHardware.perform_loaded (hardware : CiHardware) (frame : Frame) :
    (hardware.perform frame).loaded = hardware.loaded := by
  cases frame <;> rfl

/-- After it has been executed with its structure loaded a frame is settled. -/
theorem CiHardware.perform_settled {hardware : CiHardware} {structure_ : BitVec 64}
    (loaded : hardware.loaded = structure_)
    (frame : Frame) : (hardware.perform frame).Settled (.frame structure_ frame) :=
  ⟨by simp [loaded], hardware.perform_twice frame⟩

/-- The structure register holds what is recorded for it. -/
def StructureKnown (cache : SliceCache) (hardware : CiHardware) : Prop :=
  cache.structureValue = CI_EMPTY ∨ hardware.loaded = cache.structureValue

def CiHardware.load (hardware : CiHardware) (structure_ : BitVec 64) : CiHardware :=
  { hardware with loaded := structure_ }

section Execution
variable {misread : Misread} {outcome : Outcome} {outcomes : FrameOutcomes} {s t : UfiState} {mask : BitVec 8}
  {structure_ : BitVec 64} {structures : Nat → Option (BitVec 64)} {frames : Nat → Option (BitVec 64 × Frame)}

theorem CiHardware.perform_load (hardware : CiHardware) (frame : Frame) :
    (hardware.load structure_).perform frame = (hardware.perform frame).load structure_ := by
  cases frame <;> rfl

theorem CiHardware.load_same {hardware : CiHardware} (loaded : hardware.loaded = structure_) :
    hardware.load structure_ = hardware := by
  simp [CiHardware.load, ← loaded]

/-- The effect of the write of structures: each control interface that gets
one has it loaded and recorded, and the others are left as they are. -/
structure StructuresWritten (structures : Nat → Option (BitVec 64)) (s t : UfiState) : Prop where
  rank : t.rank = s.rank
  cache : ∀ ci, t.cache ci = match structures ci with
    | some structure_ => (s.cache ci).withStructure structure_
    | none => s.cache ci
  hardware : ∀ ci < s.rank.nrCis, t.hardware ci = match structures ci with
    | some structure_ => (s.hardware ci).load structure_
    | none => s.hardware ci
  executed : t.executed = s.executed

theorem structuresDiffer_eq_false {nrCis : Nat} {cache : Nat → SliceCache} :
    structuresDiffer nrCis cache structures = false ↔
      ∀ ci < nrCis, ∀ structure_, structures ci = some structure_ → (cache ci).structureValue = structure_ := by
  simp only [structuresDiffer, List.any_eq_false, List.mem_range]
  refine forall₂_congr fun ci _ => ?_
  cases structures ci <;> simp

/-- The structure registers hold what is recorded for them. -/
def UfiState.StructuresKnown (s : UfiState) : Prop :=
  ∀ ci < s.rank.nrCis, StructureKnown (s.cache ci) (s.hardware ci)

/-- A structure command reaches every control interface that has another structure loaded. -/
def UfiState.Loads (s : UfiState) (structures : Nat → Option (BitVec 64)) (outcome : Outcome) : Prop :=
  ∀ ci < s.rank.nrCis, ∀ structure_, structures ci = some structure_ →
    outcome.reached ci = true ∨ (s.hardware ci).loaded = structure_

/-- Without a write the structures that are wanted are the recorded ones. -/
theorem recordStructures_written (known : s.StructuresKnown)
    (nonempty : ∀ ci structure_, structures ci = some structure_ → structure_ ≠ CI_EMPTY)
    (recorded : s.mustWrite structures = false) :
    StructuresWritten structures s (s.recordStructures structures) where
  rank := rfl
  cache := fun _ => rfl
  hardware := fun ci inside => by
    cases given : structures ci with
    | none => rfl
    | some structure_ =>
      have same := structuresDiffer_eq_false.mp recorded ci inside structure_ given
      rcases known ci inside with never | loaded
      · exact absurd (same.symm.trans never) (nonempty ci structure_ given)
      · exact (CiHardware.load_same (loaded.trans same)).symm
  executed := rfl

/-- Structures that reach the control interfaces which need them are loaded. -/
theorem execCmd_written {commands : Nat → Command × Bool} (loads : s.Loads structures outcome)
    (words : ∀ ci < s.rank.nrCis, (commands ci).1 = match structures ci with
      | some structure_ => .struct structure_
      | none => .empty) :
    StructuresWritten structures s (execCmd misread outcome commands (s.recordStructures structures)).2 where
  rank := rfl
  cache := fun _ => rfl
  hardware := fun ci inside => by
    have inside' : ci < (s.recordStructures structures).rank.nrCis := inside
    have same : (s.recordStructures structures).hardware ci = s.hardware ci := rfl
    simp only [execCmd, inside', true_and, words ci inside, same]
    cases given : structures ci with
    | none => simp
    | some structure_ =>
      rcases loads ci inside structure_ given with reached | loaded
      · rw [if_pos reached]
        rfl
      · simp [CiHardware.execute, CiHardware.load, ← loaded]
  executed := by
    have none_executed : ∀ ci ∈ List.range s.rank.nrCis,
        (if outcome.reached ci then executedFrame (s.hardware ci) (commands ci).1 else none) = none := by
      intro ci member
      rw [words ci (List.mem_range.mp member)]
      cases structures ci <;> simp [executedFrame]
    simpa [execCmd, UfiState.recordStructures, List.filterMap_eq_nil_iff] using none_executed

theorem onMask_some {α : Type} {value other : α} {ci : Nat} (given : s.onMask mask value ci = some other) :
    other = value := by
  unfold UfiState.onMask at given
  split at given
  · exact (Option.some.inj given).symm
  · cases given

theorem execWriteStructure_recorded (recorded : s.mustWrite (s.onMask mask structure_) = false) :
    execWriteStructure misread outcome mask structure_ s = (.ok,
      s.recordStructures (s.onMask mask structure_)) := by
  simp [execWriteStructure, recorded]

theorem execWriteStructure_sent (must : s.mustWrite (s.onMask mask structure_) = true) :
    execWriteStructure misread outcome mask structure_ s = ciExecCmds misread outcome
      (ciPrepareMask mask (.struct structure_) (s.recordStructures (s.onMask mask structure_))) := by
  simp [execWriteStructure, must]

theorem execWriteStructure_written (misread : Misread) (mask : BitVec 8) (known : s.StructuresKnown)
    (nonempty : structure_ ≠ CI_EMPTY)
    (loads : s.mustWrite (s.onMask mask structure_) = true → s.Loads (s.onMask mask structure_) outcome) :
    StructuresWritten (s.onMask mask structure_) s (execWriteStructure misread outcome mask structure_ s).2 := by
  cases must : s.mustWrite (s.onMask mask structure_) with
  | false =>
    rw [execWriteStructure_recorded must]
    exact recordStructures_written known (fun ci _ given => onMask_some given ▸ nonempty) must
  | true =>
    have words : ∀ ci < s.rank.nrCis, (if mask.getLsbD ci then Command.struct structure_ else .empty) =
        match s.onMask mask structure_ ci with
        | some structure_ => .struct structure_
        | none => .empty := by
      intro ci inside
      cases given : mask.getLsbD ci <;> simp [UfiState.onMask, UfiState.on, ciMaskOn, inside, given]
    have written : StructuresWritten (s.onMask mask structure_) s (execCmd misread outcome
        (fun ci => (if mask.getLsbD ci then Command.struct structure_ else .empty, true))
        (s.recordStructures (s.onMask mask structure_))).2 := execCmd_written (loads must) words
    rw [execWriteStructure_sent must]
    exact ⟨written.rank, written.cache, written.hardware, written.executed⟩

/-- A structure that fails is left in the entries of its mask. -/
theorem execWriteStructure_failed_cmds (failed : (execWriteStructure misread outcome mask structure_ s).1 ≠ .ok)
    (ci : Nat) :
    (execWriteStructure misread outcome mask structure_ s).2.cmds ci =
      if mask.getLsbD ci then .struct structure_ else .empty := by
  cases must : s.mustWrite (s.onMask mask structure_) with
  | false => simp [execWriteStructure_recorded must] at failed
  | true =>
    rw [execWriteStructure_sent must]
    rfl

theorem execWriteStructure_status : (execWriteStructure misread outcome mask structure_ s).1 =
    if s.mustWrite (s.onMask mask structure_) then outcome.status else .ok := by
  cases must : s.mustWrite (s.onMask mask structure_) with
  | false => simp [execWriteStructure_recorded must]
  | true =>
    rw [execWriteStructure_sent must]
    rfl

/-- Structures for no other control interfaces than those of a mask. -/
theorem structures_inMask (covers : ∀ ci, structures ci ≠ none → s.on mask ci = true) :
    (fun ci => if s.on mask ci then structures ci else none) = structures := by
  funext ci
  by_cases given : structures ci = none
  · simp [given]
  · simp [covers ci given]

/-- Structures that differ between the control interfaces of a mask. They are sent from a buffer of their own. -/
theorem execWriteStructures_written (misread : Misread) (known : s.StructuresKnown)
    (nonempty : ∀ ci structure_, structures ci = some structure_ → structure_ ≠ CI_EMPTY)
    (covers : ∀ ci, structures ci ≠ none → s.on mask ci = true)
    (succeeds : s.mustWrite structures = true → outcome.status = .ok) :
    (execWriteStructures misread outcome mask structures s).1 = .ok ∧
      StructuresWritten structures s (execWriteStructures misread outcome mask structures s).2 ∧
      (execWriteStructures misread outcome mask structures s).2.cmds = s.cmds := by
  simp only [execWriteStructures, structures_inMask covers]
  cases must : s.mustWrite structures with
  | false => exact ⟨rfl, recordStructures_written known nonempty must, rfl⟩
  | true =>
    have loads : s.Loads structures outcome := fun ci _ _ _ => .inl (outcome.all_reached (succeeds must) ci)
    exact ⟨succeeds must, execCmd_written loads fun _ _ => rfl, rfl⟩

/-- Every executed frame found its own structure loaded. -/
def UfiState.Matched (s : UfiState) : Prop :=
  ∀ entry ∈ s.executed, entry.1 = entry.2

theorem execCmd_matched {commands : Nat → Command × Bool} (matched : s.Matched)
    (settled : ∀ ci < s.rank.nrCis, ∀ structure_ frame, (commands ci).1 = .frame structure_ frame →
      (s.hardware ci).loaded = structure_) : (execCmd misread outcome commands s).2.Matched := by
  intro entry member
  simp only [execCmd, List.mem_append, List.mem_filterMap, List.mem_range] at member
  rcases member with earlier | ⟨ci, inside, recorded⟩
  · exact matched entry earlier
  · split at recorded
    · cases command : (commands ci).1 with
      | frame structure_ frame =>
        rw [command] at recorded
        obtain rfl := Option.some.inj recorded
        exact (settled ci inside structure_ frame command).symm
      | _ => simp [command, executedFrame] at recorded
    · cases recorded

/-- The commands left in `rank->cmds` may be sent once more. -/
def UfiState.Settled (s : UfiState) : Prop :=
  ∀ ci < s.rank.nrCis, (s.hardware ci).Settled (s.cmds ci)

/-- The effect of frames on the control interfaces that get one. -/
structure FrameDone (frames : Nat → Option (BitVec 64 × Frame)) (s t : UfiState) : Prop where
  rank : t.rank = s.rank
  cache : ∀ ci, t.cache ci = match frames ci with
    | some (structure_, _) => (s.cache ci).withStructure structure_
    | none => s.cache ci
  hardware : ∀ ci < s.rank.nrCis, t.hardware ci = match frames ci with
    | some (structure_, frame) => ((s.hardware ci).load structure_).perform frame
    | none => s.hardware ci
  settled : t.Settled
  matched : s.Matched → t.Matched

/-- A frame reaches every control interface that it changes. -/
def UfiState.Takes (s : UfiState) (frames : Nat → Option (BitVec 64 × Frame)) (outcome : Outcome) : Prop :=
  ∀ ci < s.rank.nrCis, ∀ structure_ frame, frames ci = some (structure_, frame) →
    outcome.reached ci = true ∨ (s.hardware ci).perform frame = s.hardware ci

def structuresOf (frames : Nat → Option (BitVec 64 × Frame)) (ci : Nat) : Option (BitVec 64) :=
  (frames ci).map Prod.fst

theorem StructuresWritten.frames_cache (written : StructuresWritten (structuresOf frames) s t) (ci : Nat) :
    t.cache ci = match frames ci with
      | some (structure_, _) => (s.cache ci).withStructure structure_
      | none => s.cache ci := by
  rw [written.cache, structuresOf]
  cases frames ci <;> rfl

theorem StructuresWritten.frames_hardware (written : StructuresWritten (structuresOf frames) s t) {ci : Nat}
    (inside : ci < s.rank.nrCis) : t.hardware ci = match frames ci with
      | some (structure_, _) => (s.hardware ci).load structure_
      | none => s.hardware ci := by
  rw [written.hardware ci inside, structuresOf]
  cases frames ci <;> rfl

/-- Frames that are sent once their structures are loaded, with settled commands elsewhere. -/
theorem StructuresWritten.frame_done (written : StructuresWritten (structuresOf frames) s t)
    (entries : ∀ ci < s.rank.nrCis, ∀ structure_ frame, frames ci = some (structure_, frame) →
      t.cmds ci = .frame structure_ frame)
    (others : ∀ ci < s.rank.nrCis, frames ci = none → (s.hardware ci).Settled (t.cmds ci))
    (takes : s.Takes frames outcome) : FrameDone frames s (ciExecCmds misread outcome t).2 := by
  have after : ∀ ci < s.rank.nrCis, (ciExecCmds misread outcome t).2.hardware ci = match frames ci with
      | some (structure_, frame) => ((s.hardware ci).load structure_).perform frame
      | none => s.hardware ci := by
    intro ci inside
    simp only [ciExecCmds, execCmd, written.rank, inside, true_and]
    rw [written.frames_hardware inside]
    cases given : frames ci with
    | none => simp [(others ci inside given).execute misread]
    | some entry =>
      obtain ⟨structure_, frame⟩ := entry
      rw [entries ci inside structure_ frame given]
      rcases takes ci inside structure_ frame given with reached | same
      · simp [reached, CiHardware.execute, CiHardware.load]
      · have loaded : ((s.hardware ci).load structure_).perform frame = (s.hardware ci).load structure_ := by
          rw [CiHardware.perform_load, same]
        simp only [CiHardware.execute]
        rw [if_pos (show ((s.hardware ci).load structure_).loaded = structure_ from rfl), loaded, ite_self]
  refine ⟨written.rank, written.frames_cache, after, ?_, ?_⟩
  · intro ci inside
    have inside : ci < s.rank.nrCis := written.rank ▸ inside
    rw [after ci inside]
    cases given : frames ci with
    | none => exact others ci inside given
    | some entry =>
      obtain ⟨structure_, frame⟩ := entry
      have command : (ciExecCmds misread outcome t).2.cmds ci = .frame structure_ frame :=
        entries ci inside structure_ frame given
      rw [command]
      exact CiHardware.perform_settled rfl frame
  · intro matched
    refine execCmd_matched (by rw [UfiState.Matched, written.executed]; exact matched) ?_
    intro ci inside structure' frame' command
    have inside : ci < s.rank.nrCis := written.rank ▸ inside
    rw [written.frames_hardware inside]
    cases given : frames ci with
    | some entry =>
      obtain ⟨structure_, frame⟩ := entry
      obtain rfl := (Command.frame.inj ((entries ci inside structure_ frame given).symm.trans command)).1
      rfl
    | none =>
      have settled := others ci inside given
      rw [show t.cmds ci = .frame structure' frame' from command] at settled
      exact settled.1

/-- Structures that are written for frames which change nothing. -/
theorem StructuresWritten.stopped (written : StructuresWritten (structuresOf frames) s t)
    (idle : ∀ ci structure_ frame, frames ci = some (structure_, frame) → ∃ word, frame = .other word)
    (settled : t.Settled) : FrameDone frames s t where
  rank := written.rank
  cache := written.frames_cache
  hardware := fun ci inside => by
    rw [written.frames_hardware inside]
    cases given : frames ci with
    | none => rfl
    | some entry =>
      obtain ⟨word, other⟩ := idle ci entry.1 entry.2 given
      simp [other]
  settled := settled
  matched := fun matched => by rw [UfiState.Matched, written.executed]; exact matched

/-- The frames of a mask. -/
def UfiState.framesOn (s : UfiState) (mask : BitVec 8) (structure_ : BitVec 64) (frame : Nat → Frame) (ci : Nat) :
    Option (BitVec 64 × Frame) :=
  s.onMask mask (structure_, frame ci) ci

theorem framesOn_structures (frame : Nat → Frame) :
    structuresOf (s.framesOn mask structure_ frame) = s.onMask mask structure_ := by
  funext ci
  unfold structuresOf UfiState.framesOn UfiState.onMask
  cases s.on mask ci <;> rfl

theorem framesOn_on {frame : Nat → Frame} {ci : Nat} (on : s.on mask ci = true) :
    s.framesOn mask structure_ frame ci = some (structure_, frame ci) := by
  simp [UfiState.framesOn, UfiState.onMask, on]

theorem framesOn_off {frame : Nat → Frame} {ci : Nat} (off : s.on mask ci = false) :
    s.framesOn mask structure_ frame ci = none := by
  simp [UfiState.framesOn, UfiState.onMask, off]

theorem framesOn_some {frame : Nat → Frame} {ci : Nat} {entry : BitVec 64 × Frame}
    (given : s.framesOn mask structure_ frame ci = some entry) :
    s.on mask ci = true ∧ entry = (structure_, frame ci) := by
  unfold UfiState.framesOn UfiState.onMask at given
  split at given
  next on => exact ⟨on, (Option.some.inj given).symm⟩
  next => cases given

theorem framesOn_none {frame : Nat → Frame} {ci : Nat} (given : s.framesOn mask structure_ frame ci = none) :
    s.on mask ci = false := by
  cases on : s.on mask ci with
  | false => rfl
  | true => rw [framesOn_on on] at given; cases given

theorem on_getLsbD {ci : Nat} (inside : ci < s.rank.nrCis) : s.on mask ci = mask.getLsbD ci := by
  simp [UfiState.on, ciMaskOn, inside]

/-- Frames that change neither selection nor groups reach every control interface that they change. -/
theorem takes_other (words : Nat → BitVec 64) :
    s.Takes (s.framesOn mask structure_ fun ci => .other (words ci)) outcome := by
  intro ci _ structure' frame given
  obtain ⟨-, same⟩ := framesOn_some given
  obtain ⟨rfl, rfl⟩ := Prod.mk.inj same
  exact .inr rfl

/-- A structure that fails is settled in every control interface that has loaded it. -/
theorem execWriteStructure_failed_settled
    (written : StructuresWritten (s.onMask mask structure_) s
      (execWriteStructure misread outcome mask structure_ s).2)
    (failed : (execWriteStructure misread outcome mask structure_ s).1 ≠ .ok) :
    (execWriteStructure misread outcome mask structure_ s).2.Settled := by
  intro ci inside
  have inside : ci < s.rank.nrCis := written.rank ▸ inside
  rw [execWriteStructure_failed_cmds failed, written.hardware ci inside, UfiState.onMask, on_getLsbD inside]
  cases mask.getLsbD ci
  · exact trivial
  · exact rfl

theorem prepared_frame_done {u : UfiState} {frame : Frame}
    (written : StructuresWritten (s.onMask mask structure_) s u)
    (takes : s.Takes (s.framesOn mask structure_ fun _ => frame) outcome) :
    FrameDone (s.framesOn mask structure_ fun _ => frame) s
      (ciExecCmds misread outcome (ciPrepareMask mask (.frame structure_ frame) u)).2 := by
  rw [← framesOn_structures fun _ => frame] at written
  refine StructuresWritten.frame_done (t := ciPrepareMask mask (.frame structure_ frame) u)
    ⟨written.rank, written.cache, written.hardware, written.executed⟩ ?_ ?_ takes
  · intro ci inside structure' frame' given
    obtain ⟨on, same⟩ := framesOn_some given
    obtain ⟨rfl, rfl⟩ := Prod.mk.inj same
    rw [on_getLsbD inside] at on
    simp [ciPrepareMask, on]
  · intro ci inside given
    have off := framesOn_none given
    rw [on_getLsbD inside] at off
    simp [ciPrepareMask, off, CiHardware.Settled]

/-- A frame whose structure is loaded and that reaches all control interfaces is performed. -/
theorem execFrame_done {frame : Frame} (known : s.StructuresKnown) (nonempty : structure_ ≠ CI_EMPTY)
    (succeeds : s.mustWrite (s.onMask mask structure_) = true → outcomes.struct.status = .ok)
    (takes : s.Takes (s.framesOn mask structure_ fun _ => frame) outcomes.frame) :
    FrameDone (s.framesOn mask structure_ fun _ => frame) s
      (execFrame misread outcomes mask structure_ frame s).2 := by
  have written := execWriteStructure_written misread mask known nonempty
    fun must ci _ _ _ => .inl (outcomes.struct.all_reached (succeeds must) ci)
  have passed : (execWriteStructure misread outcomes.struct mask structure_ s).1 = .ok := by
    rw [execWriteStructure_status]
    split
    next must => exact succeeds must
    next => rfl
  rw [execFrame, andThen_ok passed]
  exact prepared_frame_done written takes

/-- A frame that changes neither selection nor groups needs its structure only. -/
theorem execFrame_other (misread : Misread) (outcomes : FrameOutcomes) (known : s.StructuresKnown)
    (nonempty : structure_ ≠ CI_EMPTY)
    (loads : s.mustWrite (s.onMask mask structure_) = true → s.Loads (s.onMask mask structure_) outcomes.struct)
    (word : BitVec 64) : FrameDone (s.framesOn mask structure_ fun _ => .other word) s
      (execFrame misread outcomes mask structure_ (.other word) s).2 := by
  have written := execWriteStructure_written misread mask known nonempty loads
  by_cases passed : (execWriteStructure misread outcomes.struct mask structure_ s).1 = .ok
  · rw [execFrame, andThen_ok passed]
    exact prepared_frame_done written (takes_other fun _ => word)
  · rw [execFrame, andThen_failed passed]
    have settled := execWriteStructure_failed_settled written passed
    rw [← framesOn_structures fun _ => .other word] at written
    refine written.stopped ?_ settled
    intro ci structure' frame' given
    exact ⟨word, (Prod.mk.inj (framesOn_some given).2).2⟩

/-- Outside its mask the write of a structure leaves settled commands. -/
theorem execWriteStructure_others (settled : s.Settled) {ci : Nat} (inside : ci < s.rank.nrCis)
    (off : s.on mask ci = false) :
    (s.hardware ci).Settled ((execWriteStructure misread outcome mask structure_ s).2.cmds ci) := by
  cases must : s.mustWrite (s.onMask mask structure_) with
  | false =>
    rw [execWriteStructure_recorded must]
    exact settled ci inside
  | true =>
    rw [on_getLsbD inside] at off
    rw [execWriteStructure_sent must]
    simp [ciExecCmds, execCmd, ciPrepareMask, off, CiHardware.Settled]

theorem execFrames_other (misread : Misread) (outcomes : FrameOutcomes) (waitMask : Bool)
    (known : s.StructuresKnown) (settled : s.Settled)
    (nonempty : structure_ ≠ CI_EMPTY)
    (loads : s.mustWrite (s.onMask mask structure_) = true → s.Loads (s.onMask mask structure_) outcomes.struct)
    (words : Nat → BitVec 64) : FrameDone (s.framesOn mask structure_ fun ci => .other (words ci)) s
      (execFrames misread waitMask outcomes mask structure_ (fun ci => .other (words ci)) s).2 := by
  have written := execWriteStructure_written misread mask known nonempty loads
  have idle : ∀ ci structure' frame, s.framesOn mask structure_ (fun ci => .other (words ci)) ci =
    some (structure', frame) →
      ∃ word, frame = .other word := fun ci _ _ given => ⟨words ci, (Prod.mk.inj (framesOn_some given).2).2⟩
  by_cases passed : (execWriteStructure misread outcomes.struct mask structure_ s).1 = .ok
  · rw [execFrames, andThen_ok passed]
    have on_eq (ci : Nat) : (execWriteStructure misread outcomes.struct mask structure_ s).2.on mask ci =
        s.on mask ci := by
      simp [UfiState.on, written.rank]
    have entries : ∀ ci < s.rank.nrCis, ∀ structure' frame,
        s.framesOn mask structure_ (fun ci => .other (words ci)) ci = some (structure', frame) →
        (fillCmds mask structure_ (fun ci => .other (words ci))
          (execWriteStructure misread outcomes.struct mask structure_ s).2).cmds ci = .frame structure' frame := by
      intro ci _ structure' frame given
      obtain ⟨on, same⟩ := framesOn_some given
      obtain ⟨rfl, rfl⟩ := Prod.mk.inj same
      simp [fillCmds, on_eq, on]
    have others : ∀ ci < s.rank.nrCis, s.framesOn mask structure_ (fun ci => .other (words ci)) ci = none →
        (s.hardware ci).Settled ((fillCmds mask structure_ (fun ci => .other (words ci))
          (execWriteStructure misread outcomes.struct mask structure_ s).2).cmds ci) := by
      intro ci inside given
      have off := framesOn_none given
      simpa [fillCmds, on_eq, off] using execWriteStructure_others settled inside off
    rw [← framesOn_structures fun ci => .other (words ci)] at written
    have filled : StructuresWritten (structuresOf (s.framesOn mask structure_ fun ci => .other (words ci))) s
        (fillCmds mask structure_ (fun ci => .other (words ci))
            (execWriteStructure misread outcomes.struct mask structure_ s).2) :=
      ⟨written.rank, written.cache, written.hardware, written.executed⟩
    have done :
      FrameDone (s.framesOn mask structure_ fun ci => .other (words ci)) s (ciExecCmds misread outcomes.frame
        (fillCmds mask structure_ (fun ci => .other (words ci))
          (execWriteStructure misread outcomes.struct mask structure_ s).2)).2 :=
      filled.frame_done entries others (takes_other words)
    cases waitMask with
    | false => exact done
    | true =>
      simp only [if_true, ciExecWaitMaskCmds]
      split
      · refine filled.stopped idle fun ci inside => ?_
        have inside : ci < s.rank.nrCis := filled.rank ▸ inside
        rw [filled.frames_hardware inside]
        cases given : s.framesOn mask structure_ (fun ci => .other (words ci)) ci with
        | none => exact others ci inside given
        | some entry =>
          rw [entries ci inside entry.1 entry.2 given]
          obtain ⟨word, other⟩ := idle ci entry.1 entry.2 given
          rw [other]
          exact ⟨rfl, rfl⟩
      · exact done
  · rw [execFrames, andThen_failed passed]
    have settled := execWriteStructure_failed_settled written passed
    rw [← framesOn_structures fun ci => .other (words ci)] at written
    exact written.stopped idle settled

end Execution

end Upmem.Ufi
