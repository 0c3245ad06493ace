import Upmem.UfiRuns

namespace Upmem.Ufi
open Ci StatusChain Transitions

/-- Bytes of a command, the lowest first. -/
def packBytes : List (BitVec 64) → BitVec 64
  | [] => 0#64
  | byte :: rest => byte ||| packBytes rest <<< 8

def byteAt (value : BitVec 64) (index : Nat) : BitVec 64 := value >>> (8 * index) &&& 0xff#64

def structWord (bytes : List (BitVec 64)) : BitVec 64 := 0x1100000000000000#64 ||| packBytes bytes

def frameWord (bytes : List (BitVec 64)) : BitVec 64 := 0x3300000000000000#64 ||| packBytes bytes

def CI_DMA_CTRL_WRITE_STRUCT : BitVec 64 := structWord [0b111111, 0, 0xff, 0x2, 0, 0]

def CI_DMA_CTRL_CLEAR_STRUCT : BitVec 64 := structWord [0b111111, 0, 0xff, 0x2, 0, 0]

def CI_DMA_CTRL_CLEAR_FRAME : BitVec 64 := frameWord [0, 0, 0, 0, 0, 0, 0xa6]

def CI_IRAM_WRITE_INSTRUCTION_STRUCT (address : BitVec 16) : BitVec 64 :=
  structWord [0b11111111, 0, byteAt (address.setWidth 64) 1, 0x47, 0x2, 0]

def CI_IRAM_WRITE_INSTRUCTION_FRAME (data : BitVec 64) (address : BitVec 16) : BitVec 64 :=
  frameWord [byteAt data 0, byteAt data 1, byteAt data 2, byteAt data 3, byteAt data 4, byteAt data 5,
    byteAt (address.setWidth 64) 0]

/-- The instruction that the macros of a word write spread over the structure and the frame. -/
def wramWriteInstruction (address : BitVec 16) : BitVec 64 :=
  let byteAddress := address.setWidth 64 <<< 2
  0x7c0044000000#64 ||| (24#64 &&& 31) <<< 34 ||| (byteAddress &&& 15) <<< 20
    ||| (byteAddress >>> 4 &&& 7) <<< 39 |||
    (byteAddress >>> 7 &&& 1) <<< 24 ||| (byteAddress >>> 8 &&& 1) <<< 15 ||| (byteAddress >>> 9 &&& 1) <<< 14 |||
    (byteAddress >>> 10 &&& 1) <<< 13 ||| (byteAddress >>> 11 &&& 1) <<< 12 ||| (byteAddress >>> 12 &&& 4095)

def CI_WRAM_WRITE_WORD_STRUCT (address : BitVec 16) : BitVec 64 :=
  let instruction := wramWriteInstruction address
  structWord [0b11111111, 0b11, byteAt instruction 0, byteAt instruction 1, byteAt instruction 3, 0x99]

def CI_WRAM_WRITE_WORD_FRAME (data : BitVec 32) (address : BitVec 16) : BitVec 64 :=
  let instruction := wramWriteInstruction address
  let data := data.setWidth 64
  frameWord [byteAt data 0, byteAt data 1, byteAt data 2, byteAt data 3, byteAt instruction 2, byteAt instruction 5,
    byteAt instruction 4]

/-- `ci_dma_ctrl_write_frame`. -/
def ciDmaCtrlWriteFrame (address data : BitVec 8) : BitVec 64 :=
  let nibble (value : BitVec 8) (shift : Nat) : BitVec 64 := 0x60 ||| (value >>> shift &&& 0x0f#8).setWidth 64
  frameWord [nibble address 4, nibble address 0, nibble data 4, nibble data 0, 0x60, 0x20, 0xa7]

/-- A frame of an operation, which is the same for its whole mask or is filled
in for each control interface. -/
inductive FrameTurn
  | frame (structure_ word : BitVec 64)
  | frames (waitMask : Bool) (structure_ : BitVec 64) (words : Nat → BitVec 64)

def ufiWramWrite (src : Nat → Nat → BitVec 32) (offset len : BitVec 16) : List FrameTurn :=
  (List.range len.toNat).map fun eachAddress =>
    let addr := offset + BitVec.ofNat 16 eachAddress
    .frames true (CI_WRAM_WRITE_WORD_STRUCT addr) fun ci => CI_WRAM_WRITE_WORD_FRAME (src ci eachAddress) addr

def ufiIramWrite (src : Nat → Nat → BitVec 64) (offset len : BitVec 16) : List FrameTurn :=
  (List.range len.toNat).map fun eachAddress =>
    let addr := offset + BitVec.ofNat 16 eachAddress
    .frames true (CI_IRAM_WRITE_INSTRUCTION_STRUCT addr) fun ci =>
      CI_IRAM_WRITE_INSTRUCTION_FRAME (src ci eachAddress) addr

def ufiWriteDmaCtrl (address data : BitVec 8) : List FrameTurn :=
  [.frame CI_DMA_CTRL_WRITE_STRUCT (ciDmaCtrlWriteFrame address data)]

def ufiWriteDmaCtrlDatas (address : BitVec 8) (datas : Nat → BitVec 8) : List FrameTurn :=
  [.frames false CI_DMA_CTRL_WRITE_STRUCT fun ci => ciDmaCtrlWriteFrame address (datas ci)]

def ufiClearDmaCtrl : List FrameTurn := [.frame CI_DMA_CTRL_CLEAR_STRUCT CI_DMA_CTRL_CLEAR_FRAME]

def ufiSetMramMux (ciMuxPos : BitVec 8) : List FrameTurn :=
  let muxValue : Nat → BitVec 8 := fun ci => if ciMuxPos.getLsbD ci then 0 else 1
  ufiWriteDmaCtrlDatas 0x80 muxValue ++ ufiWriteDmaCtrl 0x81 0 ++ ufiWriteDmaCtrlDatas 0x82 muxValue ++
    ufiWriteDmaCtrlDatas 0x84 muxValue ++ ufiClearDmaCtrl

section Operations
variable (misread : Misread)

def FrameTurn.exec (outcomes : FrameOutcomes) (mask : BitVec 8) : FrameTurn → UfiState → DpuError × UfiState
  | .frame structure_ word => execFrame misread outcomes mask structure_ (.other word)
  | .frames waitMask structure_ words =>
    execFrames misread waitMask outcomes mask structure_ fun ci => .other (words ci)

/-- The turns of an operation, up to the first that fails. -/
def execTurns (outcomes : Nat → FrameOutcomes) (mask : BitVec 8) (turns : List FrameTurn) :
    UfiState → DpuError × UfiState :=
  loop .ok (fun turn => turn.1.exec misread (outcomes turn.2) mask) turns.zipIdx

/-- A UFI operation: a select, the write of a group, or frames for the control
interfaces of its mask. The reads and writes of memories, the boots and the
fault and mux operations are of the last kind. -/
inductive UfiOperation
  | select (select : Select)
  | writeGroup (group : Nat)
  | turns (turns : List FrameTurn)

/-- An operation as it is called, with the outcomes of its commands. -/
structure OperationCall where
  operation : UfiOperation
  mask : BitVec 8
  outcomes : Nat → FrameOutcomes

def OperationCall.exec (call : OperationCall) : UfiState → DpuError × UfiState :=
  match call.operation with
  | .select select => select.exec misread (call.outcomes 0) call.mask
  | .writeGroup group => ufiWriteGroup misread group (call.outcomes 0) call.mask
  | .turns turns => execTurns misread call.outcomes call.mask turns

def operationStep (s : UfiState) (call : OperationCall) (t : UfiState) : Prop :=
  t = (call.exec misread s.begin).2

end Operations

/-- The control interfaces that an operation is for: those of its mask that a
select does not remove. -/
def OperationCall.effectiveMask (call : OperationCall) (s : UfiState) : BitVec 8 :=
  match call.operation with
  | .select select => select.kind.returned s call.mask
  | _ => call.mask

/-- Every command that has been sent was built by the operation for a control
interface of the mask. -/
def UfiState.Isolated (s : UfiState) (mask : BitVec 8) : Prop :=
  ∀ commands ∈ s.sent, ∀ ci < s.rank.nrCis, (commands ci).1 ≠ .empty → s.on mask ci = true ∧ (commands ci).2 = true

instance (s : UfiState) (mask : BitVec 8) : Decidable (s.Isolated mask) :=
  inferInstanceAs (Decidable (∀ commands ∈ s.sent, ∀ ci < s.rank.nrCis,
    (commands ci).1 ≠ .empty → s.on mask ci = true ∧ (commands ci).2 = true))

section Isolation
variable {misread : Misread} {outcome : Outcome} {outcomes : FrameOutcomes} {s t : UfiState} {mask : BitVec 8}
  {structure_ : BitVec 64}

/-- The entries of `rank->cmds` outside a mask are cleared. -/
def UfiState.ClearOutside (s : UfiState) (mask : BitVec 8) : Prop :=
  ∀ ci < s.rank.nrCis, s.on mask ci = false → s.cmds ci = .empty

theorem execCmd_isolated {commands : Nat → Command × Bool} (isolated : s.Isolated mask) :
    (execCmd misread outcome commands s).2.Isolated mask ↔
      ∀ ci < s.rank.nrCis, (commands ci).1 ≠ .empty → s.on mask ci = true ∧ (commands ci).2 = true := by
  constructor
  · intro after
    exact after _ (List.mem_append_right _ List.mem_cons_self)
  · intro clean sent member
    rcases List.mem_append.mp member with earlier | now
    · exact isolated sent earlier
    · obtain rfl := List.mem_singleton.mp now
      exact clean

theorem ciExecCmds_isolated (isolated : s.Isolated mask) :
    (ciExecCmds misread outcome s).2.Isolated mask ↔
      ∀ ci < s.rank.nrCis, s.cmds ci ≠ .empty → s.on mask ci = true ∧ s.built ci = true :=
  execCmd_isolated isolated

/-- Commands that are prepared for a mask go to the mask only. -/
theorem prepared_isolated {command : Command} (isolated : s.Isolated mask) :
    (ciExecCmds misread outcome (ciPrepareMask mask command s)).2.Isolated mask := by
  refine (ciExecCmds_isolated (s := ciPrepareMask mask command s) isolated).mpr fun ci inside given => ?_
  cases on : mask.getLsbD ci with
  | false => simp [ciPrepareMask, on] at given
  | true => exact ⟨by simpa [on_getLsbD (s := ciPrepareMask mask command s) inside] using on, rfl⟩

theorem execWriteStructure_isolated (isolated : s.Isolated mask) :
    (execWriteStructure misread outcome mask structure_ s).2.Isolated mask := by
  cases must : s.mustWrite (s.onMask mask structure_) with
  | false =>
    rw [execWriteStructure_recorded must]
    exact isolated
  | true =>
    rw [execWriteStructure_sent must]
    exact prepared_isolated (s := s.recordStructures (s.onMask mask structure_)) isolated

/-- A frame that is the same for its whole mask is sent to the mask only. -/
theorem execFrame_isolated {frame : Frame} (isolated : s.Isolated mask) :
    (execFrame misread outcomes mask structure_ frame s).2.Isolated mask :=
  andThen_invariant (P := fun (t : UfiState) => t.Isolated mask) (fun _ => execWriteStructure_isolated)
    (fun _ => prepared_isolated)
    isolated

theorem execFrame_clear {frame : Frame} (passed : (execFrame misread outcomes mask structure_ frame s).1 = .ok) :
    (execFrame misread outcomes mask structure_ frame s).2.ClearOutside mask := by
  by_cases written : (execWriteStructure misread outcomes.struct mask structure_ s).1 = .ok
  · rw [execFrame, andThen_ok written]
    intro ci inside off
    rw [on_getLsbD inside] at off
    simp [ciExecCmds, execCmd, ciPrepareMask, off]
  · rw [execFrame, andThen_failed written] at passed
    exact absurd passed written

/-- A structure is sent to its mask only, and the entries outside it are cleared for that. -/
theorem execWriteStructure_clear : (execWriteStructure misread outcome mask structure_ s).2.ClearOutside mask ↔
    s.mustWrite (s.onMask mask structure_) = true ∨ s.ClearOutside mask := by
  cases must : s.mustWrite (s.onMask mask structure_) with
  | false =>
    rw [execWriteStructure_recorded must]
    exact ⟨.inr, fun clear => clear.resolve_left (by simp)⟩
  | true =>
    rw [execWriteStructure_sent must]
    refine iff_of_true (fun ci inside off => ?_) (.inl rfl)
    rw [on_getLsbD inside] at off
    simp [ciExecCmds, execCmd, ciPrepareMask, off]

/-- `compute_masks` will find a command for a control interface without a
selection once the entries of the mask are filled. -/
def UfiState.lacksFilled (s : UfiState) (mask : BitVec 8) : Bool :=
  (List.range s.rank.nrCis).any fun ci =>
    decide ((s.on mask ci = true ∨ s.cmds ci ≠ .empty) ∧ (s.cache ci).sliceTarget = .none)

theorem fillCmds_lacksSelection {frames : Nat → Frame} :
    (fillCmds mask structure_ frames s).lacksSelection = s.lacksFilled mask := by
  unfold UfiState.lacksSelection UfiState.lacksFilled
  congr 1
  funext ci
  cases on : s.on mask ci <;> simp [fillCmds, on]

/-- Entries that are filled for a mask go to the mask only if the others are cleared. -/
theorem filled_isolated {frames : Nat → Frame} (isolated : s.Isolated mask) :
    (ciExecCmds misread outcome (fillCmds mask structure_ frames s)).2.Isolated mask ↔ s.ClearOutside mask := by
  refine (ciExecCmds_isolated (s := fillCmds mask structure_ frames s) isolated).trans
    (forall₂_congr fun ci inside => ?_)
  have on_eq : (fillCmds mask structure_ frames s).on mask ci = s.on mask ci := rfl
  rw [on_eq]
  cases on : s.on mask ci <;> simp [fillCmds, on]

/-- When the frames of a turn go to its mask only: an entry left outside the
mask is not sent if a structure is sent first, or if nothing is sent at all. -/
def FrameTurn.Clean (s : UfiState) (mask : BitVec 8) : FrameTurn → Prop
  | .frame _ _ => True
  | .frames waitMask structure_ _ =>
    s.mustWrite (s.onMask mask structure_) = true ∨ waitMask = true ∧ s.lacksFilled mask = true ∨
      s.ClearOutside mask

/-- The entries of a mask, filled and then sent unless one of them is for a control
interface without a selection. -/
theorem filledTurn_isolated {waitMask : Bool} {frames : Nat → Frame} (isolated : s.Isolated mask) :
    (if waitMask then ciExecWaitMaskCmds misread outcome (fillCmds mask structure_ frames s)
      else ciExecCmds misread outcome (fillCmds mask structure_ frames s)).2.Isolated mask ↔
      waitMask = true ∧ s.lacksFilled mask = true ∨ s.ClearOutside mask := by
  cases waitMask with
  | false => simpa using filled_isolated isolated
  | true =>
    simp only [if_true, ciExecWaitMaskCmds, fillCmds_lacksSelection, true_and]
    split
    next lacks => exact iff_of_true isolated (.inl lacks)
    next selected => rw [filled_isolated isolated, or_iff_right selected]

theorem filledTurn_clear {waitMask : Bool} {frames : Nat → Frame} (clear : s.ClearOutside mask) :
    (if waitMask then ciExecWaitMaskCmds misread outcome (fillCmds mask structure_ frames s)
      else ciExecCmds misread outcome (fillCmds mask structure_ frames s)).2.ClearOutside mask := by
  have filled : (fillCmds mask structure_ frames s).ClearOutside mask := by
    intro ci inside off
    have off : s.on mask ci = false := off
    simpa [fillCmds, off] using clear ci inside off
  cases waitMask with
  | false => exact filled
  | true =>
    simp only [if_true, ciExecWaitMaskCmds]
    split
    · exact filled
    · exact filled

theorem filledTurn_passed {waitMask : Bool} {frames : Nat → Frame}
    (passed : (if waitMask then ciExecWaitMaskCmds misread outcome (fillCmds mask structure_ frames s)
      else ciExecCmds misread outcome (fillCmds mask structure_ frames s)).1 = .ok) :
    ¬ (waitMask = true ∧ s.lacksFilled mask = true) := by
  rintro ⟨rfl, lacks⟩
  simp [ciExecWaitMaskCmds, fillCmds_lacksSelection, lacks] at passed

theorem recordStructures_lacksFilled {structures : Nat → Option (BitVec 64)} :
    (s.recordStructures structures).lacksFilled mask = s.lacksFilled mask := by
  have same (ci : Nat) : ((s.recordStructures structures).cache ci).sliceTarget = (s.cache ci).sliceTarget := by
    simp only [UfiState.recordStructures, withStructures]
    split <;> rfl
  simp only [UfiState.lacksFilled, same]
  rfl

theorem FrameTurn.exec_isolated (turn : FrameTurn) (misread : Misread) (outcomes : FrameOutcomes)
    (isolated : s.Isolated mask) :
    (turn.exec misread outcomes mask s).2.Isolated mask ↔ turn.Clean s mask := by
  cases turn with
  | frame structure_ word => exact iff_of_true (execFrame_isolated isolated) trivial
  | frames waitMask structure_ words =>
    have wrote : (execWriteStructure misread outcomes.struct mask structure_ s).2.Isolated mask :=
      execWriteStructure_isolated isolated
    by_cases passed : (execWriteStructure misread outcomes.struct mask structure_ s).1 = .ok
    · rw [FrameTurn.exec, execFrames, andThen_ok passed]
      refine (filledTurn_isolated wrote).trans ?_
      rw [execWriteStructure_clear, FrameTurn.Clean]
      cases must : s.mustWrite (s.onMask mask structure_) with
      | true => simp
      | false => rw [execWriteStructure_recorded must, recordStructures_lacksFilled]; simp
    · rw [FrameTurn.exec, execFrames, andThen_failed passed]
      refine iff_of_true wrote (.inl ?_)
      by_contra unsent
      exact passed (by simp [execWriteStructure_status, unsent])

/-- A turn that succeeds leaves the entries outside its mask cleared if it has not sent them. -/
theorem FrameTurn.exec_clear {turn : FrameTurn} (clean : turn.Clean s mask)
    (passed : (turn.exec misread outcomes mask s).1 = .ok) :
    (turn.exec misread outcomes mask s).2.ClearOutside mask := by
  cases turn with
  | frame structure_ word => exact execFrame_clear passed
  | frames waitMask structure_ words =>
    by_cases written : (execWriteStructure misread outcomes.struct mask structure_ s).1 = .ok
    · rw [FrameTurn.exec, execFrames, andThen_ok written] at passed ⊢
      refine filledTurn_clear (execWriteStructure_clear.mpr ?_)
      have selected := filledTurn_passed passed
      rcases clean with must | lacks | clear
      · exact .inl must
      · cases must : s.mustWrite (s.onMask mask structure_) with
        | true => exact .inl rfl
        | false =>
          rw [execWriteStructure_recorded must, recordStructures_lacksFilled] at selected
          exact absurd lacks selected
      · exact .inr clear
    · rw [FrameTurn.exec, execFrames, andThen_failed written] at passed
      exact absurd passed written

theorem FrameTurn.clean_of_clear (turn : FrameTurn) (clear : s.ClearOutside mask) : turn.Clean s mask := by
  cases turn with
  | frame _ _ => exact trivial
  | frames _ _ _ => exact .inr (.inr clear)

/-- The commands that have been sent stay sent. -/
structure Extends (s t : UfiState) : Prop where
  rank : t.rank = s.rank
  sent : ∀ commands ∈ s.sent, commands ∈ t.sent

theorem Extends.isolated (more : Extends s t) (isolated : t.Isolated mask) : s.Isolated mask := by
  intro commands member ci inside given
  have after := isolated commands (more.sent commands member) ci (more.rank ▸ inside) given
  simpa only [UfiState.on, more.rank] using after

theorem Extends.trans {u : UfiState} (first : Extends s t) (second : Extends t u) : Extends s u :=
  ⟨second.rank.trans first.rank, fun commands member => second.sent commands (first.sent commands member)⟩

theorem execWriteStructure_extends : Extends s (execWriteStructure misread outcome mask structure_ s).2 := by
  unfold execWriteStructure
  dsimp only
  split
  · exact ⟨rfl, fun _ member => List.mem_append_left _ member⟩
  · exact ⟨rfl, fun _ => id⟩

theorem FrameTurn.exec_extends (turn : FrameTurn) : Extends s (turn.exec misread outcomes mask s).2 := by
  cases turn with
  | frame structure_ word =>
    refine andThen_invariant (P := Extends s) (fun _ before => before.trans execWriteStructure_extends)
      (fun t before => before.trans ?_) ⟨rfl, fun _ => id⟩
    exact ⟨rfl, fun _ member => List.mem_append_left _ member⟩
  | frames waitMask structure_ words =>
    refine andThen_invariant (P := Extends s) (fun _ before => before.trans execWriteStructure_extends)
      (fun t before => before.trans ?_) ⟨rfl, fun _ => id⟩
    cases waitMask with
    | false => exact ⟨rfl, fun _ member => List.mem_append_left _ member⟩
    | true =>
      simp only [if_true, ciExecWaitMaskCmds]
      split
      · exact ⟨rfl, fun _ => id⟩
      · exact ⟨rfl, fun _ member => List.mem_append_left _ member⟩

/-- Turns that begin with a clean one are isolated: it leaves the entries outside the
mask cleared for the others. -/
theorem turns_isolated {steps : List (FrameTurn × Nat)} {outcomes : Nat → FrameOutcomes}
    (isolated : s.Isolated mask)
    (clean : ∀ turn ∈ steps.head?, turn.1.Clean s mask) :
    (loop .ok (fun turn => turn.1.exec misread (outcomes turn.2) mask) steps s).2.Isolated mask := by
  induction steps generalizing s with
  | nil => exact isolated
  | cons turn rest ih =>
    have now : turn.1.Clean s mask := clean turn rfl
    have after := (turn.1.exec_isolated misread (outcomes turn.2) isolated).mpr now
    by_cases passed : (turn.1.exec misread (outcomes turn.2) mask s).1 = .ok
    · rw [loop, if_pos passed]
      exact ih after fun next _ => next.1.clean_of_clear (FrameTurn.exec_clear now passed)
    · rw [loop, if_neg passed]
      exact after

theorem execTurns_isolated {turns : List FrameTurn} {outcomes : Nat → FrameOutcomes} (isolated : s.Isolated mask) :
    (execTurns misread outcomes mask turns s).2.Isolated mask ↔ ∀ turn ∈ turns.head?, turn.Clean s mask := by
  cases turns with
  | nil => exact iff_of_true isolated (by simp)
  | cons turn rest =>
    constructor
    · intro after first same
      obtain rfl : turn = first := by simpa using same
      refine (turn.exec_isolated misread (outcomes 0) isolated).mp (Extends.isolated ?_ after)
      rw [execTurns, List.zipIdx_cons, loop]
      split
      · exact loop_invariant (P := Extends _) (fun next _ before => before.trans next.1.exec_extends) _
          ⟨rfl, fun _ => id⟩
      · exact ⟨rfl, fun _ => id⟩
    · intro clean
      refine turns_isolated isolated fun first same => ?_
      obtain rfl : (turn, 0) = first := by simpa using same
      exact clean turn rfl

/-- When the frames of a select go to the control interfaces that it returns:
a select with a frame of its own for each sends all entries of `rank->cmds`
once its structures have been written. -/
def SelectKind.Clean (kind : SelectKind) (s : UfiState) (mask : BitVec 8) (outcomes : FrameOutcomes) : Prop :=
  match kind with
  | .each want =>
    s.doSelect want mask = false ∨
      s.mustWrite (structuresOf (selectFrames (s.toSelect want mask))) = true ∧ outcomes.struct.status ≠ .ok ∨
      ∀ ci < s.rank.nrCis, s.toSelect want mask ci = none → s.cmds ci = .empty
  | _ => True

/-- The targets of a select are on the control interfaces that it returns. -/
theorem toSelect_on {want : Want} {ci : Nat} {target : SliceTarget}
    (given : s.toSelect want mask ci = some target) :
    s.on (s.keptMask want mask) ci = true := by
  obtain ⟨on, known, -⟩ := toSelect_eq_some.mp given
  rw [on_keptMask, on, known]
  rfl

theorem execWriteStructures_isolated (misread : Misread) (outcome : Outcome) {structures : Nat → Option (BitVec 64)}
    (covers : ∀ ci, structures ci ≠ none → s.on mask ci = true) (isolated : s.Isolated mask) :
    (execWriteStructures misread outcome mask structures s).2.Isolated mask := by
  unfold execWriteStructures
  dsimp only
  split
  · refine (execCmd_isolated (s := s.recordStructures _) isolated).mpr fun ci inside given =>
      ⟨covers ci fun none => ?_, rfl⟩
    simp [none] at given
  · exact isolated

theorem execWriteStructures_status (misread : Misread) (outcome : Outcome) {structures : Nat → Option (BitVec 64)}
    (covers : ∀ ci, structures ci ≠ none → s.on mask ci = true) :
    (execWriteStructures misread outcome mask structures s).1 = if s.mustWrite structures then
      outcome.status else .ok := by
  unfold execWriteStructures
  dsimp only
  rw [structures_inMask covers]
  split <;> rfl

theorem execWriteStructures_keeps (misread : Misread) (outcome : Outcome) (mask : BitVec 8)
    (structures : Nat → Option (BitVec 64)) (s : UfiState) :
    (execWriteStructures misread outcome mask structures s).2.cmds = s.cmds ∧
      (execWriteStructures misread outcome mask structures s).2.built = s.built ∧
      (execWriteStructures misread outcome mask structures s).2.rank = s.rank := by
  unfold execWriteStructures
  dsimp only
  split <;> exact ⟨rfl, rfl, rfl⟩

/-- The entries of a select are for the control interfaces that it returns,
and are its own, exactly if those without a target are cleared. -/
theorem fillSelects_entries {want : Want} (fresh : ∀ ci, s.built ci = false) (ci : Nat) :
    ((s.fillSelects (s.toSelect want mask)).cmds ci ≠ .empty →
      s.on (s.keptMask want mask) ci = true ∧ (s.fillSelects (s.toSelect want mask)).built ci = true) ↔
      (s.toSelect want mask ci = none → s.cmds ci = .empty) := by
  cases given : s.toSelect want mask ci with
  | none => simp [UfiState.fillSelects, given, fresh ci]
  | some target => simp [UfiState.fillSelects, given, toSelect_on given]

theorem fillSelects_isolated {targets : Nat → Option SliceTarget} (isolated : s.Isolated mask) :
    (s.fillSelects targets).Isolated mask := isolated

theorem selectEach_isolated {want : Want} (fresh : ∀ ci, s.built ci = false)
    (isolated : s.Isolated (s.keptMask want mask)) :
    (selectEach misread want outcomes mask s).2.Isolated (s.keptMask want mask) ↔
      (SelectKind.each want).Clean s mask outcomes := by
  cases changed : s.doSelect want mask with
  | false =>
    rw [selectEach_unchanged changed]
    exact iff_of_true isolated (.inl changed)
  | true =>
    have covers : ∀ ci, (s.toSelect want mask ci).map selectStruct ≠ none →
        (s.fillSelects (s.toSelect want mask)).on (s.keptMask want mask) ci = true := by
      intro ci given
      obtain ⟨target, wanted⟩ := Option.ne_none_iff_exists'.mp fun none => given (Option.map_eq_none_iff.mpr none)
      rw [fillSelects_on]
      exact toSelect_on wanted
    have wrote := execWriteStructures_isolated misread outcomes.struct covers
      (fillSelects_isolated isolated)
    have status := execWriteStructures_status misread outcomes.struct covers
    rw [fillSelects_mustWrite] at status
    obtain ⟨cmds, built, rank⟩ := execWriteStructures_keeps misread outcomes.struct (s.keptMask want mask)
      (fun ci => (s.toSelect want mask ci).map selectStruct) (s.fillSelects (s.toSelect want mask))
    rw [selectEach_sent changed, execVoidFrames]
    by_cases passed : (execWriteStructures misread outcomes.struct (s.keptMask want mask)
        (fun ci => (s.toSelect want mask ci).map selectStruct) (s.fillSelects (s.toSelect want mask))).1 = .ok
    · rw [andThen_ok passed]
      refine (ciExecCmds_isolated wrote).trans ?_
      rw [cmds, built]
      have sent : ¬ (s.mustWrite (fun ci => (s.toSelect want mask ci).map selectStruct) = true ∧
          outcomes.struct.status ≠ .ok) := by
        rintro ⟨must, failed⟩
        rw [status, if_pos must] at passed
        exact failed passed
      simp only [SelectKind.Clean, selectFrames_structures, changed, Bool.true_eq_false, false_or,
        sent, UfiState.on, rank]
      exact forall₂_congr fun ci _ => fillSelects_entries fresh ci
    · rw [andThen_failed passed]
      rw [status] at passed
      refine iff_of_true wrote (.inr (.inl ?_))
      rw [selectFrames_structures]
      split at passed
      next must => exact ⟨must, passed⟩
      next => exact absurd rfl passed

theorem SelectKind.exec_isolated (kind : SelectKind) (fresh : ∀ ci, s.built ci = false)
    (isolated : s.Isolated (kind.returned s mask)) :
    (kind.exec misread outcomes mask s).2.Isolated (kind.returned s mask) ↔ kind.Clean s mask outcomes := by
  cases kind with
  | each want => exact selectEach_isolated fresh isolated
  | uncached target =>
    refine iff_of_true ?_ trivial
    exact execFrame_isolated (s := s.recordTargets (s.onMask mask target)) isolated
  | one target keeps =>
    refine iff_of_true ?_ trivial
    simp only [SelectKind.exec, selectOne]
    split
    · exact execFrame_isolated (s := s.recordTargets _) isolated
    · exact isolated

theorem ufiWriteGroup_isolated {group : Nat} (isolated : s.Isolated mask) :
    (ufiWriteGroup misread group outcomes mask s).2.Isolated mask := by
  have recorded (cis : List Nat) : (loop .ok (writeGroupTurn group) cis s).2.Isolated mask := by
    refine loop_invariant (P := fun (t : UfiState) => t.Isolated mask) (fun ci t before => ?_) cis isolated
    unfold writeGroupTurn
    split
    · exact before
    · exact before
  by_cases passed :
    (loop .ok (writeGroupTurn group) ((List.range s.rank.nrCis).filter fun ci => s.on mask ci) s).1 = .ok
  · rw [ufiWriteGroup, andThen_ok passed]
    exact execFrame_isolated (recorded _)
  · rw [ufiWriteGroup, andThen_failed passed]
    exact recorded _

/-- When an operation sends commands of its own only: a select with a frame for
each control interface, and frames that are filled in for each, need the other
entries of `rank->cmds` to be clear if these are sent as they are. -/
def OperationCall.Clean (call : OperationCall) (s : UfiState) : Prop :=
  match call.operation with
  | .select select => select.kind.Clean s call.mask (call.outcomes 0)
  | .writeGroup _ => True
  | .turns turns => ∀ turn ∈ turns.head?, turn.Clean s call.mask

theorem OperationCall.exec_isolated (call : OperationCall) :
    (call.exec misread s.begin).2.Isolated (call.effectiveMask s) ↔ call.Clean s := by
  obtain ⟨operation, mask, outcomes⟩ := call
  have none_sent (mask : BitVec 8) : s.begin.Isolated mask := by simp [UfiState.Isolated, UfiState.begin]
  cases operation with
  | select select =>
    have exec_eq : OperationCall.exec misread ⟨.select select, mask, outcomes⟩ s.begin =
        select.kind.exec misread (outcomes 0) mask s.begin :=
      congrFun (congrFun (congrFun (select.exec_eq misread) (outcomes 0)) mask) s.begin
    rw [exec_eq]
    exact select.kind.exec_isolated (s := s.begin) (fun _ => rfl) (none_sent _)
  | writeGroup group => exact iff_of_true (ufiWriteGroup_isolated (none_sent _)) trivial
  | turns turns => exact execTurns_isolated (s := s.begin) (none_sent _)

/-- In a run of operations each sends its own commands to its own control
interfaces exactly if no operation meets entries that were left for others. -/
theorem isolated_iff_clean {start : UfiState} {history : List (Transition UfiState OperationCall)}
    (run : Run (operationStep misread) start history s) :
    (∀ τ ∈ history, τ.after.Isolated (τ.action.effectiveMask τ.before)) ↔ ∀ τ ∈ history, τ.action.Clean τ.before :=
  run.forall_transition_iff (I := fun _ => True) trivial (fun _ _ _ _ _ => trivial) fun s call t _ taken => by
    subst taken
    exact call.exec_isolated

end Isolation

section Example

/-- The first DPU of all control interfaces is selected, then the second of the first control interface only. -/
def selectInTurn : List (Transition UfiState OperationCall) :=
  let first : OperationCall := ⟨.select (.dpu 0), 0xff#8, fun _ => ⟨success, success⟩⟩
  let second : OperationCall := ⟨.select (.dpu 1), 0x01#8, fun _ => ⟨success, success⟩⟩
  let between := (first.exec (fun _ _ hardware => hardware) resetState.begin).2
  let after := (second.exec (fun _ _ hardware => hardware) between.begin).2
  [⟨between, second, after⟩, ⟨resetState, first, between⟩]

theorem isolated_iff_clean_selectInTurn :
    (∀ τ ∈ selectInTurn, τ.after.Isolated (τ.action.effectiveMask τ.before)) ↔
      ∀ τ ∈ selectInTurn, τ.action.Clean τ.before :=
  isolated_iff_clean ((Run.start.next rfl).next rfl)

/-- A word is written to all control interfaces, and then to the first one
only at the same address, whose structure is loaded already. -/
def writeTwice : List (Transition UfiState OperationCall) :=
  let select : OperationCall := ⟨.select (.dpu 0), 0xff#8, fun _ => ⟨success, success⟩⟩
  let all : OperationCall := ⟨.turns (ufiWramWrite (fun _ _ => 7#32) 0 1), 0xff#8, fun _ => ⟨success, success⟩⟩
  let one : OperationCall := ⟨.turns (ufiWramWrite (fun _ _ => 8#32) 0 1), 0x01#8, fun _ => ⟨success, success⟩⟩
  let selected := (select.exec (fun _ _ hardware => hardware) resetState.begin).2
  let written := (all.exec (fun _ _ hardware => hardware) selected.begin).2
  let after := (one.exec (fun _ _ hardware => hardware) written.begin).2
  [⟨written, one, after⟩, ⟨selected, all, written⟩, ⟨resetState, select, selected⟩]

/-- The second control interface gets the first word once more. -/
theorem writeTwice_not_isolated : ¬ ∀ (misread : Misread) (start s : UfiState)
    (history : List (Transition UfiState OperationCall)), AfterReset start →
      Run (operationStep misread) start history s →
    ∀ τ ∈ history, τ.after.Isolated (τ.action.effectiveMask τ.before) := by
  intro isolated
  have run : Run (operationStep fun _ _ hardware => hardware) resetState writeTwice _ :=
    ((Run.start.next rfl).next rfl).next rfl
  have last := isolated _ _ _ _ resetState_afterReset run _ List.mem_cons_self
  revert last
  decide

end Example

end Upmem.Ufi
