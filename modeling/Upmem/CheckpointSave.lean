import Upmem.DebugFaults
import Upmem.DrainPipeline

namespace Upmem.CheckpointSave
open Commands DebugFaults DrainPipeline

def DPU_CHECKPOINT_INTERNAL : BitVec 32 := 0x1#32
def DPU_CHECKPOINT_IRAM : BitVec 32 := 0x2#32
def DPU_CHECKPOINT_MRAM : BitVec 32 := 0x8#32
def DPU_CHECKPOINT_WRAM : BitVec 32 := 0x10#32

def flagsContain (flags flag : BitVec 32) : Bool := flags &&& flag != 0#32

/-- A DPU of which a checkpoint is saved. -/
structure SavedDpu where
  debugged : DebuggedDpu
  nrOfThreads : BitVec 8
  enabled : Bool
  errorStoreSymbol : Bool

def SavedDpu.drained (dpu : SavedDpu) : DrainedDpu :=
  ⟨dpu.debugged.memberId, dpu.nrOfThreads, dpu.debugged.memberId_lt⟩

inductive CheckpointMemory
  | iram | mram | wram

/-- The calls of `dpu_checkpoint_save` beside those to the debug interface. -/
inductive CheckpointCall
  | contextFill | extractContext | allocate (memory : CheckpointMemory) | copy (memory : CheckpointMemory)

/-- A save: the context as the caller gives it, the DPU as it has been stopped, and how the calls end. -/
structure Save where
  flags : BitVec 32
  isDpu : Bool
  nrOfRunningThreads : BitVec 8
  faultContext : DebugContext
  pipeline : Pipeline
  registers : FaultRegisters
  storage : BitVec 32
  drainCalls : CiCalls
  debugStatus : DebugCommand → DpuError
  status : CheckpointCall → DpuError

/-- The part of a saved `struct dpu_context_t` about faults and threads. -/
structure SavedContext where
  faults : DebugContext
  scheduling : Nat → BitVec 8
  nrOfRunningThreads : BitVec 8

def SavedContext.threads (context : SavedContext) : ThreadContext :=
  ⟨context.faults.pcs, context.scheduling, context.nrOfRunningThreads⟩

def check (status : DpuError) : Except DpuError PUnit := if status = .ok then .ok ⟨⟩ else .error status

/-- `dpu_context_fill`: new arrays, and the fields of the caller. -/
def contextFill (save : Save) : Except DpuError SavedContext := do
  check (save.status .contextFill)
  return ⟨{ save.faultContext with pcs := fun _ => 0#16 }, fun _ => 0#8, save.nrOfRunningThreads⟩

/-- How the draining of the pipeline and the resuming of the other threads end. -/
def drainStatus : Except Failure PUnit → DpuError
  | .ok _ => .ok
  | .error failure => failure.1

/-- The attach of a save, once the threads have been fetched. -/
def attachOf (save : Save) (context : SavedContext) (fetched : Except Failure PUnit × DrainState) : Attach where
  context := context.faults
  drainedPcs := fetched.2.context.pcs
  status command :=
    match command with
    | .drainPipeline => drainStatus fetched.1
    | command => save.debugStatus command

/-- `dpu_initialize_fault_process_for_dpu`. -/
def initializeFaultProcess (dpu : SavedDpu) (save : Save) (context : SavedContext) : Except DpuError SavedContext :=
  if !dpu.enabled then .error .dpuDisabled
  else
    let fetched := exec (fetchThreads dpu.drained save.drainCalls) ⟨save.pipeline, context.threads, 0⟩
    let attach := attachOf save context fetched
    match exec (ciDebugInitDpu dpu.debugged attach dpu.errorStoreSymbol) ⟨save.registers, save.storage,
      context.faults⟩ with
    | (.ok _, s) => .ok ⟨s.context, fetched.2.context.scheduling, fetched.2.context.nrOfRunningThreads⟩
    | (.error status, _) => .error status

def captureMemory (save : Save) (flag : BitVec 32) (memory : CheckpointMemory) : Except DpuError PUnit :=
  if flagsContain save.flags flag then do
    check (save.status (.allocate memory))
    check (save.status (.copy memory))
  else .ok ⟨⟩

def dpuCheckpointSave (dpu : SavedDpu) (save : Save) : Except DpuError SavedContext :=
  if save.isDpu then do
    let mut context ← contextFill save
    if flagsContain save.flags DPU_CHECKPOINT_INTERNAL then
      context ← initializeFaultProcess dpu save context
      check (save.status .extractContext)
    captureMemory save DPU_CHECKPOINT_IRAM .iram
    captureMemory save DPU_CHECKPOINT_MRAM .mram
    captureMemory save DPU_CHECKPOINT_WRAM .wram
    return context
  else .error .invalidDpuSet

section Faults
variable {dpu : DebuggedDpu} {attach : Attach} {s t : DebugState} {faults : Faults} {r : PUnit}

/-- The program counters when the one of a fault's thread has been moved back to the instruction. -/
def movedBack (dpu : DebuggedDpu) (seen : Bool) (thread : Nat) (pcs : Nat → BitVec 16) : Nat → BitVec 16 :=
  if seen then Function.update pcs thread (dpu.previousPc (pcs thread)) else pcs

/-- A breakpoint of the program. -/
def isBreakpoint (dpu : DebuggedDpu) (faults : Faults) (pcs : Nat → BitVec 16) : Bool :=
  isSeen faults.bkpFault (dpuMaskOne dpu.memberId) && bkpId dpu pcs faults.bkpThread != DPU_FAULT_UNKNOWN_ID

/-- The program counters that are recorded, from those of the threads. -/
def recordedPcs (dpu : DebuggedDpu) (faults : Faults) (pcs : Nat → BitVec 16) : Nat → BitVec 16 :=
  movedBack dpu (isSeen faults.memFault (dpuMaskOne dpu.memberId)) faults.memThread
    (movedBack dpu (isSeen faults.dmaFault (dpuMaskOne dpu.memberId)) faults.dmaThread
      (movedBack dpu (isBreakpoint dpu faults pcs) faults.bkpThread pcs))

theorem recordBkpFault_pcs (ok : Returns (recordBkpFault dpu attach faults) s r t) :
    t.context.pcs = movedBack dpu (isBreakpoint dpu faults s.context.pcs) faults.bkpThread s.context.pcs := by
  rw [recordBkpFault] at ok
  rw [movedBack, isBreakpoint]
  split at ok
  · rename_i seen
    simp only [returns_bind, returns_ff, returns_onContext, returns_get] at ok
    obtain ⟨_, _, rfl, _, _, ⟨rfl, rfl⟩, _, _, ⟨_, rfl⟩, _, _, rfl, last⟩ := ok
    split at last
    · rename_i unknown
      rw [returns_onContext] at last
      subst last
      have same : bkpId dpu s.context.pcs faults.bkpThread = DPU_FAULT_UNKNOWN_ID := unknown
      rw [same, bne_self_eq_false, Bool.and_false, if_neg Bool.false_ne_true]
    · rename_i known
      have other : bkpId dpu s.context.pcs faults.bkpThread ≠ DPU_FAULT_UNKNOWN_ID := known
      rw [decrementThreadPc_ok last, seen, Bool.true_and, if_pos (bne_iff_ne.mpr other)]
  · rename_i unseen
    obtain ⟨_, rfl⟩ := returns_pure.mp ok
    rw [Bool.eq_false_iff.mpr unseen, Bool.false_and, if_neg Bool.false_ne_true]

theorem recordDmaFault_pcs (ok : Returns (recordDmaFault dpu attach faults) s r t) :
    t.context.pcs =
      movedBack dpu (isSeen faults.dmaFault (dpuMaskOne dpu.memberId)) faults.dmaThread s.context.pcs := by
  rw [recordDmaFault] at ok
  rw [movedBack]
  split at ok
  · rename_i seen
    simp only [returns_bind, returns_onContext] at ok
    obtain ⟨_, _, rfl, last⟩ := ok
    rw [decrementThreadPc_ok last, if_pos seen]
  · rename_i unseen
    obtain ⟨_, rfl⟩ := returns_pure.mp ok
    rw [if_neg unseen]

theorem recordMemFault_pcs (ok : Returns (recordMemFault dpu attach faults) s r t) :
    t.context.pcs =
      movedBack dpu (isSeen faults.memFault (dpuMaskOne dpu.memberId)) faults.memThread s.context.pcs := by
  rw [recordMemFault] at ok
  rw [movedBack]
  split at ok
  · rename_i seen
    simp only [returns_bind, returns_onContext] at ok
    obtain ⟨_, _, rfl, last⟩ := ok
    rw [decrementThreadPc_ok last, if_pos seen]
  · rename_i unseen
    obtain ⟨_, rfl⟩ := returns_pure.mp ok
    rw [if_neg unseen]

theorem mergeStored_pcs (dmaSeen memSeen : Bool) (storage : BitVec 32) (context : DebugContext) :
    (mergeStored dmaSeen memSeen storage context).pcs = context.pcs := by
  rw [mergeStored]
  split <;> rfl

theorem ciDebugInitDpu_pcs {errorStoreSymbol : Bool}
    (ok : Returns (ciDebugInitDpu dpu attach errorStoreSymbol) s r t) :
    t.context.pcs = recordedPcs dpu (s.registers.faults dpu.memberId) attach.drainedPcs := by
  simp only [ciDebugInitDpu, returns_bind] at ok
  obtain ⟨faults, s₁, read, _, s₂, bkp, _, s₃, dma, _, s₄, mem, last⟩ := ok
  obtain ⟨rfl, _, _, context₁⟩ := readFaults_ok read
  have merged : t.context.pcs = s₄.context.pcs := by
    split at last
    · obtain ⟨_, context, _⟩ := rememberFaults_ok last
      rw [context, mergeStored_pcs]
    · obtain ⟨_, rfl⟩ := returns_pure.mp last
      rfl
  rw [merged, recordMemFault_pcs mem, recordDmaFault_pcs dma, recordBkpFault_pcs bkp, context₁]
  rfl

theorem ciDebugInitDpu_drained {errorStoreSymbol : Bool}
    (ok : Returns (ciDebugInitDpu dpu attach errorStoreSymbol) s r t) : attach.status .drainPipeline = .ok := by
  obtain ⟨faults, u, read, _⟩ := returns_bind.mp ok
  simp only [readFaults, onContext, returns_ff_bind, returns_get_bind, returns_modify_bind, returns_pure] at read
  obtain ⟨_, _, _, _, drained, _⟩ := read
  exact drained

theorem succeeds_debugCall (fine : ∀ command, attach.status command = .ok) (command : DebugCommand) :
    Succeeds (DebugFaults.ff attach command) := by
  rw [DebugFaults.ff, if_pos (fine command)]
  exact succeeds_pure

theorem succeeds_readFaults (fine : ∀ command, attach.status command = .ok) : Succeeds (readFaults dpu attach) := by
  rw [readFaults]
  repeat' first
    | exact succeeds_debugCall fine _
    | exact succeeds_modify
    | exact succeeds_get
    | exact succeeds_pure
    | refine succeeds_bind ?_ fun _ => ?_

theorem succeeds_decrementThreadPc (fine : ∀ command, attach.status command = .ok) (fault : FaultKind)
    (thread : Nat) :
    Succeeds (decrementThreadPc dpu attach fault thread) :=
  succeeds_bind (succeeds_debugCall fine _) fun _ => succeeds_bind succeeds_modify fun _ =>
    succeeds_debugCall fine _

/-- An attach whose calls succeed. -/
theorem succeeds_ciDebugInitDpu (fine : ∀ command, attach.status command = .ok) (errorStoreSymbol : Bool) :
    Succeeds (ciDebugInitDpu dpu attach errorStoreSymbol) := by
  refine succeeds_bind (succeeds_readFaults fine) fun faults => ?_
  have bkp : Succeeds (recordBkpFault dpu attach faults) :=
    succeeds_ite (succeeds_bind succeeds_modify fun _ => succeeds_bind succeeds_get fun _ =>
      succeeds_bind (succeeds_debugCall fine _) fun _ => succeeds_bind succeeds_modify fun _ =>
        succeeds_ite succeeds_modify (succeeds_decrementThreadPc fine _ _)) succeeds_pure
  have dma : Succeeds (recordDmaFault dpu attach faults) :=
    succeeds_ite (succeeds_bind succeeds_modify fun _ => succeeds_decrementThreadPc fine _ _) succeeds_pure
  have mem : Succeeds (recordMemFault dpu attach faults) :=
    succeeds_ite (succeeds_bind succeeds_modify fun _ => succeeds_decrementThreadPc fine _ _) succeeds_pure
  have remember : Succeeds (rememberFaults dpu attach faults) :=
    succeeds_bind (succeeds_debugCall fine _) fun _ => succeeds_bind succeeds_modify fun _ =>
      succeeds_ite (succeeds_bind (succeeds_debugCall fine _) fun _ => succeeds_modify) succeeds_pure
  exact succeeds_bind bkp fun _ => succeeds_bind dma fun _ => succeeds_bind mem fun _ =>
    succeeds_ite remember succeeds_pure

theorem movedBack_congr {pcs pcs' : Nat → BitVec 16} {seen seen' : Bool} {faultThread thread : Nat}
    (same : pcs thread = pcs' thread) (sees : faultThread = thread → seen = seen') :
    movedBack dpu seen faultThread pcs thread = movedBack dpu seen' faultThread pcs' thread := by
  rw [movedBack, movedBack]
  by_cases here : faultThread = thread
  · rw [sees here, here]
    split
    · rw [Function.update_self, Function.update_self, same]
    · exact same
  · have other : thread ≠ faultThread := fun same => here same.symm
    have kept (p : Nat → BitVec 16) (b : Bool) (value : BitVec 16) :
        (if b then Function.update p faultThread value else p) thread = p thread := by
      split
      · exact Function.update_of_ne other _ _
      · rfl
    rw [kept, kept, same]

/-- What is recorded for a thread only depends on its program counter. -/
theorem recordedPcs_congr {pcs pcs' : Nat → BitVec 16} {thread : Nat} (same : pcs thread = pcs' thread) :
    recordedPcs dpu faults pcs thread = recordedPcs dpu faults pcs' thread := by
  refine movedBack_congr (movedBack_congr (movedBack_congr same fun here => ?_) fun _ => rfl) fun _ => rfl
  rw [isBreakpoint, isBreakpoint, bkpId, bkpId, here, same]

end Faults

section Save
variable {dpu : SavedDpu} {save : Save} {saved : SavedContext}

theorem initializeFaultProcess_ok {context : SavedContext} (valid : save.pipeline.Valid dpu.drained)
    (ok : initializeFaultProcess dpu save context = .ok saved) :
    saved.faults.pcs = recordedPcs dpu.debugged (save.registers.faults dpu.debugged.memberId)
        (context.threads.fetched dpu.drained save.pipeline).pcs ∧
      saved.scheduling = (context.threads.fetched dpu.drained save.pipeline).scheduling ∧
      saved.nrOfRunningThreads = (context.threads.fetched dpu.drained save.pipeline).nrOfRunningThreads := by
  rw [initializeFaultProcess] at ok
  split at ok
  · cases ok
  generalize fetch : exec (fetchThreads dpu.drained save.drainCalls) ⟨save.pipeline, context.threads,
    0⟩ = fetched at ok
  obtain ⟨result, u⟩ := fetched
  dsimp only at ok
  split at ok
  · rename_i r s attached
    cases ok
    have drained := ciDebugInitDpu_drained attached
    have pcs := ciDebugInitDpu_pcs attached
    cases result with
    | error failure => exact absurd drained failure.2
    | ok r =>
      have found : u.context = context.threads.fetched dpu.drained save.pipeline := fetchThreads_ok valid fetch
      rw [← found]
      exact ⟨pcs, rfl, rfl⟩
  · cases ok

theorem bind_ok {α β : Type} {x : Except DpuError α} {f : α → Except DpuError β} {b : β} (ok : (x >>= f) = .ok b) :
    ∃ a, x = .ok a ∧ f a = .ok b := by
  cases x with
  | error status => cases ok
  | ok a => exact ⟨a, rfl, ok⟩

theorem dpuCheckpointSave_ok (internal : flagsContain save.flags DPU_CHECKPOINT_INTERNAL = true)
    (ok : dpuCheckpointSave dpu save = .ok saved) :
    ∃ context, contextFill save = .ok context ∧ initializeFaultProcess dpu save context = .ok saved := by
  rw [dpuCheckpointSave] at ok
  split at ok
  · obtain ⟨context, fill, filled⟩ := bind_ok ok
    dsimp only at filled
    obtain ⟨recorded, initialized, extract⟩ := bind_ok filled
    obtain ⟨_, _, iram⟩ := bind_ok extract
    obtain ⟨_, _, mram⟩ := bind_ok iram
    obtain ⟨_, _, wram⟩ := bind_ok mram
    obtain ⟨_, _, last⟩ := bind_ok wram
    cases last
    exact ⟨context, fill, initialized⟩
  · cases ok

theorem contextFill_ok {context : SavedContext} (ok : contextFill save = .ok context) :
    context.threads = ⟨fun _ => 0#16, fun _ => 0#8, save.nrOfRunningThreads⟩ := by
  obtain ⟨_, _, filled⟩ := bind_ok ok
  cases filled
  rfl

theorem saved_start (valid : save.pipeline.Valid dpu.drained)
    (internal : flagsContain save.flags DPU_CHECKPOINT_INTERNAL = true)
    (ok : dpuCheckpointSave dpu save = .ok saved)
    {pc : Nat → BitVec 16} (records : Records dpu.drained save.pipeline.fifo pc saved.threads) :
    save.nrOfRunningThreads = 0#8 ∧ ∀ thread ∈ threads dpu.drained, thread ∈ save.pipeline.fifo := by
  obtain ⟨context, fill, initialized⟩ := dpuCheckpointSave_ok internal ok
  obtain ⟨_, scheduling, count⟩ := initializeFaultProcess_ok valid initialized
  have countThere := records.count
  have waitingThere := records.waiting
  rw [SavedContext.threads, count] at countThere
  rw [SavedContext.threads, scheduling] at waitingThere
  obtain ⟨zero, marked⟩ := fetched_start valid countThere waitingThere
  rw [contextFill_ok fill] at zero marked
  refine ⟨zero, fun thread member => ?_⟩
  by_contra stopped
  exact absurd (marked thread member stopped) (show 0#8 ≠ 0xFF#8 by decide)

/-- A save whose calls succeed. -/
theorem dpuCheckpointSave_succeeds (isDpu : save.isDpu = true) (enabled : dpu.enabled = true)
    (internal : flagsContain save.flags DPU_CHECKPOINT_INTERNAL = true)
    (drains : ∀ n, save.drainCalls.status n = .ok)
    (debugs : ∀ command, save.debugStatus command = .ok) (calls : ∀ call, save.status call = .ok) :
    ∃ saved, dpuCheckpointSave dpu save = .ok saved := by
  have checks (call : CheckpointCall) : check (save.status call) = .ok ⟨⟩ := if_pos (calls call)
  have captures (flag : BitVec 32) (memory : CheckpointMemory) : captureMemory save flag memory = .ok ⟨⟩ := by
    rw [captureMemory, checks, checks]
    split <;> rfl
  obtain ⟨context, fill⟩ : ∃ context, contextFill save = .ok context := by
    rw [contextFill, checks]
    exact ⟨_, rfl⟩
  obtain ⟨saved, initialized⟩ : ∃ saved, initializeFaultProcess dpu save context = .ok saved := by
    obtain ⟨_, u, fetch⟩ :=
      @succeeds_fetchThreads dpu.drained save.drainCalls drains ⟨save.pipeline, context.threads, 0⟩
    have fetched : exec (fetchThreads dpu.drained save.drainCalls) ⟨save.pipeline, context.threads,
      0⟩ = (.ok _, u) := fetch
    have fine : ∀ command, (attachOf save context (.ok ⟨⟩, u)).status command = .ok := by
      intro command
      cases command <;> first | rfl | exact debugs _
    obtain ⟨_, t, attached⟩ :=
      @succeeds_ciDebugInitDpu dpu.debugged _ fine dpu.errorStoreSymbol ⟨save.registers, save.storage,
        context.faults⟩
    have attach : exec (ciDebugInitDpu dpu.debugged (attachOf save context (.ok ⟨⟩, u)) dpu.errorStoreSymbol)
        ⟨save.registers, save.storage, context.faults⟩ = (.ok _, t) := attached
    rw [initializeFaultProcess, fetched]
    dsimp only
    rw [attach, if_neg (by simp [enabled])]
    exact ⟨_, rfl⟩
  refine ⟨saved, ?_⟩
  rw [dpuCheckpointSave, if_pos isDpu, fill]
  dsimp only [bind, Except.bind]
  rw [if_pos internal, initialized]
  dsimp only
  rw [checks]
  dsimp only
  rw [captures, captures, captures]
  rfl

/-- A save records the threads when the caller gives a counter of 0 and all threads of the DPU run. -/
theorem dpuCheckpointSave_records_iff (dpu : SavedDpu) (save : Save) (saved : SavedContext)
    (valid : save.pipeline.Valid dpu.drained) (internal : flagsContain save.flags DPU_CHECKPOINT_INTERNAL = true)
    (ok : dpuCheckpointSave dpu save = .ok saved) :
    Records dpu.drained save.pipeline.fifo
        (recordedPcs dpu.debugged (save.registers.faults dpu.debugged.memberId) save.pipeline.pc) saved.threads ↔
      save.nrOfRunningThreads = 0#8 ∧ ∀ thread ∈ threads dpu.drained, thread ∈ save.pipeline.fifo := by
  constructor
  · exact saved_start valid internal ok
  · rintro ⟨zero, all⟩
    obtain ⟨context, fill, initialized⟩ := dpuCheckpointSave_ok internal ok
    obtain ⟨pcs, scheduling, count⟩ := initializeFaultProcess_ok valid initialized
    have start : context.threads.nrOfRunningThreads = 0#8 := by rw [contextFill_ok fill, zero]
    have records := (fetched_records_iff context.threads valid).mpr
      ⟨start, fun thread member stopped => absurd (all thread member) stopped⟩
    refine ⟨?_, ?_, ?_, fun thread member => ?_⟩
    · rw [SavedContext.threads, count]
      exact records.count
    · rw [SavedContext.threads, scheduling]
      exact records.waiting
    · rw [SavedContext.threads, scheduling]
      exact records.positions
    · rw [SavedContext.threads, pcs]
      exact recordedPcs_congr (records.pcs thread member)

end Save

/-- A DPU with two threads and without faults, some of whose threads run. -/
def twoThreads : SavedDpu := ⟨⟨0, fun _ => 0#64, 0x1000#16, by decide⟩, 2#8, true, false⟩

def saveOf (fifo : List Nat) : Save where
  flags := DPU_CHECKPOINT_INTERNAL
  isDpu := true
  nrOfRunningThreads := 0#8
  faultContext := ⟨false, 0, 0#32, false, 0, false, 0, fun _ => 0#16⟩
  pipeline := ⟨fifo, fun thread => BitVec.ofNat 16 (0x10 + thread), 0#16⟩
  registers := ⟨0#8, 0#8, 0#8, 0, 0, 0, by decide, by decide⟩
  storage := 0#32
  drainCalls := ⟨fun _ => .ok, fun _ => 0xFF#8, ⟨fun _ => 0#8, fun _ => 0#8⟩⟩
  debugStatus _ := .ok
  status _ := .ok

theorem saveOf_internal (fifo : List Nat) : flagsContain (saveOf fifo).flags DPU_CHECKPOINT_INTERNAL = true :=
  show flagsContain DPU_CHECKPOINT_INTERNAL DPU_CHECKPOINT_INTERNAL = true by decide

theorem saveOf_succeeds (fifo : List Nat) : ∃ saved, dpuCheckpointSave twoThreads (saveOf fifo) = .ok saved :=
  dpuCheckpointSave_succeeds rfl rfl (saveOf_internal fifo) (fun _ => rfl) (fun _ => rfl) fun _ => rfl

theorem saveOf_valid {fifo : List Nat} (nodup : fifo.Nodup) (inside : ∀ thread ∈ fifo, thread < 2) :
    (saveOf fifo).pipeline.Valid twoThreads.drained :=
  ⟨nodup, fun thread member => List.mem_range.mpr (inside thread member)⟩

theorem dpuCheckpointSave_records_iff_both : ∃ saved, dpuCheckpointSave twoThreads (saveOf [1, 0]) = .ok saved ∧
    Records twoThreads.drained [1, 0]
      (recordedPcs twoThreads.debugged ((saveOf [1, 0]).registers.faults 0) (saveOf [1,
        0]).pipeline.pc) saved.threads := by
  obtain ⟨saved, ok⟩ := saveOf_succeeds [1, 0]
  have valid := saveOf_valid (by decide : [1, 0].Nodup) (by decide)
  exact ⟨saved, ok,
    (dpuCheckpointSave_records_iff twoThreads (saveOf [1, 0]) saved valid (saveOf_internal _) ok).mpr
    ⟨rfl, by decide⟩⟩

/-- The thread 1 does not run. -/
theorem oneRunning_not_recorded : ∃ saved, dpuCheckpointSave twoThreads (saveOf [0]) = .ok saved ∧
    ¬Records twoThreads.drained [0]
      (recordedPcs twoThreads.debugged ((saveOf [0]).registers.faults 0) (saveOf [0]).pipeline.pc)
      saved.threads := by
  obtain ⟨saved, ok⟩ := saveOf_succeeds [0]
  have valid := saveOf_valid (by decide : [0].Nodup) (by decide)
  exact ⟨saved, ok,
    fun records => absurd ((saved_start valid (saveOf_internal _) ok records).2 1 (by decide)) (by decide)⟩

end Upmem.CheckpointSave
