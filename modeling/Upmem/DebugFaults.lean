import Upmem.Lib.Commands
import Upmem.MramProgram

namespace Upmem.DebugFaults
open Commands MramAccess

def DPU_NR_THREADS : Nat := 24

theorem DPU_NR_THREADS_pos : 0 < DPU_NR_THREADS := by decide
def DPU_FAULT_UNKNOWN_ID : BitVec 32 := 0xffffff#32

/-- The answers of a control interface about faults: a bit for each of its DPUs, and the
thread of the selected one. -/
structure FaultRegisters where
  bkpFault : BitVec 8
  dmaFault : BitVec 8
  memFault : BitVec 8
  bkpThread : Nat
  dmaThread : Nat
  memThread : Nat
  dmaThread_lt : dmaThread < DPU_NR_THREADS
  memThread_lt : memThread < DPU_NR_THREADS

/-- The fields of `struct dpu_context_t` for the faults and the program counters. -/
structure DebugContext where
  bkpFault : Bool
  bkpFaultThreadIndex : Nat
  bkpFaultId : BitVec 32
  dmaFault : Bool
  dmaFaultThreadIndex : Nat
  memFault : Bool
  memFaultThreadIndex : Nat
  pcs : Nat → BitVec 16

/-- A stopped DPU: its faults and the word of WRAM at `error_storage`, and the context that is filled. -/
structure DebugState where
  registers : FaultRegisters
  storage : BitVec 32
  context : DebugContext

/-- What a debugger attaches to. -/
structure DebuggedDpu where
  memberId : Nat
  iram : BitVec 16 → BitVec 64
  iramSize : BitVec 16
  memberId_lt : memberId < 8

inductive FaultKind
  | bkp | dma | mem

/-- The calls of `ci_debug_init_dpu` that can fail. -/
inductive DebugCommand
  | selectDpu | readBkpThread | readBkpFault | setBkpFault | drainPipeline | resumeThreads | readDmaThread
      | readMemThread
  | clearFaultBkp | readDmaFault | readMemFault | clearFaultDpu | copyFromIram | decrementPcStart
      (fault : FaultKind)
  | decrementPcEnd (fault : FaultKind) | copyFromWram | copyToWram

/-- An attach: the context as the caller gives it, the program counters that draining the
pipeline finds, and the status of each call. A call that fails has no effect. -/
structure Attach where
  context : DebugContext
  drainedPcs : Nat → BitVec 16
  status : DebugCommand → DpuError

abbrev DebugM := CommandM DpuError DebugState

def ff (attach : Attach) (command : DebugCommand) : DebugM Unit :=
  if attach.status command = .ok then pure () else throw (attach.status command)

/-- `FAULTi`. -/
def faultI (imm : BitVec 64) : BitVec 64 :=
  0x7e6320000000#64 ||| (imm &&& 0xf#64) <<< 20 ||| (imm >>> 4 &&& 0xf#64) <<< 16
    ||| (imm >>> 8 &&& 0x1#64) <<< 15 |||
    (imm >>> 9 &&& 0x1#64) <<< 14 ||| (imm >>> 10 &&& 0x1#64) <<< 13 ||| (imm >>> 11 &&& 0x1#64) <<< 12 |||
    (imm >>> 12 &&& 0xfff#64)

/-- The identifier of `extract_bkp_fault_id`, from the instruction before the program counter. -/
def bkpFaultIdOf (instruction : BitVec 64) : BitVec 32 :=
  let faultInstructionMask := faultI 0#64
  if instruction &&& faultInstructionMask ≠ faultInstructionMask then DPU_FAULT_UNKNOWN_ID
  else
    (List.range 32).foldl (fun immediate eachBit =>
      let bitLocation := faultI (1#64 <<< eachBit) ^^^ faultInstructionMask
      if instruction &&& bitLocation ≠ 0#64 then immediate ||| 1#32 <<< eachBit else immediate) 0#32

/-- The address before a program counter. -/
def DebuggedDpu.previousPc (dpu : DebuggedDpu) (pc : BitVec 16) : BitVec 16 :=
  if pc = 0#16 then dpu.iramSize - 1#16 else pc - 1#16

/-- `(result_array[slice_id] & mask_one) != 0`, as the integer that keeps it. -/
def faultFlag (result : BitVec 8) (maskOne : BitVec 8) : BitVec 32 :=
  if result &&& maskOne ≠ 0#8 then 1#32 else 0#32

/-- `(fault & mask_one) != 0`. -/
def isSeen (fault : BitVec 32) (maskOne : BitVec 8) : Bool := fault &&& maskOne.setWidth 32 != 0#32

def onContext (change : DebugContext → DebugContext) : DebugM PUnit :=
  modify fun s => { s with context := change s.context }

/-- `decrement_thread_pc`. -/
def decrementThreadPc (dpu : DebuggedDpu) (attach : Attach) (fault : FaultKind) (thread : Nat) : DebugM PUnit := do
  ff attach (.decrementPcStart fault)
  onContext fun context =>
    { context with pcs := Function.update context.pcs thread (dpu.previousPc (context.pcs thread)) }
  ff attach (.decrementPcEnd fault)

/-- The flags of the faults, and their threads. -/
structure Faults where
  bkpFault : BitVec 32
  dmaFault : BitVec 32
  memFault : BitVec 32
  bkpThread : Nat
  dmaThread : Nat
  memThread : Nat

/-- The steps 1 to 3 of `ci_debug_init_dpu`. Reading a DMA or a memory fault clears it. -/
def readFaults (dpu : DebuggedDpu) (attach : Attach) : DebugM Faults := do
  let maskOne := dpuMaskOne dpu.memberId
  ff attach .selectDpu
  ff attach .readBkpThread
  ff attach .readBkpFault
  let bkp := (← get).registers
  ff attach .setBkpFault
  ff attach .drainPipeline
  onContext fun context => { context with pcs := attach.drainedPcs }
  ff attach .resumeThreads
  ff attach .readDmaThread
  ff attach .readMemThread
  ff attach .clearFaultBkp
  modify fun s => { s with registers := { s.registers with bkpFault := s.registers.bkpFault &&& ~~~maskOne } }
  ff attach .readDmaFault
  let dma := (← get).registers
  modify fun s => { s with registers := { s.registers with dmaFault := s.registers.dmaFault &&& ~~~maskOne } }
  ff attach .readMemFault
  let mem := (← get).registers
  modify fun s => { s with registers := { s.registers with memFault := s.registers.memFault &&& ~~~maskOne } }
  ff attach .clearFaultDpu
  return ⟨faultFlag bkp.bkpFault maskOne, faultFlag dma.dmaFault maskOne, faultFlag mem.memFault maskOne,
    bkp.bkpThread,
    dma.dmaThread, mem.memThread⟩

def recordBkpFault (dpu : DebuggedDpu) (attach : Attach) (faults : Faults) : DebugM PUnit := do
  if isSeen faults.bkpFault (dpuMaskOne dpu.memberId) then
    onContext fun context => { context with bkpFault := true, bkpFaultThreadIndex := faults.bkpThread }
    let previousPc := dpu.previousPc ((← get).context.pcs faults.bkpThread)
    ff attach .copyFromIram
    let id := bkpFaultIdOf (dpu.iram previousPc)
    onContext fun context => { context with bkpFaultId := id }
    if id = DPU_FAULT_UNKNOWN_ID then onContext fun context => { context with bkpFault := false }
    else decrementThreadPc dpu attach .bkp faults.bkpThread

def recordDmaFault (dpu : DebuggedDpu) (attach : Attach) (faults : Faults) : DebugM PUnit := do
  if isSeen faults.dmaFault (dpuMaskOne dpu.memberId) then
    onContext fun context => { context with dmaFault := true, dmaFaultThreadIndex := faults.dmaThread }
    decrementThreadPc dpu attach .dma faults.dmaThread

def recordMemFault (dpu : DebuggedDpu) (attach : Attach) (faults : Faults) : DebugM PUnit := do
  if isSeen faults.memFault (dpuMaskOne dpu.memberId) then
    onContext fun context => { context with memFault := true, memFaultThreadIndex := faults.memThread }
    decrementThreadPc dpu attach .mem faults.memThread

/-- The merge of what the storage remembers into the context. -/
def mergeStored (dmaSeen memSeen : Bool) (storage : BitVec 32) (context : DebugContext) : DebugContext :=
  match decodeErrorStorage storage with
  | none => context
  | some stored =>
    { context with
      dmaFault := context.dmaFault || stored.dmaFault
      dmaFaultThreadIndex := if dmaSeen then context.dmaFaultThreadIndex else stored.dmaFaultThreadIndex
      memFault := context.memFault || stored.memFault
      memFaultThreadIndex := if memSeen then context.memFaultThreadIndex else stored.memFaultThreadIndex }

/-- The end of `ci_debug_init_dpu` for a program that has `error_storage`. The thread of
the DMA fault is given twice. -/
def rememberFaults (dpu : DebuggedDpu) (attach : Attach) (faults : Faults) : DebugM PUnit := do
  let dmaSeen := isSeen faults.dmaFault (dpuMaskOne dpu.memberId)
  let memSeen := isSeen faults.memFault (dpuMaskOne dpu.memberId)
  ff attach .copyFromWram
  modify fun s => { s with context := mergeStored dmaSeen memSeen s.storage s.context }
  if dmaSeen || memSeen then
    ff attach .copyToWram
    modify fun s =>
      { s with
        storage := encodeErrorStorage s.context.dmaFault s.context.dmaFaultThreadIndex s.context.memFault
          s.context.dmaFaultThreadIndex }

def ciDebugInitDpu (dpu : DebuggedDpu) (attach : Attach) (errorStoreSymbol : Bool) : DebugM PUnit := do
  let faults ← readFaults dpu attach
  recordBkpFault dpu attach faults
  recordDmaFault dpu attach faults
  recordMemFault dpu attach faults
  if errorStoreSymbol then rememberFaults dpu attach faults

section Success
variable {dpu : DebuggedDpu} {attach : Attach} {s t : DebugState}

theorem returns_ff {command : DebugCommand} {r : PUnit} :
    Returns (ff attach command) s r t ↔ attach.status command = .ok ∧ s = t := by
  rw [ff]
  split
  · rename_i ok
    simp [returns_pure, ok]
  · rename_i failed
    simp [not_returns_throw, failed]

theorem returns_ff_bind {α : Type} {command : DebugCommand} {f : PUnit → DebugM α} {a : α} :
    Returns (ff attach command >>= f) s a t ↔ attach.status command = .ok ∧ Returns (f ⟨⟩) s a t := by
  rw [returns_bind]
  constructor
  · rintro ⟨_, _, first, rest⟩
    obtain ⟨ok, rfl⟩ := returns_ff.mp first
    exact ⟨ok, rest⟩
  · rintro ⟨ok, rest⟩
    exact ⟨⟨⟩, s, returns_ff.mpr ⟨ok, rfl⟩, rest⟩

theorem returns_onContext {change : DebugContext → DebugContext} {r : PUnit} :
    Returns (onContext change) s r t ↔ { s with context := change s.context } = t := returns_modify

/-- The registers once the faults of a DPU have been read. -/
def FaultRegisters.cleared (registers : FaultRegisters) (memberId : Nat) : FaultRegisters :=
  { registers with
    bkpFault := registers.bkpFault &&& ~~~dpuMaskOne memberId
    dmaFault := registers.dmaFault &&& ~~~dpuMaskOne memberId
    memFault := registers.memFault &&& ~~~dpuMaskOne memberId }

def FaultRegisters.faults (registers : FaultRegisters) (memberId : Nat) : Faults :=
  ⟨faultFlag registers.bkpFault (dpuMaskOne memberId), faultFlag registers.dmaFault (dpuMaskOne memberId),
    faultFlag registers.memFault (dpuMaskOne memberId), registers.bkpThread, registers.dmaThread,
      registers.memThread⟩

theorem readFaults_ok {faults : Faults} (ok : Returns (readFaults dpu attach) s faults t) :
    faults = s.registers.faults dpu.memberId ∧ t.registers = s.registers.cleared dpu.memberId ∧
      t.storage = s.storage ∧
      t.context = { s.context with pcs := attach.drainedPcs } := by
  simp only [readFaults, onContext, returns_ff_bind, returns_get_bind, returns_modify_bind, returns_pure] at ok
  obtain ⟨_, _, _, _, _, _, _, _, _, _, _, _, rfl, rfl⟩ := ok
  exact ⟨rfl, rfl, rfl, rfl⟩

/-- Commands that only change the context, and there neither the DMA fault nor the memory fault. -/
structure KeepsOthers (s t : DebugState) : Prop where
  registers : t.registers = s.registers
  storage : t.storage = s.storage
  dmaFault : t.context.dmaFault = s.context.dmaFault
  dmaFaultThreadIndex : t.context.dmaFaultThreadIndex = s.context.dmaFaultThreadIndex
  memFault : t.context.memFault = s.context.memFault
  memFaultThreadIndex : t.context.memFaultThreadIndex = s.context.memFaultThreadIndex

theorem decrementThreadPc_ok {fault : FaultKind} {thread : Nat} {r : PUnit}
    (ok : Returns (decrementThreadPc dpu attach fault thread) s r t) :
    t = { s with
      context := { s.context with
        pcs := Function.update s.context.pcs thread (dpu.previousPc (s.context.pcs thread)) } } := by
  simp only [decrementThreadPc, returns_bind, returns_ff, returns_onContext] at ok
  obtain ⟨_, _, ⟨_, rfl⟩, _, _, rfl, _, rfl⟩ := ok
  rfl

/-- The identifier of a breakpoint, from the program counter of its thread. -/
def bkpId (dpu : DebuggedDpu) (pcs : Nat → BitVec 16) (thread : Nat) : BitVec 32 :=
  bkpFaultIdOf (dpu.iram (dpu.previousPc (pcs thread)))

variable {faults : Faults} {r : PUnit}

theorem recordBkpFault_ok (ok : Returns (recordBkpFault dpu attach faults) s r t) :
    KeepsOthers s t ∧
      if isSeen faults.bkpFault (dpuMaskOne dpu.memberId) then
        t.context.bkpFault = decide (bkpId dpu s.context.pcs faults.bkpThread ≠ DPU_FAULT_UNKNOWN_ID) ∧
          t.context.bkpFaultThreadIndex = faults.bkpThread
      else t.context.bkpFault = s.context.bkpFault ∧
      t.context.bkpFaultThreadIndex = s.context.bkpFaultThreadIndex := by
  rw [recordBkpFault] at ok
  split at ok
  · rename_i seen
    rw [if_pos seen]
    simp only [returns_bind, returns_ff, returns_onContext, returns_get] at ok
    obtain ⟨_, _, rfl, _, _, ⟨rfl, rfl⟩, _, _, ⟨_, rfl⟩, _, _, rfl, last⟩ := ok
    split at last
    · rename_i unknown
      rw [returns_onContext] at last
      subst last
      exact ⟨⟨rfl, rfl, rfl, rfl, rfl, rfl⟩, (decide_eq_false (not_not.mpr unknown)).symm, rfl⟩
    · rename_i known
      rw [decrementThreadPc_ok last]
      exact ⟨⟨rfl, rfl, rfl, rfl, rfl, rfl⟩, (decide_eq_true known).symm, rfl⟩
  · rename_i unseen
    obtain ⟨_, rfl⟩ := returns_pure.mp ok
    rw [if_neg unseen]
    exact ⟨⟨rfl, rfl, rfl, rfl, rfl, rfl⟩, rfl, rfl⟩

/-- What recording a DMA or a memory fault keeps. -/
structure KeepsBkp (s t : DebugState) : Prop where
  registers : t.registers = s.registers
  storage : t.storage = s.storage
  bkpFault : t.context.bkpFault = s.context.bkpFault
  bkpFaultThreadIndex : t.context.bkpFaultThreadIndex = s.context.bkpFaultThreadIndex

theorem recordDmaFault_ok (ok : Returns (recordDmaFault dpu attach faults) s r t) :
    KeepsBkp s t ∧ t.context.memFault = s.context.memFault ∧
      t.context.memFaultThreadIndex = s.context.memFaultThreadIndex ∧
      t.context.dmaFault = (isSeen faults.dmaFault (dpuMaskOne dpu.memberId) || s.context.dmaFault) ∧
      t.context.dmaFaultThreadIndex = if isSeen faults.dmaFault (dpuMaskOne dpu.memberId) then faults.dmaThread
        else s.context.dmaFaultThreadIndex := by
  rw [recordDmaFault] at ok
  split at ok
  · rename_i seen
    simp only [returns_bind, returns_onContext] at ok
    obtain ⟨_, _, rfl, last⟩ := ok
    rw [decrementThreadPc_ok last, seen]
    exact ⟨⟨rfl, rfl, rfl, rfl⟩, rfl, rfl, rfl, rfl⟩
  · rename_i unseen
    obtain ⟨_, rfl⟩ := returns_pure.mp ok
    rw [Bool.eq_false_iff.mpr unseen]
    exact ⟨⟨rfl, rfl, rfl, rfl⟩, rfl, rfl, rfl, rfl⟩

theorem recordMemFault_ok (ok : Returns (recordMemFault dpu attach faults) s r t) :
    KeepsBkp s t ∧ t.context.dmaFault = s.context.dmaFault ∧
      t.context.dmaFaultThreadIndex = s.context.dmaFaultThreadIndex ∧
      t.context.memFault = (isSeen faults.memFault (dpuMaskOne dpu.memberId) || s.context.memFault) ∧
      t.context.memFaultThreadIndex = if isSeen faults.memFault (dpuMaskOne dpu.memberId) then faults.memThread
        else s.context.memFaultThreadIndex := by
  rw [recordMemFault] at ok
  split at ok
  · rename_i seen
    simp only [returns_bind, returns_onContext] at ok
    obtain ⟨_, _, rfl, last⟩ := ok
    rw [decrementThreadPc_ok last, seen]
    exact ⟨⟨rfl, rfl, rfl, rfl⟩, rfl, rfl, rfl, rfl⟩
  · rename_i unseen
    obtain ⟨_, rfl⟩ := returns_pure.mp ok
    rw [Bool.eq_false_iff.mpr unseen]
    exact ⟨⟨rfl, rfl, rfl, rfl⟩, rfl, rfl, rfl, rfl⟩

theorem rememberFaults_ok (ok : Returns (rememberFaults dpu attach faults) s r t) :
    let dmaSeen := isSeen faults.dmaFault (dpuMaskOne dpu.memberId)
    let memSeen := isSeen faults.memFault (dpuMaskOne dpu.memberId)
    t.registers = s.registers ∧ t.context = mergeStored dmaSeen memSeen s.storage s.context ∧
      t.storage = if dmaSeen || memSeen then encodeErrorStorage t.context.dmaFault t.context.dmaFaultThreadIndex
        t.context.memFault t.context.dmaFaultThreadIndex else s.storage := by
  intro dmaSeen memSeen
  simp only [rememberFaults, returns_bind, returns_ff, returns_modify] at ok
  obtain ⟨_, _, ⟨_, rfl⟩, _, _, rfl, last⟩ := ok
  split at last
  · rename_i seen
    simp only [returns_bind, returns_ff, returns_modify] at last
    obtain ⟨_, _, ⟨_, rfl⟩, rfl⟩ := last
    refine ⟨rfl, rfl, ?_⟩
    rw [if_pos seen]
  · rename_i unseen
    obtain ⟨_, rfl⟩ := returns_pure.mp last
    refine ⟨rfl, rfl, ?_⟩
    rw [if_neg unseen]

end Success

end Upmem.DebugFaults
