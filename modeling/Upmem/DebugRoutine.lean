import Upmem.DebugFaults
import Upmem.Ufi

namespace Upmem.DebugRoutine
open Commands Ci Ufi

def DPU_NR_ATOMIC_BITS : Nat := 256
def DPU_NR_WORK_REGS : Nat := 24

def ATOMIC_REG_SIZE_IN_WORDS : Nat := DPU_NR_ATOMIC_BITS / 4
def WORK_REGS_SIZE_IN_WORDS : Nat := DebugFaults.DPU_NR_THREADS * DPU_NR_WORK_REGS
def FLAGS_SIZE_IN_WORDS : Nat := DebugFaults.DPU_NR_THREADS

/-- `context_size_in_words`. -/
def contextSizeInWords : Nat := ATOMIC_REG_SIZE_IN_WORDS + WORK_REGS_SIZE_IN_WORDS + FLAGS_SIZE_IN_WORDS

/-- The memories of a DPU that its control interface reads and writes. An instruction has 48 bits. -/
@[ext] structure DpuMemories where
  iram : Nat → BitVec 48
  wram : Nat → BitVec 32

/-- The fields of `struct dpu_context_t` for the registers. -/
structure RegisterContext where
  atomicRegister : Nat → Bool
  registers : Nat → BitVec 32
  carryFlags : Nat → Bool
  zeroFlags : Nat → Bool
  pcs : Nat → BitVec 16

/-- A DPU, with the part of its description that the routines read. -/
structure RoutineDpu where
  memberId : Nat
  enabled : Bool
  nrOfAtomicBits : Nat
  nrOfThreads : Nat
  nrOfWorkRegistersPerThread : Nat

/-- The control interface of the DPU: the selection that `slice_info` records, the one
that it has, and the memories of its DPUs. -/
structure SliceState where
  sliceTarget : SliceTarget
  hardware : CiHardware
  memories : Nat → DpuMemories
  context : RegisterContext

abbrev RoutineM := CommandM DpuError SliceState

/-- A command that `reached` tells to be executed, which it is when it succeeds. -/
structure CommandOutcome where
  status : DpuError
  reached : Bool
  reaches : status = .ok → reached = true

/-- How a loop of writes ends, and how many words it has written when it fails. -/
structure WriteOutcome where
  status : DpuError
  written : Nat

/-- How `dpu_switch_mux_for_dpu_line` ends: what it leaves as recorded and actual selections. -/
structure MuxOutcome where
  status : DpuError
  recorded : SliceTarget
  selected : SliceTarget
  agree : status = .ok → selected = recorded

/-- What the program that is booted on the DPU leaves in WRAM. It only writes
the place of the context: `coreDump.c` stores it there, `restoreRegisters.c`
stores nothing. -/
structure HelperRun where
  wram : DpuMemories → Nat → BitVec 32
  outside : ∀ memories address, contextSizeInWords ≤ address → wram memories address = memories.wram address

/-- The steps of a routine. The program runs until a poll of its run bit ends the wait. -/
structure RoutineOutcomes where
  bootSelect : CommandOutcome
  switchMux : MuxOutcome
  threadSelect : CommandOutcome
  boot : CommandOutcome
  run : HelperRun
  wait : DpuError
  wramSelect : CommandOutcome
  wramRead : DpuError
  wramWrite : WriteOutcome

/-- The steps of `dpu_execute_routine_for_dpu`. An allocation gives a buffer with what
it contains, and `mixed` is what is read when not exactly one DPU is selected. -/
structure Outcomes where
  startEvent : DpuError
  program : Option ((Nat → BitVec 64) × BitVec 16)
  iramBackup : Option (Nat → BitVec 64)
  select : CommandOutcome
  iramRead : DpuError
  wramBackup : Option (Nat → BitVec 32)
  wramRead : DpuError
  programWrite : WriteOutcome
  rawContext : Option (Nat → BitVec 32)
  routine : RoutineOutcomes
  wramRestore : WriteOutcome
  iramRestore : WriteOutcome
  endEvent : DpuError
  mixed : DpuMemories

def ff (status : DpuError) : RoutineM PUnit := if status = .ok then pure ⟨⟩ else throw status

/-- `malloc`, and `fetch_program`. -/
def allocate {α : Type} (result : Option α) : RoutineM α :=
  match result with
  | some buffer => pure buffer
  | none => throw .system

/-- The first words of a memory are written. -/
def overwrite {α : Type} (memory source : Nat → α) (count : Nat) : Nat → α :=
  fun address => if address < count then source address else memory address

def DpuMemories.writeIram (memories : DpuMemories) (source : Nat → BitVec 64) (count : Nat) : DpuMemories :=
  { memories with iram := overwrite memories.iram (fun address => (source address).setWidth 48) count }

def DpuMemories.writeWram (memories : DpuMemories) (source : Nat → BitVec 32) (count : Nat) : DpuMemories :=
  { memories with wram := overwrite memories.wram source count }

def HelperRun.exec (run : HelperRun) (memories : DpuMemories) : DpuMemories :=
  { memories with wram := run.wram memories }

def WriteOutcome.count (outcome : WriteOutcome) (len : Nat) : Nat := if outcome.status = .ok then len
      else min outcome.written len

/-- A change of the memories of the selected DPUs. -/
def SliceState.onSelected (s : SliceState) (change : DpuMemories → DpuMemories) : SliceState :=
  { s with memories := fun dpu => if s.hardware.Addressed dpu then change (s.memories dpu) else s.memories dpu }

/-- The memories that a control interface reads. -/
def SliceState.answers (s : SliceState) (mixed : DpuMemories) : DpuMemories :=
  match s.hardware.selected with
  | .dpu dpuId => s.memories dpuId
  | _ => mixed

section Commands
variable (dpu : RoutineDpu) (o : Outcomes)

/-- `ufi_select_dpu`: whether the mask keeps the control interface. -/
def ufiSelectDpu (outcome : CommandOutcome) : RoutineM Bool := do
  if !dpu.enabled then return false
  if (← get).sliceTarget = .dpu dpu.memberId then return true
  modify fun s =>
    { s with
      sliceTarget := .dpu dpu.memberId
      hardware := if outcome.reached then s.hardware.perform (.select (.dpu dpu.memberId)) else s.hardware }
  ff outcome.status
  return true

def ufiIramRead (on : Bool) (buffer : Nat → BitVec 64) (len : Nat) (status : DpuError) :
    RoutineM (Nat → BitVec 64) := do
  ff status
  let memories := (← get).answers o.mixed
  return if on then overwrite buffer (fun address => (memories.iram address).setWidth 64) len else buffer

def ufiWramRead (on : Bool) (buffer : Nat → BitVec 32) (len : Nat) (status : DpuError) :
    RoutineM (Nat → BitVec 32) := do
  ff status
  let memories := (← get).answers o.mixed
  return if on then overwrite buffer memories.wram len else buffer

def ufiIramWrite (on : Bool) (source : Nat → BitVec 64) (len : Nat) (outcome : WriteOutcome) : RoutineM PUnit := do
  modify fun s => if on then s.onSelected fun memories => memories.writeIram source (outcome.count len) else s
  ff outcome.status

def ufiWramWrite (on : Bool) (source : Nat → BitVec 32) (len : Nat) (outcome : WriteOutcome) : RoutineM PUnit := do
  modify fun s => if on then s.onSelected fun memories => memories.writeWram source (outcome.count len) else s
  ff outcome.status

def dpuSwitchMuxForDpuLine (outcome : MuxOutcome) : RoutineM PUnit := do
  modify fun s =>
    { s with sliceTarget := outcome.recorded, hardware := { s.hardware with selected := outcome.selected } }
  ff outcome.status

def ufiThreadBoot (on : Bool) (outcome : CommandOutcome) (run : HelperRun) : RoutineM PUnit := do
  modify fun s => if on && outcome.reached then s.onSelected run.exec else s
  ff outcome.status

/-- `ci_start_thread_dpu` for the thread 0, without resuming it. -/
def ciStartThreadDpu : RoutineM PUnit := do
  dpuSwitchMuxForDpuLine o.routine.switchMux
  let on ← ufiSelectDpu dpu o.routine.threadSelect
  ufiThreadBoot on o.routine.boot o.routine.run

def dpuBootAndWaitForDpu : RoutineM PUnit := do
  let _ ← ufiSelectDpu dpu o.routine.bootSelect
  ciStartThreadDpu dpu o
  ff o.routine.wait

end Commands

section Format
variable (dpu : RoutineDpu)

def setByte (word : BitVec 32) (index : Nat) (byte : BitVec 8) : BitVec 32 :=
  word &&& ~~~(0xff#32 <<< (8 * index)) ||| byte.setWidth 32 <<< (8 * index)

/-- The place of an odd register in the context; the even one before it follows. -/
def oddRegisterContextIndex (thread register : Nat) : Nat :=
  ATOMIC_REG_SIZE_IN_WORDS + register * DebugFaults.DPU_NR_THREADS + 2 * thread

/-- The even registers of each thread. -/
def RoutineDpu.registerPairs (dpu : RoutineDpu) : List (Nat × Nat) :=
  (List.range dpu.nrOfThreads).flatMap fun thread =>
    (List.range ((dpu.nrOfWorkRegistersPerThread + 1) / 2)).map fun pair => (thread, 2 * pair)

def formatRegisters (context : RegisterContext) (raw : Nat → BitVec 32) : Nat → BitVec 32 :=
  dpu.registerPairs.foldl (fun raw (thread, register) =>
    let even := thread * dpu.nrOfWorkRegistersPerThread + register
    let odd := oddRegisterContextIndex thread register
    Function.update (Function.update raw odd (context.registers (even + 1))) (odd + 1) (context.registers even)) raw

/-- The context as `dpu_restore_context_for_dpu_routine` puts it into a buffer. -/
def formatContext (context : RegisterContext) (buffer : Nat → BitVec 32) : Nat → BitVec 32 :=
  let atomics := (List.range dpu.nrOfAtomicBits).foldl (fun raw bit =>
    Function.update raw (bit / 4) (setByte (raw (bit / 4)) (bit % 4) (if context.atomicRegister bit then
      0xff#8 else 0#8))) buffer
  (List.range dpu.nrOfThreads).foldl (fun raw thread =>
    Function.update raw (ATOMIC_REG_SIZE_IN_WORDS + WORK_REGS_SIZE_IN_WORDS + thread)
      ((if context.carryFlags thread then 1#32 else 0#32) + if context.zeroFlags thread then 2#32 else 0#32))
    (formatRegisters dpu context atomics)

/-- The context that `dpu_extract_context_for_dpu_routine` finds in a buffer. -/
def parseContext (raw : Nat → BitVec 32) (context : RegisterContext) : RegisterContext :=
  let flags thread := raw (ATOMIC_REG_SIZE_IN_WORDS + WORK_REGS_SIZE_IN_WORDS + thread)
  { context with
    atomicRegister := fun bit =>
      if bit < dpu.nrOfAtomicBits then decide (raw (bit / 4) >>> (8 * (bit % 4)) &&& 0xff#32 ≠ 0#32)
      else context.atomicRegister bit
    registers := dpu.registerPairs.foldl (fun registers (thread, register) =>
      let even := thread * dpu.nrOfWorkRegistersPerThread + register
      let odd := oddRegisterContextIndex thread register
      Function.update (Function.update registers even (raw (odd + 1))) (even + 1) (raw odd)) context.registers
    carryFlags := fun thread =>
      if thread < dpu.nrOfThreads then decide (flags thread &&& 1#32 ≠ 0#32) else context.carryFlags thread
    zeroFlags := fun thread =>
      if thread < dpu.nrOfThreads then decide (flags thread &&& 2#32 ≠ 0#32) else context.zeroFlags thread }

end Format

/-- `set_pc_in_core_dump_or_restore_registers`. -/
def setPcInCoreDumpOrRestoreRegisters (thread : Nat) (pc : BitVec 16) (size : BitVec 16)
    (program : Nat → BitVec 64) :
    Nat → BitVec 64 :=
  let upperIndex : BitVec 32 :=
    size.setWidth 32 - 12#32 * (BitVec.ofNat 32 DebugFaults.DPU_NR_THREADS - BitVec.ofNat 32 thread - 1#32)
  [1#32, 4#32, 7#32, 10#32].foldl (fun program offset =>
    let index := (upperIndex - offset).toNat
    Function.update program index (program index ||| pc.setWidth 64)) program

/-- The program with the program counters of the context. -/
def insertPcs (dpu : RoutineDpu) (context : RegisterContext) (size : BitVec 16) (program : Nat → BitVec 64) :
    Nat → BitVec 64 :=
  (List.range dpu.nrOfThreads).foldl (fun program thread =>
    setPcInCoreDumpOrRestoreRegisters thread (context.pcs thread) size program) program

/-- What is saved before the memories are overwritten. -/
structure Saved where
  on : Bool
  program : Nat → BitVec 64
  size : BitVec 16
  iram : Nat → BitVec 64
  wram : Nat → BitVec 32

inductive Routine
  | extractContext | restoreContext
  deriving DecidableEq

section Execute
variable (dpu : RoutineDpu) (o : Outcomes)

/-- The steps 1 to 3 of `dpu_execute_routine_for_dpu`. -/
def saveMemories : RoutineM Saved := do
  ff o.startEvent
  let (program, size) ← allocate o.program
  let iramBuffer ← allocate o.iramBackup
  let on ← ufiSelectDpu dpu o.select
  let iram ← ufiIramRead o on iramBuffer size.toNat o.iramRead
  let wramBuffer ← allocate o.wramBackup
  let wram ← ufiWramRead o on wramBuffer contextSizeInWords o.wramRead
  return ⟨on, insertPcs dpu (← get).context size program, size, iram, wram⟩

def dpuExtractContextForDpuRoutine (rawContext : Nat → BitVec 32) : RoutineM PUnit := do
  dpuBootAndWaitForDpu dpu o
  let on ← ufiSelectDpu dpu o.routine.wramSelect
  let raw ← ufiWramRead o on rawContext contextSizeInWords o.routine.wramRead
  modify fun s => { s with context := parseContext dpu raw s.context }

def dpuRestoreContextForDpuRoutine (rawContext : Nat → BitVec 32) : RoutineM PUnit := do
  let raw := formatContext dpu (← get).context rawContext
  let on ← ufiSelectDpu dpu o.routine.wramSelect
  ufiWramWrite on raw contextSizeInWords o.routine.wramWrite
  dpuBootAndWaitForDpu dpu o

def Routine.exec : Routine → (Nat → BitVec 32) → RoutineM PUnit
  | .extractContext => dpuExtractContextForDpuRoutine dpu o
  | .restoreContext => dpuRestoreContextForDpuRoutine dpu o

/-- The steps 4 to 7, with what is saved. -/
def executeSaved (routine : Routine) (saved : Saved) : RoutineM PUnit := do
  ufiIramWrite saved.on saved.program saved.size.toNat o.programWrite
  let rawContext ← allocate o.rawContext
  routine.exec dpu o rawContext
  ufiWramWrite saved.on saved.wram contextSizeInWords o.wramRestore
  ufiIramWrite saved.on saved.iram saved.size.toNat o.iramRestore
  ff o.endEvent

/-- `dpu_execute_routine_for_dpu`. The label `end` only frees the buffers. -/
def dpuExecuteRoutineForDpu (routine : Routine) : RoutineM PUnit := do
  executeSaved dpu o routine (← saveMemories dpu o)

def ciDebugExtractContextDpu : RoutineM PUnit := dpuExecuteRoutineForDpu dpu o .extractContext

def ciDebugRestoreContextDpu : RoutineM PUnit := dpuExecuteRoutineForDpu dpu o .restoreContext

end Execute

end Upmem.DebugRoutine
