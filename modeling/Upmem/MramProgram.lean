import Upmem.Mram
import Upmem.Lib.Blit

namespace Upmem.MramAccess
open Blit

abbrev Memory := Nat → BitVec 8

def PROGRAM_CONTEXT_WRAM_SIZE : Nat := 8
def DMA_ACCESS_IDX_1 : Nat := 11
def DMA_ACCESS_IDX_2 : Nat := 19
def DMA_ACCESS_WRAM_REG : BitVec 64 := 2
def DMA_ACCESS_MRAM_REG : BitVec 64 := 0
def DMA_ACCESS_LENGTH_1 : BitVec 64 := 255
def DMA_ACCESS_LENGTH_2 : BitVec 64 := 0

/-- `hw.memories`: the IRAM in instructions, the WRAM in words. Every chip has
a WRAM of whole double words that holds more than the context of the program. -/
structure Memories where
  iramSize : Nat
  wramSize : Nat
  wramSize_even : wramSize % 2 = 0
  context_lt : PROGRAM_CONTEXT_WRAM_SIZE < wramSize

/-- `dpu_transfer_type_t`. -/
inductive TransferType
  | toMram | fromMram
  deriving DecidableEq, Repr

/-- `struct dpu_transfer_matrix`. The null pointer is `none`. -/
structure TransferMatrix where
  ptr : Nat → Option Nat
  offset : BitVec 32
  size : BitVec 32

/-- Why a call gives no result: its status, or an access through a null pointer. -/
inductive Stop
  | status (error : DpuError)
  | segfault
  deriving DecidableEq, Repr

/-- The encoding `LDMArri` and `SDMArri` share. -/
def dmaRri (opcode ra rb immDma : BitVec 64) : BitVec 64 :=
  opcode ||| (rb &&& 0x7#64) <<< 17 ||| (rb >>> 3 &&& 0x3#64) <<< 32 ||| (ra &&& 0x1f#64) <<< 34 |||
    (immDma &&& 0xff#64) <<< 24

def LDMArri : BitVec 64 → BitVec 64 → BitVec 64 → BitVec 64 := dmaRri 0x700000000000#64
def SDMArri : BitVec 64 → BitVec 64 → BitVec 64 → BitVec 64 := dmaRri 0x700000000002#64

def dmaAccess (type : TransferType) (immDma : BitVec 64) : BitVec 64 :=
  match type with
  | .toMram => SDMArri DMA_ACCESS_WRAM_REG DMA_ACCESS_MRAM_REG immDma
  | .fromMram => LDMArri DMA_ACCESS_WRAM_REG DMA_ACCESS_MRAM_REG immDma

/-- The program that `fetch_mram_access_program` reads: it has the instructions
that are patched and fits in the IRAM. -/
structure AccessProgram (memories : Memories) where
  code : List (BitVec 64)
  patched_lt : DMA_ACCESS_IDX_2 < code.length
  fits : code.length ≤ memories.iramSize

/-- The program once its DMA access instructions are patched. -/
def AccessProgram.patched {memories : Memories} (program : AccessProgram memories) (type : TransferType) :
    Nat → BitVec 64 :=
  fun i =>
    ((program.code.set DMA_ACCESS_IDX_1 (dmaAccess type DMA_ACCESS_LENGTH_1)).set DMA_ACCESS_IDX_2
      (dmaAccess type DMA_ACCESS_LENGTH_2)).getD i 0

/-- The memories of a DPU, with what the access program keeps between two boots:
the register `r0`, the registers and flags of the thread as it stores them, and
whether the thread waits at `resume_start`. -/
structure DpuState where
  iram : Nat → BitVec 64
  wram : Memory
  mram : Memory
  r0 : Nat
  registers : Memory
  suspended : Bool

/-- `ldma` and `sdma` for `length` bytes. -/
def dma (type : TransferType) (wramAddress mramAddress length : Nat) (dpu : DpuState) : DpuState :=
  match type with
  | .toMram => { dpu with mram := blit dpu.wram wramAddress dpu.mram mramAddress length }
  | .fromMram => { dpu with wram := blit dpu.mram mramAddress dpu.wram wramAddress length }

/-- The part of the access program from `transfer_loop` to `end`. -/
def transferLoop (type : TransferType) (r0 r1 r2 : Nat) (dpu : DpuState) : DpuState :=
  if r1 < 2048 then
    -- last_transfer: the length of a DMA counts double words, less one
    if r1 = 0 then { dpu with r0 := r0 }
    else { dma type r2 r0 (8 * (r1 / 8 - 1 + 1)) dpu with r0 := r0 + r1 }
  else transferLoop type (r0 + 2048) (r1 - 2048) (r2 + 2048) (dma type r2 r0 2048 dpu)
termination_by r1

/-- The part of the access program before `resume_start`. A thread that is not
waiting there starts over when it is resumed. -/
def startProgram (resume : Bool) (dpu : DpuState) : DpuState :=
  if resume && dpu.suspended then dpu
  else { dpu with wram := blit dpu.registers 0 dpu.wram 0 20, r0 := (word dpu.wram 5).toNat }

/-- A run of the access program until its thread stops. -/
def runAccessProgram (type : TransferType) (resume : Bool) (dpu : DpuState) : DpuState :=
  let started := startProgram resume dpu
  let moved := transferLoop type started.r0 (word started.wram 6).toNat 32 started
  { moved with suspended := word moved.wram 7 == 0#32 }

/-- The IRAM holds the access program, patched for a direction. -/
def Holds {memories : Memories} (program : AccessProgram memories) (type : TransferType)
    (iram : Nat → BitVec 64) : Prop :=
  ∀ i < program.code.length, iram i = program.patched type i

instance {memories : Memories} (program : AccessProgram memories) (type : TransferType)
    (iram : Nat → BitVec 64) : Decidable (Holds program type iram) :=
  inferInstanceAs (Decidable (∀ i < program.code.length, _))

/-- `dpu_thread_boot_safe_for_dpu` of thread 0 and the polling until it stops. -/
def bootAndPoll {memories : Memories} (program : AccessProgram memories) (resume : Bool) (dpu : DpuState) :
    DpuState :=
  if Holds program .toMram dpu.iram then runAccessProgram .toMram resume dpu
  else if Holds program .fromMram dpu.iram then runAccessProgram .fromMram resume dpu
  else dpu

/-- The faults pending on a DPU, each with its thread, and the byte address of
`error_storage` when the loaded program has that symbol. -/
structure DpuFaults where
  dmaFault : Option Nat
  memFault : Option Nat
  errorStorage : Option Nat

/-- The fields of `struct dpu_context_t` that record faults. The fill of a
context does not initialise them. -/
structure FaultContext where
  dmaFault : Bool
  dmaFaultThreadIndex : Nat
  memFault : Bool
  memFaultThreadIndex : Nat

def ERROR_STORAGE_GUARD : BitVec 32 := 0xFEFEB

def encodeErrorStorage (dmaFault : Bool) (dmaFaultThreadId : Nat) (memFault : Bool)
    (memFaultThreadId : Nat) : BitVec 32 :=
  BitVec.ofNat 32 dmaFault.toNat ||| (BitVec.ofNat 32 dmaFaultThreadId &&& 0x1f#32) <<< 1 |||
    BitVec.ofNat 32 memFault.toNat <<< 6 ||| (BitVec.ofNat 32 memFaultThreadId &&& 0x1f#32) <<< 7 |||
    ERROR_STORAGE_GUARD <<< 12

/-- `none` when no error has been written. -/
def decodeErrorStorage (storage : BitVec 32) : Option FaultContext :=
  if storage >>> 12 ≠ ERROR_STORAGE_GUARD then none
  else some
    { dmaFault := storage.getLsbD 0
      dmaFaultThreadIndex := (storage >>> 1 &&& 0x1f#32).toNat
      memFault := storage.getLsbD 6
      memFaultThreadIndex := (storage >>> 7 &&& 0x1f#32).toNat }

/-- A fault flag is compared with the mask of the DPU in its control interface:
only DPU 0 is seen in fault. -/
def seenFault (dpuId : Nat) (fault : Option Nat) : Option Nat :=
  if dpuId = 0 then fault else none

/-- The context once the faults seen have been recorded in it. -/
def recordFaults (dpuId : Nat) (faults : DpuFaults) (context : FaultContext) : FaultContext :=
  let context := match seenFault dpuId faults.dmaFault with
    | some thread => { context with dmaFault := true, dmaFaultThreadIndex := thread }
    | none => context
  match seenFault dpuId faults.memFault with
  | some thread => { context with memFault := true, memFaultThreadIndex := thread }
  | none => context

/-- The context once the faults that the storage remembers have been added. -/
def rememberedFaults (dpuId : Nat) (faults : DpuFaults) (storage : BitVec 32) (context : FaultContext) :
    FaultContext :=
  match decodeErrorStorage storage with
  | none => context
  | some stored =>
    { dmaFault := context.dmaFault || stored.dmaFault
      dmaFaultThreadIndex :=
        if (seenFault dpuId faults.dmaFault).isSome then context.dmaFaultThreadIndex
        else stored.dmaFaultThreadIndex
      memFault := context.memFault || stored.memFault
      memFaultThreadIndex :=
        if (seenFault dpuId faults.memFault).isSome then context.memFaultThreadIndex
        else stored.memFaultThreadIndex }

/-- What `ci_debug_init_dpu` leaves in the WRAM. -/
def ciDebugInitDpu (dpuId : Nat) (faults : DpuFaults) (context : FaultContext) (wram : Memory) : Memory :=
  match faults.errorStorage with
  | none => wram
  | some address =>
    if (seenFault dpuId faults.dmaFault).isSome || (seenFault dpuId faults.memFault).isSome then
      let context := rememberedFaults dpuId faults (word wram (address / 4)) (recordFaults dpuId faults context)
      -- the thread of the DMA fault is stored for both faults
      let storage := encodeErrorStorage context.dmaFault context.dmaFaultThreadIndex context.memFault
        context.dmaFaultThreadIndex
      blit (bytesOf fun _ => storage) 0 wram (4 * (address / 4)) 4
    else wram

section Copies
variable (memories : Memories)

/-- `verify_iram_access` and `verify_wram_access` for an access that is not empty. -/
def outOfBounds (offset count bound : Nat) : Bool :=
  decide (bound ≤ offset) || decide (bound < offset + count)

def dpuCopyToIramForDpu (index : Nat) (source : Nat → BitVec 64) (nbOfInstructions : Nat) (dpu : DpuState) :
    Except Stop DpuState :=
  if nbOfInstructions = 0 then .ok dpu
  else if outOfBounds index nbOfInstructions memories.iramSize then .error (.status .invalidIramAccess)
  else .ok { dpu with iram := blit source 0 dpu.iram index nbOfInstructions }

def dpuCopyFromIramForDpu (destination : Nat → BitVec 64) (index nbOfInstructions : Nat) (dpu : DpuState) :
    Except Stop (Nat → BitVec 64) :=
  if nbOfInstructions = 0 then .ok destination
  else if outOfBounds index nbOfInstructions memories.iramSize then .error (.status .invalidIramAccess)
  else .ok (blit dpu.iram index destination 0 nbOfInstructions)

def dpuCopyToWramForDpu (wordOffset : Nat) (source : Memory) (start nbOfWords : Nat) (dpu : DpuState) :
    Except Stop DpuState :=
  if nbOfWords = 0 then .ok dpu
  else if outOfBounds wordOffset nbOfWords memories.wramSize then .error (.status .invalidWramAccess)
  else .ok { dpu with wram := blit source start dpu.wram (4 * wordOffset) (4 * nbOfWords) }

def dpuCopyFromWramForDpu (destination : Memory) (place wordOffset nbOfWords : Nat) (dpu : DpuState) :
    Except Stop Memory :=
  if nbOfWords = 0 then .ok destination
  else if outOfBounds wordOffset nbOfWords memories.wramSize then .error (.status .invalidWramAccess)
  else .ok (blit dpu.wram (4 * wordOffset) destination place (4 * nbOfWords))

end Copies

/-- The address a pointer that is read or written through points to. -/
def pointer : Option Nat → Except Stop Nat
  | some address => .ok address
  | none => .error .segfault

/-- `program_context`: the MRAM offset, the buffer size and the last transfer marker. -/
def programContext (offset size marker : Nat) : Memory :=
  bytesOf fun
    | 0 => BitVec.ofNat 32 offset
    | 1 => BitVec.ofNat 32 size
    | _ => BitVec.ofNat 32 marker

/-- `wram_save_size`, in words. -/
def wramSaveSize (memories : Memories) (size : Nat) : Nat :=
  if memories.wramSize ≤ size / 4 + PROGRAM_CONTEXT_WRAM_SIZE then memories.wramSize
  else size / 4 + PROGRAM_CONTEXT_WRAM_SIZE

/-- The memory of the host that `ptr[0]` points into, the DPU, and `ptr_offset`. -/
structure Progress where
  host : Memory
  dpu : DpuState
  ptrOffset : Nat

section Individual
variable (memories : Memories) (transfer : TransferMatrix) (type : TransferType)

/-- Loading WRAM. -/
def loadWram (words : Nat) (progress : Progress) : Except Stop Progress :=
  match type with
  | .toMram => do
    let ptr ← pointer (transfer.ptr 0)
    let dpu ← dpuCopyToWramForDpu memories PROGRAM_CONTEXT_WRAM_SIZE progress.host (ptr + progress.ptrOffset)
      words progress.dpu
    return { progress with dpu := dpu }
  | .fromMram => .ok progress

/-- Fetching WRAM, and the step to the next chunk. -/
def fetchWram (words : Nat) (progress : Progress) : Except Stop Progress :=
  match type with
  | .toMram => .ok { progress with ptrOffset := progress.ptrOffset + 4 * words }
  | .fromMram => do
    let ptr ← pointer (transfer.ptr 0)
    let host ← dpuCopyFromWramForDpu memories progress.host (ptr + progress.ptrOffset)
      PROGRAM_CONTEXT_WRAM_SIZE words progress.dpu
    return { progress with host := host, ptrOffset := progress.ptrOffset + 4 * words }

/-- A word array written to the context of the program. -/
def writeContext (wordOffset : Nat) (source : Memory) (start nbOfWords : Nat)
    (progress : Progress) : Except Stop Progress := do
  let dpu ← dpuCopyToWramForDpu memories wordOffset source start nbOfWords progress.dpu
  return { progress with dpu := dpu }

def writeLastMarker (nrCompleteIterations remaining iteration : Nat) (progress : Progress) :
    Except Stop Progress :=
  if iteration = nrCompleteIterations - 1 ∧ remaining = 0 then
    writeContext memories 7 (bytesOf fun _ => 1#32) 0 1 progress
  else .ok progress

end Individual

section Individual
variable {memories : Memories} (program : AccessProgram memories) (transfer : TransferMatrix)
  (type : TransferType)

def boot (resume : Bool) (progress : Progress) : Progress :=
  { progress with dpu := bootAndPoll program resume progress.dpu }

/-- The chunk that starts the program. -/
def firstChunk (transferSize marker : Nat) (progress : Progress) : Except Stop Progress := do
  let progress ← writeContext memories 5 (programContext transfer.offset.toNat (4 * transferSize) marker) 0 3
    progress
  let progress ← loadWram memories transfer type transferSize progress
  fetchWram memories transfer type transferSize (boot program false progress)

/-- A turn of the loop over the complete iterations. -/
def nextChunk (transferSize nrCompleteIterations remaining iteration : Nat) (progress : Progress) :
    Except Stop Progress := do
  let progress ← loadWram memories transfer type transferSize progress
  let progress ← writeLastMarker memories nrCompleteIterations remaining iteration progress
  fetchWram memories transfer type transferSize (boot program true progress)

/-- The chunk that is left after the complete iterations. -/
def remainingChunk (remaining : Nat) (progress : Progress) : Except Stop Progress := do
  -- Changing buffer size in the DPU program
  let progress ← writeContext memories 6 (programContext transfer.offset.toNat remaining 1) 4 2 progress
  let progress ← loadWram memories transfer type (remaining / 4) progress
  fetchWram memories transfer type (remaining / 4) (boot program true progress)

/-- From the loading of the program to the last chunk. -/
def accessChunks (saveSize : Nat) (progress : Progress) : Except Stop Progress := do
  let size := transfer.size.toNat
  -- Loading DPU program in IRAM
  let dpu ← dpuCopyToIramForDpu memories 0 (program.patched type) program.code.length progress.dpu
  let transferSize := saveSize - PROGRAM_CONTEXT_WRAM_SIZE
  let transferSizeInBytes := 4 * transferSize
  let nrCompleteIterations := size / transferSizeInBytes
  let remaining := size % transferSizeInBytes
  let marker := if nrCompleteIterations = 0 ∨ nrCompleteIterations = 1 ∧ remaining = 0 then 1 else 0
  let progress ← firstChunk program transfer type transferSize marker { progress with dpu := dpu }
  let progress ← (List.range' 1 (nrCompleteIterations - 1)).foldlM
    (fun progress iteration =>
      nextChunk program transfer type transferSize nrCompleteIterations remaining iteration progress) progress
  if 0 < remaining ∧ 0 < nrCompleteIterations then remainingChunk program transfer type remaining progress
  else return progress

/-- `access_mram_using_dpu_program_individual`. The contexts of the threads are
extracted and restored around it and its commands succeed. -/
def accessMramUsingDpuProgramIndividual (enabled : Bool) (dpuId : Nat) (faults : DpuFaults)
    (context : FaultContext) (host : Memory) (dpu : DpuState) : Except Stop (Memory × DpuState) :=
  if !enabled then .error (.status .dpuDisabled)
  else if transfer.size = 0#32 then .ok (host, dpu)
  else do
    let saveSize := wramSaveSize memories transfer.size.toNat
    let dpu := { dpu with wram := ciDebugInitDpu dpuId faults context dpu.wram }
    -- Saving IRAM & WRAM
    let iramSave ← dpuCopyFromIramForDpu memories (fun _ => 0) 0 program.code.length dpu
    let wramSave ← dpuCopyFromWramForDpu memories (fun _ => 0) 0 0 saveSize dpu
    let progress ← accessChunks program transfer type saveSize ⟨host, dpu, 0⟩
    -- Restoring IRAM & WRAM
    let dpu ← dpuCopyToIramForDpu memories 0 iramSave program.code.length progress.dpu
    let dpu ← dpuCopyToWramForDpu memories 0 wramSave 0 saveSize dpu
    return (progress.host, dpu)

end Individual

end Upmem.MramAccess
