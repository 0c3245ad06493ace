import Mathlib
import Upmem.Lib.Blit
import Upmem.Lib.LastWriter
import Upmem.Checkpoint
import Upmem.Profiler
import Upmem.SymbolBounds

namespace Upmem.Loader
open Blit Profiler StatusChain SymbolBounds

def REGS_MASK : BitVec 32 := 0xa0000000#32

def PT_LOAD : BitVec 32 := 1#32

/-- `UINT_MAX`. -/
def DPU_ADDRESSES_FREQ_UNSET : BitVec 32 := 0xffffffff#32

/-- The fields of `GElf_Phdr` that the loader reads. -/
structure GElfPhdr where
  pType : BitVec 32
  pOffset : BitVec 64
  pVaddr : BitVec 64
  pFilesz : BitVec 64
  pMemsz : BitVec 64

/-- An opened ELF file. A header that `gelf_getphdr` does not return is `none`, and so
are the bytes of the file when `elf_rawfile` fails. A segment takes no fewer bytes of
memory than of the file. -/
structure ElfFd where
  filename : Bool
  phdrs : List (Option GElfPhdr)
  raw : Option (Nat → BitVec 8)
  fits : ∀ phdr, some phdr ∈ phdrs → phdr.pType = PT_LOAD → phdr.pFilesz ≤ phdr.pMemsz

/-- What a memory of a DPU is made of. -/
abbrev Word : Memory → Type
  | .iram => BitVec 64
  | .wram => BitVec 32
  | .mram => BitVec 8

/-- The memories of a DPU. -/
abbrev Image := (memory : Memory) → Nat → Word memory

/-- The bytes of a buffer, as `dpuinstruction_t`, `dpuword_t` or bytes. -/
def wordsOf (content : Nat → BitVec 8) : Image
  | .iram => fun k => content (8 * k + 7) ++ content (8 * k + 6) ++ content (8 * k + 5) ++ content (8 * k + 4) ++
      content (8 * k + 3) ++ content (8 * k + 2) ++ content (8 * k + 1) ++ content (8 * k)
  | .wram => fun k => content (4 * k + 3) ++ content (4 * k + 2) ++ content (4 * k + 1) ++ content (4 * k)
  | .mram => content

/-- `enum dpu_loader_target_t`, with `enabled` of the DPU and whether it is the one that is profiled. -/
inductive TargetKind
  | rank
  | dpu (enabled profiled : Bool)

/-- What is loaded, where no program of a DPU stands between the host and the MRAM. `clocksPerSec` is the frequency
in Hz over the clock division. -/
structure Target where
  kind : TargetKind
  rank : Rank
  direct : rank.description.mramAccessByDpuOnly = false
  memories : Memories
  freq : BitVec 32
  clocksPerSec : BitVec 32
  profilingDpuEnabled : Bool
  nrThreads : Nat

/-- What the loader changes: the memories of the DPU, or of one of the rank, its debug
context, the profiling context and the size accumulators. -/
structure LoaderState where
  image : Image
  debugContext : Option Checkpoint.DpuContext
  profiling : ProfilingContext
  accumulated : Memory → BitVec 32

/-- How the calls for a segment end: whether `calloc` has memory, the allocations for
the profiling and for a context, and the statuses of `dpu_restore_context_for_dpu`
and of the backend, which leaves anything in the words of a transfer that fails. -/
structure SegmentOutcome where
  calloc : Bool
  patch : PatchAllocs
  malloc : Bool
  restore : DpuError
  backend : DpuError
  left : Image

/-- `extract_and_convert_memory_information`: the memory, or the registers, and the
address and size in its units. -/
def extractAndConvertMemoryInformation (phdr : GElfPhdr) :
    Except DpuError (Option Memory × BitVec 32 × BitVec 32) :=
  let addr := phdr.pVaddr.truncate 32
  let size := phdr.pMemsz.truncate 32
  if addr = REGS_MASK then .ok (none, addr, size)
  else
    match memorySwitch addr with
    | .iram =>
      if addr &&& ~~~ ALIGN_MASK IRAM_ALIGN ≠ 0#32 then .error .invalidIramAccess
      else if size &&& ~~~ ALIGN_MASK IRAM_ALIGN ≠ 0#32 then .error .invalidIramAccess
      else .ok (some .iram, (addr &&& ~~~ IRAM_MASK) >>> IRAM_ALIGN, size >>> IRAM_ALIGN)
    | .mram => .ok (some .mram, addr &&& ~~~ Sg.MRAM_MASK, size)
    | .wram =>
      if addr &&& ~~~ ALIGN_MASK WRAM_ALIGN ≠ 0#32 then .error .invalidWramAccess
      else if size &&& ~~~ ALIGN_MASK WRAM_ALIGN ≠ 0#32 then .error .invalidWramAccess
      else .ok (some .wram, addr >>> WRAM_ALIGN, size >>> WRAM_ALIGN)

/-- `fetch_content`: the bytes of the file, and zeros behind them up to the `p_memsz` of the buffer. -/
def fetchContent (elf : ElfFd) (phdr : GElfPhdr) (calloc : Bool) : Except DpuError (Nat → BitVec 8) :=
  if calloc then
    match elf.raw with
    | some raw => .ok (blit raw phdr.pOffset.toNat (fun _ => 0#8) 0 phdr.pFilesz.toNat)
    | none => .error .elfInvalidFile
  else .error .system

/-- `patch_wram_with_dpu_frequency`. -/
def patchWramWithDpuFrequency (freq clocksPerSec : BitVec 32) (content : Nat → BitVec 32) (addr sz : BitVec 32) :
    Nat → BitVec 32 :=
  if freq = DPU_ADDRESSES_FREQ_UNSET then content
  else
    let freqAddr := freq >>> WRAM_ALIGN
    if freqAddr < addr ∨ addr + sz ≤ freqAddr then content
    else Function.update content (freqAddr - addr).toNat clocksPerSec

section Segments
variable (target : Target)

/-- The target is a DPU that is disabled. -/
def Target.disabled : Bool :=
  match target.kind with
  | .rank => false
  | .dpu enabled _ => !enabled

/-- The target is a DPU and the size is zero. -/
def Target.copiesNothing (size : BitVec 32) : Bool :=
  match target.kind with
  | .rank => false
  | .dpu .. => size = 0#32

/-- `patch_rank_iram` and `patch_dpu_iram`. A DPU that is not the profiled one is not patched. -/
def patchIram (outcome : SegmentOutcome) (profiling : ProfilingContext) (words : Nat → BitVec 64)
    (address size : BitVec 32) (init : Bool) : DpuError × ProfilingContext × (Nat → BitVec 64) :=
  match target.kind with
  | .rank =>
    if target.profilingDpuEnabled then
      dpuPatchProfilingForDpu true target.nrThreads outcome.patch profiling words address size init
    else (.ok, profiling, words)
  | .dpu enabled profiled =>
    if enabled ∧ ¬ profiled then (.ok, profiling, words)
    else dpuPatchProfilingForDpu enabled target.nrThreads outcome.patch profiling words address size init

/-- `do_patch`. -/
def doPatch (memory : Memory) (outcome : SegmentOutcome) (profiling : ProfilingContext) (words : Nat → Word memory)
    (address size : BitVec 32) (init : Bool) : DpuError × ProfilingContext × (Nat → Word memory) :=
  match memory with
  | .iram => patchIram target outcome profiling words address size init
  | .wram => (.ok, profiling, patchWramWithDpuFrequency target.freq target.clocksPerSec words address size)
  | .mram => (.ok, profiling, words)

/-- The checks of `dpu_copy_to_iram_for_rank`, `dpu_copy_to_wram_for_rank` and
`dpu_copy_to_mrams`, with those of the loader and of the copies to a DPU before them:
a status to return, or the address and the size that the backend gets. Those of an
instruction have 16 bits. -/
def copyChecks (memory : Memory) (address size : BitVec 32) : Except DpuError (Nat × Nat) :=
  match memory with
  | .iram =>
    if target.disabled then .error .dpuDisabled
    else
      match verifyIramAccess16 (address.truncate 16) (size.truncate 16) target.memories.iramSize with
      | some status => .error status
      | none => .ok ((address.truncate 16).toNat, (size.truncate 16).toNat)
  | .wram =>
    if target.copiesNothing size then .error .ok
    else if target.disabled then .error .dpuDisabled
    else
      match verifyWramAccess address size target.memories.wramSize with
      | some status => .error status
      | none => .ok (address.toNat, size.toNat)
  | .mram =>
    if target.disabled then .error .dpuDisabled
    else if target.copiesNothing size then .error .ok
    else
      match dpuCopyToMrams address size target.rank with
      | .error status => .error status
      | .ok _ => .ok (address.toNat, size.toNat)

/-- `do_load` for a memory. -/
def doLoad (memory : Memory) (outcome : SegmentOutcome) (words : Nat → Word memory) (address size : BitVec 32)
    (s : LoaderState) : DpuError × LoaderState :=
  match copyChecks target memory address size with
  | .error status => (status, s)
  | .ok (place, count) =>
    let written := if outcome.backend = .ok then words else fun k => outcome.left memory (place + k)
    (outcome.backend,
      { s with image := Function.update s.image memory (blit written 0 (s.image memory) place count) })

/-- `load_rank_regs` and `load_dpu_regs`. A core dump is not loaded into a rank. -/
def loadRegs (outcome : SegmentOutcome) (content : Nat → BitVec 8) (address size : BitVec 32) (s : LoaderState) :
    DpuError × LoaderState :=
  match target.kind with
  | .rank => (.elfInvalidFile, s)
  | .dpu .. =>
    if address ≠ REGS_MASK then (.system, s)
    else if !outcome.malloc then (.system, s)
    else
      match Checkpoint.deserialize ((List.range size.toNat).map content) with
      | .error status => (status, s)
      | .ok context => (outcome.restore, { s with debugContext := some context })

/-- `load_segment`. -/
def loadSegment (elf : ElfFd) (phdr : GElfPhdr) (outcome : SegmentOutcome) (s : LoaderState) :
    DpuError × LoaderState :=
  match extractAndConvertMemoryInformation phdr with
  | .error status => (status, s)
  | .ok (kind, address, size) =>
    match fetchContent elf phdr outcome.calloc with
    | .error status => (status, s)
    | .ok content =>
      match kind with
      | none => loadRegs target outcome content address size s
      | some memory =>
        let (status, profiling, words) :=
          doPatch target memory outcome s.profiling (wordsOf content memory) address size
            (s.accumulated memory = 0#32)
        let s := { s with profiling := profiling }
        if status ≠ .ok then (status, s)
        else
          let (status, s) := doLoad target memory outcome words address size s
          if status ≠ .ok then (status, s)
          else (.ok, { s with accumulated := Function.update s.accumulated memory (s.accumulated memory + size) })

/-- A turn of the loop over the headers. -/
def loadPhdr (elf : ElfFd) (entry : Option GElfPhdr × SegmentOutcome) (s : LoaderState) : DpuError × LoaderState :=
  match entry.1 with
  | none => (.elfInvalidFile, s)
  | some phdr => if phdr.pType = PT_LOAD then loadSegment target elf phdr entry.2 s else (.ok, s)

/-- The headers in their order, each with how the calls for it end. -/
def entries (elf : ElfFd) (outcomes : Nat → SegmentOutcome) : List (Option GElfPhdr × SegmentOutcome) :=
  elf.phdrs.mapIdx fun each phdr => (phdr, outcomes each)

end Segments

/-- The first word of a segment in its memory and the number of words; for instructions both have 16 bits. -/
def range (memory : Memory) (addr size : BitVec 32) : Nat × Nat :=
  match memory with
  | .iram => ((addr.truncate 16).toNat, (size.truncate 16).toNat)
  | _ => (addr.toNat, size.toNat)

/-- A header covers a word of a memory. -/
def Writes (memory : Memory) (a : Nat) (entry : Option GElfPhdr × SegmentOutcome) : Prop :=
  ∃ phdr addr size, entry.1 = some phdr ∧ phdr.pType = PT_LOAD ∧
    extractAndConvertMemoryInformation phdr = .ok (some memory, addr, size) ∧
      (range memory addr size).1 ≤ a ∧ a < (range memory addr size).1 + (range memory addr size).2

/-- A byte of a segment: one of the file, or a zero behind them. -/
def segmentByte (raw : Nat → BitVec 8) (phdr : GElfPhdr) (k : Nat) : BitVec 8 :=
  if k < phdr.pFilesz.toNat then raw (phdr.pOffset.toNat + k) else 0#8

/-- The target is patched for the profiling. -/
def Target.profiled (target : Target) : Bool :=
  match target.kind with
  | .rank => target.profilingDpuEnabled
  | .dpu enabled profiled => enabled && profiled

/-- The instructions of a header for the IRAM, with their address and their number. -/
def iramSegment (elf : ElfFd) (entry : Option GElfPhdr × SegmentOutcome) :
    Option ((Nat → BitVec 64) × BitVec 32 × BitVec 32) :=
  match entry.1, elf.raw with
  | some phdr, some raw =>
    if phdr.pType = PT_LOAD then
      match extractAndConvertMemoryInformation phdr with
      | .ok (some .iram, addr, size) => some (wordsOf (segmentByte raw phdr) .iram, addr, size)
      | _ => none
    else none
  | _, _ => none

/-- What has been counted: the instructions, the calls among them, and whether there are tables. -/
structure Counted where
  instructions : BitVec 32
  calls : BitVec 16
  made : Bool

/-- The calls that were counted before a segment. The first one starts again, if there
are tables of an earlier load. -/
def Counted.earlier (counted : Counted) : BitVec 16 :=
  if counted.instructions = 0#32 ∧ counted.made then 0#16 else counted.calls

def Counted.add (elf : ElfFd) (counted : Counted) (entry : Option GElfPhdr × SegmentOutcome) : Counted :=
  match iramSegment elf entry with
  | some (words, _, size) =>
    { instructions := counted.instructions + size
      calls := countCalls words (size.truncate 16).toNat counted.earlier
      made := counted.made || counted.instructions = 0#32 }
  | none => counted

/-- What has been counted when some headers have been loaded. -/
def countedBefore (elf : ElfFd) (profiling : ProfilingContext)
    (front : List (Option GElfPhdr × SegmentOutcome)) : Counted :=
  front.foldl (Counted.add elf) ⟨0#32, profiling.nrOfMcountStats, profiling.mcountStats.isSome⟩

/-- A word is the one that a header has for its place: the bytes of the segment, but the
frequency at its address, and the instructions patched for the profiling when a call has
been counted in this segment or in the ones before it. -/
def Leaves (target : Target) (elf : ElfFd) (profiling : ProfilingContext)
    (front : List (Option GElfPhdr × SegmentOutcome)) (memory : Memory) (a : Nat)
    (entry : Option GElfPhdr × SegmentOutcome) (word : Word memory) : Prop :=
  ∃ phdr addr size raw, entry.1 = some phdr ∧ extractAndConvertMemoryInformation phdr = .ok
    (some memory, addr, size) ∧
    elf.raw = some raw ∧
      match memory, word with
      | .iram, word => word = if target.profiled ∧ profiling.Patches ∧
            countCalls (wordsOf (segmentByte raw phdr) .iram) (size.truncate 16).toNat
              (countedBefore elf profiling front).earlier ≠ 0#16 then
          profiling.patched (BitVec.ofNat 16 a)
            (wordsOf (segmentByte raw phdr) .iram (a - (addr.truncate 16).toNat))
        else wordsOf (segmentByte raw phdr) .iram (a - (addr.truncate 16).toNat)
      | .wram, word => word = if target.freq ≠ DPU_ADDRESSES_FREQ_UNSET ∧ (target.freq >>> WRAM_ALIGN).toNat = a
          then target.clocksPerSec else wordsOf (segmentByte raw phdr) .wram (a - addr.toNat)
      | .mram, word => word = segmentByte raw phdr (a - addr.toNat)

/-- What a header adds to an accumulator. -/
def amount (memory : Memory) (entry : Option GElfPhdr × SegmentOutcome) : BitVec 32 :=
  match entry.1 with
  | none => 0#32
  | some phdr =>
    if phdr.pType = PT_LOAD then
      match extractAndConvertMemoryInformation phdr with
      | .ok (some kind, _, size) => if kind = memory then size else 0#32
      | _ => 0#32
    else 0#32

section Proofs
variable {target : Target} {elf : ElfFd} {outcome : SegmentOutcome} {s t : LoaderState}

theorem fetchContent_ok {phdr : GElfPhdr} {calloc : Bool} {content : Nat → BitVec 8}
    (fetched : fetchContent elf phdr calloc = .ok content) :
    ∃ raw, elf.raw = some raw ∧ content = segmentByte raw phdr := by
  unfold fetchContent at fetched
  split_ifs at fetched
  split at fetched <;> cases fetched
  refine ⟨_, by assumption, funext fun k => ?_⟩
  simp only [blit, segmentByte, Nat.zero_le, true_and, Nat.zero_add, Nat.sub_zero]

theorem extract_failed {phdr : GElfPhdr} {status : DpuError}
    (failed : extractAndConvertMemoryInformation phdr = .error status) : status ≠ .ok := by
  unfold extractAndConvertMemoryInformation at failed
  dsimp only at failed
  split at failed
  · cases failed
  · split at failed
    · split_ifs at failed <;> cases failed <;> decide
    · cases failed
    · split_ifs at failed <;> cases failed <;> decide

theorem fetch_failed {phdr : GElfPhdr} {calloc : Bool} {status : DpuError}
    (failed : fetchContent elf phdr calloc = .error status) : status ≠ .ok := by
  unfold fetchContent at failed
  split_ifs at failed
  · split at failed <;> cases failed
    decide
  · cases failed
    decide

/-- A segment that is loaded. -/
structure Loaded (target : Target) (elf : ElfFd) (phdr : GElfPhdr) (outcome : SegmentOutcome) (s t : LoaderState)
    (kind : Memory) (addr size : BitVec 32) (raw : Nat → BitVec 8) (words : Nat → Word kind) : Prop where
  converted : extractAndConvertMemoryInformation phdr = .ok (some kind, addr, size)
  file : elf.raw = some raw
  patched : doPatch target kind outcome s.profiling (wordsOf (segmentByte raw phdr) kind) addr size
    (s.accumulated kind = 0#32) = (.ok, t.profiling, words)
  copied : (doLoad target kind outcome words addr size s).1 = .ok
  image : t.image = (doLoad target kind outcome words addr size s).2.image
  accumulated : t.accumulated = Function.update s.accumulated kind (s.accumulated kind + size)

theorem doLoad_frame {memory : Memory} {words : Nat → Word memory} {addr size : BitVec 32} :
    (doLoad target memory outcome words addr size s).2.profiling = s.profiling ∧
      (doLoad target memory outcome words addr size s).2.accumulated = s.accumulated := by
  unfold doLoad
  split <;> exact ⟨rfl, rfl⟩

/-- A copy does not depend on the profiling. -/
theorem doLoad_profiling {memory : Memory} {words : Nat → Word memory} {addr size : BitVec 32}
    (profiling : ProfilingContext) :
    (doLoad target memory outcome words addr size { s with profiling := profiling }).1 =
        (doLoad target memory outcome words addr size s).1 ∧
      (doLoad target memory outcome words addr size { s with profiling := profiling }).2.image =
        (doLoad target memory outcome words addr size s).2.image := by
  unfold doLoad
  split <;> exact ⟨rfl, rfl⟩

/-- A state that was loaded with registers at most. -/
structure SameMemories (s t : LoaderState) : Prop where
  image : t.image = s.image
  profiling : t.profiling = s.profiling
  accumulated : t.accumulated = s.accumulated

theorem loadRegs_frame (content : Nat → BitVec 8) (addr size : BitVec 32) :
    SameMemories s (loadRegs target outcome content addr size s).2 := by
  unfold loadRegs
  repeat' split
  all_goals exact ⟨rfl, rfl, rfl⟩

/-- A segment that passes went through all its calls. -/
theorem loadSegment_inv {phdr : GElfPhdr} (passed : loadSegment target elf phdr outcome s = (.ok, t)) :
    (∃ addr size raw, extractAndConvertMemoryInformation phdr = .ok (none, addr, size) ∧ elf.raw = some raw ∧
        loadRegs target outcome (segmentByte raw phdr) addr size s = (.ok, t)) ∨
      ∃ kind addr size raw words, Loaded target elf phdr outcome s t kind addr size raw words := by
  unfold loadSegment at passed
  cases converted : extractAndConvertMemoryInformation phdr with
  | error status =>
    rw [converted] at passed
    exact absurd (congrArg Prod.fst passed) (extract_failed converted)
  | ok information =>
    obtain ⟨kind, addr, size⟩ := information
    cases fetched : fetchContent elf phdr outcome.calloc with
    | error status =>
      rw [converted, fetched] at passed
      exact absurd (congrArg Prod.fst passed) (fetch_failed fetched)
    | ok content =>
      obtain ⟨raw, file, rfl⟩ := fetchContent_ok fetched
      rw [converted, fetched] at passed
      cases kind with
      | none => exact .inl ⟨addr, size, raw, rfl, file, passed⟩
      | some kind =>
        refine .inr ?_
        rcases patched : doPatch target kind outcome s.profiling (wordsOf (segmentByte raw phdr) kind) addr size
          (s.accumulated kind = 0#32) with ⟨status, profiling, words⟩
        rcases copied : doLoad target kind outcome words addr size
          { s with profiling := profiling } with ⟨status', loaded⟩
        dsimp only at passed
        rw [patched] at passed
        dsimp only at passed
        rw [copied] at passed
        split_ifs at passed with failed failed'
        · exact absurd (congrArg Prod.fst passed) failed
        · exact absurd (congrArg Prod.fst passed) failed'
        · obtain ⟨-, rfl⟩ := Prod.mk.inj passed
          obtain rfl := not_not.mp failed
          obtain rfl := not_not.mp failed'
          have frame := @doLoad_frame target outcome { s with profiling := profiling } kind words addr size
          have copy := @doLoad_profiling target outcome s kind words addr size profiling
          rw [copied] at frame copy
          have profiled : profiling = loaded.profiling := frame.1.symm
          have kept : s.accumulated = loaded.accumulated := frame.2.symm
          exact ⟨kind, addr, size, raw, words, converted,
            file, by rw [patched, profiled], copy.1.symm, copy.2, by rw [kept]⟩

/-- A header that passes is not one of a memory, or is loaded. -/
theorem loadPhdr_inv {entry : Option GElfPhdr × SegmentOutcome} (passed : loadPhdr target elf entry s = (.ok, t)) :
    ∃ phdr, entry.1 = some phdr ∧
      (((∀ memory addr size, phdr.pType = PT_LOAD →
          extractAndConvertMemoryInformation phdr ≠ .ok (some memory, addr, size)) ∧ SameMemories s t) ∨
        (phdr.pType = PT_LOAD ∧
          ∃ kind addr size raw words, Loaded target elf phdr entry.2 s t kind addr size raw words)) := by
  obtain ⟨header, outcome⟩ := entry
  rw [loadPhdr] at passed
  cases header with
  | none => cases passed
  | some phdr =>
    refine ⟨phdr, rfl, ?_⟩
    dsimp only at passed
    split_ifs at passed with load
    · obtain ⟨addr, size, raw, registers, file, regs⟩ | loaded := loadSegment_inv passed
      · have frame := @loadRegs_frame target outcome s (segmentByte raw phdr) addr size
        rw [regs] at frame
        refine .inl ⟨fun memory addr' size' _ converted => ?_, frame⟩
        rw [registers] at converted
        cases converted
      · exact .inr ⟨load, loaded⟩
    · obtain rfl : s = t := congrArg Prod.snd passed
      exact .inl ⟨fun _ _ _ load' => absurd load' load, rfl, rfl, rfl⟩

/-- A patch of instructions that passes is none, or the one for the profiling. -/
theorem patchIram_inv {profiling after : ProfilingContext} {source words : Nat → BitVec 64}
    {addr size : BitVec 32} {init : Bool}
    (passed : patchIram target outcome profiling source addr size init = (.ok, after, words)) :
    (target.profiled = false ∧ after = profiling ∧ words = source) ∨
      (target.profiled = true ∧
        dpuPatchProfilingForDpu true target.nrThreads outcome.patch profiling source addr size init =
          (.ok, after, words)) := by
  unfold patchIram at passed
  unfold Target.profiled
  cases kind : target.kind with
  | rank =>
    rw [kind] at passed
    dsimp only at passed ⊢
    split_ifs at passed with enabled
    · exact .inr ⟨enabled, passed⟩
    · obtain ⟨-, rfl, rfl⟩ := passed
      exact .inl ⟨Bool.eq_false_iff.mpr enabled, rfl, rfl⟩
  | dpu enabled profiled =>
    rw [kind] at passed
    dsimp only at passed ⊢
    cases enabled with
    | false =>
      rw [if_neg (by simp)] at passed
      exact absurd (congrArg Prod.fst passed) (by simp [dpuPatchProfilingForDpu])
    | true =>
      split_ifs at passed with other
      · obtain ⟨-, rfl, rfl⟩ := passed
        exact .inl ⟨by simpa using other.2, rfl, rfl⟩
      · exact .inr ⟨by simpa using other, passed⟩

theorem iramSegment_other {entry : Option GElfPhdr × SegmentOutcome} {phdr : GElfPhdr}
    (header : entry.1 = some phdr)
    (other : ∀ memory addr size, phdr.pType = PT_LOAD →
      extractAndConvertMemoryInformation phdr ≠ .ok (some memory, addr, size)) : iramSegment elf entry = none := by
  rw [iramSegment, header]
  cases elf.raw with
  | none => rfl
  | some raw =>
    dsimp only
    split
    · split
      · exact absurd (by assumption) (other _ _ _ (by assumption))
      · rfl
    · rfl

theorem Loaded.iramSegment_eq {entry : Option GElfPhdr × SegmentOutcome} {phdr : GElfPhdr} {kind : Memory}
    {addr size : BitVec 32} {raw : Nat → BitVec 8} {words : Nat → Word kind}
    (loaded : Loaded target elf phdr outcome s t kind addr size raw words) (header : entry.1 = some phdr)
    (load : phdr.pType = PT_LOAD) : iramSegment elf entry =
      if kind = .iram then some (wordsOf (segmentByte raw phdr) .iram, addr, size) else none := by
  rw [iramSegment, header, loaded.file]
  dsimp only
  rw [if_pos load, loaded.converted]
  cases kind <;> rfl

/-- The loader has counted the headers so far. -/
structure CountedSoFar (target : Target) (elf : ElfFd) (profiling : ProfilingContext)
    (front : List (Option GElfPhdr × SegmentOutcome)) (s : LoaderState) : Prop where
  setup : s.profiling.SameSetup profiling
  instructions : s.accumulated .iram = (countedBefore elf profiling front).instructions
  calls : target.profiled = true → profiling.Patches →
    s.profiling.nrOfMcountStats = (countedBefore elf profiling front).calls ∧
      s.profiling.mcountStats.isSome = (countedBefore elf profiling front).made

theorem CountedSoFar.earlier {profiling : ProfilingContext} {front : List (Option GElfPhdr × SegmentOutcome)}
    (sofar : CountedSoFar target elf profiling front s) (profiled : target.profiled = true)
    (patches : profiling.Patches) :
    s.profiling.earlier (s.accumulated .iram = 0#32) = (countedBefore elf profiling front).earlier := by
  obtain ⟨calls, made⟩ := sofar.calls profiled patches
  rw [ProfilingContext.earlier, Counted.earlier, calls, made, sofar.instructions]
  exact if_congr (and_congr_left' decide_eq_true_iff) rfl rfl

/-- A header that adds nothing to what is counted. -/
theorem CountedSoFar.idle {profiling : ProfilingContext} {front : List (Option GElfPhdr × SegmentOutcome)}
    {entry : Option GElfPhdr × SegmentOutcome} (sofar : CountedSoFar target elf profiling front s)
    (other : iramSegment elf entry = none) (same : t.profiling = s.profiling)
    (accumulated : t.accumulated .iram = s.accumulated .iram) :
    CountedSoFar target elf profiling (front ++ [entry]) t := by
  have counted : countedBefore elf profiling (front ++ [entry]) = countedBefore elf profiling front := by
    rw [countedBefore, List.foldl_append, List.foldl_cons, List.foldl_nil, Counted.add, other]
    rfl
  exact ⟨same ▸ sofar.setup, by rw [accumulated, counted, sofar.instructions], by
    rw [same, counted]; exact sofar.calls⟩

/-- No header changes the method or the addresses of the profiling, and each is counted. -/
theorem CountedSoFar.turn {profiling : ProfilingContext} {front : List (Option GElfPhdr × SegmentOutcome)}
    {entry : Option GElfPhdr × SegmentOutcome} (sofar : CountedSoFar target elf profiling front s)
    (passed : loadPhdr target elf entry s = (.ok, t)) : CountedSoFar target elf profiling (front ++ [entry]) t := by
  obtain ⟨phdr, header, ⟨other, same⟩ | ⟨load, kind, addr, size, raw, words, loaded⟩⟩ := loadPhdr_inv passed
  · exact sofar.idle (iramSegment_other header other) same.profiling (by rw [same.accumulated])
  · have patched := loaded.patched
    have segment := loaded.iramSegment_eq header load
    cases kind with
    | iram =>
      rw [if_pos rfl] at segment
      have counted : countedBefore elf profiling (front ++ [entry]) =
          (countedBefore elf profiling front).add elf entry := by
        rw [countedBefore, List.foldl_append, List.foldl_cons, List.foldl_nil, countedBefore]
      rw [Counted.add, segment] at counted
      have setup : t.profiling.SameSetup s.profiling := by
        obtain ⟨-, same, -⟩ | ⟨-, patched⟩ := patchIram_inv patched
        · rw [same]
          exact ⟨rfl, rfl, rfl, rfl⟩
        · exact (patchProfiling_words patched).setup
      refine ⟨setup.trans sofar.setup, ?_, fun profiled patches => ?_⟩
      · rw [loaded.accumulated, Function.update_self, counted, sofar.instructions]
      · obtain ⟨idle, -⟩ | ⟨-, patched⟩ := patchIram_inv patched
        · exact absurd (idle.symm.trans profiled) Bool.false_ne_true
        · have made := patchProfiling_words patched
          have here := sofar.setup.patches_iff.mpr patches
          rw [counted, made.nr here, made.made here, sofar.earlier profiled patches,
            (sofar.calls profiled patches).2,
            sofar.instructions]
          exact ⟨rfl, rfl⟩
    | wram =>
      exact sofar.idle (segment.trans (if_neg (by decide))) (Prod.mk.inj (Prod.mk.inj patched).2).1.symm
        (by rw [loaded.accumulated, Function.update_of_ne (by decide)])
    | mram =>
      exact sofar.idle (segment.trans (if_neg (by decide))) (Prod.mk.inj (Prod.mk.inj patched).2).1.symm
        (by rw [loaded.accumulated, Function.update_of_ne (by decide)])

theorem amount_other {memory : Memory} {entry : Option GElfPhdr × SegmentOutcome} {phdr : GElfPhdr}
    (header : entry.1 = some phdr) (other : ∀ memory addr size, phdr.pType = PT_LOAD →
      extractAndConvertMemoryInformation phdr ≠ .ok (some memory, addr, size)) : amount memory entry = 0#32 := by
  rw [amount, header]
  dsimp only
  split
  · rename_i load
    split
    · exact absurd (by assumption) (other _ _ _ load)
    · rfl
  · rfl

end Proofs

/-- No memory has anything but zeros. -/
def blank : Image
  | .iram => fun _ => 0#64
  | .wram => fun _ => 0#32
  | .mram => fun _ => 0#8

/-- All calls for a segment pass. -/
def passes : SegmentOutcome := ⟨true, ⟨true, fun _ => true⟩, true, .ok, .ok, blank⟩

end Upmem.Loader
