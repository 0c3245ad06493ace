import Mathlib.Logic.Function.Basic
import Upmem.Lib.Blit
import Upmem.Lib.Transitions

namespace Upmem.MramUnaligned
open Blit Transitions

abbrev Bytes := Nat → BitVec 8

/-- `ALIGN_8_LOW`. -/
def align8Low (x : Nat) : Nat := x / 8 * 8

/-- `ALIGN_8_HIGH`. -/
def align8High (x : Nat) : Nat := (x + 7) / 8 * 8

/-- `VL_HASH_MRAM_ADDR`, with 2K virtual mutexes. -/
def vlHashMramAddr (addr : Nat) : Nat := addr / 8 % 2048

/-- A DMA transfer. -/
structure Dma where
  wram : Nat
  mram : Nat
  size : Nat

structure Dma.Legal (dma : Dma) : Prop where
  min : 8 ≤ dma.size
  max : dma.size ≤ 2048
  wram : dma.wram % 8 = 0
  mram : dma.mram % 8 = 0

/-- `mram_read_unaligned`: its transfer, the WRAM after it and the pointer that it returns. -/
def mramReadUnaligned (mram wram : Bytes) (source buffer nbOfBytes : Nat) : Dma × Bytes × Nat :=
  let addr8Align := align8Low source
  let diff := (source - addr8Align) % 256
  let size8Align := align8High (nbOfBytes + diff)
  (⟨buffer, addr8Align, size8Align⟩, blit mram addr8Align wram buffer size8Align, buffer + diff)

/-- What a write does one after the other: an 8-byte word is changed in a critical
section, or a block is transferred. -/
inductive Part
  | word (hash addr start count source : Nat)
  | block (source dest size : Nat)

/-- The iterations of the loop of the prolog. -/
def prologCount (i nbOfBytes : Nat) : Nat :=
  if i < 8 ∧ nbOfBytes ≠ 0 then prologCount (i + 1) (nbOfBytes - 1) + 1 else 0
termination_by 8 - i

/-- The aligned part of `mram_write_unaligned` and its epilog. -/
def mramWriteRest (wramAddr destHigh nbOfBytes : Nat) : List Part :=
  let nbBytesLow := align8Low nbOfBytes % 256
  let middle := if nbBytesLow ≠ 0 then [Part.block wramAddr destHigh nbBytesLow] else []
  let addr := destHigh + nbBytesLow
  let epilog :=
    if nbBytesLow < nbOfBytes then
      [Part.word (vlHashMramAddr addr) addr 0 ((nbOfBytes - nbBytesLow) % 256) (wramAddr + nbBytesLow)]
    else []
  middle ++ epilog

/-- `mram_write_unaligned`; a fault has no parts. -/
def mramWriteUnaligned (source dest nbOfBytes : Nat) : Option (List Part) :=
  let isAddrAligned := dest % 8 = 0
  let isSzAligned := nbOfBytes % 8 = 0
  if isAddrAligned ∧ isSzAligned then some [.block source dest nbOfBytes]
  else if source % 8 ≠ dest % 8 then none
  else if isAddrAligned then some (mramWriteRest source (align8High dest) nbOfBytes)
  else
    let start := dest % 8
    let count := prologCount start nbOfBytes
    let prolog := [Part.word (vlHashMramAddr dest) (align8Low dest) start count source]
    let nbOfBytes := nbOfBytes - count
    if nbOfBytes = 0 then some prolog
    else some (prolog ++ mramWriteRest (source + count) (align8High dest) nbOfBytes)

/-- The loop of the prolog and of the epilog: bytes of the WRAM are put into the buffer. -/
def patch (wram : Bytes) : Nat → Nat → Nat → Bytes → Bytes
  | 0, _, _, buffer => buffer
  | count + 1, i, source, buffer => patch wram count (i + 1) (source + 1) (Function.update buffer i (wram source))

/-- The bit of a virtual mutex in its byte. -/
def mutexBit (id : Nat) : BitVec 8 := 1#8 <<< (id % 8)

/-- The critical section of `vmutex_lock`; the mutex is got when the byte has changed. -/
def vmutexLock (vm : Bytes) (id : Nat) : Bytes := Function.update vm (id / 8) (vm (id / 8) ||| mutexBit id)

/-- `vmutex_unlock`. -/
def vmutexUnlock (vm : Bytes) (id : Nat) : Bytes :=
  Function.update vm (id / 8) (vm (id / 8) &&& (0xFF#8 ^^^ mutexBit id))

/-- How far a tasklet is with the critical section of its first part. -/
inductive Stage
  | outside | locked | loaded | patched | written
  deriving DecidableEq

/-- A tasklet: the parts to do, and its buffer in `__mram_unaligned_access_buffer`. -/
structure Tasklet where
  todo : List Part
  stage : Stage
  buffer : Bytes

structure Shared (n : Nat) where
  mram : Bytes
  vm : Bytes
  tasklet : Fin n → Tasklet

/-- The WRAM that no write changes: the sources, and where the buffers are. -/
structure Wram where
  bytes : Bytes
  buffer : Nat
  aligned : buffer % 8 = 0

section Writers
variable {n : Nat}

def Shared.set (s : Shared n) (me : Fin n) (tasklet : Tasklet) : Shared n :=
  { s with tasklet := Function.update s.tasklet me tasklet }

/-- The next operation of a tasklet. -/
def Shared.next (wram : Bytes) (s : Shared n) (me : Fin n) : Shared n :=
  let tasklet := s.tasklet me
  match tasklet.todo with
  | [] => s
  | .block source dest size :: rest =>
    { s.set me { tasklet with todo := rest } with mram := blit wram source s.mram dest size }
  | .word hash addr start count source :: rest =>
    match tasklet.stage with
    | .outside =>
      let vm := vmutexLock s.vm hash
      let stage := if vm (hash / 8) = s.vm (hash / 8) then .outside else .locked
      { s.set me { tasklet with stage := stage } with vm := vm }
    | .locked => s.set me { tasklet with stage := .loaded, buffer := blit s.mram addr tasklet.buffer 0 8 }
    | .loaded => s.set me { tasklet with stage := .patched, buffer := patch wram count start source tasklet.buffer }
    | .patched => { s.set me { tasklet with stage := .written } with mram := blit tasklet.buffer 0 s.mram addr 8 }
    | .written => { s.set me { tasklet with todo := rest, stage := .outside } with vm := vmutexUnlock s.vm hash }

/-- The transfer that the next operation of a tasklet is. -/
def Tasklet.dma (wram : Wram) (me : Fin n) (tasklet : Tasklet) : Option Dma :=
  match tasklet.todo with
  | [] => none
  | .block source dest size :: _ => some ⟨source, dest, size⟩
  | .word _ addr _ _ _ :: _ =>
    match tasklet.stage with
    | .locked | .patched => some ⟨wram.buffer + me * 8, addr, 8⟩
    | _ => none

def Step (wram : Wram) (s : Shared n) (me : Fin n) (t : Shared n) : Prop :=
  (s.tasklet me).todo ≠ [] ∧ t = s.next wram.bytes me

/-- A call of `mram_write_unaligned`. -/
structure Job where
  source : Nat
  dest : Nat
  nbOfBytes : Nat

def Job.Covers (job : Job) (a : Nat) : Prop :=
  job.dest ≤ a ∧ a < job.dest + job.nbOfBytes

/-- What the calls promise: ranges that are disjoint and as congruent as documented. -/
structure Jobs (n : Nat) where
  job : Fin n → Job
  size : ∀ i, 1 ≤ (job i).nbOfBytes ∧ (job i).nbOfBytes ≤ 2048
  congruent : ∀ i, (job i).source % 8 = (job i).dest % 8
  disjoint : ∀ i j a, i ≠ j → (job i).Covers a → ¬(job j).Covers a

def Jobs.start (jobs : Jobs n) (mram : Bytes) (buffer : Fin n → Bytes) : Shared n where
  mram := mram
  vm _ := 0#8
  tasklet i :=
    ⟨(mramWriteUnaligned (jobs.job i).source (jobs.job i).dest (jobs.job i).nbOfBytes).getD [], .outside, buffer i⟩

/-- The condition: the write is one transfer, or less than 256 bytes follow its prolog. -/
def Job.Short (job : Job) : Prop :=
  job.dest % 8 = 0 ∧ job.nbOfBytes % 8 = 0 ∨ job.nbOfBytes < 256 + (8 - job.dest % 8) % 8

/-- What holds after a run of writes. -/
structure Written (wram : Wram) (jobs : Jobs n) (mram : Bytes) (history : List (Transition (Shared n) (Fin n)))
    (s : Shared n) : Prop where
  dma : ∀ τ ∈ history, ∀ dma ∈ (τ.before.tasklet τ.action).dma wram τ.action, dma.Legal
  outside : ∀ a, (∀ i, ¬(jobs.job i).Covers a) → s.mram a = mram a
  written : ∀ i, (s.tasklet i).todo = [] → ∀ k < (jobs.job i).nbOfBytes,
    s.mram ((jobs.job i).dest + k) = wram.bytes ((jobs.job i).source + k)

/-- What a read of a range promises. -/
def ReadsExactly (mram wram : Bytes) (source buffer nbOfBytes : Nat) : Prop :=
  let (dma, after, pointer) := mramReadUnaligned mram wram source buffer nbOfBytes
  dma.Legal ∧ ∀ k < nbOfBytes, after (pointer + k) = mram (source + k)

end Writers

section Loops
variable {wram buffer : Bytes}

theorem prologCount_eq (i nbOfBytes : Nat) : prologCount i nbOfBytes = min (8 - i) nbOfBytes := by
  induction i, nbOfBytes using prologCount.induct with
  | case1 i nbOfBytes more ih =>
    rw [prologCount, if_pos more, ih]
    omega
  | case2 i nbOfBytes ends =>
    rw [prologCount, if_neg ends]
    omega

theorem patch_eq (count i source : Nat) : patch wram count i source buffer = blit wram source buffer i count := by
  induction count generalizing i source buffer with
  | zero => exact (blit_zero _ _ _ _).symm
  | succ count ih =>
    rw [patch, ih]
    funext a
    by_cases first : a = i
    · subst first
      rw [blit_outside _ _ _ (by omega), Function.update_self, blit, if_pos (by omega), Nat.sub_self]
      rfl
    · rw [blit, blit, Function.update_of_ne first]
      by_cases inside : i ≤ a ∧ a < i + (count + 1)
      · rw [if_pos inside, if_pos (by omega)]
        congr 1
        omega
      · rw [if_neg inside, if_neg (by omega)]

end Loops

section Mutexes
variable {vm : Bytes} {id other : Nat}

/-- A virtual mutex is taken. -/
def Held (vm : Bytes) (id : Nat) : Prop := (vm (id / 8)).getLsbD (id % 8)

theorem getLsbD_mutexBit (k : Nat) : (mutexBit id).getLsbD k = decide (k = id % 8) := by
  have below : id % 8 < 8 := Nat.mod_lt _ (by decide)
  by_cases inside : k < 8
  · rw [mutexBit, BitVec.getLsbD_shiftLeft, BitVec.getLsbD_one]
    by_cases same : k = id % 8
    · simp [same, below]
    · by_cases before : k < id % 8
      · simp [before, same]
      · simp [inside, before, same]
        omega
  · rw [BitVec.getLsbD_of_ge _ _ (by omega)]
    simp
    omega

theorem same_byte (byte : other / 8 = id / 8) : other % 8 = id % 8 ↔ other = id := by
  omega

theorem held_lock_iff : Held (vmutexLock vm id) other ↔ other = id ∨ Held vm other := by
  rw [Held, vmutexLock]
  by_cases byte : other / 8 = id / 8
  · rw [byte, Function.update_self, BitVec.getLsbD_or, getLsbD_mutexBit, Bool.or_eq_true, decide_eq_true_iff,
      same_byte byte, or_comm, Held, byte]
  · have ne : other ≠ id := fun same => byte (same ▸ rfl)
    rw [Function.update_of_ne byte, or_iff_right ne, Held]

theorem held_unlock_iff : Held (vmutexUnlock vm id) other ↔ other ≠ id ∧ Held vm other := by
  rw [Held, vmutexUnlock]
  by_cases byte : other / 8 = id / 8
  · have inside : other % 8 < 8 := Nat.mod_lt _ (by decide)
    have ones : ∀ k < 8, (0xFF#8).getLsbD k = true := by decide
    rw [byte, Function.update_self, BitVec.getLsbD_and, BitVec.getLsbD_xor, getLsbD_mutexBit, Held,
      byte, ones _ inside]
    have bits := same_byte byte
    by_cases same : other = id <;> simp [same, bits]
  · have ne : other ≠ id := fun same => byte (same ▸ rfl)
    rw [Function.update_of_ne byte, Held, and_iff_right ne]

/-- The attempt to take a mutex succeeds when it is free. -/
theorem vmutexLock_eq_iff : vmutexLock vm id (id / 8) = vm (id / 8) ↔ Held vm id := by
  rw [vmutexLock, Function.update_self, Held]
  constructor
  · intro same
    rw [← same, BitVec.getLsbD_or, getLsbD_mutexBit]
    simp
  · intro held
    refine BitVec.eq_of_getLsbD_eq fun k _ => ?_
    rw [BitVec.getLsbD_or, getLsbD_mutexBit]
    by_cases same : k = id % 8
    · rw [same, held]
      rfl
    · simp [same]

end Mutexes

section Parts

/-- The addresses that a part writes. -/
def Part.Covers : Part → Nat → Prop
  | .word _ addr start count _, a => addr + start ≤ a ∧ a < addr + start + count
  | .block _ dest size, a => dest ≤ a ∧ a < dest + size

/-- A part does a piece of a job. -/
inductive Part.Of (job : Job) : Part → Prop
  | word {addr start count source : Nat} : addr % 8 = 0 → start + count ≤ 8 → 0 < count →
      job.dest ≤ addr + start → addr + start + count ≤ job.dest + job.nbOfBytes →
      source + job.dest = job.source + (addr + start) →
        Part.Of job (.word (vlHashMramAddr addr) addr start count source)
  | block {source dest size : Nat} : Dma.Legal ⟨source, dest, size⟩ → size % 8 = 0 →
      job.dest ≤ dest → dest + size ≤ job.dest + job.nbOfBytes →
      source + job.dest = job.source + dest → Part.Of job (.block source dest size)

theorem vlHashMramAddr_align (dest : Nat) : vlHashMramAddr dest = vlHashMramAddr (align8Low dest) := by
  rw [vlHashMramAddr, vlHashMramAddr, align8Low]
  omega

/-- What follows the prolog does the rest of a job. -/
theorem mramWriteRest_parts {job : Job} {wramAddr destHigh nbOfBytes : Nat} (short : nbOfBytes < 256)
    (wram : wramAddr % 8 = 0) (mram : destHigh % 8 = 0) (after : job.dest ≤ destHigh)
    (ends : destHigh + nbOfBytes = job.dest + job.nbOfBytes)
    (offset : wramAddr + job.dest = job.source + destHigh) :
    (∀ part ∈ mramWriteRest wramAddr destHigh nbOfBytes, part.Of job) ∧
      ∀ a, destHigh ≤ a → a < destHigh + nbOfBytes → ∃ part ∈ mramWriteRest wramAddr destHigh nbOfBytes,
      part.Covers a := by
  have low : align8Low nbOfBytes % 256 = nbOfBytes / 8 * 8 := Nat.mod_eq_of_lt (by rw [align8Low]; omega)
  have last : (nbOfBytes - nbOfBytes / 8 * 8) % 256 = nbOfBytes - nbOfBytes / 8 * 8 := Nat.mod_eq_of_lt (by omega)
  simp only [mramWriteRest, low, last, List.mem_append]
  constructor
  · intro part member
    rcases member with member | member
    · split at member
      · obtain rfl := List.mem_singleton.mp member
        exact .block ⟨show 8 ≤ nbOfBytes / 8 * 8 by omega, show nbOfBytes / 8 * 8 ≤ 2048 by
          omega, wram, mram⟩ (by omega)
          after (by omega) offset
      · cases member
    · split at member
      · obtain rfl := List.mem_singleton.mp member
        exact .word (by omega) (by omega) (by omega) (by omega) (by omega) (by omega)
      · cases member
  · intro a above below
    by_cases middle : a < destHigh + nbOfBytes / 8 * 8
    · refine ⟨.block wramAddr destHigh (nbOfBytes / 8 * 8), Or.inl ?_, above, middle⟩
      rw [if_pos (by omega)]
      exact List.mem_singleton_self _
    · refine ⟨.word (vlHashMramAddr (destHigh + nbOfBytes / 8 * 8)) (destHigh + nbOfBytes / 8 * 8) 0
        (nbOfBytes - nbOfBytes / 8 * 8) (wramAddr + nbOfBytes / 8 * 8), Or.inr ?_, ?_, ?_⟩
      · rw [if_pos (by omega)]
        exact List.mem_singleton_self _
      · omega
      · omega

/-- The parts of a write do the whole job. -/
theorem mramWriteUnaligned_parts {job : Job} (size : 1 ≤ job.nbOfBytes ∧ job.nbOfBytes ≤ 2048)
    (congruent : job.source % 8 = job.dest % 8) (short : job.Short) :
    ∃ parts, mramWriteUnaligned job.source job.dest job.nbOfBytes = some parts ∧ (∀ part ∈ parts, part.Of job) ∧
      ∀ a, job.Covers a → ∃ part ∈ parts, part.Covers a := by
  rw [mramWriteUnaligned]
  by_cases aligned : job.dest % 8 = 0 ∧ job.nbOfBytes % 8 = 0
  · refine ⟨[.block job.source job.dest job.nbOfBytes], if_pos aligned, fun part member => ?_, fun a covers => ?_⟩
    · obtain rfl := List.mem_singleton.mp member
      exact .block
        ⟨show 8 ≤ job.nbOfBytes by omega, size.2, congruent.trans aligned.1, aligned.1⟩ aligned.2 le_rfl le_rfl rfl
    · exact ⟨_, List.mem_singleton_self _, covers⟩
  have short := short.resolve_left fun both => aligned ⟨both.1, both.2⟩
  simp only [if_neg aligned, if_neg (not_not.mpr congruent), prologCount_eq]
  by_cases address : job.dest % 8 = 0
  · rw [if_pos address]
    have high : align8High job.dest = job.dest := by rw [align8High]; omega
    obtain ⟨of, covers⟩ := @mramWriteRest_parts job job.source (align8High job.dest) job.nbOfBytes (by omega)
      (by omega) (by omega) (by omega) (by omega) (by omega)
    exact ⟨_, rfl, of, fun a inside => covers a (high.le.trans inside.1) (by rw [high]; exact inside.2)⟩
  rw [if_neg address]
  have prolog : Part.Of job (.word (vlHashMramAddr job.dest) (align8Low job.dest) (job.dest % 8)
      (min (8 - job.dest % 8) job.nbOfBytes) job.source) := by
    rw [vlHashMramAddr_align]
    refine .word ?_ ?_ ?_ ?_ ?_ ?_ <;> (try rw [align8Low]) <;> omega
  by_cases done : job.nbOfBytes - min (8 - job.dest % 8) job.nbOfBytes = 0
  · refine ⟨_, if_pos done, fun part member => ?_, fun a covers => ⟨_, List.mem_singleton_self _, ?_⟩⟩
    · obtain rfl := List.mem_singleton.mp member
      exact prolog
    · obtain ⟨above, below⟩ := covers
      refine ⟨?_, ?_⟩ <;> rw [align8Low] <;> omega
  · have high : align8High job.dest = job.dest + (8 - job.dest % 8) := by rw [align8High]; omega
    obtain ⟨of, covers⟩ := @mramWriteRest_parts job (job.source + min (8 - job.dest % 8) job.nbOfBytes)
      (align8High job.dest) (job.nbOfBytes - min (8 - job.dest % 8) job.nbOfBytes) (by omega)
      (by omega) (by omega) (by omega) (by omega) (by omega)
    refine ⟨_, if_neg done, fun part member => ?_, fun a inside => ?_⟩
    · rcases List.mem_append.mp member with first | rest
      · obtain rfl := List.mem_singleton.mp first
        exact prolog
      · exact of part rest
    · obtain ⟨above, below⟩ := inside
      by_cases first : a < align8High job.dest
      · refine ⟨_, List.mem_append_left _ (List.mem_singleton_self _), ?_, ?_⟩ <;> rw [align8Low] <;> omega
      · obtain ⟨part, member, covered⟩ := covers a (by omega) (by omega)
        exact ⟨part, List.mem_append_right _ member, covered⟩

end Parts

section Invariant
variable {n : Nat}

/-- The address of the word in whose critical section a tasklet is. -/
def Tasklet.inWord (x : Tasklet) : Option Nat :=
  match x.todo with
  | .word _ addr _ _ _ :: _ => if x.stage = .outside then none else some addr
  | _ => none

/-- The parts that are not written yet. -/
def Tasklet.pending (x : Tasklet) : List Part :=
  if x.stage = .written then x.todo.tail else x.todo

/-- The byte of an address of a job. -/
def Job.data (job : Job) (wram : Bytes) (a : Nat) : BitVec 8 := wram (job.source + (a - job.dest))

/-- A tasklet on the way through its job. -/
structure Tasklet.Fits (wram : Bytes) (job : Job) (mram : Bytes) (x : Tasklet) : Prop where
  parts : ∀ part ∈ x.todo, part.Of job
  shape : x.stage ≠ .outside → x.inWord ≠ none
  loaded : ∀ addr, x.inWord = some addr → x.stage = .loaded → ∀ k < 8, x.buffer k = mram (addr + k)
  patched : ∀ addr, x.inWord = some addr → x.stage = .patched → ∀ k < 8,
    x.buffer k = mram (addr + k) ∨ job.Covers (addr + k) ∧ x.buffer k = job.data wram (addr + k)
  change : ∀ hash addr start count source rest, x.todo = .word hash addr start count source :: rest →
    x.stage = .patched → ∀ k, start ≤ k → k < start + count → x.buffer k = job.data wram (addr + k)
  written : ∀ a, job.Covers a → (∃ part ∈ x.pending, part.Covers a) ∨ mram a = job.data wram a

/-- The words in critical sections are locked, each by one tasklet. -/
structure Kept (wram : Bytes) (jobs : Jobs n) (mram : Bytes) (s : Shared n) : Prop where
  fits : ∀ i, (s.tasklet i).Fits wram (jobs.job i) s.mram
  held : ∀ i addr, (s.tasklet i).inWord = some addr → Held s.vm (vlHashMramAddr addr)
  alone : ∀ i j addr addr', (s.tasklet i).inWord = some addr → (s.tasklet j).inWord = some addr' →
    vlHashMramAddr addr = vlHashMramAddr addr' → i = j
  outside : ∀ a, (∀ i, ¬(jobs.job i).Covers a) → s.mram a = mram a

variable {wram mram mram' : Bytes} {job : Job} {x x' : Tasklet} {jobs : Jobs n} {s t : Shared n} {me : Fin n}

theorem Tasklet.Fits.frame (fits : x.Fits wram job mram) (covered : ∀ a, job.Covers a → mram' a = mram a)
    (word : ∀ addr, x.inWord = some addr → ∀ k < 8, mram' (addr + k) = mram (addr + k)) :
    x.Fits wram job mram' where
  parts := fits.parts
  shape := fits.shape
  loaded addr inside stage k below := by rw [word addr inside k below, fits.loaded addr inside stage k below]
  patched addr inside stage k below := by
    rw [word addr inside k below]
    exact fits.patched addr inside stage k below
  change := fits.change
  written a covers := by
    rw [covered a covers]
    exact fits.written a covers

/-- A tasklet has moved, and has written at most in its range and in no word of another one. -/
theorem Kept.of_move (kept : Kept wram jobs mram s) (moved : t.tasklet = Function.update s.tasklet me x')
    (fits : x'.Fits wram (jobs.job me) t.mram) (changed : ∀ a, ¬(jobs.job me).Covers a → t.mram a = s.mram a)
    (words : ∀ j, j ≠ me → ∀ addr, (s.tasklet j).inWord = some addr → ∀ k < 8,
      t.mram (addr + k) = s.mram (addr + k))
    (held : ∀ addr, x'.inWord = some addr → Held t.vm (vlHashMramAddr addr))
    (others : ∀ j, j ≠ me → ∀ addr, (s.tasklet j).inWord = some addr → Held t.vm (vlHashMramAddr addr))
    (alone : ∀ j, j ≠ me → ∀ addr addr', x'.inWord = some addr → (s.tasklet j).inWord = some addr' →
      vlHashMramAddr addr ≠ vlHashMramAddr addr') : Kept wram jobs mram t := by
  have self : t.tasklet me = x' := by rw [moved, Function.update_self]
  have other {i : Fin n} (ne : i ≠ me) : t.tasklet i = s.tasklet i := by rw [moved, Function.update_of_ne ne]
  refine ⟨fun i => ?_, fun i addr inside => ?_, fun i j addr addr' first second same => ?_, fun a free => ?_⟩
  · by_cases same : i = me
    · rw [same, self]
      exact fits
    · rw [other same]
      exact (kept.fits i).frame (fun a covers => changed a (jobs.disjoint i me a same covers)) (words i same)
  · by_cases same : i = me
    · rw [same, self] at inside
      exact held addr inside
    · rw [other same] at inside
      exact others i same addr inside
  · by_cases firstMe : i = me <;> by_cases secondMe : j = me
    · rw [firstMe, secondMe]
    · rw [firstMe, self] at first
      rw [other secondMe] at second
      exact absurd same (alone j secondMe addr addr' first second)
    · rw [other firstMe] at first
      rw [secondMe, self] at second
      exact absurd same.symm (alone i firstMe addr' addr second first)
    · rw [other firstMe] at first
      rw [other secondMe] at second
      exact kept.alone i j addr addr' first second same
  · exact (changed a (free me)).trans (kept.outside a free)

/-- A tasklet has moved in the same word or outside of words, and only it can tell. -/
theorem Kept.of_local (kept : Kept wram jobs mram s) (moved : t.tasklet = Function.update s.tasklet me x')
    (sameMram : t.mram = s.mram) (sameVm : t.vm = s.vm) (fits : x'.Fits wram (jobs.job me) s.mram)
    (word : x'.inWord = (s.tasklet me).inWord) : Kept wram jobs mram t := by
  refine kept.of_move moved (sameMram ▸ fits) (fun _ _ => by rw [sameMram]) (fun _ _ _ _ _ _ => by rw [sameMram])
    (fun addr inside => ?_) (fun j _ addr inside => ?_) fun j ne addr addr' first second same => ?_
  · rw [sameVm]
    exact kept.held me addr (word ▸ inside)
  · rw [sameVm]
    exact kept.held j addr inside
  · exact ne (kept.alone me j addr addr' (word ▸ first) second same).symm

/-- A word that a tasklet is in holds an address of its job. -/
theorem Tasklet.Fits.word (fits : x.Fits wram job mram) {addr : Nat} (inside : x.inWord = some addr) :
    addr % 8 = 0 ∧ ∃ k < 8, job.Covers (addr + k) := by
  obtain ⟨todo, stage, buffer⟩ := x
  cases todo with
  | nil => cases inside
  | cons part rest =>
    have of := fits.parts part List.mem_cons_self
    cases of with
    | @word addr' start count source aligned fit positive above below offset =>
      have same : addr' = addr := by
        simp only [Tasklet.inWord] at inside
        split at inside
        · cases inside
        · exact Option.some.inj inside
      subst same
      exact ⟨aligned, start, by omega, above, by omega⟩
    | block => cases inside

/-- The block of a job touches no word that another tasklet is in. -/
theorem Kept.block_words (kept : Kept wram jobs mram s) {source dest size : Nat}
    (of : Part.Of (jobs.job me) (.block source dest size)) {j : Fin n} (ne : j ≠ me) {addr : Nat}
    (inside : (s.tasklet j).inWord = some addr) : ∀ k < 8, ¬(dest ≤ addr + k ∧ addr + k < dest + size) := by
  obtain ⟨aligned, k', below', covers⟩ := (kept.fits j).word inside
  intro k below touched
  cases of with
  | block legal whole above ends offset =>
    have mramAligned := legal.mram
    refine jobs.disjoint j me (addr + k') ne covers ⟨?_, ?_⟩
    · simp only at mramAligned
      omega
    · simp only at mramAligned
      omega

theorem inWord_of_word {hash addr start count source : Nat} {rest : List Part}
    (todo : x.todo = .word hash addr start count source :: rest) {stage : Stage} (at' : x.stage = stage)
    (inside : stage ≠ .outside) : x.inWord = some addr := by
  simp only [Tasklet.inWord, todo, at', if_neg inside]

theorem inWord_of_outside (stage : x.stage = .outside) : x.inWord = none := by
  rw [Tasklet.inWord]
  split
  · exact if_pos stage
  · rfl

theorem inWord_ne_of_outside {addr : Nat} (stage : x.stage = .outside) : x.inWord ≠ some addr := by
  rw [inWord_of_outside stage]
  exact fun same => nomatch same

/-- Outside of critical sections only the parts and the written bytes matter. -/
theorem Tasklet.Fits.of_outside (stage : x.stage = .outside) (parts : ∀ part ∈ x.todo, part.Of job)
    (written : ∀ a, job.Covers a → (∃ part ∈ x.todo, part.Covers a) ∨ mram a = job.data wram a) :
    x.Fits wram job mram where
  parts := parts
  shape inside := absurd stage inside
  loaded addr inside := by
    rw [inWord_of_outside stage] at inside
    cases inside
  patched addr inside := by
    rw [inWord_of_outside stage] at inside
    cases inside
  change _ _ _ _ _ _ _ patched := by
    rw [stage] at patched
    cases patched
  written := by
    rw [Tasklet.pending, if_neg (by rw [stage]; decide)]
    exact written

/-- The transfer of a block. -/
theorem Kept.block (kept : Kept wram jobs mram s) {source dest size : Nat} {rest : List Part}
    (todo : (s.tasklet me).todo = .block source dest size :: rest) : Kept wram jobs mram (s.next wram me) := by
  have fits := kept.fits me
  have of := fits.parts _ (todo ▸ List.mem_cons_self)
  have stage : (s.tasklet me).stage = .outside := by
    by_contra inside
    exact fits.shape inside (by simp only [Tasklet.inWord, todo])
  have result : s.next wram me = ⟨blit wram source s.mram dest size, s.vm,
      Function.update s.tasklet me { s.tasklet me with todo := rest }⟩ := by
    simp only [Shared.next, todo, Shared.set]
  rw [result]
  obtain ⟨above, ends, offset⟩ : (jobs.job me).dest ≤ dest ∧
    dest + size ≤ (jobs.job me).dest + (jobs.job me).nbOfBytes ∧
      source + (jobs.job me).dest = (jobs.job me).source + dest := by
    cases of with
    | block _ _ above ends offset => exact ⟨above, ends, offset⟩
  have data {a : Nat} (inside : dest ≤ a ∧ a < dest + size) :
      blit wram source s.mram dest size a = (jobs.job me).data wram a := by
    rw [blit, if_pos inside, Job.data]
    congr 1
    omega
  refine kept.of_move rfl (.of_outside stage ?_ fun a covers => ?_) (fun a free => ?_)
    (fun j ne addr inside k below => ?_)
    (fun addr inside => ?_) (fun j _ addr inside => kept.held j addr inside) fun j ne addr addr' inside => ?_
  · exact fun part member => fits.parts part (todo ▸ List.mem_cons_of_mem _ member)
  · by_cases inside : dest ≤ a ∧ a < dest + size
    · exact Or.inr (data inside)
    · rcases fits.written a covers with ⟨part, member, covered⟩ | done
      · rw [Tasklet.pending, if_neg (by rw [stage]; decide), todo] at member
        rcases List.mem_cons.mp member with rfl | later
        · exact absurd covered inside
        · exact Or.inl ⟨part, later, covered⟩
      · exact Or.inr ((blit_outside _ _ _ inside).trans done)
  · exact blit_outside _ _ _ fun inside => free ⟨by omega, by omega⟩
  · exact blit_outside _ _ _ (kept.block_words of ne inside k below)
  · exact absurd inside (inWord_ne_of_outside stage)
  · exact absurd inside (inWord_ne_of_outside stage)

section Words
variable {hash addr start count source : Nat} {rest : List Part}

/-- What is known of a tasklet whose first part is a word. -/
structure AtWord (s : Shared n) (me : Fin n) (job : Job) (hash addr start count source : Nat) : Prop where
  hash : hash = vlHashMramAddr addr
  aligned : addr % 8 = 0
  fit : start + count ≤ 8
  data : ∀ wram k, start ≤ k → k < start + count →
    job.Covers (addr + k) ∧ wram (source + (k - start)) = job.data wram (addr + k)

theorem Tasklet.Fits.atWord (fits : (s.tasklet me).Fits wram job mram)
    (todo : (s.tasklet me).todo = .word hash addr start count source :: rest) :
    AtWord s me job hash addr start count source := by
  have of := fits.parts _ (todo ▸ List.mem_cons_self)
  cases of with
  | word aligned fit positive above below offset =>
    refine ⟨rfl, aligned, fit, fun wram k lower upper => ⟨⟨by omega, by omega⟩, ?_⟩⟩
    rw [Job.data]
    congr 1
    omega

/-- An attempt to lock the mutex of a word. -/
theorem Kept.lock (kept : Kept wram jobs mram s)
    (todo : (s.tasklet me).todo = .word hash addr start count source :: rest)
    (stage : (s.tasklet me).stage = .outside) : Kept wram jobs mram (s.next wram me) := by
  have fits := kept.fits me
  have here := fits.atWord todo
  by_cases held : Held s.vm hash
  · have sameVm : vmutexLock s.vm hash = s.vm := by
      rw [vmutexLock, Function.update_eq_self_iff]
      have same := vmutexLock_eq_iff.mpr held
      rwa [vmutexLock, Function.update_self] at same
    have result :
        s.next wram me = { s.set me { s.tasklet me with stage := .outside } with vm := vmutexLock s.vm hash } := by
      simp only [Shared.next, todo, stage, sameVm, if_true]
    rw [result]
    refine kept.of_local rfl rfl sameVm ?_ ?_
    · rw [← stage]
      exact fits
    · rw [← stage]
  · have result :
        s.next wram me = { s.set me { s.tasklet me with stage := .locked } with vm := vmutexLock s.vm hash } := by
      simp only [Shared.next, todo, stage, if_neg (mt vmutexLock_eq_iff.mp held)]
    rw [result]
    have word' : Tasklet.inWord { s.tasklet me with stage := .locked } = some addr :=
      inWord_of_word todo (rfl : _ = Stage.locked) (by decide)
    have word (addr' : Nat) (inside : Tasklet.inWord { s.tasklet me with stage := .locked } = some addr') :
        addr' = addr :=
      Option.some.inj (inside.symm.trans word')
    refine kept.of_move rfl
      ⟨fits.parts, fun _ => ?_, fun _ _ stage' => ?_, fun _ _ stage' => ?_, fun _ _ _ _ _ _ _ stage' => ?_,
      fun a covers => ?_⟩ (fun _ _ => rfl) (fun _ _ _ _ _ _ => rfl) (fun addr' inside => ?_)
        (fun j _ addr' inside => ?_)
      fun j ne addr' other inside inside' same => ?_
    · rw [word']
      simp
    · cases stage'
    · cases stage'
    · cases stage'
    · have written := fits.written a covers
      rwa [Tasklet.pending, if_neg (by rw [stage]; decide)] at written
    · rw [word addr' inside, ← here.hash]
      exact held_lock_iff.mpr (Or.inl rfl)
    · exact held_lock_iff.mpr (Or.inr (kept.held j addr' inside))
    · rw [word addr' inside, ← here.hash] at same
      exact held (same ▸ kept.held j other inside')

/-- A word is read into the buffer. -/
theorem Kept.load (kept : Kept wram jobs mram s)
    (todo : (s.tasklet me).todo = .word hash addr start count source :: rest)
    (stage : (s.tasklet me).stage = .locked) : Kept wram jobs mram (s.next wram me) := by
  have fits := kept.fits me
  have result : s.next wram me =
      s.set me { s.tasklet me with stage := .loaded, buffer := blit s.mram addr (s.tasklet me).buffer 0 8 } := by
    simp only [Shared.next, todo, stage]
  rw [result]
  have word : (s.tasklet me).inWord = some addr := inWord_of_word todo stage (by decide)
  have word' :
    Tasklet.inWord { s.tasklet me with stage := .loaded, buffer := blit s.mram addr (s.tasklet me).buffer 0 8 } =
      some addr := inWord_of_word todo (rfl : _ = Stage.loaded) (by decide)
  refine kept.of_local rfl rfl rfl ⟨fits.parts, fun _ => ?_, fun addr' inside _ k below => ?_, fun _ _ stage' => ?_,
    fun _ _ _ _ _ _ _ stage' => ?_, fun a covers => ?_⟩ (word'.trans word.symm)
  · rw [word']
    simp
  · obtain rfl : addr' = addr := Option.some.inj (inside.symm.trans word')
    have cell := blit_inside s.mram (s.tasklet me).buffer addr' 0 below
    rwa [Nat.zero_add] at cell
  · cases stage'
  · cases stage'
  · have written := fits.written a covers
    rwa [Tasklet.pending, if_neg (by rw [stage]; decide)] at written

/-- The bytes of a job are put into the buffer. -/
theorem Kept.change (kept : Kept wram jobs mram s)
    (todo : (s.tasklet me).todo = .word hash addr start count source :: rest)
    (stage : (s.tasklet me).stage = .loaded) : Kept wram jobs mram (s.next wram me) := by
  have fits := kept.fits me
  have here := fits.atWord todo
  have result : s.next wram me = s.set me
      { s.tasklet me with stage := .patched, buffer := patch wram count start source (s.tasklet me).buffer } := by
    simp only [Shared.next, todo, stage]
  rw [result, patch_eq]
  have word : (s.tasklet me).inWord = some addr := inWord_of_word todo stage (by decide)
  have word' : Tasklet.inWord
    { s.tasklet me with stage := .patched, buffer := blit wram source (s.tasklet me).buffer start count } =
      some addr := inWord_of_word todo (rfl : _ = Stage.patched) (by decide)
  refine kept.of_local rfl rfl rfl ⟨fits.parts, fun _ => ?_, fun _ _ stage' => ?_, fun addr' inside _ k below => ?_,
    fun _ _ _ _ _ _ todo' _ k lower upper => ?_, fun a covers => ?_⟩ (word'.trans word.symm)
  · rw [word']
    simp
  · cases stage'
  · obtain rfl : addr' = addr := Option.some.inj (inside.symm.trans word')
    by_cases changed : start ≤ k ∧ k < start + count
    · obtain ⟨covers, data⟩ := here.data wram k changed.1 changed.2
      refine Or.inr ⟨covers, ?_⟩
      rw [← data]
      exact if_pos changed
    · refine Or.inl ?_
      rw [← fits.loaded addr' word stage k below]
      exact if_neg changed
  · cases todo.symm.trans todo'
    rw [← (here.data wram k lower upper).2]
    exact if_pos ⟨lower, upper⟩
  · have written := fits.written a covers
    rwa [Tasklet.pending, if_neg (by rw [stage]; decide)] at written

/-- The word is written back. -/
theorem Kept.store (kept : Kept wram jobs mram s) (todo :
      (s.tasklet me).todo = .word hash addr start count source :: rest)
    (stage : (s.tasklet me).stage = .patched) : Kept wram jobs mram (s.next wram me) := by
  have fits := kept.fits me
  have here := fits.atWord todo
  have result : s.next wram me =
      { s.set me { s.tasklet me with stage :=
        .written } with mram := blit (s.tasklet me).buffer 0 s.mram addr 8 } := by
    simp only [Shared.next, todo, stage]
  rw [result]
  have word : (s.tasklet me).inWord = some addr := inWord_of_word todo stage (by decide)
  have word' : Tasklet.inWord { s.tasklet me with stage := .written } = some addr :=
    inWord_of_word todo (rfl : _ = Stage.written) (by decide)
  have inside {k : Nat} (below : k < 8) :
      blit (s.tasklet me).buffer 0 s.mram addr 8 (addr + k) = (s.tasklet me).buffer k := by
    rw [blit_inside _ _ _ _ below, Nat.zero_add]
  -- A byte of the word is one of the job, or it is what the word already had.
  have bytes (a : Nat) : blit (s.tasklet me).buffer 0 s.mram addr 8 a = s.mram a ∨
      (jobs.job me).Covers a ∧ blit (s.tasklet me).buffer 0 s.mram addr 8 a = (jobs.job me).data wram a := by
    by_cases member : addr ≤ a ∧ a < addr + 8
    · obtain ⟨k, rfl⟩ := Nat.exists_eq_add_of_le member.1
      rw [inside (by omega)]
      exact fits.patched addr word stage k (by omega)
    · exact Or.inl (blit_outside _ _ _ member)
  refine kept.of_move rfl
    ⟨fits.parts, fun _ => ?_, fun _ _ stage' => ?_, fun _ _ stage' => ?_, fun _ _ _ _ _ _ _ stage' => ?_,
    fun a covers => ?_⟩ (fun a free => ?_) (fun j ne addr' other k below => ?_) (fun addr' other => ?_)
    (fun j _ addr' other => kept.held j addr' other) fun j ne addr' other' first second same => ?_
  · rw [word']
    simp
  · cases stage'
  · cases stage'
  · cases stage'
  · rcases fits.written a covers with ⟨part, member, covered⟩ | done
    · rw [Tasklet.pending, if_neg (by rw [stage]; decide), todo] at member
      rcases List.mem_cons.mp member with rfl | later
      · obtain ⟨lower, upper⟩ : addr + start ≤ a ∧ a < addr + start + count := covered
        obtain ⟨k, rfl⟩ := Nat.exists_eq_add_of_le (show addr ≤ a by omega)
        have fit := here.fit
        refine Or.inr ((inside (by omega)).trans ?_)
        exact fits.change hash addr start count source rest todo stage k (by omega) (by omega)
      · refine Or.inl ⟨part, ?_, covered⟩
        rw [Tasklet.pending, if_pos rfl, todo]
        exact later
    · exact Or.inr ((bytes a).elim (fun same => same.trans done) And.right)
  · exact (bytes a).resolve_right fun both => free both.1
  · refine blit_outside _ _ _ fun member => ?_
    have aligned := here.aligned
    have aligned' := ((kept.fits j).word other).1
    have same : addr' = addr := by omega
    exact ne (kept.alone j me addr' addr other word (same ▸ rfl))
  · rw [← Option.some.inj (word'.symm.trans other)]
    exact kept.held me addr word
  · rw [← Option.some.inj (word'.symm.trans first)] at same
    exact ne (kept.alone me j addr other' word second same).symm

/-- The mutex is unlocked. -/
theorem Kept.unlock (kept : Kept wram jobs mram s)
    (todo : (s.tasklet me).todo = .word hash addr start count source :: rest)
    (stage : (s.tasklet me).stage = .written) : Kept wram jobs mram (s.next wram me) := by
  have fits := kept.fits me
  have here := fits.atWord todo
  have result : s.next wram me =
      { s.set me { s.tasklet me with todo := rest, stage := .outside } with vm := vmutexUnlock s.vm hash } := by
    simp only [Shared.next, todo, stage]
  rw [result]
  have word : (s.tasklet me).inWord = some addr := inWord_of_word todo stage (by decide)
  refine kept.of_move rfl (.of_outside rfl ?_ fun a covers => ?_) (fun _ _ => rfl) (fun _ _ _ _ _ _ => rfl)
    (fun addr' inside => ?_) (fun j ne addr' other => ?_) fun j ne addr' other' inside => ?_
  · exact fun part member => fits.parts part (todo ▸ List.mem_cons_of_mem _ member)
  · have written := fits.written a covers
    rwa [Tasklet.pending, if_pos stage, todo] at written
  · exact absurd inside (inWord_ne_of_outside rfl)
  · refine held_unlock_iff.mpr ⟨fun same => ?_, kept.held j addr' other⟩
    exact ne (kept.alone j me addr' addr other word (same.trans here.hash))
  · exact absurd inside (inWord_ne_of_outside rfl)

end Words

/-- The next operation keeps what is known. -/
theorem Kept.next (kept : Kept wram jobs mram s) (busy : (s.tasklet me).todo ≠ []) :
    Kept wram jobs mram (s.next wram me) := by
  cases todo : (s.tasklet me).todo with
  | nil => exact absurd todo busy
  | cons part rest =>
    cases part with
    | block source dest size => exact kept.block todo
    | word hash addr start count source =>
      cases stage : (s.tasklet me).stage with
      | outside => exact kept.lock todo stage
      | locked => exact kept.load todo stage
      | loaded => exact kept.change todo stage
      | patched => exact kept.store todo stage
      | written => exact kept.unlock todo stage

theorem Kept.start (short : ∀ i, (jobs.job i).Short) (buffer : Fin n → Bytes) :
    Kept wram jobs mram (jobs.start mram buffer) := by
  have outside (i : Fin n) : ((jobs.start mram buffer).tasklet i).stage = .outside := rfl
  refine ⟨fun i => ?_, fun i addr inside => ?_, fun i j addr addr' inside => ?_, fun a free => rfl⟩
  · obtain ⟨parts, call, of, covers⟩ := mramWriteUnaligned_parts (jobs.size i) (jobs.congruent i) (short i)
    have todo : ((jobs.start mram buffer).tasklet i).todo = parts := by
      show (mramWriteUnaligned _ _ _).getD [] = parts
      rw [call]
      rfl
    refine .of_outside (outside i) ?_ fun a inside => Or.inl ?_
    · rw [todo]
      exact of
    · rw [todo]
      exact covers a inside
  · exact absurd inside (inWord_ne_of_outside (outside i))
  · exact absurd inside (inWord_ne_of_outside (outside i))

theorem Kept.dma {wram : Wram} (kept : Kept wram.bytes jobs mram s) {dma : Dma}
    (next : (s.tasklet me).dma wram me = some dma) : dma.Legal := by
  have fits := kept.fits me
  cases todo : (s.tasklet me).todo with
  | nil =>
    simp only [Tasklet.dma, todo] at next
    cases next
  | cons part rest =>
    cases part with
    | block source dest size =>
      simp only [Tasklet.dma, todo] at next
      cases next
      cases fits.parts _ (todo ▸ List.mem_cons_self) with
      | block legal => exact legal
    | word hash addr start count source =>
      have aligned := (fits.atWord todo).aligned
      have buffer := wram.aligned
      have same : dma = ⟨wram.buffer + me * 8, addr, 8⟩ := by
        simp only [Tasklet.dma, todo] at next
        split at next <;> cases next <;> rfl
      rw [same]
      exact ⟨le_rfl, show 8 ≤ 2048 by decide, show (wram.buffer + me * 8) % 8 = 0 by omega, aligned⟩

/-- A read is exact as long as the words of its range are at most 2048 bytes. -/
theorem readsExactly_iff {source buffer nbOfBytes : Nat} (size : 1 ≤ nbOfBytes) (aligned : buffer % 8 = 0) :
    ReadsExactly mram wram source buffer nbOfBytes ↔ nbOfBytes + source % 8 ≤ 2048 := by
  have diff : (source - source / 8 * 8) % 256 = source % 8 := by omega
  simp only [ReadsExactly, mramReadUnaligned, align8Low, diff, align8High]
  constructor
  · rintro ⟨legal, _⟩
    have max := legal.max
    simp only at max
    omega
  · intro small
    refine ⟨⟨?_, ?_, aligned, ?_⟩, fun k below => ?_⟩
    · show 8 ≤ (nbOfBytes + source % 8 + 7) / 8 * 8
      omega
    · show (nbOfBytes + source % 8 + 7) / 8 * 8 ≤ 2048
      omega
    · show source / 8 * 8 % 8 = 0
      omega
    · show blit mram (source / 8 * 8) wram buffer ((nbOfBytes + source % 8 + 7) / 8 * 8) (buffer +
        source % 8 + k) = _
      rw [Nat.add_assoc buffer, blit_inside _ _ _ _ (by omega)]
      congr 1
      omega

end Invariant

section Runs
variable {n : Nat} {wram : Wram} {jobs : Jobs n} {mram : Bytes} {buffer : Fin n → Bytes} {s : Shared n}
  {history : List (Transition (Shared n) (Fin n))}

theorem Run.kept (short : ∀ i, (jobs.job i).Short) (run : Run (Step wram) (jobs.start mram buffer) history s) :
    Kept wram.bytes jobs mram s := by
  refine run.reachable.invariant (Kept.start short buffer) ?_
  rintro s me t kept ⟨busy, rfl⟩
  exact kept.next busy

/-- Short writes do all of their jobs in every run, and reads are exact as long as they need at most 2048 bytes. -/
theorem unaligned_written (short : ∀ i, (jobs.job i).Short)
    (run : Run (Step wram) (jobs.start mram buffer) history s) :
    Written wram jobs mram history s ∧ ∀ after source target nbOfBytes, 1 ≤ nbOfBytes → nbOfBytes ≤ 2048 →
      target % 8 = 0 →
      (ReadsExactly s.mram after source target nbOfBytes ↔ nbOfBytes + source % 8 ≤ 2048) := by
  have kept := Run.kept short run
  refine ⟨⟨fun τ member dma next => ?_, kept.outside, fun i done k below => ?_⟩,
    fun after source target nbOfBytes size _ aligned => readsExactly_iff size aligned⟩
  · obtain ⟨⟨_, before⟩, _⟩ := run.transition_step member
    exact (Run.kept short before).dma next
  · have pending : (s.tasklet i).pending = [] := by
      rw [Tasklet.pending, done]
      exact ite_self _
    rcases (kept.fits i).written _ ⟨Nat.le_add_right _ k, Nat.add_lt_add_left below _⟩ with ⟨part, member, _⟩ | data
    · rw [pending] at member
      cases member
    · rw [data, Job.data, Nat.add_sub_cancel_left]

end Runs

section Example

def ones : Wram := ⟨fun _ => 1#8, 0x1000, by decide⟩

/-- Two tasklets write the halves of a word. -/
def halves : Jobs 2 where
  job i := ⟨4 * i, 4 * i, 4⟩
  size _ := ⟨by show 1 ≤ 4; decide, by show 4 ≤ 2048; decide⟩
  congruent _ := rfl
  disjoint i j a ne first second := by
    obtain ⟨lower, upper⟩ := first
    obtain ⟨lower', upper'⟩ := second
    simp only at lower upper lower' upper'
    exact ne (Fin.ext (by omega))

theorem unaligned_written_halves : ∃ (history : List (Transition (Shared 2) (Fin 2))) (s : Shared 2),
    Run (Step ones) (halves.start (fun _ => 0#8) fun _ _ => 0#8) history s ∧ history.length = 5 ∧
      Written ones halves (fun _ => 0#8) history s := by
  have run := (((((.start : Run (Step ones) (halves.start (fun _ => 0#8) fun _ _ => 0#8) [] _).next
    (a := 0) ⟨List.cons_ne_nil _ _, rfl⟩).next
    (a := 0) ⟨List.cons_ne_nil _ _, rfl⟩).next
    (a := 0) ⟨List.cons_ne_nil _ _, rfl⟩).next
    (a := 0) ⟨List.cons_ne_nil _ _, rfl⟩).next
    (a := 0) ⟨List.cons_ne_nil _ _, rfl⟩
  refine ⟨_, _, run, rfl, (unaligned_written (fun i => Or.inr ?_) run).1⟩
  show 4 < 256 + (8 - 4 * i.val % 8) % 8
  omega

/-- A tasklet that writes 260 bytes. -/
def long : Jobs 1 where
  job _ := ⟨0, 0, 260⟩
  size _ := by decide
  congruent _ := rfl
  disjoint i j a ne := absurd (Subsingleton.elim i j) ne

theorem long_parts : mramWriteUnaligned 0 0 260 = some [.word 0 0 0 4 0] := by
  simp [mramWriteUnaligned, mramWriteRest, align8Low, align8High, vlHashMramAddr]

/-- It has written only four of its bytes when it is done. -/
theorem long_not_written : ∃ (history : List (Transition (Shared 1) (Fin 1))) (s : Shared 1),
    Run (Step ones) (long.start (fun _ => 0#8) fun _ _ => 0#8) history s ∧ (s.tasklet 0).todo = [] ∧
      ¬Written ones long (fun _ => 0#8) history s := by
  have start : long.start (fun _ => 0#8) (fun _ _ => 0#8) =
      ⟨fun _ => 0#8, fun _ => 0#8, fun _ => ⟨[.word 0 0 0 4 0], .outside, fun _ => 0#8⟩⟩ := by
    simp only [Jobs.start, long, long_parts, Option.getD_some]
  rw [start]
  have run := (((((.start : Run (Step ones) ⟨fun _ => 0#8, fun _ => 0#8, fun _ : Fin 1 =>
      ⟨[.word 0 0 0 4 0], .outside, fun _ => 0#8⟩⟩ [] _).next
    (a := 0) ⟨List.cons_ne_nil _ _, rfl⟩).next
    (a := 0) ⟨List.cons_ne_nil _ _, rfl⟩).next
    (a := 0) ⟨List.cons_ne_nil _ _, rfl⟩).next
    (a := 0) ⟨List.cons_ne_nil _ _, rfl⟩).next
    (a := 0) ⟨List.cons_ne_nil _ _, rfl⟩
  refine ⟨_, _, run, rfl, fun written => ?_⟩
  have byte := written.written 0 rfl 4 (by decide)
  exact absurd byte (by decide)

end Example
end Upmem.MramUnaligned
