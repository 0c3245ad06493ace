import Upmem.MramProgram

namespace Upmem.MramAccess
open Blit

section Program
variable {memories : Memories} {program : AccessProgram memories}

theorem AccessProgram.patched_first (type : TransferType) :
    program.patched type DMA_ACCESS_IDX_1 = dmaAccess type DMA_ACCESS_LENGTH_1 := by
  have inside : DMA_ACCESS_IDX_1 < program.code.length :=
    Nat.lt_trans (by decide) program.patched_lt
  have other : DMA_ACCESS_IDX_2 ≠ DMA_ACCESS_IDX_1 := by decide
  rw [AccessProgram.patched, List.getD_eq_getElem?_getD, List.getElem?_set_ne other,
    List.getElem?_set_self inside]
  rfl

/-- The program in the IRAM is patched for one direction only. -/
theorem Holds.unique {type type' : TransferType} {iram : Nat → BitVec 64} (held : Holds program type iram)
    (held' : Holds program type' iram) : type = type' := by
  have inside : DMA_ACCESS_IDX_1 < program.code.length :=
    Nat.lt_trans (by decide) program.patched_lt
  have same := (held _ inside).symm.trans (held' _ inside)
  rw [AccessProgram.patched_first, AccessProgram.patched_first] at same
  cases type <;> cases type' <;> first | rfl | exact absurd same (by decide)

theorem bootAndPoll_of_holds {type : TransferType} {dpu : DpuState} (held : Holds program type dpu.iram)
    (resume : Bool) : bootAndPoll program resume dpu = runAccessProgram type resume dpu := by
  cases type with
  | toMram => exact if_pos held
  | fromMram =>
    have other : ¬ Holds program .toMram dpu.iram := fun held' => by cases held.unique held'
    rw [bootAndPoll, if_neg other, if_pos held]

end Program

/-- Two DMAs of consecutive stretches are one. -/
theorem dma_append (type : TransferType) (wramAddress mramAddress first second : Nat) (dpu : DpuState)
    (r0 : Nat) :
    { dma type (wramAddress + first) (mramAddress + first) second (dma type wramAddress mramAddress first dpu) with
      r0 := r0 } = { dma type wramAddress mramAddress (first + second) dpu with r0 := r0 } := by
  cases type <;> simp only [dma, blit_append]

/-- The loop of the program moves the whole buffer. -/
theorem transferLoop_eq (type : TransferType) (r0 r1 r2 : Nat) (dpu : DpuState) (whole : r1 % 8 = 0) :
    transferLoop type r0 r1 r2 dpu = { dma type r2 r0 r1 dpu with r0 := r0 + r1 } := by
  induction r1 using Nat.strong_induction_on generalizing r0 r2 dpu with
  | _ r1 ih =>
    rw [transferLoop]
    by_cases last : r1 < 2048
    · rw [if_pos last]
      by_cases empty : r1 = 0
      · subst empty
        cases type <;> simp [dma]
      · rw [if_neg empty, show 8 * (r1 / 8 - 1 + 1) = r1 by omega]
    · rw [if_neg last, ih (r1 - 2048) (by omega) (r0 + 2048) (r2 + 2048) _ (by omega), dma_append,
        show 2048 + (r1 - 2048) = r1 by omega, show r0 + 2048 + (r1 - 2048) = r0 + r1 by omega]

theorem runAccessProgram_eq (type : TransferType) (resume : Bool) (dpu : DpuState)
    (whole : (word (startProgram resume dpu).wram 6).toNat % 8 = 0) :
    let started := startProgram resume dpu
    let size := (word started.wram 6).toNat
    let moved := dma type 32 started.r0 size started
    runAccessProgram type resume dpu =
      { moved with r0 := started.r0 + size, suspended := word moved.wram 7 == 0#32 } := by
  intro started size moved
  rw [runAccessProgram, transferLoop_eq _ _ _ _ _ whole]

/-- The memory of the host and the MRAM once `count` bytes have been moved. -/
def moved (type : TransferType) (base offset count : Nat) (host mram : Memory) : Memory × Memory :=
  match type with
  | .toMram => (host, blit host base mram offset count)
  | .fromMram => (blit mram offset host base count, mram)

theorem wramSaveSize_eq (memories : Memories) (size : Nat) :
    wramSaveSize memories size = min memories.wramSize (size / 4 + PROGRAM_CONTEXT_WRAM_SIZE) := by
  rw [wramSaveSize]
  split <;> omega

section Copies
variable {memories : Memories}

theorem outOfBounds_eq_false {offset count bound : Nat} (nonempty : 0 < count) (inside : offset + count ≤ bound) :
    outOfBounds offset count bound = false := by
  rw [outOfBounds, Bool.or_eq_false_iff, decide_eq_false_iff_not, decide_eq_false_iff_not]
  omega

theorem dpuCopyToIramForDpu_eq {index count : Nat} (nonempty : 0 < count)
    (inside : index + count ≤ memories.iramSize) (source : Nat → BitVec 64) (dpu : DpuState) :
    dpuCopyToIramForDpu memories index source count dpu =
      .ok { dpu with iram := blit source 0 dpu.iram index count } := by
  rw [dpuCopyToIramForDpu, if_neg (by omega), outOfBounds_eq_false nonempty inside]
  rfl

theorem dpuCopyFromIramForDpu_eq {index count : Nat} (nonempty : 0 < count)
    (inside : index + count ≤ memories.iramSize) (destination : Nat → BitVec 64) (dpu : DpuState) :
    dpuCopyFromIramForDpu memories destination index count dpu = .ok (blit dpu.iram index destination 0 count) := by
  rw [dpuCopyFromIramForDpu, if_neg (by omega), outOfBounds_eq_false nonempty inside]
  rfl

theorem dpuCopyToWramForDpu_eq {wordOffset words : Nat} (nonempty : 0 < words)
    (inside : wordOffset + words ≤ memories.wramSize) (source : Memory) (start : Nat) (dpu : DpuState) :
    dpuCopyToWramForDpu memories wordOffset source start words dpu =
      .ok { dpu with wram := blit source start dpu.wram (4 * wordOffset) (4 * words) } := by
  rw [dpuCopyToWramForDpu, if_neg (by omega), outOfBounds_eq_false nonempty inside]
  rfl

theorem dpuCopyFromWramForDpu_eq {wordOffset words : Nat} (nonempty : 0 < words)
    (inside : wordOffset + words ≤ memories.wramSize) (destination : Memory) (place : Nat) (dpu : DpuState) :
    dpuCopyFromWramForDpu memories destination place wordOffset words dpu =
      .ok (blit dpu.wram (4 * wordOffset) destination place (4 * words)) := by
  rw [dpuCopyFromWramForDpu, if_neg (by omega), outOfBounds_eq_false nonempty inside]
  rfl

end Copies

section Chunks
variable {memories : Memories} (program : AccessProgram memories) (transfer : TransferMatrix)
  (type : TransferType) (base saved : Nat) (host : Memory) (dpu : DpuState)

/-- What holds between two steps of an access, once `done` bytes have been moved:
outside of what has been saved the memories of the DPU are as they were. -/
structure Midway (done : Nat) (progress : Progress) : Prop where
  offset : progress.ptrOffset = done
  memory : (progress.host, progress.dpu.mram) = moved type base transfer.offset.toNat done host dpu.mram
  held : Holds program type progress.dpu.iram
  iram : ∀ i, ¬ (0 ≤ i ∧ i < 0 + program.code.length) → progress.dpu.iram i = dpu.iram i
  wram : ∀ a, ¬ (0 ≤ a ∧ a < 0 + 4 * saved) → progress.dpu.wram a = dpu.wram a

/-- The thread waits for the next chunk of `chunk` bytes, or has finished. -/
structure Waiting (chunk done : Nat) (progress : Progress) : Prop
    extends Midway program transfer type base saved host dpu done progress where
  suspended : progress.dpu.suspended = decide (done < transfer.size.toNat)
  r0 : progress.dpu.r0 = transfer.offset.toNat + done
  buffer : (word progress.dpu.wram 6).toNat = chunk
  marker : word progress.dpu.wram 7 = if done < transfer.size.toNat then 0#32 else 1#32

/-- A chunk of `words` words is about to be moved. -/
structure Loaded (resume : Bool) (words done : Nat) (progress : Progress) : Prop
    extends Midway program transfer type base saved host dpu done progress where
  payload : type = .toMram → ∀ k < 4 * words, progress.dpu.wram (32 + k) = host (base + done + k)
  buffer : (word progress.dpu.wram 6).toNat = 4 * words
  marker : word progress.dpu.wram 7 = if done + 4 * words < transfer.size.toNat then 0#32 else 1#32
  cursor :
    if resume then progress.dpu.suspended = true ∧ progress.dpu.r0 = transfer.offset.toNat + done
    else (word progress.dpu.wram 5).toNat = transfer.offset.toNat + done

variable {program transfer type base saved host dpu}

/-- Where the program stands once it has been started. -/
theorem Loaded.started {resume : Bool} {words done : Nat} {progress : Progress}
    (loaded : Loaded program transfer type base saved host dpu resume words done progress) :
    let started := startProgram resume progress.dpu
    started.r0 = transfer.offset.toNat + done ∧ started.iram = progress.dpu.iram ∧
      started.mram = progress.dpu.mram ∧ ∀ a, 20 ≤ a → started.wram a = progress.dpu.wram a := by
  intro started
  have cursor := loaded.cursor
  cases resume with
  | true =>
    have suspended : progress.dpu.suspended = true := cursor.1
    have same : started = progress.dpu := by
      simp only [started, startProgram, suspended, Bool.and_self, if_true]
    rw [same]
    exact ⟨cursor.2, rfl, rfl, fun _ _ => rfl⟩
  | false =>
    refine ⟨cursor, rfl, rfl, fun a above => ?_⟩
    exact blit_outside progress.dpu.registers 0 progress.dpu.wram (by omega)

/-- A loaded chunk is moved: the program runs until its thread stops and, from
the MRAM, the WRAM is fetched. -/
theorem Loaded.fetched {resume : Bool} {words done : Nat} {progress : Progress}
    (loaded : Loaded program transfer type base saved host dpu resume words done progress)
    (pointed : transfer.ptr 0 = some base) (fits : PROGRAM_CONTEXT_WRAM_SIZE + words ≤ saved)
    (bound : saved ≤ memories.wramSize) (nonempty : 0 < words) (whole : 4 * words % 8 = 0) :
    ∃ progress', fetchWram memories transfer type words (boot program resume progress) = .ok progress' ∧
      Waiting program transfer type base saved host dpu (4 * words) (done + 4 * words) progress' := by
  have fits' : 8 + words ≤ saved := fits
  obtain ⟨r0, iram, mram, above⟩ := loaded.started
  have size : (word (startProgram resume progress.dpu).wram 6).toNat = 4 * words := by
    have kept : word (startProgram resume progress.dpu).wram 6 = word progress.dpu.wram 6 :=
      word_congr fun k small => above (4 * 6 + k) (by omega)
    rw [← loaded.buffer, kept]
  have marker : word (startProgram resume progress.dpu).wram 7 = word progress.dpu.wram 7 :=
    word_congr fun k small => above (4 * 7 + k) (by omega)
  have run := runAccessProgram_eq type resume progress.dpu (by rw [size]; exact whole)
  simp only [size] at run
  have stopped : word (dma type 32 (transfer.offset.toNat + done) (4 * words)
      (startProgram resume progress.dpu)).wram 7 = word progress.dpu.wram 7 := by
    rw [← marker]
    cases type with
    | toMram => rfl
    | fromMram => exact word_blit_outside _ _ (by omega)
  have waits : (word progress.dpu.wram 7 == 0#32) = decide (done + 4 * words < transfer.size.toNat) := by
    rw [loaded.marker]
    by_cases more : done + 4 * words < transfer.size.toNat <;> simp [more]
  rw [r0, stopped, waits] at run
  have booted : boot program resume progress = { progress with dpu := _ } :=
    congrArg (Progress.mk progress.host · progress.ptrOffset)
      ((bootAndPoll_of_holds loaded.held resume).trans run)
  rw [booted]
  have memory := loaded.memory
  cases type with
  | toMram =>
    simp only [moved, Prod.mk.injEq] at memory
    refine ⟨_, rfl, ⟨⟨?_, ?_, ?_, ?_, ?_⟩, rfl, by simp [Nat.add_assoc], size, marker.trans loaded.marker⟩⟩
    · exact congrArg (· + 4 * words) loaded.offset
    · simp only [dma, moved, mram, memory.1, memory.2, Prod.mk.injEq, true_and]
      rw [← blit_append]
      refine blit_congr (fun k inside => ?_) fun _ _ => rfl
      rw [above _ (by omega), loaded.payload rfl k inside]
    · simp only [dma, iram]
      exact loaded.held
    · simp only [dma, iram]
      exact loaded.iram
    · intro a outside
      simp only [dma]
      rw [above a (by omega), loaded.wram a outside]
  | fromMram =>
    simp only [moved, Prod.mk.injEq] at memory
    simp only [fetchWram, pointed, pointer, dpuCopyFromWramForDpu_eq nonempty (fits.trans bound)]
    refine ⟨_, rfl, ⟨⟨?_, ?_, ?_, ?_, ?_⟩, rfl, by simp [Nat.add_assoc], ?_, stopped.trans loaded.marker⟩⟩
    · exact congrArg (· + 4 * words) loaded.offset
    · simp only [dma, moved, mram, memory.1, memory.2, loaded.offset, Prod.mk.injEq, and_true]
      rw [PROGRAM_CONTEXT_WRAM_SIZE, blit_through, blit_append]
    · simp only [dma, iram]
      exact loaded.held
    · simp only [dma, iram]
      exact loaded.iram
    · intro a outside
      simp only [dma]
      rw [blit_outside _ _ _ (by omega), above a (by omega), loaded.wram a outside]
    · rw [← size]
      exact congrArg BitVec.toNat (word_blit_outside _ _ (by omega))

/-- The WRAM of the DPU replaced. -/
abbrev setWram (wram : Memory) (progress : Progress) : Progress :=
  { progress with dpu := { progress.dpu with wram := wram } }

/-- Writing inside of what has been saved. -/
theorem Midway.written {done : Nat} {progress : Progress} (wram : Memory)
    (midway : Midway program transfer type base saved host dpu done progress)
    (inside : ∀ a, ¬ (0 ≤ a ∧ a < 0 + 4 * saved) → wram a = progress.dpu.wram a) :
    Midway program transfer type base saved host dpu done (setWram wram progress) where
  offset := midway.offset
  memory := midway.memory
  held := midway.held
  iram := midway.iram
  wram := fun a outside => (inside a outside).trans (midway.wram a outside)

/-- The loading of the WRAM leaves the context of the program. -/
theorem Midway.load {done : Nat} (words : Nat) {progress : Progress}
    (midway : Midway program transfer type base saved host dpu done progress)
    (pointed : transfer.ptr 0 = some base) (fits : PROGRAM_CONTEXT_WRAM_SIZE + words ≤ saved)
    (bound : saved ≤ memories.wramSize) (nonempty : 0 < words) :
    ∃ wram : Memory,
      loadWram memories transfer type words progress = .ok (setWram wram progress) ∧
      (∀ a, a < 32 ∨ 4 * saved ≤ a → wram a = progress.dpu.wram a) ∧
      (type = .toMram → ∀ k < 4 * words, wram (32 + k) = host (base + done + k)) := by
  cases type with
  | toMram =>
    refine ⟨blit progress.host (base + progress.ptrOffset) progress.dpu.wram (4 * PROGRAM_CONTEXT_WRAM_SIZE)
      (4 * words), ?_, fun a outside => ?_, fun _ k inside => ?_⟩
    · simp only [loadWram, pointed, pointer, dpuCopyToWramForDpu_eq nonempty (fits.trans bound)]
      rfl
    · have place : 4 * PROGRAM_CONTEXT_WRAM_SIZE = 32 := rfl
      exact blit_outside _ _ _ (by omega)
    · have memory := midway.memory
      simp only [moved, Prod.mk.injEq] at memory
      rw [← midway.offset, ← memory.1]
      exact blit_inside _ _ _ _ inside
  | fromMram => exact ⟨progress.dpu.wram, rfl, fun _ _ => rfl, fun other => by cases other⟩

theorem writeContext_eq {wordOffset words : Nat} (nonempty : 0 < words)
    (inside : wordOffset + words ≤ PROGRAM_CONTEXT_WRAM_SIZE) (source : Memory) (start : Nat)
    (progress : Progress) :
    writeContext memories wordOffset source start words progress =
      .ok (setWram (blit source start progress.dpu.wram (4 * wordOffset) (4 * words)) progress) := by
  rw [writeContext, dpuCopyToWramForDpu_eq nonempty (inside.trans memories.context_lt.le)]
  rfl

theorem programContext_eq (offset size marker : Nat) (memory : Memory) :
    let written := blit (programContext offset size marker) 0 memory (4 * 5) (4 * 3)
    word written 5 = BitVec.ofNat 32 offset ∧ word written 6 = BitVec.ofNat 32 size ∧
      word written 7 = BitVec.ofNat 32 marker :=
  ⟨word_blit_inside _ memory 0 5 (k := 0) (by omega), word_blit_inside _ memory 0 5 (k := 1) (by omega),
    word_blit_inside _ memory 0 5 (k := 2) (by omega)⟩

/-- The context once the buffer size and the marker have been changed. -/
theorem programContext_rest (offset size marker : Nat) (memory : Memory) :
    let written := blit (programContext offset size marker) 4 memory (4 * 6) (4 * 2)
    word written 6 = BitVec.ofNat 32 size ∧ word written 7 = BitVec.ofNat 32 marker :=
  ⟨word_blit_inside _ memory 1 6 (k := 0) (by omega), word_blit_inside _ memory 1 6 (k := 1) (by omega)⟩

section Steps
variable (pointed : transfer.ptr 0 = some base) (bound : saved ≤ memories.wramSize)
include pointed bound

/-- The first chunk starts the program. -/
theorem Midway.firstChunk {words marker : Nat} {progress : Progress}
    (midway : Midway program transfer type base saved host dpu 0 progress)
    (fits : PROGRAM_CONTEXT_WRAM_SIZE + words ≤ saved) (nonempty : 0 < words) (whole : 4 * words % 8 = 0)
    (small : 4 * words < 2 ^ 32) (last : marker = if 4 * words < transfer.size.toNat then 0 else 1) :
    ∃ progress', MramAccess.firstChunk program transfer type words marker progress = .ok progress' ∧
      Waiting program transfer type base saved host dpu (4 * words) (4 * words) progress' := by
  have fits' : 8 + words ≤ saved := fits
  have context := programContext_eq transfer.offset.toNat (4 * words) marker progress.dpu.wram
  set written := blit (programContext transfer.offset.toNat (4 * words) marker) 0 progress.dpu.wram (4 * 5) (4 * 3)
    with writtenEq
  have start := midway.written written fun a outside => blit_outside _ _ _ (by omega)
  obtain ⟨wram, load, kept, payload⟩ := start.load words pointed fits bound nonempty
  have below : ∀ index < 8, word wram index = word written index :=
    fun index inside => word_congr fun k few => kept _ (by omega)
  have loaded : Loaded program transfer type base saved host dpu false words 0
      (setWram wram (setWram written progress)) :=
    { start.written _ fun a outside => kept a (by omega) with
      payload := payload
      buffer := by
        rw [below 6 (by omega), context.2.1, BitVec.toNat_ofNat, Nat.mod_eq_of_lt small]
      marker := by
        rw [below 7 (by omega), context.2.2, last, Nat.zero_add]
        split <;> rfl
      cursor := by
        rw [if_neg (by decide), below 5 (by omega), context.1, BitVec.ofNat_toNat, BitVec.setWidth_eq]
        rfl }
  obtain ⟨progress', fetch, waiting⟩ := loaded.fetched pointed fits bound nonempty whole
  rw [Nat.zero_add] at waiting
  refine ⟨progress', ?_, waiting⟩
  rw [MramAccess.firstChunk, writeContext_eq (by omega) (by decide)]
  change (loadWram memories transfer type words (setWram written progress) >>= _) = _
  rw [load]
  exact fetch

/-- A turn of the loop moves one more chunk of the same size. -/
theorem Waiting.nextChunk {words done nrCompleteIterations remaining iteration : Nat} {progress : Progress}
    (waiting : Waiting program transfer type base saved host dpu (4 * words) done progress)
    (fits : PROGRAM_CONTEXT_WRAM_SIZE + words ≤ saved) (nonempty : 0 < words) (whole : 4 * words % 8 = 0)
    (more : done + 4 * words ≤ transfer.size.toNat)
    (last : iteration = nrCompleteIterations - 1 ∧ remaining = 0 ↔ done + 4 * words = transfer.size.toNat) :
    ∃ progress', MramAccess.nextChunk program transfer type words nrCompleteIterations remaining iteration
        progress = .ok progress' ∧
      Waiting program transfer type base saved host dpu (4 * words) (done + 4 * words) progress' := by
  have fits' : 8 + words ≤ saved := fits
  have earlier : done < transfer.size.toNat := by omega
  obtain ⟨wram, load, kept, payload⟩ := waiting.toMidway.load _ pointed fits bound nonempty
  have suspended : progress.dpu.suspended = true := by
    rw [waiting.suspended, decide_eq_true earlier]
  have running : word progress.dpu.wram 7 = 0#32 := by rw [waiting.marker, if_pos earlier]
  -- the marker is written in the last turn only
  obtain ⟨marked, write, outside, marker⟩ : ∃ marked : Memory,
      writeLastMarker memories nrCompleteIterations remaining iteration (setWram wram progress) =
        .ok (setWram marked progress) ∧
      (∀ a, a < 28 ∨ 32 ≤ a → marked a = wram a) ∧
      word marked 7 = if done + 4 * words < transfer.size.toNat then 0#32 else 1#32 := by
    by_cases final : iteration = nrCompleteIterations - 1 ∧ remaining = 0
    · refine ⟨blit (bytesOf fun _ => 1#32) 0 wram (4 * 7) (4 * 1), ?_, fun a away => ?_, ?_⟩
      · rw [writeLastMarker, if_pos final, writeContext_eq (by omega) (by decide)]
      · exact blit_outside _ _ _ (by omega)
      · rw [if_neg (by have := last.mp final; omega)]
        exact word_blit_inside _ wram 0 7 (k := 0) (by omega)
    · have strict : done + 4 * words < transfer.size.toNat := by
        have : done + 4 * words ≠ transfer.size.toNat := fun all => final (last.mpr all)
        omega
      refine ⟨wram, if_neg final, fun _ _ => rfl, ?_⟩
      rw [if_pos strict, ← running]
      exact word_congr fun k few => kept _ (by omega)
  have loaded : Loaded program transfer type base saved host dpu true words done (setWram marked progress) :=
    { waiting.toMidway.written _ fun a away => (outside a (by omega)).trans (kept a (by omega)) with
      payload := fun way k inside => (outside _ (by omega)).trans (payload way k inside)
      buffer := by
        rw [← waiting.buffer]
        exact congrArg BitVec.toNat (word_congr fun k few =>
          (outside _ (by omega)).trans (kept _ (by omega)))
      marker := marker
      cursor := by
        rw [if_pos rfl]
        exact ⟨suspended, waiting.r0⟩ }
  obtain ⟨progress', fetch, waiting'⟩ := loaded.fetched pointed fits bound nonempty whole
  refine ⟨progress', ?_, waiting'⟩
  simp only [MramAccess.nextChunk, load, bind, Except.bind, write]
  exact fetch

/-- The last chunk, smaller than the others, ends the transfer. -/
theorem Waiting.remainingChunk {chunk done remaining : Nat} {progress : Progress}
    (waiting : Waiting program transfer type base saved host dpu chunk done progress)
    (fits : 4 * PROGRAM_CONTEXT_WRAM_SIZE + remaining ≤ 4 * saved) (nonempty : 0 < remaining)
    (whole : remaining % 8 = 0) (rest : done + remaining = transfer.size.toNat) :
    ∃ progress', MramAccess.remainingChunk program transfer type remaining progress = .ok progress' ∧
      Waiting program transfer type base saved host dpu remaining transfer.size.toNat progress' := by
  have place : PROGRAM_CONTEXT_WRAM_SIZE = 8 := rfl
  have words : 4 * (remaining / 4) = remaining := by omega
  have earlier : done < transfer.size.toNat := by omega
  have small : remaining < 2 ^ 32 := by
    have := transfer.size.isLt
    omega
  have context := programContext_rest transfer.offset.toNat remaining 1 progress.dpu.wram
  set written := blit (programContext transfer.offset.toNat remaining 1) 4 progress.dpu.wram (4 * 6) (4 * 2)
    with writtenEq
  have start := waiting.toMidway.written written fun a away => blit_outside _ _ _ (by omega)
  obtain ⟨wram, load, kept, payload⟩ := start.load (remaining / 4) pointed (by omega) bound (by omega)
  have below : ∀ index < 8, word wram index = word written index :=
    fun index inside => word_congr fun k few => kept _ (by omega)
  have loaded : Loaded program transfer type base saved host dpu true (remaining / 4) done
      (setWram wram (setWram written progress)) :=
    { start.written _ fun a away => kept a (by omega) with
      payload := payload
      buffer := by
        rw [below 6 (by omega), words, context.1, BitVec.toNat_ofNat, Nat.mod_eq_of_lt small]
      marker := by
        rw [below 7 (by omega), words, if_neg (by omega), context.2]
      cursor := by
        rw [if_pos rfl]
        exact ⟨waiting.suspended.trans (decide_eq_true earlier), waiting.r0⟩ }
  obtain ⟨progress', fetch, waiting'⟩ := loaded.fetched pointed (by omega) bound (by omega) (by omega)
  rw [words, rest] at waiting'
  refine ⟨progress', ?_, waiting'⟩
  rw [MramAccess.remainingChunk, writeContext_eq (by omega) (by decide)]
  change (loadWram memories transfer type (remaining / 4) (setWram written progress) >>= _) = _
  rw [load]
  exact fetch

/-- The turns of the loop, up to the number of complete iterations. -/
theorem Waiting.iterations {words nrCompleteIterations remaining : Nat} {progress : Progress}
    (waiting : Waiting program transfer type base saved host dpu (4 * words) (4 * words) progress)
    (fits : PROGRAM_CONTEXT_WRAM_SIZE + words ≤ saved) (nonempty : 0 < words) (whole : 4 * words % 8 = 0)
    (size : nrCompleteIterations * (4 * words) + remaining = transfer.size.toNat)
    (turns : Nat) (inside : turns + 1 ≤ nrCompleteIterations) :
    ∃ progress', (List.range' 1 turns).foldlM (fun progress iteration =>
        MramAccess.nextChunk program transfer type words nrCompleteIterations remaining iteration progress)
        progress = .ok progress' ∧
      Waiting program transfer type base saved host dpu (4 * words) ((turns + 1) * (4 * words)) progress' := by
  induction turns with
  | zero => exact ⟨progress, rfl, by rwa [Nat.zero_add, Nat.one_mul]⟩
  | succ turns ih =>
    obtain ⟨progress', run, waiting'⟩ := ih (by omega)
    have covered := Nat.mul_le_mul_right (4 * words) inside
    have next : (turns + 1) * (4 * words) + 4 * words = (turns + 1 + 1) * (4 * words) :=
      (Nat.succ_mul (turns + 1) (4 * words)).symm
    have last : 1 + turns = nrCompleteIterations - 1 ∧ remaining = 0 ↔
        (turns + 1) * (4 * words) + 4 * words = transfer.size.toNat := by
      rw [next, ← size]
      constructor
      · rintro ⟨final, none⟩
        rw [none, show turns + 1 + 1 = nrCompleteIterations by omega, Nat.add_zero]
      · intro all
        have none : remaining = 0 := by omega
        rw [none, Nat.add_zero] at all
        have := Nat.eq_of_mul_eq_mul_right (by omega) all
        omega
    obtain ⟨progress'', turn, waiting''⟩ :=
      waiting'.nextChunk pointed bound fits nonempty whole (by omega) last
    refine ⟨progress'', ?_, by rwa [next] at waiting''⟩
    rw [List.range'_1_concat, List.foldlM_append, run]
    simp only [bind, Except.bind, List.foldlM_cons, List.foldlM_nil, turn]
    rfl

end Steps

variable (program type host dpu)

/-- All chunks of an access move the whole buffer. -/
theorem accessChunks_eq (pointed : transfer.ptr 0 = some base) (whole : transfer.size.toNat % 8 = 0)
    (nonempty : 0 < transfer.size.toNat)
    (save : saved = min memories.wramSize (transfer.size.toNat / 4 + PROGRAM_CONTEXT_WRAM_SIZE)) :
    ∃ progress, accessChunks program transfer type saved ⟨host, dpu, 0⟩ = .ok progress ∧
      Midway program transfer type base saved host dpu transfer.size.toNat progress := by
  have context := memories.context_lt
  have even := memories.wramSize_even
  have place : PROGRAM_CONTEXT_WRAM_SIZE = 8 := rfl
  have bound : saved ≤ memories.wramSize := by omega
  set words := saved - PROGRAM_CONTEXT_WRAM_SIZE with wordsEq
  have some : 0 < words := by omega
  have fits : PROGRAM_CONTEXT_WRAM_SIZE + words ≤ saved := by omega
  have wholeWords : 4 * words % 8 = 0 := by omega
  have covered : 4 * words ≤ transfer.size.toNat := by omega
  set turns := transfer.size.toNat / (4 * words) with turnsEq
  set remaining := transfer.size.toNat % (4 * words) with remainingEq
  have size : turns * (4 * words) + remaining = transfer.size.toNat :=
    Nat.div_add_mod' transfer.size.toNat (4 * words)
  have complete : 1 ≤ turns := (Nat.one_le_div_iff (by omega)).mpr covered
  have fitsIram : 0 + program.code.length ≤ memories.iramSize := by simpa only [Nat.zero_add] using program.fits
  have load := dpuCopyToIramForDpu_eq (Nat.zero_lt_of_lt program.patched_lt) fitsIram (program.patched type) dpu
  set loaded : DpuState := { dpu with iram := blit (program.patched type) 0 dpu.iram 0 program.code.length }
    with loadedEq
  have start : Midway program transfer type base saved host dpu 0 ⟨host, loaded, 0⟩ :=
    { offset := rfl
      memory := by cases type <;> simp [moved, loadedEq]
      held := fun i inside => by
        have := blit_inside (program.patched type) dpu.iram 0 0 inside
        simpa only [Nat.zero_add] using this
      iram := fun i outside => blit_outside _ _ _ outside
      wram := fun _ _ => rfl }
  set marker := if turns = 0 ∨ turns = 1 ∧ remaining = 0 then 1 else 0 with markerEq
  have last : marker = if 4 * words < transfer.size.toNat then 0 else 1 := by
    have single : turns = 0 ∨ turns = 1 ∧ remaining = 0 ↔ ¬ 4 * words < transfer.size.toNat := by
      constructor
      · rintro (none | ⟨one, rest⟩)
        · omega
        · rw [← size, one, rest]
          omega
      · intro all
        have same : transfer.size.toNat = 4 * words := by omega
        refine Or.inr ⟨?_, ?_⟩
        · rw [turnsEq, same, Nat.div_self (by omega)]
        · rw [remainingEq, same, Nat.mod_self]
    rw [markerEq]
    by_cases all : 4 * words < transfer.size.toNat <;> simp [single, all]
  have small : 4 * words < 2 ^ 32 := covered.trans_lt transfer.size.isLt
  obtain ⟨first, run, waiting⟩ := start.firstChunk pointed bound fits some wholeWords small last
  obtain ⟨progress, run', waiting'⟩ :=
    waiting.iterations pointed bound fits some wholeWords size (turns - 1) (by omega)
  rw [show turns - 1 + 1 = turns by omega] at waiting'
  have chunks : accessChunks program transfer type saved ⟨host, dpu, 0⟩ =
      if 0 < remaining ∧ 0 < turns then remainingChunk program transfer type remaining progress
      else .ok progress := by
    simp only [accessChunks, load, bind, Except.bind]
    rw [run]
    change (List.foldlM (m := Except Stop) _ first _ >>= _) = _
    rw [run']
    rfl
  rw [chunks]
  by_cases rest : 0 < remaining
  · have below := Nat.mod_lt transfer.size.toNat (show 4 * words > 0 by omega)
    have wholeRest : remaining % 8 = 0 :=
      (Nat.mod_mod_of_dvd _ (Nat.dvd_of_mod_eq_zero wholeWords)).trans whole
    obtain ⟨progress', run'', finished⟩ :=
      waiting'.remainingChunk pointed bound (by omega) rest wholeRest size
    exact ⟨progress', by rw [if_pos ⟨rest, complete⟩, run''], finished.toMidway⟩
  · refine ⟨progress, by rw [if_neg fun both => rest both.1], ?_⟩
    have done : turns * (4 * words) = transfer.size.toNat := by omega
    rw [done] at waiting'
    exact waiting'.toMidway

end Chunks

section Individual
variable {memories : Memories} (program : AccessProgram memories) {transfer : TransferMatrix}
  (type : TransferType) {base : Nat} (dpuId : Nat) (faults : DpuFaults) (context : FaultContext) (host : Memory)
  (dpu : DpuState)

/-- An access moves its whole buffer and leaves the IRAM and what the debug
initialisation left of the WRAM as they were. -/
theorem accessMramUsingDpuProgramIndividual_eq (pointed : transfer.ptr 0 = some base)
    (whole : transfer.size.toNat % 8 = 0) :
    ∃ host' dpu', accessMramUsingDpuProgramIndividual program transfer type true dpuId faults context host dpu =
        .ok (host', dpu') ∧
      (host', dpu'.mram) = moved type base transfer.offset.toNat transfer.size.toNat host dpu.mram ∧
      dpu'.iram = dpu.iram ∧
      dpu'.wram = if transfer.size = 0#32 then dpu.wram else ciDebugInitDpu dpuId faults context dpu.wram := by
  by_cases empty : transfer.size = 0#32
  · refine ⟨host, dpu, ?_, ?_, rfl, (if_pos empty).symm⟩
    · rw [accessMramUsingDpuProgramIndividual, if_neg (by decide), if_pos empty]
    · rw [empty]
      cases type <;> simp [moved]
  have positive : 0 < transfer.size.toNat := by
    have : transfer.size.toNat ≠ 0 := fun zero => empty (BitVec.eq_of_toNat_eq zero)
    omega
  have context_lt := memories.context_lt
  set started : DpuState := { dpu with wram := ciDebugInitDpu dpuId faults context dpu.wram } with startedEq
  have save := wramSaveSize_eq memories transfer.size.toNat
  have place : PROGRAM_CONTEXT_WRAM_SIZE = 8 := rfl
  have someIram := Nat.zero_lt_of_lt program.patched_lt
  have fitsIram : 0 + program.code.length ≤ memories.iramSize := by simpa only [Nat.zero_add] using program.fits
  have someWram : 0 < wramSaveSize memories transfer.size.toNat := by omega
  have fitsWram : 0 + wramSaveSize memories transfer.size.toNat ≤ memories.wramSize := by omega
  obtain ⟨progress, run, midway⟩ := accessChunks_eq program type host started pointed whole positive save
  have iram := blit_restore (fun _ => 0) midway.iram
  have wram := blit_restore (fun _ => 0) midway.wram
  refine ⟨progress.host, { progress.dpu with iram := dpu.iram, wram := started.wram }, ?_, midway.memory, rfl,
    (if_neg empty).symm⟩
  rw [accessMramUsingDpuProgramIndividual, if_neg (by decide), if_neg empty]
  simp only [dpuCopyFromIramForDpu_eq someIram fitsIram, dpuCopyFromWramForDpu_eq someWram fitsWram, bind,
    Except.bind]
  rw [run]
  simp only [dpuCopyToIramForDpu_eq someIram fitsIram, dpuCopyToWramForDpu_eq someWram fitsWram]
  rw [iram, wram]
  rfl

variable {program type dpuId faults context host dpu}

/-- An access through a null pointer is the end of the process. -/
theorem accessMramUsingDpuProgramIndividual_null (null : transfer.ptr 0 = none) (nonempty : transfer.size ≠ 0#32) :
    accessMramUsingDpuProgramIndividual program transfer type true dpuId faults context host dpu =
      .error .segfault := by
  have context_lt := memories.context_lt
  have place : PROGRAM_CONTEXT_WRAM_SIZE = 8 := rfl
  have someIram := Nat.zero_lt_of_lt program.patched_lt
  have fitsIram : 0 + program.code.length ≤ memories.iramSize := by simpa only [Nat.zero_add] using program.fits
  have save := wramSaveSize_eq memories transfer.size.toNat
  have someWram : 0 < wramSaveSize memories transfer.size.toNat := by omega
  have fitsWram : 0 + wramSaveSize memories transfer.size.toNat ≤ memories.wramSize := by omega
  have first : ∀ words marker progress,
      firstChunk program transfer type words marker progress = .error .segfault := by
    intro words marker progress
    rw [firstChunk, writeContext_eq (by omega) (by decide)]
    cases type with
    | toMram => simp only [loadWram, null, pointer, bind, Except.bind]
    | fromMram => simp only [loadWram, fetchWram, null, pointer, bind, Except.bind]
  rw [accessMramUsingDpuProgramIndividual, if_neg (by decide), if_neg nonempty]
  simp only [dpuCopyFromIramForDpu_eq someIram fitsIram, dpuCopyFromWramForDpu_eq someWram fitsWram, bind,
    Except.bind, accessChunks, dpuCopyToIramForDpu_eq someIram fitsIram, first]

end Individual

end Upmem.MramAccess
