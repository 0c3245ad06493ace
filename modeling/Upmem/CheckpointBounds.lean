import Upmem.Checkpoint
import Upmem.Lib.Commands

namespace Upmem.Checkpoint
open Codec Commands

/-- The fields of a context that are allocated. -/
inductive ContextArray
  | iram | mram | wram | registers | pcs | atomicRegister | zeroFlags | carryFlags | scheduling
  deriving DecidableEq

/-- A copy into a field, and the bytes that are allocated for the field. -/
structure Copy where
  size : Nat
  allocated : Nat

/-- What the call has done: where it is in the buffer, the bytes it has read, what it has copied and what it has
allocated and not released. -/
structure Progress where
  serializedContext : Nat
  reads : List (Nat × Nat)
  copies : List Copy
  live : List ContextArray

/-- The arguments of `dpu_checkpoint_deserialize`, with what the memory holds from the
buffer on, and which allocations succeed. -/
structure Deserialization where
  memory : Nat → Byte
  serializedContextSize : Nat
  allocates : ContextArray → Bool

abbrev Deserialize := CommandM DpuError Progress

/-- The word at a place of the buffer. -/
def Deserialization.wordAt (call : Deserialization) (place : Nat) : BitVec 32 :=
  uint32.decode ((List.range 4).map fun i => call.memory (place + i))

def readBytes (size : Nat) : Deserialize PUnit :=
  modify fun progress => { progress with reads := progress.reads ++ [(progress.serializedContext, size)] }

def copyBytes (copy : Copy) : Deserialize PUnit :=
  modify fun progress => { progress with copies := progress.copies ++ [copy] }

def allocate (arrays : List ContextArray) : Deserialize PUnit :=
  modify fun progress => { progress with live := progress.live ++ arrays }

/-- `free` of some of the fields. -/
def freeArrays (arrays : List ContextArray) : Deserialize PUnit :=
  modify fun progress => { progress with live := progress.live.filter (· ∉ arrays) }

/-- The fields that `dpu_context_fill` allocates. -/
def filledArrays : List ContextArray := [.registers, .pcs, .atomicRegister, .zeroFlags, .carryFlags, .scheduling]

/-- `dpu_free_dpu_context`. -/
def freeDpuContext : Deserialize PUnit := freeArrays ([.iram, .mram, .wram] ++ filledArrays)

namespace Deserialization
variable (call : Deserialization)

/-- `DESERIALIZED_NEXT_ELEM`. -/
def nextElem (currElemSize : Nat) : Deserialize PUnit := do
  modify fun progress => { progress with serializedContext := progress.serializedContext + currElemSize }
  let progress ← get
  if call.serializedContextSize < progress.serializedContext then throw .elfInvalidFile

/-- `DESERIALIZED_ELEM`, for a field with the bytes that are allocated for it. -/
def elem (copy : Copy) : Deserialize PUnit := do
  readBytes copy.size
  copyBytes copy
  call.nextElem copy.size

/-- A word of the header that must have a value. -/
def headerWord (value : BitVec 32) : Deserialize PUnit := do
  readBytes 4
  let progress ← get
  if call.wordAt progress.serializedContext ≠ value then throw .elfInvalidFile
  call.nextElem 4

/-- A number, which is copied into a variable. -/
def countWord : Deserialize (BitVec 32) := do
  let progress ← get
  call.elem ⟨4, 4⟩
  pure (call.wordAt progress.serializedContext)

/-- The allocations of `dpu_context_fill`. -/
def contextFill : Deserialize PUnit := do
  allocate (filledArrays.filter call.allocates)
  if filledArrays.any fun array => !call.allocates array then
    freeDpuContext
    throw .system

/-- A memory, unless its size is zero, and the memories that are freed when there is no place for it. -/
def memoryElem (array : ContextArray) (freed : List ContextArray) (size byteSize : Nat) : Deserialize PUnit :=
  if size ≠ 0 then
    if call.allocates array then do
      allocate [array]
      call.elem ⟨byteSize, byteSize⟩
    else do
      freeArrays freed
      throw .system
  else pure ⟨⟩

def elems : List Copy → Deserialize PUnit
  | [] => pure ⟨⟩
  | copy :: copies => do
    call.elem copy
    elems copies

end Deserialization

/-- The fields behind the memories, each with its size and what `dpu_context_fill` has allocated for it. -/
def contextElems (nrOfThreads nrOfWorkRegistersPerThread nrOfAtomicBits : BitVec 32) : List Copy :=
  [⟨size32 (4 * nrOfThreads.toNat * nrOfWorkRegistersPerThread.toNat),
      4 * (nrOfThreads * nrOfWorkRegistersPerThread).toNat⟩,
    ⟨size32 (2 * nrOfThreads.toNat), 2 * nrOfThreads.toNat⟩,
    ⟨size32 (1 * nrOfAtomicBits.toNat), 1 * nrOfAtomicBits.toNat⟩,
    ⟨size32 (1 * nrOfThreads.toNat), 1 * nrOfThreads.toNat⟩,
    ⟨size32 (1 * nrOfThreads.toNat), 1 * nrOfThreads.toNat⟩,
    ⟨1, 1⟩,
    ⟨size32 (1 * nrOfThreads.toNat), 1 * nrOfThreads.toNat⟩,
    ⟨1, 1⟩, ⟨1, 1⟩, ⟨1, 1⟩, ⟨1, 1⟩, ⟨1, 1⟩, ⟨1, 1⟩, ⟨4, 4⟩]

/-- `dpu_checkpoint_deserialize`, behind the numbers. -/
def Deserialization.fields (call : Deserialization)
    (nrOfThreads nrOfWorkRegistersPerThread nrOfAtomicBits iramSize mramSize wramSize : BitVec 32) :
    Deserialize PUnit := do
  call.contextFill
  call.memoryElem .iram [] iramSize.toNat (size32 (8 * iramSize.toNat))
  call.memoryElem .mram [.iram] mramSize.toNat (size32 (1 * mramSize.toNat))
  call.memoryElem .wram [.iram, .mram] wramSize.toNat (size32 (4 * wramSize.toNat))
  call.elems (contextElems nrOfThreads nrOfWorkRegistersPerThread nrOfAtomicBits)

def Deserialization.run (call : Deserialization) : Deserialize PUnit := do
  call.headerWord SERIALIZED_CONTEXT_MAGIC
  call.headerWord SERIALIZED_CONTEXT_CHIP_VERSION
  call.headerWord SERIALIZED_CONTEXT_VERSION
  call.headerWord SERIALIZED_CONTEXT_MAGIC
  let nrOfThreads ← call.countWord
  let nrOfWorkRegistersPerThread ← call.countWord
  let nrOfAtomicBits ← call.countWord
  let iramSize ← call.countWord
  let mramSize ← call.countWord
  let wramSize ← call.countWord
  call.fields nrOfThreads nrOfWorkRegistersPerThread nrOfAtomicBits iramSize mramSize wramSize

/-- Each read is within a buffer of some bytes, each copy within what is allocated, and an
error leaves nothing allocated. -/
structure Harmless (bufferSize : Nat) (result : Except DpuError PUnit × Progress) : Prop where
  inside : ∀ read ∈ result.2.reads, read.1 + read.2 ≤ bufferSize
  fits : ∀ copy ∈ result.2.copies, copy.size ≤ copy.allocated
  released : ∀ error, result.1 = .error error → result.2.live = []

namespace Deserialization
variable (call : Deserialization)

/-- A word of the header is what it must be. -/
def Right : Nat → Prop
  | 0 => call.wordAt 0 = SERIALIZED_CONTEXT_MAGIC
  | 1 => call.wordAt 4 = SERIALIZED_CONTEXT_CHIP_VERSION
  | 2 => call.wordAt 8 = SERIALIZED_CONTEXT_VERSION
  | 3 => call.wordAt 12 = SERIALIZED_CONTEXT_MAGIC
  | _ => True

/-- The first words are right, and within the declared size. -/
def Through (count : Nat) : Prop := ∀ k < count, call.Right k ∧ 4 * (k + 1) ≤ call.serializedContextSize

/-- The bytes of a memory. -/
def memoryBytes (place size : Nat) : Nat := size32 (size * (call.wordAt place).toNat)

/-- The bytes of the whole context, by the numbers behind its header. -/
def contextSize : Nat :=
  40 + call.memoryBytes 28 8 + call.memoryBytes 32 1 + call.memoryBytes 36 4 +
    ((contextElems (call.wordAt 16) (call.wordAt 20) (call.wordAt 24)).map Copy.size).sum

/-- There is place for each memory that the numbers are for. -/
def Placed : Prop :=
  (call.wordAt 28 ≠ 0#32 → call.allocates .iram = true) ∧ (call.wordAt 32 ≠ 0#32 → call.allocates .mram = true) ∧
    (call.wordAt 36 ≠ 0#32 → call.allocates .wram = true)

/-- The words of the header that are read are within the buffer. If all of them are right,
the first allocations fail, or all of them succeed and the context is within the declared
size and within the buffer. -/
structure Complete (bufferSize : Nat) : Prop where
  header : ∀ k < 10, call.Through k → 4 * (k + 1) ≤ bufferSize
  body : call.Through 10 → (∃ array ∈ filledArrays, call.allocates array = false) ∨
    (call.Placed ∧ call.contextSize ≤ call.serializedContextSize ∧ call.contextSize ≤ bufferSize)

end Deserialization

/-- Before the call. -/
def Progress.start : Progress := ⟨0, [], [], []⟩

/-- Where the cursor is, and whether the arrays of the context are allocated or nothing is. -/
def Progress.At (progress : Progress) (cursor : Nat) (filled : Bool) : Prop :=
  progress.serializedContext = cursor ∧ if filled then .registers ∈ progress.live else progress.live = []

/-- So far everything is harmless, and the cursor is within both sizes. -/
structure Progress.Fine (progress : Progress) (bufferSize serializedContextSize : Nat) : Prop where
  inside : ∀ read ∈ progress.reads, read.1 + read.2 ≤ bufferSize
  fits : ∀ copy ∈ progress.copies, copy.size ≤ copy.allocated
  buffer : progress.serializedContext ≤ bufferSize
  cursor : progress.serializedContext ≤ serializedContextSize

/-- What has been read stays read, and the rest of the call is harmless if and only if a condition holds. -/
structure Leads (call : Deserialization) (bufferSize cursor : Nat) (filled : Bool) (rest : Deserialize PUnit)
    (condition : Prop) : Prop where
  persists : ∀ progress : Progress, progress.At cursor filled → progress.reads ⊆ (exec rest progress).2.reads
  harmless : ∀ progress : Progress, progress.At cursor filled →
    progress.Fine bufferSize call.serializedContextSize →
    (Harmless bufferSize (exec rest progress) ↔ condition)

theorem Leads.congr {call : Deserialization} {bufferSize cursor : Nat} {filled : Bool} {rest : Deserialize PUnit}
    {condition condition' : Prop} (leads : Leads call bufferSize cursor filled rest condition)
    (same : condition ↔ condition') : Leads call bufferSize cursor filled rest condition' :=
  ⟨leads.persists, fun progress at_ fine => (leads.harmless progress at_ fine).trans same⟩

section Steps
variable {call : Deserialization} {bufferSize cursor : Nat} {rest : Deserialize PUnit} {condition : Prop}

/-- The state behind an element. -/
def Progress.after (progress : Progress) (copies : List Copy) (size : Nat) : Progress :=
  { progress with
    serializedContext := progress.serializedContext + size
    reads := progress.reads ++ [(progress.serializedContext, size)]
    copies := progress.copies ++ copies }

theorem Progress.reads_after (progress : Progress) (copies : List Copy) (size : Nat) :
    progress.reads ⊆ (progress.after copies size).reads := List.subset_append_left _ _

theorem Progress.At.after {progress : Progress} {filled : Bool} (at_ : progress.At cursor filled)
    (copies : List Copy)
    (size : Nat) : (progress.after copies size).At (cursor + size) filled :=
  ⟨congrArg (· + size) at_.1, at_.2⟩

theorem Progress.Fine.after {progress : Progress} {copies : List Copy} {size : Nat}
    (fine : progress.Fine bufferSize call.serializedContextSize)
    (fits : ∀ copy ∈ copies, copy.size ≤ copy.allocated)
    (inside : progress.serializedContext + size ≤ bufferSize)
    (within : progress.serializedContext + size ≤ call.serializedContextSize) :
    (progress.after copies size).Fine bufferSize call.serializedContextSize := by
  refine ⟨fun read member => ?_, fun copied member => ?_, inside, within⟩
  · rcases List.mem_append.mp member with before | last
    · exact fine.inside read before
    · rw [List.mem_singleton.mp last]
      exact inside
  · rcases List.mem_append.mp member with before | last
    · exact fine.fits copied before
    · exact fits copied last

theorem exec_nextElem (size : Nat) (progress : Progress) :
    exec (call.nextElem size) progress =
      (if call.serializedContextSize < progress.serializedContext + size then .error .elfInvalidFile else .ok ⟨⟩,
        { progress with serializedContext := progress.serializedContext + size }) := by
  simp only [Deserialization.nextElem, exec_bind, exec_modify, exec_get]
  split_ifs <;> rfl

theorem exec_elem (copy : Copy) (progress : Progress) :
    exec (call.elem copy) progress =
      (if call.serializedContextSize < progress.serializedContext + copy.size then .error .elfInvalidFile
        else .ok ⟨⟩,
        progress.after [copy] copy.size) := by
  simp only [Deserialization.elem, readBytes, copyBytes, exec_bind, exec_modify, exec_nextElem]
  rfl

theorem exec_elem_bind (copy : Copy) (progress : Progress) :
    exec (call.elem copy >>= fun _ => rest) progress =
      if call.serializedContextSize < progress.serializedContext + copy.size then
        (.error .elfInvalidFile, progress.after [copy] copy.size)
      else exec rest (progress.after [copy] copy.size) := by
  rw [exec_bind, exec_elem]
  split_ifs <;> rfl

/-- The end of a read is the end of the element. -/
theorem inside_of_read {progress : Progress} {copies : List Copy} {size : Nat}
    {result : Except DpuError PUnit × Progress}
    (at_ : progress.serializedContext = cursor) (harmless : Harmless bufferSize result)
    (persists : (progress.after copies size).reads ⊆ result.2.reads) : cursor + size ≤ bufferSize := by
  rw [← at_]
  exact harmless.inside _ (persists (List.mem_append_right _ List.mem_cons_self))

/-- An element of a context whose arrays are allocated. -/
theorem leads_elem {copy : Copy} (fits : copy.size ≤ copy.allocated)
    (next : Leads call bufferSize (cursor + copy.size) true rest condition) :
    Leads call bufferSize cursor true (call.elem copy >>= fun _ => rest)
      (cursor + copy.size ≤ bufferSize ∧ cursor + copy.size ≤ call.serializedContextSize ∧ condition) := by
  have later (progress : Progress) (at_ : progress.At cursor true) :
      (progress.after [copy] copy.size).reads ⊆ (exec (call.elem copy >>= fun _ => rest) progress).2.reads := by
    rw [exec_elem_bind]
    split_ifs
    · exact List.Subset.refl _
    · exact next.persists _ (at_.after _ _)
  refine ⟨fun progress at_ =>
    List.Subset.trans (progress.reads_after _ _) (later progress at_), fun progress at_ fine => ?_⟩
  have whole := later progress at_
  have copies : ∀ copied ∈ [copy], copied.size ≤ copied.allocated := List.forall_mem_singleton.mpr fits
  rw [exec_elem_bind, at_.1] at *
  constructor
  · intro harmless
    have inside := inside_of_read at_.1 harmless whole
    split_ifs at harmless with beyond
    · have released : progress.live = [] := harmless.released _ rfl
      exact absurd at_.2 (by rw [if_pos rfl, released]; exact List.not_mem_nil)
    · have within := not_lt.mp beyond
      have later := (fine.after copies (by rw [at_.1]; exact inside) (by rw [at_.1]; exact within))
      exact ⟨inside, within, (next.harmless _ (at_.after _ _) later).mp harmless⟩
  · rintro ⟨inside, within, holds⟩
    rw [if_neg (not_lt.mpr within)]
    have later := (fine.after copies (by rw [at_.1]; exact inside) (by rw [at_.1]; exact within))
    exact (next.harmless _ (at_.after _ _) later).mpr holds

theorem leads_elems (copies : List Copy) (fits : ∀ copy ∈ copies, copy.size ≤ copy.allocated) :
    Leads call bufferSize cursor true (call.elems copies) (cursor + (copies.map Copy.size).sum ≤ bufferSize ∧
      cursor + (copies.map Copy.size).sum ≤ call.serializedContextSize) := by
  induction copies generalizing cursor with
  | nil =>
    refine ⟨fun progress _ => List.Subset.refl _, fun progress at_ fine => ?_⟩
    have both : cursor ≤ bufferSize ∧ cursor ≤ call.serializedContextSize := at_.1 ▸ ⟨fine.buffer, fine.cursor⟩
    exact iff_of_true ⟨fine.inside, fine.fits, fun error failed => nomatch failed⟩ both
  | cons copy copies ih =>
    rw [List.forall_mem_cons] at fits
    have step := leads_elem fits.1 (@ih (cursor + copy.size) fits.2)
    refine ⟨step.persists, fun progress at_ fine => (step.harmless progress at_ fine).trans ?_⟩
    rw [List.map_cons, List.sum_cons]
    omega

/-- A memory finds its place, and is an element then. -/
theorem leads_memory {array : ContextArray} {freed : List ContextArray} {size bytes : Nat}
    (kept : .registers ∉ freed)
    (zero : size = 0 → bytes = 0) (next : Leads call bufferSize (cursor + bytes) true rest condition) :
    Leads call bufferSize cursor true (call.memoryElem array freed size bytes >>= fun _ => rest)
      ((size ≠ 0 → call.allocates array = true) ∧ cursor + bytes ≤ bufferSize ∧
        cursor + bytes ≤ call.serializedContextSize ∧ condition) := by
  unfold Deserialization.memoryElem
  split_ifs with some_ place
  · -- the memory is allocated before its element
    have element := @leads_elem call bufferSize cursor rest condition ⟨bytes, bytes⟩ le_rfl next
    have same (progress : Progress) :
      exec (((do allocate [array]; call.elem ⟨bytes, bytes⟩) : Deserialize PUnit) >>= fun _ =>
        rest) progress = exec (call.elem ⟨bytes, bytes⟩ >>= fun _ => rest)
          { progress with live := progress.live ++ [array] } := by
      simp only [allocate, exec_bind, exec_modify]
    have moved {progress : Progress} (at_ : progress.At cursor true) :
        ({ progress with live := progress.live ++ [array] } : Progress).At cursor true :=
      ⟨at_.1, List.mem_append_left _ at_.2⟩
    refine ⟨fun progress at_ => ?_, fun progress at_ fine => ?_⟩
    · rw [same]
      exact element.persists _ (moved at_)
    · rw [same, element.harmless _ (moved at_) ⟨fine.inside, fine.fits, fine.buffer, fine.cursor⟩]
      exact (and_iff_right fun _ => place).symm
  · have failed (progress : Progress) :
      exec (((do freeArrays freed; throw .system) : Deserialize PUnit) >>= fun _ => rest)
        progress = (.error .system, { progress with live := progress.live.filter (· ∉ freed) }) := by
      simp only [freeArrays, exec_bind, exec_modify, exec_throw]
    refine ⟨fun progress _ => ?_, fun progress at_ fine => ?_⟩
    · rw [failed]
      exact List.Subset.refl _
    · refine iff_of_false (fun harmless => ?_) fun all => absurd (all.1 some_) place
      rw [failed] at harmless
      have released : progress.live.filter (· ∉ freed) = [] := harmless.released _ rfl
      have member : .registers ∈ progress.live.filter (· ∉ freed) :=
        List.mem_filter.mpr ⟨at_.2, by simpa using kept⟩
      rw [released] at member
      exact absurd member List.not_mem_nil
  · rw [not_not] at some_
    have none_ := zero some_
    subst none_
    rw [Nat.add_zero] at *
    refine ⟨fun progress at_ => next.persists progress at_, fun progress at_ fine => ?_⟩
    have both : cursor ≤ bufferSize ∧ cursor ≤ call.serializedContextSize := at_.1 ▸ ⟨fine.buffer, fine.cursor⟩
    refine (next.harmless progress at_ fine).trans ?_
    simp only [some_, not_true_eq_false, false_implies, both, true_and, ne_eq]

/-- The first allocations fail, and are all released, or the arrays are allocated. -/
theorem leads_contextFill (next : Leads call bufferSize cursor true rest condition) :
    Leads call bufferSize cursor false (call.contextFill >>= fun _ => rest)
      ((∃ array ∈ filledArrays, call.allocates array = false) ∨ condition) := by
  have result (progress : Progress) : exec (call.contextFill >>= fun _ => rest) progress =
      if filledArrays.any fun array => !call.allocates array then
        (.error .system, { progress with
          live := (progress.live ++ filledArrays.filter call.allocates).filter (· ∉ [.iram, .mram,
            .wram] ++ filledArrays) })
      else exec rest { progress with live := progress.live ++ filledArrays.filter call.allocates } := by
    simp only [Deserialization.contextFill, allocate, freeDpuContext, freeArrays, exec_bind, exec_modify]
    split_ifs
    · simp only [exec_bind, exec_modify, exec_throw]
    · simp only [exec_pure]
  have every (array : ContextArray) : array ∈ [.iram, .mram, .wram] ++ filledArrays := by
    cases array <;> decide
  have moved {progress : Progress} (at_ : progress.At cursor false)
      (all : ¬(filledArrays.any fun array => !call.allocates array) = true) :
      ({ progress with live := progress.live ++ filledArrays.filter call.allocates } :
          Progress).At cursor true := by
    have allocated : call.allocates .registers = true := by
      rw [List.any_eq_true] at all
      by_contra fails
      exact all ⟨.registers, by decide, by simpa using fails⟩
    exact ⟨at_.1, List.mem_append_right _ (List.mem_filter.mpr ⟨by decide, allocated⟩)⟩
  refine ⟨fun progress at_ => ?_, fun progress at_ fine => ?_⟩
  · rw [result]
    split_ifs with fails
    · exact List.Subset.refl _
    · exact next.persists _ (moved at_ fails)
  · rw [result]
    split_ifs with fails
    · refine iff_of_true ⟨fine.inside, fine.fits, fun _ _ => ?_⟩ (Or.inl ?_)
      · exact List.filter_eq_nil_iff.mpr fun array _ => by simpa only [decide_eq_true_eq, not_not] using every array
      · obtain ⟨array, member, missing⟩ := List.any_eq_true.mp fails
        exact ⟨array, member, by simpa using missing⟩
    · rw [next.harmless _ (moved at_ fails) ⟨fine.inside, fine.fits, fine.buffer, fine.cursor⟩]
      refine (or_iff_right ?_).symm
      rintro ⟨array, member, missing⟩
      exact fails (List.any_eq_true.mpr ⟨array, member, by simp [missing]⟩)

/-- Before the allocations an element is read, and the call goes on if it is within the declared size. -/
theorem leads_word {command : Deserialize PUnit} (copies : List Copy) {right : Prop} [Decidable right]
    (fits : ∀ copy ∈ copies, copy.size ≤ copy.allocated)
    (result : ∀ progress : Progress, progress.At cursor false → exec command progress =
      if ¬right then (.error .elfInvalidFile, { progress with reads := progress.reads ++ [(cursor, 4)] })
      else if call.serializedContextSize < cursor + 4 then (.error .elfInvalidFile, progress.after copies 4)
      else exec rest (progress.after copies 4))
    (next : Leads call bufferSize (cursor + 4) false rest condition) :
    Leads call bufferSize cursor false command
      (cursor + 4 ≤ bufferSize ∧ (right → cursor + 4 ≤ call.serializedContextSize → condition)) := by
  have later (progress : Progress) (at_ : progress.At cursor false) :
      (progress.after copies 4).reads ⊆ (exec command progress).2.reads := by
    rw [result progress at_]
    split_ifs
    · exact List.Subset.refl _
    · exact next.persists _ (at_.after _ _)
    · rw [Progress.after, at_.1]
      exact List.Subset.refl _
  refine ⟨fun progress at_ =>
    List.Subset.trans (progress.reads_after _ _) (later progress at_), fun progress at_ fine => ?_⟩
  have whole := later progress at_
  have empty : progress.live = [] := at_.2
  have reads (inside : cursor + 4 ≤ bufferSize) : ∀ read ∈ progress.reads ++ [(cursor, 4)],
      read.1 + read.2 ≤ bufferSize :=
    fun read member => (List.mem_append.mp member).elim (fine.inside read) fun last => by
      rw [List.mem_singleton.mp last]
      exact inside
  constructor
  · intro harmless
    have inside := inside_of_read at_.1 harmless whole
    refine ⟨inside, fun correct within => ?_⟩
    rw [result progress at_, if_neg (not_not.mpr correct), if_neg (not_lt.mpr within)] at harmless
    have later := fine.after fits (by rw [at_.1]; exact inside) (by rw [at_.1]; exact within)
    exact (next.harmless _ (at_.after _ _) later).mp harmless
  · rintro ⟨inside, holds⟩
    rw [result progress at_]
    split_ifs with correct beyond
    · exact ⟨by rw [Progress.after, at_.1]; exact reads inside,
        fun copied member => (List.mem_append.mp member).elim (fine.fits copied) (fits copied), fun _ _ => empty⟩
    · have within := not_lt.mp beyond
      have later := fine.after fits (by rw [at_.1]; exact inside) (by rw [at_.1]; exact within)
      exact (next.harmless _ (at_.after _ _) later).mpr (holds correct within)
    · exact ⟨reads inside, fine.fits, fun _ _ => empty⟩

theorem leads_headerWord {value : BitVec 32} (next : Leads call bufferSize (cursor + 4) false rest condition) :
    Leads call bufferSize cursor false (call.headerWord value >>= fun _ => rest)
      (cursor + 4 ≤ bufferSize ∧ (call.wordAt cursor = value → cursor + 4 ≤ call.serializedContextSize →
        condition)) := by
  refine leads_word [] (fun copy member => absurd member List.not_mem_nil) (fun progress at_ => ?_) next
  simp only [Deserialization.headerWord, readBytes, exec_bind, exec_modify, exec_get, at_.1]
  by_cases right : call.wordAt cursor = value
  · by_cases beyond : call.serializedContextSize < cursor + 4
    · simp only [right, not_true_eq_false, if_false, ne_eq, exec_nextElem, at_.1, if_pos beyond,
        Progress.after, List.append_nil]
    · simp only [right, not_true_eq_false, if_false, ne_eq, exec_nextElem, at_.1, if_neg beyond,
        Progress.after, List.append_nil]
  · simp only [right, not_false_eq_true, if_true, ne_eq, exec_bind, exec_throw]

theorem leads_countWord {command : BitVec 32 → Deserialize PUnit}
    (next : Leads call bufferSize (cursor + 4) false (command (call.wordAt cursor)) condition) :
    Leads call bufferSize cursor false (call.countWord >>= command)
      (cursor + 4 ≤ bufferSize ∧ (True → cursor + 4 ≤ call.serializedContextSize → condition)) := by
  refine leads_word [⟨4, 4⟩] (List.forall_mem_singleton.mpr le_rfl) (fun progress at_ => ?_) next
  simp only [Deserialization.countWord, exec_bind, exec_get, exec_elem, at_.1, not_true_eq_false, if_false]
  split_ifs
  · rfl
  · simp only [exec_pure]

end Steps

section Call
variable (call : Deserialization) (bufferSize : Nat)

/-- Each copy is within what is allocated for the field, with every product in 32 bits. -/
theorem contextElems_fit (nrOfThreads nrOfWorkRegistersPerThread nrOfAtomicBits : BitVec 32) :
    ∀ copy ∈ contextElems nrOfThreads nrOfWorkRegistersPerThread nrOfAtomicBits, copy.size ≤ copy.allocated := by
  have registers : size32 (4 * nrOfThreads.toNat * nrOfWorkRegistersPerThread.toNat) ≤
      4 * (nrOfThreads * nrOfWorkRegistersPerThread).toNat := by
    rw [BitVec.toNat_mul, size32, Nat.mul_assoc]
    omega
  have within (n : Nat) : size32 n ≤ n := Nat.mod_le _ _
  simp only [contextElems, List.forall_mem_cons, registers, within, le_refl, true_and]
  exact fun copy member => absurd member List.not_mem_nil

/-- The numbers that `dpu_context_fill` and the memories are for. -/
theorem leads_fields : Leads call bufferSize 40 false
    (call.fields (call.wordAt 16) (call.wordAt 20) (call.wordAt 24) (call.wordAt 28) (call.wordAt 32)
      (call.wordAt 36))
    ((∃ array ∈ filledArrays, call.allocates array = false) ∨
      (call.Placed ∧ call.contextSize ≤ call.serializedContextSize ∧ call.contextSize ≤ bufferSize)) := by
  have zero {n : Nat} (size : Nat) (none_ : n = 0) : size32 (size * n) = 0 := by
    rw [none_]
    rfl
  refine Leads.congr (leads_contextFill (leads_memory (by decide) (zero 8) (leads_memory (by decide) (zero 1)
    (leads_memory (by decide) (zero 4) (leads_elems _ (contextElems_fit _ _ _)))))) (or_congr_right ?_)
  have numbers (place : Nat) : (call.wordAt place).toNat ≠ 0 ↔ call.wordAt place ≠ 0#32 :=
    not_congr ⟨fun same => BitVec.eq_of_toNat_eq same, fun same => by rw [same]; rfl⟩
  unfold Deserialization.Placed Deserialization.contextSize Deserialization.memoryBytes
  rw [numbers, numbers, numbers]
  constructor
  · rintro ⟨iram, _, _, mram, _, _, wram, _, _, inside, within⟩
    exact ⟨⟨iram, mram, wram⟩, within, inside⟩
  · rintro ⟨⟨iram, mram, wram⟩, within, inside⟩
    exact ⟨iram, by omega, by omega, mram, by omega, by omega, wram, by omega, by omega, inside, within⟩

/-- The words of the header that are left, one after the other. -/
def Deserialization.CompleteFrom : Nat → Prop
  | 0 => (∃ array ∈ filledArrays, call.allocates array = false) ∨
      (call.Placed ∧ call.contextSize ≤ call.serializedContextSize ∧ call.contextSize ≤ bufferSize)
  | left + 1 => 4 * (9 - left + 1) ≤ bufferSize ∧ (call.Right (9 - left) →
      4 * (9 - left + 1) ≤ call.serializedContextSize →
      CompleteFrom left)

theorem leads_run : Leads call bufferSize 0 false call.run (call.CompleteFrom bufferSize 10) :=
  leads_headerWord (leads_headerWord (leads_headerWord (leads_headerWord (leads_countWord (leads_countWord
    (leads_countWord (leads_countWord (leads_countWord (leads_countWord (leads_fields call bufferSize))))))))))

theorem through_succ (k : Nat) :
    call.Through (k + 1) ↔ call.Through k ∧ call.Right k ∧ 4 * (k + 1) ≤ call.serializedContextSize := by
  unfold Deserialization.Through
  rw [Nat.forall_lt_succ_right]

theorem completeFrom_iff (left : Nat) (ten : left ≤ 10) (through : call.Through (10 - left)) :
    call.CompleteFrom bufferSize left ↔
      (∀ k < 10, 10 - left ≤ k → call.Through k → 4 * (k + 1) ≤ bufferSize) ∧
        (call.Through 10 → call.CompleteFrom bufferSize 0) := by
  induction left with
  | zero =>
    constructor
    · exact fun body => ⟨fun k below above => absurd above (by omega), fun _ => body⟩
    · exact fun both => both.2 through
  | succ left ih =>
    have here : 10 - (left + 1) = 9 - left := by omega
    have after : 10 - left = 9 - left + 1 := by omega
    rw [here] at through ⊢
    rw [after] at ih
    rw [Deserialization.CompleteFrom]
    constructor
    · rintro ⟨inside, rest⟩
      have goesOn (throughNext : call.Through (9 - left + 1)) := by
        obtain ⟨_, right, within⟩ := (through_succ call _).mp throughNext
        exact (ih (by omega) throughNext).mp (rest right within)
      refine ⟨fun k below above throughK => ?_, fun throughAll => ?_⟩
      · rcases Nat.eq_or_lt_of_le above with rfl | later
        · exact inside
        · exact (goesOn fun j earlier => throughK j (by omega)).1 k below (by omega) throughK
      · exact (goesOn fun j earlier => throughAll j (by omega)).2 throughAll
    · rintro ⟨header, body⟩
      refine ⟨header _ (by omega) le_rfl through, fun right within => ?_⟩
      have throughNext := (through_succ call _).mpr ⟨through, right, within⟩
      exact (ih (by omega) throughNext).mpr ⟨fun k below above => header k below (by omega), body⟩

end Call

/-- The call stays in the buffer and in its allocations, and releases what it has
allocated when it fails, if and only if the buffer is complete. -/
theorem deserialize_harmless_iff (call : Deserialization) (bufferSize : Nat) :
    Harmless bufferSize (exec call.run .start) ↔ call.Complete bufferSize := by
  have fine : Progress.start.Fine bufferSize call.serializedContextSize :=
    ⟨fun read member => absurd member List.not_mem_nil, fun copy member => absurd member List.not_mem_nil,
      Nat.zero_le _, Nat.zero_le _⟩
  have empty : Progress.start.At 0 false := ⟨rfl, rfl⟩
  have through : call.Through (10 - 10) := fun k below => absurd below (Nat.not_lt_zero k)
  rw [(leads_run call bufferSize).harmless .start empty fine, completeFrom_iff call bufferSize 10 le_rfl through]
  constructor
  · rintro ⟨header, body⟩
    exact ⟨fun k below => header k below (Nat.zero_le _), body⟩
  · rintro ⟨header, body⟩
    exact ⟨fun k below _ => header k below, body⟩

/-- A header without anything behind it, where all numbers are 0. -/
def headerOnly : Deserialization where
  memory := fun place => [0xaf#8, 0xdb#8, 0xbd#8, 0xfa#8, 18#8, 0#8, 0#8, 0#8, 3#8, 0#8, 0#8, 0#8, 0xaf#8, 0xdb#8,
    0xbd#8, 0xfa#8].getD place 0#8
  serializedContextSize := 40
  allocates := fun _ => true

/-- It ends the call with an error, and leaves the arrays of `dpu_context_fill` allocated. -/
theorem headerOnly_leaks : ¬Harmless 40 (exec headerOnly.run .start) := by
  intro harmless
  have failed : (exec headerOnly.run .start).1 = .error .elfInvalidFile := by rfl
  have live : (exec headerOnly.run .start).2.live = filledArrays := by rfl
  exact absurd (live.symm.trans (harmless.released _ failed)) (by decide)

end Upmem.Checkpoint
