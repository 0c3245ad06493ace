import Upmem.MramChunks

namespace Upmem.MramAccess
open Blit

/-- The memory of the host and the DPUs of a rank, by slice and member. -/
structure Machine where
  host : Memory
  dpus : Nat × Nat → DpuState

/-- `get_transfer_matrix_index`. -/
def getTransferMatrixIndex (rank : Rank) (position : Nat × Nat) : Nat :=
  position.2 * rank.nrCis + position.1

/-- The DPUs of a rank in the order of the loops, members before slices. -/
def positions (nrCis nrDpusPerCi : Nat) : List (Nat × Nat) :=
  (List.range nrDpusPerCi).flatMap fun dpuId => (List.range nrCis).map fun sliceId => (sliceId, dpuId)

/-- The pointer, the offset or the size asks for the alignment buffer. -/
def misaligned (matrix : TransferMatrix) (ptr : Nat) : Bool :=
  ptr % 4 != 0 || matrix.offset &&& 7#32 != 0#32 || matrix.size &&& 7#32 != 0#32

def alignedSize (matrix : TransferMatrix) : BitVec 32 :=
  (matrix.size + (matrix.offset &&& 7#32) + 7#32) &&& ~~~ 7#32

/-- `aligned_transfer`: entry 0 points into the alignment buffer. -/
def alignedTransfer (place : Nat) (offset size : BitVec 32) : TransferMatrix where
  ptr := fun idx => if idx = 0 then some place else none
  offset := offset
  size := size

section Paths
variable {memories : Memories} (rank : Rank) (program : AccessProgram memories) (matrix : TransferMatrix)
  (faults : Nat × Nat → DpuFaults) (context : Nat × Nat → FaultContext)

/-- The access to the MRAM of one DPU. -/
def accessDpu (position : Nat × Nat) (transfer : TransferMatrix) (type : TransferType) (host : Memory)
    (dpu : DpuState) : Except Stop (Memory × DpuState) :=
  accessMramUsingDpuProgramIndividual program transfer type (rank.dpus position.1 position.2).enabled position.2
    (faults position) (context position) host dpu

/-- A turn of the loops of `copy_from_mrams_using_dpu_program`. Besides the
machine it changes the alignment buffer. -/
def copyFromDpu (locals : Machine × Memory) (entry : (Nat × Nat) × Nat) : Except Stop (Machine × Memory) :=
  let (machine, mramBuffer) := locals
  let (position, idx) := entry
  match matrix.ptr idx with
  | none => .ok locals
  | some ptr =>
    if !(rank.dpus position.1 position.2).enabled then .ok locals
    else if misaligned matrix ptr then do
      let transfer := alignedTransfer 0 (matrix.offset &&& ~~~ 7#32) (alignedSize matrix)
      let (mramBuffer, dpu) ← accessDpu rank program faults context position transfer .fromMram mramBuffer
        (machine.dpus position)
      let host := blit mramBuffer (matrix.offset &&& 7#32).toNat machine.host ptr matrix.size.toNat
      return (⟨host, Function.update machine.dpus position dpu⟩, mramBuffer)
    else do
      let (host, dpu) ← accessDpu rank program faults context position matrix .fromMram machine.host
        (machine.dpus position)
      return (⟨host, Function.update machine.dpus position dpu⟩, mramBuffer)

/-- The first double word of the range, when the range starts inside of it. -/
def readHead (position : Nat × Nat) (mramBuffer : Memory) (dpu : DpuState) : Except Stop (Memory × DpuState) :=
  if matrix.offset &&& 7#32 ≠ 0#32 then
    accessDpu rank program faults context position (alignedTransfer 0 (matrix.offset &&& ~~~ 7#32) 8#32) .fromMram
      mramBuffer dpu
  else .ok (mramBuffer, dpu)

/-- The last double word of the range, when the range ends inside of it. -/
def readTail (position : Nat × Nat) (mramBuffer : Memory) (dpu : DpuState) : Except Stop (Memory × DpuState) :=
  if (matrix.size + (matrix.offset &&& 7#32)) &&& 7#32 ≠ 0#32 then
    accessDpu rank program faults context position
      (alignedTransfer (alignedSize matrix - 8#32).toNat (matrix.offset + alignedSize matrix - 8#32) 8#32) .fromMram
      mramBuffer dpu
  else .ok (mramBuffer, dpu)

/-- A turn of the loops of `copy_to_mrams_using_dpu_program`. -/
def copyToDpu (locals : Machine × Memory) (entry : (Nat × Nat) × Nat) : Except Stop (Machine × Memory) :=
  let (machine, mramBuffer) := locals
  let (position, idx) := entry
  match matrix.ptr idx with
  | none => .ok locals
  | some ptr =>
    if !(rank.dpus position.1 position.2).enabled then .ok locals
    else if misaligned matrix ptr then do
      let (mramBuffer, dpu) ← readHead rank program matrix faults context position mramBuffer
        (machine.dpus position)
      let (mramBuffer, dpu) ← readTail rank program matrix faults context position mramBuffer dpu
      let mramBuffer := blit machine.host ptr mramBuffer (matrix.offset &&& 7#32).toNat matrix.size.toNat
      let transfer := alignedTransfer 0 (matrix.offset &&& ~~~ 7#32) (alignedSize matrix)
      let (mramBuffer, dpu) ← accessDpu rank program faults context position transfer .toMram mramBuffer dpu
      return (⟨machine.host, Function.update machine.dpus position dpu⟩, mramBuffer)
    else do
      let (host, dpu) ← accessDpu rank program faults context position matrix .toMram machine.host
        (machine.dpus position)
      return (⟨host, Function.update machine.dpus position dpu⟩, mramBuffer)

def copyDpu (type : TransferType) : Machine × Memory → (Nat × Nat) × Nat → Except Stop (Machine × Memory) :=
  match type with
  | .toMram => copyToDpu rank program matrix faults context
  | .fromMram => copyFromDpu rank program matrix faults context

/-- `copy_to_mrams_using_dpu_program` and `copy_from_mrams_using_dpu_program`.
The program is found, and `heap` is what the allocated buffer holds at first. -/
def copyMramsUsingDpuProgram (type : TransferType) (heap : Memory) (machine : Machine) : Except Stop Machine := do
  let (machine, _) ← (positions rank.nrCis rank.nrDpusPerCi).zipIdx.foldlM
    (copyDpu rank program matrix faults context type) (machine, heap)
  return machine

end Paths

/-- The counter of the loops is the index of the DPU in the matrix. -/
theorem zipIdx_positions (nrCis nrDpusPerCi : Nat) :
    (positions nrCis nrDpusPerCi).zipIdx =
      (positions nrCis nrDpusPerCi).map fun position => (position, position.2 * nrCis + position.1) := by
  have length : ∀ n, (positions nrCis n).length = n * nrCis := by
    intro n
    simp [positions]
  have row : ∀ n start : Nat, ((List.range nrCis).map fun sliceId => (sliceId, n)).zipIdx start =
      (List.range nrCis).map fun sliceId => ((sliceId, n), start + sliceId) := by
    intro n start
    apply List.ext_getElem
    · simp
    · intro i _ _
      simp
  induction nrDpusPerCi with
  | zero => rfl
  | succ n ih =>
    have split : positions nrCis (n + 1) =
        positions nrCis n ++ (List.range nrCis).map fun sliceId => (sliceId, n) := by
      simp [positions, List.range_succ]
    rw [split, List.zipIdx_append, ih, length, row, List.map_append, List.map_map, Nat.zero_add]
    rfl

theorem mem_positions {nrCis nrDpusPerCi : Nat} {position : Nat × Nat} :
    position ∈ positions nrCis nrDpusPerCi ↔ position.1 < nrCis ∧ position.2 < nrDpusPerCi := by
  obtain ⟨sliceId, dpuId⟩ := position
  simp [positions, and_comm]

theorem nodup_positions (nrCis nrDpusPerCi : Nat) : (positions nrCis nrDpusPerCi).Nodup := by
  refine List.nodup_flatMap.mpr ⟨fun dpuId _ => ?_, ?_⟩
  · exact (List.nodup_range).map fun a b same => congrArg Prod.fst same
  · refine (List.nodup_range (n := nrDpusPerCi)).imp ?_
    intro a b differ
    rw [Function.onFun, List.disjoint_left]
    simp only [List.mem_map, not_exists, not_and]
    rintro position ⟨sliceId, _, rfl⟩ sliceId' _ same
    exact differ (congrArg Prod.snd same).symm

section Accepted

/-- The check in front of the path a type takes. -/
def requested (type : TransferType) (offset size : BitVec 32) (rank : Rank) : Except DpuError MramPath :=
  match type with
  | .toMram => dpuCopyToMrams offset size rank
  | .fromMram => dpuCopyFromMrams offset size rank

/-- The transfer is accepted, is within the MRAM and takes the path of the DPU program. -/
structure Accepted (type : TransferType) (rank : Rank) (matrix : TransferMatrix) : Prop where
  granted : requested type matrix.offset matrix.size rank = .ok .dpuProgram
  within : matrix.offset.toNat + matrix.size.toNat ≤ rank.description.mramSize.toNat

variable {type : TransferType} {rank : Rank} {matrix : TransferMatrix}

theorem Accepted.aligned (accepted : Accepted type rank matrix) :
    matrix.size % 8#32 = 0#32 ∧ matrix.offset % 8#32 = 0#32 := by
  have granted := accepted.granted
  have verified : verifyMramAccessOffsetAndSize matrix.offset matrix.size rank.description.mramSize = .ok := by
    by_contra refused
    cases type <;> simp [requested, dpuCopyToMrams, dpuCopyFromMrams, refused] at granted
  by_contra refused
  rw [verifyMramAccessOffsetAndSize, if_pos (by tauto)] at verified
  cases verified

theorem and_seven {x : BitVec 32} (aligned : x % 8#32 = 0#32) : x &&& 7#32 = 0#32 := by
  apply BitVec.eq_of_toNat_eq
  have remainder : x.toNat % 8 = 0 := by simpa using congrArg BitVec.toNat aligned
  rw [BitVec.toNat_and]
  exact (Nat.and_two_pow_sub_one_eq_mod x.toNat 3).trans remainder

theorem and_not_seven {x : BitVec 32} (aligned : x % 8#32 = 0#32) : x &&& ~~~ 7#32 = x := by
  have low := and_seven aligned
  ext i below
  have bit : (x[i] && (7#32)[i]) = false := by
    rw [← BitVec.getElem_and, low]
    simp
  rw [BitVec.getElem_and, BitVec.getElem_not]
  cases high : x[i] <;> simp_all

theorem Accepted.alignedSize_eq (accepted : Accepted type rank matrix) : alignedSize matrix = matrix.size := by
  have low := and_seven accepted.aligned.1
  rw [alignedSize, and_seven accepted.aligned.2, BitVec.add_zero, BitVec.add_eq_or_of_and_eq_zero _ _ low]
  have cleared : 7#32 &&& ~~~ 7#32 = 0#32 := by decide
  calc (matrix.size ||| 7#32) &&& ~~~ 7#32
      = (matrix.size &&& ~~~ 7#32) ||| (7#32 &&& ~~~ 7#32) := BitVec.and_or_distrib_right ..
    _ = matrix.size := by rw [cleared, BitVec.or_zero, and_not_seven accepted.aligned.1]

theorem Accepted.misaligned_eq (accepted : Accepted type rank matrix) (ptr : Nat) :
    misaligned matrix ptr = (ptr % 4 != 0) := by
  simp [misaligned, and_seven accepted.aligned.1, and_seven accepted.aligned.2]

theorem Accepted.size_mod (accepted : Accepted type rank matrix) : matrix.size.toNat % 8 = 0 := by
  simpa using congrArg BitVec.toNat accepted.aligned.1

end Accepted

section Turns
variable {memories : Memories} {rank : Rank} {program : AccessProgram memories} {matrix : TransferMatrix}
  {faults : Nat × Nat → DpuFaults} {context : Nat × Nat → FaultContext} {type : TransferType}

/-- The DPU has a buffer and is enabled. -/
structure Participates (rank : Rank) (matrix : TransferMatrix) (position : Nat × Nat) (ptr : Nat) : Prop where
  slice : position.1 < rank.nrCis
  member : position.2 < rank.nrDpusPerCi
  enabled : (rank.dpus position.1 position.2).enabled = true
  buffer : matrix.ptr (getTransferMatrixIndex rank position) = some ptr

/-- The buffer the path really uses for a DPU with a buffer at `ptr`. -/
def usedBuffer (matrix : TransferMatrix) (ptr : Nat) : Option Nat :=
  if ptr % 4 = 0 then matrix.ptr 0 else some ptr

/-- The WRAM once a DPU has been accessed. -/
def accessedWram (matrix : TransferMatrix) (faults : Nat × Nat → DpuFaults) (context : Nat × Nat → FaultContext)
    (position : Nat × Nat) (wram : Memory) : Memory :=
  if matrix.size = 0#32 then wram else ciDebugInitDpu position.2 (faults position) (context position) wram

/-- A turn for a DPU without a buffer, or disabled. -/
theorem copyDpu_skip {locals : Machine × Memory} {position : Nat × Nat} {idx : Nat}
    (skipped : ∀ ptr, matrix.ptr idx = some ptr → (rank.dpus position.1 position.2).enabled = false) :
    copyDpu rank program matrix faults context type locals (position, idx) = .ok locals := by
  cases entry : matrix.ptr idx with
  | none => cases type <;> simp [copyDpu, copyToDpu, copyFromDpu, entry]
  | some ptr => cases type <;> simp [copyDpu, copyToDpu, copyFromDpu, entry, skipped ptr entry]

variable (program faults context)

/-- What a turn does for a DPU that participates. -/
theorem copyDpu_eq (accepted : Accepted type rank matrix) (machine : Machine) (mramBuffer : Memory)
    {position : Nat × Nat} {idx ptr base : Nat} (entry : matrix.ptr idx = some ptr)
    (enabled : (rank.dpus position.1 position.2).enabled = true) (used : usedBuffer matrix ptr = some base) :
    ∃ host dpu mramBuffer',
      copyDpu rank program matrix faults context type (machine, mramBuffer) (position, idx) =
        .ok (⟨host, Function.update machine.dpus position dpu⟩, mramBuffer') ∧
      (host, dpu.mram) = moved type base matrix.offset.toNat matrix.size.toNat machine.host
        (machine.dpus position).mram ∧
      dpu.iram = (machine.dpus position).iram ∧
      dpu.wram = accessedWram matrix faults context position (machine.dpus position).wram := by
  by_cases unaligned : ptr % 4 = 0
  · rw [usedBuffer, if_pos unaligned] at used
    obtain ⟨host, dpu, run, memory, iram, wram⟩ := accessMramUsingDpuProgramIndividual_eq program type
      position.2 (faults position) (context position) machine.host (machine.dpus position) used accepted.size_mod
    refine ⟨host, dpu, mramBuffer, ?_, memory, iram, wram⟩
    have direct : misaligned matrix ptr = false := by rw [accepted.misaligned_eq, unaligned]; rfl
    cases type <;> simp [copyDpu, copyToDpu, copyFromDpu, entry, enabled, direct, accessDpu, run]
  · rw [usedBuffer, if_neg unaligned, Option.some.injEq] at used
    subst used
    have buffered : misaligned matrix ptr = true := by rw [accepted.misaligned_eq]; simpa using unaligned
    have low := and_seven accepted.aligned.2
    have high := and_not_seven accepted.aligned.2
    have whole := accepted.alignedSize_eq
    have size := accepted.size_mod
    cases type with
    | toMram =>
      have head : ∀ buffer dpu, readHead rank program matrix faults context position buffer dpu =
          .ok (buffer, dpu) :=
        fun buffer dpu => if_neg (not_not.mpr low)
      have tail : ∀ buffer dpu, readTail rank program matrix faults context position buffer dpu =
          .ok (buffer, dpu) :=
        fun buffer dpu => if_neg (by rw [low, BitVec.add_zero, and_seven accepted.aligned.1]; simp)
      obtain ⟨buffer, dpu, run, memory, iram, wram⟩ := accessMramUsingDpuProgramIndividual_eq program .toMram
        position.2 (faults position) (context position) (blit machine.host ptr mramBuffer 0 matrix.size.toNat)
        (machine.dpus position) (show (alignedTransfer 0 matrix.offset matrix.size).ptr 0 = some 0 from rfl) size
      simp only [moved, Prod.mk.injEq, alignedTransfer] at memory
      refine ⟨machine.host, dpu, buffer, ?_, ?_, iram, wram⟩
      · simp [-BitVec.reduceNot, copyDpu, copyToDpu, entry, enabled, buffered, accessDpu, head, tail,
          low, high, whole, run, bind,
          Except.bind, pure, Except.pure]
      · rw [moved, memory.2, blit_through]
    | fromMram =>
      obtain ⟨buffer, dpu, run, memory, iram, wram⟩ := accessMramUsingDpuProgramIndividual_eq program .fromMram
        position.2 (faults position) (context position) mramBuffer (machine.dpus position)
        (show (alignedTransfer 0 matrix.offset matrix.size).ptr 0 = some 0 from rfl) size
      simp only [moved, Prod.mk.injEq, alignedTransfer] at memory
      refine ⟨blit buffer 0 machine.host ptr matrix.size.toNat, dpu, buffer, ?_, ?_, iram, wram⟩
      · simp [-BitVec.reduceNot, copyDpu, copyFromDpu, entry, enabled, buffered, accessDpu, low, high,
          whole, run, bind, Except.bind,
          pure, Except.pure]
      · rw [moved, memory.1, memory.2, blit_through]

variable {program faults context}

/-- A transfer of no bytes does nothing. -/
theorem copyDpu_empty (accepted : Accepted type rank matrix) (empty : matrix.size = 0#32)
    (locals : Machine × Memory) (entry : (Nat × Nat) × Nat) :
    copyDpu rank program matrix faults context type locals entry = .ok locals := by
  obtain ⟨machine, mramBuffer⟩ := locals
  obtain ⟨position, idx⟩ := entry
  cases buffer : matrix.ptr idx with
  | none => exact copyDpu_skip fun ptr some => by simp [buffer] at some
  | some ptr =>
    by_cases enabled : (rank.dpus position.1 position.2).enabled = true
    swap
    · exact copyDpu_skip fun ptr _ => by simpa using enabled
    have low := and_seven accepted.aligned.2
    have whole := accepted.alignedSize_eq
    have none : ∀ (transfer : TransferMatrix) (way : TransferType) (host : Memory), transfer.size = 0#32 →
        accessDpu rank program faults context position transfer way host (machine.dpus position) =
          .ok (host, machine.dpus position) := by
      intro transfer way host zero
      rw [accessDpu, accessMramUsingDpuProgramIndividual, enabled, if_neg (by decide), if_pos zero]
    have head : readHead rank program matrix faults context position mramBuffer (machine.dpus position) =
        .ok (mramBuffer, machine.dpus position) := if_neg (not_not.mpr low)
    have tail : readTail rank program matrix faults context position mramBuffer (machine.dpus position) =
        .ok (mramBuffer, machine.dpus position) := if_neg (by rw [low, empty]; decide)
    by_cases buffered : misaligned matrix ptr = true
    · cases type <;> simp [copyDpu, copyToDpu, copyFromDpu, buffer, enabled, buffered, head, tail,
        low, whole, empty,
        bind, Except.bind, none, alignedTransfer] <;> rfl
    · cases type <;> simp [copyDpu, copyToDpu, copyFromDpu, buffer, enabled, buffered, bind, Except.bind,
        none matrix _ _ empty] <;> rfl

/-- Without the buffer it would use the path ends the process. -/
theorem copyDpu_null (accepted : Accepted type rank matrix) (nonempty : matrix.size ≠ 0#32) {position : Nat × Nat}
    {idx ptr : Nat} (entry : matrix.ptr idx = some ptr)
    (enabled : (rank.dpus position.1 position.2).enabled = true) (used : usedBuffer matrix ptr = none)
    (locals : Machine × Memory) :
    copyDpu rank program matrix faults context type locals (position, idx) = .error .segfault := by
  have unaligned : ptr % 4 = 0 := by
    by_contra other
    rw [usedBuffer, if_neg other] at used
    cases used
  rw [usedBuffer, if_pos unaligned] at used
  have direct : misaligned matrix ptr = false := by rw [accepted.misaligned_eq, unaligned]; rfl
  cases type <;> simp [copyDpu, copyToDpu, copyFromDpu, entry, enabled, direct, accessDpu, bind, Except.bind,
    accessMramUsingDpuProgramIndividual_null used nonempty]

/-- The DPUs that take part in a transfer, in the order of the loops. -/
def participants (rank : Rank) (matrix : TransferMatrix) : List (Nat × Nat) :=
  (positions rank.nrCis rank.nrDpusPerCi).filter fun position =>
    (rank.dpus position.1 position.2).enabled && (matrix.ptr (getTransferMatrixIndex rank position)).isSome

/-- The buffer of a DPU that takes part. -/
def ownBuffer (rank : Rank) (matrix : TransferMatrix) (position : Nat × Nat) : Nat :=
  (matrix.ptr (getTransferMatrixIndex rank position)).getD 0

theorem mem_participants {position : Nat × Nat} :
    position ∈ participants rank matrix ↔ ∃ ptr, Participates rank matrix position ptr := by
  rw [participants, List.mem_filter, mem_positions, Bool.and_eq_true, Option.isSome_iff_exists]
  constructor
  · rintro ⟨⟨slice, member⟩, enabled, ptr, buffer⟩
    exact ⟨ptr, slice, member, enabled, buffer⟩
  · rintro ⟨ptr, slice, member, enabled, buffer⟩
    exact ⟨⟨slice, member⟩, enabled, ptr, buffer⟩

theorem Participates.own {position : Nat × Nat} {ptr : Nat} (takes : Participates rank matrix position ptr) :
    ownBuffer rank matrix position = ptr := by
  rw [ownBuffer, takes.buffer, Option.getD_some]

/-- The bytes of the host once the DPUs of a list have been accessed at `base`. -/
def accessedHost (type : TransferType) (matrix : TransferMatrix) (base : Nat × Nat → Nat)
    (dpus : Nat × Nat → DpuState) (taking : List (Nat × Nat)) (host : Memory) : Memory :=
  match type with
  | .toMram => host
  | .fromMram => blits (fun position => (dpus position).mram) matrix.offset.toNat base matrix.size.toNat taking host

/-- A DPU once it has been accessed at `base`. -/
structure AccessedDpu (type : TransferType) (matrix : TransferMatrix) (faults : Nat × Nat → DpuFaults)
    (context : Nat × Nat → FaultContext) (base : Nat) (host : Memory) (position : Nat × Nat)
    (before after : DpuState) : Prop where
  mram : after.mram =
    match type with
    | .toMram => blit host base before.mram matrix.offset.toNat matrix.size.toNat
    | .fromMram => before.mram
  iram : after.iram = before.iram
  wram : after.wram = accessedWram matrix faults context position before.wram

variable (program faults context)

/-- What the loops do over a list of DPUs, each accessed at `base`. -/
theorem foldlM_copyDpu (accepted : Accepted type rank matrix) (base : Nat × Nat → Nat)
    (ps : List (Nat × Nat)) (distinct : ps.Nodup)
    (inside : ∀ position ∈ ps, position.1 < rank.nrCis ∧ position.2 < rank.nrDpusPerCi)
    (used : ∀ position ptr, Participates rank matrix position ptr → usedBuffer matrix ptr = some (base position))
    (machine : Machine) (mramBuffer : Memory) :
    ∃ after mramBuffer', ps.foldlM (fun locals position => copyDpu rank program matrix faults context type locals
        (position, getTransferMatrixIndex rank position)) (machine, mramBuffer) = .ok (after, mramBuffer') ∧
      after.host = accessedHost type matrix base machine.dpus
        (ps.filter (· ∈ participants rank matrix)) machine.host ∧
      (∀ position ∈ ps, position ∈ participants rank matrix →
        AccessedDpu type matrix faults context (base position) machine.host position (machine.dpus position)
          (after.dpus position)) ∧
      ∀ position, position ∉ ps ∨ position ∉ participants rank matrix →
        after.dpus position = machine.dpus position := by
  induction ps generalizing machine mramBuffer with
  | nil =>
    refine ⟨machine, mramBuffer, rfl, ?_, fun _ member => absurd member List.not_mem_nil, fun _ _ => rfl⟩
    cases type <;> rfl
  | cons position ps ih =>
    have fresh : position ∉ ps := (List.nodup_cons.mp distinct).1
    have later := ih (List.nodup_cons.mp distinct).2 fun q member => inside q (List.mem_cons_of_mem position member)
    rw [List.foldlM_cons]
    by_cases takes : position ∈ participants rank matrix
    · obtain ⟨ptr, participates⟩ := mem_participants.mp takes
      obtain ⟨host, dpu, buffer, turn, memory, iram, wram⟩ := copyDpu_eq program faults context accepted
        machine mramBuffer participates.buffer participates.enabled (used position ptr participates)
      obtain ⟨after, buffer', run, hostEq, accessed, other⟩ :=
        later ⟨host, Function.update machine.dpus position dpu⟩ buffer
      have unchanged : ∀ q, q ≠ position → Function.update machine.dpus position dpu q = machine.dpus q :=
        fun q differ => Function.update_of_ne differ dpu machine.dpus
      have self : after.dpus position = dpu :=
        (other position (Or.inl fresh)).trans (Function.update_self position dpu machine.dpus)
      refine ⟨after, buffer', by rw [turn]; exact run, ?_, ?_, ?_⟩
      · rw [List.filter_cons_of_pos (by simpa using takes), hostEq]
        cases type with
        | toMram => exact (Prod.mk.inj memory).1
        | fromMram =>
          obtain ⟨hostMoved, mramKept⟩ := Prod.mk.inj memory
          have mrams : (fun q => (Function.update machine.dpus position dpu q).mram) =
              fun q => (machine.dpus q).mram := by
            funext q
            by_cases same : q = position
            · rw [same, Function.update_self, mramKept]
            · rw [unchanged q same]
          simp only [accessedHost]
          rw [mrams, hostMoved]
          rfl
      · intro q member taking
        rcases List.mem_cons.mp member with rfl | member
        · rw [self]
          refine ⟨?_, iram, wram⟩
          cases type <;> exact (Prod.mk.inj memory).2
        · have differ : q ≠ position := fun same => fresh (same ▸ member)
          have result := accessed q member taking
          simp only [unchanged q differ] at result
          cases type with
          | toMram => exact (Prod.mk.inj memory).1 ▸ result
          | fromMram => exact ⟨result.mram, result.iram, result.wram⟩
      · intro q absent
        have differ : q ≠ position := by
          rintro rfl
          exact absent.elim (fun away => away List.mem_cons_self) fun away => away takes
        rw [other q (absent.imp_left fun away member => away (List.mem_cons_of_mem position member))]
        exact unchanged q differ
    · obtain ⟨after, buffer, run, hostEq, accessed, other⟩ := later machine mramBuffer
      have skip : copyDpu rank program matrix faults context type (machine, mramBuffer)
          (position, getTransferMatrixIndex rank position) = .ok (machine, mramBuffer) := by
        refine copyDpu_skip fun ptr buffer => ?_
        by_contra enabled
        obtain ⟨slice, member⟩ := inside position List.mem_cons_self
        exact takes (mem_participants.mpr ⟨ptr, slice, member, by simpa using enabled, buffer⟩)
      refine ⟨after, buffer, by rw [skip]; exact run, ?_, ?_, ?_⟩
      · rw [List.filter_cons_of_neg (by simpa using takes), hostEq]
      · intro q member taking
        exact accessed q ((List.mem_cons.mp member).resolve_left fun same => takes (same ▸ taking)) taking
      · exact fun q absent =>
          other q (absent.imp_left fun away member => away (List.mem_cons_of_mem position member))

/-- What the path does: every DPU that takes part is accessed at the buffer the
path uses for it, and no other DPU is touched. -/
theorem copyMramsUsingDpuProgram_eq (accepted : Accepted type rank matrix) (base : Nat × Nat → Nat)
    (used : ∀ position ptr, Participates rank matrix position ptr → usedBuffer matrix ptr = some (base position))
    (heap : Memory) (machine : Machine) :
    ∃ after, copyMramsUsingDpuProgram rank program matrix faults context type heap machine = .ok after ∧
      after.host = accessedHost type matrix base machine.dpus (participants rank matrix) machine.host ∧
      (∀ position ∈ participants rank matrix,
        AccessedDpu type matrix faults context (base position) machine.host position (machine.dpus position)
          (after.dpus position)) ∧
      ∀ position, position ∉ participants rank matrix → after.dpus position = machine.dpus position := by
  obtain ⟨after, buffer, run, host, accessed, other⟩ := foldlM_copyDpu program faults context
    accepted base (positions rank.nrCis rank.nrDpusPerCi) (nodup_positions _ _)
    (fun _ member => mem_positions.mp member) used machine heap
  have among : ∀ position ∈ participants rank matrix, position ∈ positions rank.nrCis rank.nrDpusPerCi :=
    fun position takes => (List.mem_filter.mp takes).1
  have all : (positions rank.nrCis rank.nrDpusPerCi).filter (· ∈ participants rank matrix) =
      participants rank matrix := by
    conv_rhs => rw [participants]
    refine List.filter_congr fun position member => ?_
    rw [participants]
    simp [member]
  refine ⟨after, ?_, by rw [host, all], fun position takes => accessed position (among position takes) takes,
    fun position away => other position (Or.inr away)⟩
  rw [copyMramsUsingDpuProgram, zipIdx_positions, List.foldlM_map]
  change
    (List.foldlM (m := Except Stop) (fun locals position => copyDpu rank program matrix faults context type locals
    (position, getTransferMatrixIndex rank position)) (machine, heap) _ >>= _) = _
  rw [run]
  rfl

variable {program faults context}

theorem copyMramsUsingDpuProgram_empty (accepted : Accepted type rank matrix) (empty : matrix.size = 0#32)
    (heap : Memory) (machine : Machine) :
    copyMramsUsingDpuProgram rank program matrix faults context type heap machine = .ok machine := by
  have loops : ∀ (entries : List ((Nat × Nat) × Nat)) (locals : Machine × Memory),
      entries.foldlM (copyDpu rank program matrix faults context type) locals = .ok locals := by
    intro entries locals
    induction entries with
    | nil => rfl
    | cons entry entries ih =>
      rw [List.foldlM_cons, copyDpu_empty accepted empty]
      exact ih
  rw [copyMramsUsingDpuProgram, loops]
  rfl

/-- The path gives a result only when it has a buffer to use for every DPU that takes part. -/
theorem usedBuffer_of_ok (accepted : Accepted type rank matrix) (nonempty : matrix.size ≠ 0#32) {heap : Memory}
    {machine after : Machine}
    (run : copyMramsUsingDpuProgram rank program matrix faults context type heap machine = .ok after)
    {position : Nat × Nat} {ptr : Nat} (takes : Participates rank matrix position ptr) :
    usedBuffer matrix ptr ≠ none := by
  intro null
  have stops : ∀ (ps : List (Nat × Nat)) (locals : Machine × Memory), position ∈ ps → ∀ result,
      ps.foldlM (fun locals position => copyDpu rank program matrix faults context type locals
        (position, getTransferMatrixIndex rank position)) locals ≠ .ok result := by
    intro ps
    induction ps with
    | nil => intro _ member; cases member
    | cons first ps ih =>
      intro locals member result
      rw [List.foldlM_cons]
      by_cases same : first = position
      · rw [same, copyDpu_null accepted nonempty takes.buffer takes.enabled null]
        exact fun impossible => by cases impossible
      · cases turn : copyDpu rank program matrix faults context type locals
          (first, getTransferMatrixIndex rank first) with
        | error stop => exact fun impossible => by cases impossible
        | ok locals' => exact ih locals' ((List.mem_cons.mp member).resolve_left (Ne.symm same)) result
  rw [copyMramsUsingDpuProgram, zipIdx_positions, List.foldlM_map] at run
  cases loops : (positions rank.nrCis rank.nrDpusPerCi).foldlM (fun locals position =>
      copyDpu rank program matrix faults context type locals (position, getTransferMatrixIndex rank position))
      (machine, heap) with
  | ok result => exact stops _ _ (mem_positions.mpr ⟨takes.slice, takes.member⟩) result loops
  | error stop =>
    have failed : (Except.error stop : Except Stop (Machine × Memory)) >>= (fun r => pure r.1) = .ok after := by
      rw [← loops]
      exact run
    cases failed

end Turns

section Agreement
variable {memories : Memories} {rank : Rank} {program : AccessProgram memories} {matrix : TransferMatrix}
  {faults : Nat × Nat → DpuFaults} {type : TransferType}

/-- Every DPU that takes part has its own buffer copied to its range of the MRAM,
and nothing else has changed. -/
structure CopiedTo (rank : Rank) (matrix : TransferMatrix) (before after : Machine) : Prop where
  host : after.host = before.host
  mram : ∀ position ptr, Participates rank matrix position ptr → (after.dpus position).mram =
    blit before.host ptr (before.dpus position).mram matrix.offset.toNat matrix.size.toNat
  other : ∀ position, (∀ ptr, ¬ Participates rank matrix position ptr) →
    (after.dpus position).mram = (before.dpus position).mram
  iram : ∀ position, (after.dpus position).iram = (before.dpus position).iram
  wram : ∀ position, (after.dpus position).wram = (before.dpus position).wram

/-- Every DPU that takes part has its range of the MRAM copied to its own buffer,
and nothing else has changed. -/
structure CopiedFrom (rank : Rank) (matrix : TransferMatrix) (before after : Machine) : Prop where
  buffers : ∀ position ptr, Participates rank matrix position ptr → ∀ k < matrix.size.toNat,
    after.host (ptr + k) = (before.dpus position).mram (matrix.offset.toNat + k)
  host : ∀ a, (∀ position ptr, Participates rank matrix position ptr →
    ¬ (ptr ≤ a ∧ a < ptr + matrix.size.toNat)) → after.host a = before.host a
  mram : ∀ position, (after.dpus position).mram = (before.dpus position).mram
  iram : ∀ position, (after.dpus position).iram = (before.dpus position).iram
  wram : ∀ position, (after.dpus position).wram = (before.dpus position).wram

/-- The effect of the direct path. -/
def CopiedDirectly (type : TransferType) (rank : Rank) (matrix : TransferMatrix) (before after : Machine) : Prop :=
  match type with
  | .toMram => CopiedTo rank matrix before after
  | .fromMram => CopiedFrom rank matrix before after

/-- The debug initialisation stores the faults pending on the DPU in its WRAM. -/
def StoresFaults (faults : Nat × Nat → DpuFaults) (position : Nat × Nat) : Prop :=
  position.2 = 0 ∧ ((faults position).dmaFault.isSome ∨ (faults position).memFault.isSome) ∧
    (faults position).errorStorage.isSome

/-- An aligned buffer is the one of entry 0 of the matrix, no DPU has a fault to
store, and buffers that receive bytes do not overlap. -/
structure OwnBuffers (type : TransferType) (rank : Rank) (matrix : TransferMatrix)
    (faults : Nat × Nat → DpuFaults) : Prop where
  first : ∀ position ptr, Participates rank matrix position ptr → ptr % 4 = 0 → matrix.ptr 0 = some ptr
  quiet : ∀ position ptr, Participates rank matrix position ptr → ¬ StoresFaults faults position
  apart : type = .fromMram → ∀ position ptr position' ptr', Participates rank matrix position ptr →
    Participates rank matrix position' ptr' → position ≠ position' →
      ptr + matrix.size.toNat ≤ ptr' ∨ ptr' + matrix.size.toNat ≤ ptr

theorem ciDebugInitDpu_quiet {position : Nat × Nat} (quiet : ¬ StoresFaults faults position)
    (context : FaultContext) (wram : Memory) :
    ciDebugInitDpu position.2 (faults position) context wram = wram := by
  rw [ciDebugInitDpu]
  cases storage : (faults position).errorStorage with
  | none => rfl
  | some address =>
    refine if_neg fun seen => quiet ?_
    have first : position.2 = 0 := by
      by_contra other
      simp [seenFault, other] at seen
    refine ⟨first, ?_, by rw [storage]; rfl⟩
    simpa [seenFault, first] using seen

theorem encodeErrorStorage_ne_zero (dmaFault : Bool) (dmaFaultThreadId : Nat) (memFault : Bool)
    (memFaultThreadId : Nat) :
    encodeErrorStorage dmaFault dmaFaultThreadId memFault memFaultThreadId ≠ 0#32 := by
  intro zero
  have guard : (ERROR_STORAGE_GUARD <<< 12).getLsbD 12 = true := by decide
  have bit : (encodeErrorStorage dmaFault dmaFaultThreadId memFault memFaultThreadId).getLsbD 12 = true := by
    rw [encodeErrorStorage, BitVec.getLsbD_or, guard, Bool.or_true]
  rw [zero] at bit
  exact absurd bit (by decide)

/-- A word written that leaves an empty memory empty is empty. -/
theorem empty_word {index : Nat} {storage : BitVec 32}
    (same : blit (bytesOf fun _ => storage) 0 (fun _ => 0) (4 * index) 4 = fun _ => 0) : storage = 0#32 := by
  have written := word_blit_inside (fun _ => storage) (fun _ => 0) 0 index (k := 0) Nat.one_pos
  rw [Nat.mul_one, Nat.mul_zero, same] at written
  rw [← written]
  change (0#8 ++ 0#8 ++ 0#8 ++ 0#8 : BitVec 32) = 0#32
  decide

/-- What is stored is never an empty word. -/
theorem ciDebugInitDpu_stores {position : Nat × Nat} (stores : StoresFaults faults position)
    (context : FaultContext) : ciDebugInitDpu position.2 (faults position) context (fun _ => 0) ≠ fun _ => 0 := by
  obtain ⟨first, seen, storage⟩ := stores
  obtain ⟨address, storage⟩ := Option.isSome_iff_exists.mp storage
  intro same
  rw [ciDebugInitDpu, storage, first] at same
  simp only [seenFault, if_true] at same
  rw [if_pos (by simpa using seen)] at same
  exact encodeErrorStorage_ne_zero _ _ _ _ (empty_word same)

/-- The path has the effect of the direct path when it uses the own buffers of the DPUs. -/
theorem OwnBuffers.copied (own : OwnBuffers type rank matrix faults) (accepted : Accepted type rank matrix)
    (context : Nat × Nat → FaultContext) (heap : Memory) (machine : Machine) :
    ∃ after, copyMramsUsingDpuProgram rank program matrix faults context type heap machine = .ok after ∧
      CopiedDirectly type rank matrix machine after := by
  have used : ∀ position ptr, Participates rank matrix position ptr →
      usedBuffer matrix ptr = some (ownBuffer rank matrix position) := by
    intro position ptr takes
    rw [takes.own, usedBuffer]
    split
    · rename_i aligned
      exact own.first position ptr takes aligned
    · rfl
  obtain ⟨after, run, host, accessed, other⟩ := copyMramsUsingDpuProgram_eq program faults context
    accepted _ used heap machine
  refine ⟨after, run, ?_⟩
  have wram : ∀ position ptr, Participates rank matrix position ptr →
      (after.dpus position).wram = (machine.dpus position).wram := by
    intro position ptr takes
    rw [(accessed position (mem_participants.mpr ⟨ptr, takes⟩)).wram, accessedWram,
      ciDebugInitDpu_quiet (own.quiet position ptr takes), ite_self]
  have kept : ∀ {β : Type} (field : DpuState → β), (∀ position ptr, Participates rank matrix position ptr →
      field (after.dpus position) = field (machine.dpus position)) →
      ∀ position, field (after.dpus position) = field (machine.dpus position) := by
    intro β field taking position
    by_cases takes : position ∈ participants rank matrix
    · obtain ⟨ptr, participates⟩ := mem_participants.mp takes
      exact taking position ptr participates
    · rw [other position takes]
  have iram := kept DpuState.iram fun position ptr takes =>
    (accessed position (mem_participants.mpr ⟨ptr, takes⟩)).iram
  cases type with
  | toMram =>
    refine ⟨host, fun position ptr takes => ?_, fun position away => ?_, iram, kept DpuState.wram wram⟩
    · rw [(accessed position (mem_participants.mpr ⟨ptr, takes⟩)).mram, takes.own]
    · rw [other position fun takes => (mem_participants.mp takes).elim fun ptr => away ptr]
  | fromMram =>
    have mram := kept DpuState.mram fun position ptr takes =>
      (accessed position (mem_participants.mpr ⟨ptr, takes⟩)).mram
    refine ⟨fun position ptr takes k below => ?_, fun a outside => ?_, mram, iram, kept DpuState.wram wram⟩
    · have member := mem_participants.mpr ⟨ptr, takes⟩
      have alone : ∀ q ∈ participants rank matrix, q ≠ position →
          ¬ (ownBuffer rank matrix q ≤ ptr + k ∧ ptr + k < ownBuffer rank matrix q + matrix.size.toNat) := by
        intro q taking differ
        obtain ⟨ptr', takes'⟩ := mem_participants.mp taking
        have apart := own.apart rfl q ptr' position ptr takes' takes differ
        rw [takes'.own]
        omega
      rw [host, accessedHost, blits_inside _ member (by rw [takes.own]; omega) alone, takes.own]
      congr 1
      omega
    · rw [host, accessedHost]
      refine blits_outside _ fun q taking => ?_
      obtain ⟨ptr, takes⟩ := mem_participants.mp taking
      rw [takes.own]
      exact outside q ptr takes

/-- The path has the effect of the direct path whatever the memories hold. -/
def PathsAgree (rank : Rank) (program : AccessProgram memories) (matrix : TransferMatrix)
    (faults : Nat × Nat → DpuFaults) (type : TransferType) : Prop :=
  ∀ (context : Nat × Nat → FaultContext) (heap : Memory) (machine : Machine), ∃ after,
    copyMramsUsingDpuProgram rank program matrix faults context type heap machine = .ok after ∧
      CopiedDirectly type rank matrix machine after

theorem pathsAgree_empty (accepted : Accepted type rank matrix) (empty : matrix.size = 0#32) :
    PathsAgree rank program matrix faults type := by
  intro context heap machine
  refine ⟨machine, copyMramsUsingDpuProgram_empty accepted empty heap machine, ?_⟩
  have zero : matrix.size.toNat = 0 := by rw [empty]; rfl
  cases type with
  | toMram => exact ⟨rfl, fun _ _ _ => by rw [zero, blit_zero], fun _ _ => rfl, fun _ => rfl, fun _ => rfl⟩
  | fromMram =>
    exact ⟨fun _ _ _ k below => by omega, fun _ _ => rfl, fun _ => rfl, fun _ => rfl, fun _ => rfl⟩

/-- A DPU whose memories hold one byte everywhere in the MRAM and are empty otherwise. -/
def filledDpu (byte : BitVec 8) : DpuState where
  iram := fun _ => 0
  wram := fun _ => 0
  mram := fun _ => byte
  r0 := 0
  registers := fun _ => 0
  suspended := false

section Converse
variable (accepted : Accepted type rank matrix) (nonempty : matrix.size ≠ 0#32)
  (agree : PathsAgree rank program matrix faults type)
include accepted nonempty agree

/-- Where the paths agree, the path has a buffer to use for every DPU, and both
descriptions of its effect hold. -/
theorem PathsAgree.accessed (machine : Machine) : ∃ (after : Machine) (base : Nat × Nat → Nat)
      (context : Nat × Nat → FaultContext),
    CopiedDirectly type rank matrix machine after ∧
      (∀ position ptr, Participates rank matrix position ptr →
        usedBuffer matrix ptr = some (base position)) ∧
      after.host = accessedHost type matrix base machine.dpus (participants rank matrix) machine.host ∧
      ∀ position ∈ participants rank matrix,
        AccessedDpu type matrix faults context (base position) machine.host position (machine.dpus position)
          (after.dpus position) := by
  set context : Nat × Nat → FaultContext := fun _ => ⟨false, 0, false, 0⟩
  obtain ⟨after, run, copied⟩ := agree context (fun _ => 0) machine
  have used : ∀ position ptr, Participates rank matrix position ptr →
      usedBuffer matrix ptr = some ((usedBuffer matrix (ownBuffer rank matrix position)).getD 0) := by
    intro position ptr takes
    rw [takes.own]
    obtain ⟨base, some⟩ := Option.ne_none_iff_exists'.mp (usedBuffer_of_ok accepted nonempty run takes)
    rw [some, Option.getD_some]
  obtain ⟨after', run', host, accessed, _⟩ := copyMramsUsingDpuProgram_eq program faults context
    accepted _ used (fun _ => 0) machine
  obtain rfl : after' = after := Except.ok.inj (run'.symm.trans run)
  exact ⟨after', _, context, copied, used, host, accessed⟩

theorem PathsAgree.quiet {position : Nat × Nat} {ptr : Nat} (takes : Participates rank matrix position ptr) :
    ¬ StoresFaults faults position := by
  intro stores
  obtain ⟨after, base, context, copied, -, -, accessed⟩ :=
    agree.accessed accepted nonempty ⟨fun _ => 0, fun _ => filledDpu 0⟩
  have wram := (accessed position (mem_participants.mpr ⟨ptr, takes⟩)).wram
  rw [accessedWram, if_neg nonempty] at wram
  have kept : (after.dpus position).wram = fun _ => 0 := by
    cases type with
    | toMram => exact CopiedTo.wram copied position
    | fromMram => exact CopiedFrom.wram copied position
  exact ciDebugInitDpu_stores stores (context position) (wram.symm.trans kept)

theorem PathsAgree.apart (way : type = .fromMram) {position position' : Nat × Nat} {ptr ptr' : Nat}
    (takes : Participates rank matrix position ptr) (takes' : Participates rank matrix position' ptr')
    (differ : position ≠ position') :
    ptr + matrix.size.toNat ≤ ptr' ∨ ptr' + matrix.size.toNat ≤ ptr := by
  subst way
  by_contra overlap
  -- the two MRAMs hold different bytes, and one byte of the host receives both
  obtain ⟨after, _, _, copied, -⟩ := agree.accessed accepted nonempty
    ⟨fun _ => 0, fun q => filledDpu (if q = position then 1 else 0)⟩
  have first := CopiedFrom.buffers copied position ptr takes (max ptr ptr' - ptr) (by omega)
  have second := CopiedFrom.buffers copied position' ptr' takes' (max ptr ptr' - ptr') (by omega)
  rw [show ptr + (max ptr ptr' - ptr) = max ptr ptr' by omega] at first
  rw [show ptr' + (max ptr ptr' - ptr') = max ptr ptr' by omega, first] at second
  simp [filledDpu, differ.symm] at second

theorem PathsAgree.first {position : Nat × Nat} {ptr : Nat} (takes : Participates rank matrix position ptr)
    (aligned : ptr % 4 = 0) : matrix.ptr 0 = some ptr := by
  have positive : 0 < matrix.size.toNat := by
    have : matrix.size.toNat ≠ 0 := fun zero => nonempty (BitVec.eq_of_toNat_eq zero)
    omega
  have member := mem_participants.mpr ⟨ptr, takes⟩
  by_contra other
  cases type with
  | toMram =>
    -- the first byte of the own buffer is the only one that is not zero
    obtain ⟨after, base, _, copied, used, -, accessed⟩ := agree.accessed accepted nonempty
      ⟨fun a => if a = ptr then 1 else 0, fun _ => filledDpu 0⟩
    have based := used position ptr takes
    rw [usedBuffer, if_pos aligned] at based
    have differ : base position ≠ ptr := fun same => other (same ▸ based)
    have expected := CopiedTo.mram copied position ptr takes
    have actual : (after.dpus position).mram = blit (fun a => if a = ptr then 1 else 0) (base position)
        (fun _ => 0) matrix.offset.toNat matrix.size.toNat := (accessed position member).mram
    have byte := congrFun (actual.symm.trans expected) (matrix.offset.toNat + 0)
    rw [blit_inside _ _ _ _ positive, blit_inside _ _ _ _ positive] at byte
    simp [differ] at byte
  | fromMram =>
    -- only the MRAM of this DPU holds bytes that are not zero
    obtain ⟨after, base, _, copied, used, host, -⟩ := agree.accessed accepted nonempty
      ⟨fun _ => 0, fun q => filledDpu (if q = position then 1 else 0)⟩
    have based := used position ptr takes
    rw [usedBuffer, if_pos aligned] at based
    have differ : base position ≠ ptr := fun same => other (same ▸ based)
    -- a byte of the own buffer outside of the buffer used
    obtain ⟨k, below, outside⟩ : ∃ k < matrix.size.toNat,
        ¬ (base position ≤ ptr + k ∧ ptr + k < base position + matrix.size.toNat) := by
      by_cases before : ptr < base position
      · exact ⟨0, positive, by omega⟩
      · exact ⟨matrix.size.toNat - 1, by omega, by omega⟩
    have expected := CopiedFrom.buffers copied position ptr takes k below
    rw [host, accessedHost] at expected
    rcases blits_cases (fun q => (filledDpu (if q = position then 1 else 0)).mram) matrix.offset.toNat base
      matrix.size.toNat (participants rank matrix) (fun _ => 0) (ptr + k) with kept | ⟨q, _, inside, written⟩
    · rw [kept] at expected
      simp [filledDpu] at expected
    · have away : q ≠ position := fun same => outside (same ▸ inside)
      rw [written] at expected
      simp [filledDpu, away] at expected

end Converse

/-- The path has the effect of the direct path exactly when it has nothing to
copy or uses the own buffers of the DPUs. -/
theorem pathsAgree_iff (accepted : Accepted type rank matrix) :
    PathsAgree rank program matrix faults type ↔
      matrix.size = 0#32 ∨ OwnBuffers type rank matrix faults := by
  constructor
  · intro agree
    by_cases empty : matrix.size = 0#32
    · exact Or.inl empty
    · exact Or.inr
        { first := fun _ _ takes aligned => agree.first accepted empty takes aligned
          quiet := fun _ _ takes => agree.quiet accepted empty takes
          apart := fun way _ _ _ _ takes takes' differ => agree.apart accepted empty way takes takes' differ }
  · rintro (empty | own)
    · exact pathsAgree_empty accepted empty
    · exact fun context heap machine => own.copied accepted context heap machine

/-- The memories every chip has. -/
def chipMemories : Memories where
  iramSize := 4096
  wramSize := 16384
  wramSize_even := rfl
  context_lt := by decide

/-- A program of the length of the access program. -/
def longProgram : AccessProgram chipMemories where
  code := List.replicate 40 0
  patched_lt := by decide
  fits := by decide

/-- A rank of enabled DPUs, one on each of `nrCis` control interfaces, whose MRAMs only they access. -/
def dpuOnlyRank (nrCis : Nat) (bound : nrCis ≤ DPU_MAX_NR_CIS) : Rank where
  description :=
    { topology := ⟨nrCis, 1, bound, by decide⟩
      nrOfThreads := 24
      mramSize := 0x4000000#32
      mramAccessByDpuOnly := true
      apiMustSwitchMramMux := false
      initMramMux := false
      doIramRepair := false
      doWramRepair := false }
  dpus := fun _ _ => ⟨true, ⟨fun _ => ⟨0, 0⟩, 0⟩, fun _ => ⟨fun _ => ⟨0, 0⟩, 0⟩⟩
  nrDpusEnabled := nrCis
  sliceInfo := fun _ => ⟨0, 1, true⟩
  runContext := ⟨fun _ => 0, fun _ => 0, .ok, 0⟩

/-- A buffer of 8 bytes for each DPU, on a boundary of 16 bytes. -/
def alignedMatrix : TransferMatrix where
  ptr := fun idx => some (16 * (idx + 1))
  offset := 0#32
  size := 8#32

def noFaults : Nat × Nat → DpuFaults :=
  fun _ => ⟨none, none, none⟩

theorem pathsAgree_iff_single :
    PathsAgree (dpuOnlyRank 1 (by decide)) longProgram alignedMatrix noFaults .toMram := by
  refine (pathsAgree_iff ⟨rfl, by decide⟩).mpr (Or.inr ⟨?_, ?_, fun way => by cases way⟩)
  · rintro ⟨sliceId, dpuId⟩ ptr ⟨slice, member, -, buffer⟩ -
    obtain rfl : sliceId = 0 := Nat.lt_one_iff.mp slice
    obtain rfl : dpuId = 0 := Nat.lt_one_iff.mp member
    exact buffer
  · rintro position ptr - ⟨-, seen, -⟩
    simp [noFaults] at seen

/-- Two DPUs with a buffer each: the second is accessed at the buffer of the first. -/
theorem alignedBuffers_differ :
    Accepted .toMram (dpuOnlyRank 2 (by decide)) alignedMatrix ∧
      ¬ PathsAgree (dpuOnlyRank 2 (by decide)) longProgram alignedMatrix noFaults .toMram := by
  have accepted : Accepted .toMram (dpuOnlyRank 2 (by decide)) alignedMatrix := ⟨rfl, by decide⟩
  refine ⟨accepted, fun agree => ?_⟩
  have takes : Participates (dpuOnlyRank 2 (by decide)) alignedMatrix (1, 0) 32 := ⟨by decide, by decide, rfl, rfl⟩
  have first := agree.first accepted (by decide) takes (by decide)
  cases first

end Agreement

end Upmem.MramAccess
