import Upmem.Mux
import Upmem.EnabledSet

namespace Upmem.MramCopy
open StatusChain Mux

/-- `struct dpu_transfer_matrix`, with the words behind each pointer that is not `NULL`. -/
structure TransferMatrix where
  ptr : Nat → Option (Nat → BitVec 64)
  offset : Nat
  size : Nat

def MAX_NR_DPUS_PER_RANK : Nat := 64

def getTransferMatrixIndex (rank : Rank) (ci dpu : Nat) : Nat := dpu * rank.nrCis + ci

/-- The buffer of a DPU. -/
def TransferMatrix.buffer (matrix : TransferMatrix) (rank : Rank) (ci dpu : Nat) : Option (Nat → BitVec 64) :=
  matrix.ptr (getTransferMatrixIndex rank ci dpu)

def TransferMatrix.hasTransfer (matrix : TransferMatrix) (rank : Rank) (ci dpu : Nat) : Bool :=
  (matrix.buffer rank ci dpu).isSome

/-- `dpu_transfer_matrix_clear_all`. -/
def dpuTransferMatrixClearAll : TransferMatrix := ⟨fun _ => none, 0, 0⟩

/-- `dpu_transfer_matrix_add_dpu`. -/
def dpuTransferMatrixAddDpu (rank : Rank) (ci dpu : Nat) (buffer : Option (Nat → BitVec 64))
    (matrix : TransferMatrix) :
    TransferMatrix :=
  { matrix with
    ptr := fun index => if index = getTransferMatrixIndex rank ci dpu then buffer else matrix.ptr index }

/-- The first lines of the pairs. -/
def firstLines (rank : Rank) : List Nat := (List.range ((rank.nrDpusPerCi + 1) / 2)).map (2 * ·)

/-- Both DPUs of a pair are enabled. -/
def pairEnabled (rank : Rank) (ci dpu : Nat) : Bool :=
  (rank.dpus ci dpu).enabled && (rank.dpus ci (dpu + 1)).enabled

section Duplicate
variable (rank : Rank) (matrix : TransferMatrix)

/-- What the pass over a pair of lines finds out up to the first mux conflict:
that the first line has a transfer, that the second one has, and that there is
a conflict. -/
def scanPair (dpu : Nat) : List Nat → Bool → Bool → Bool × Bool × Bool
  | [], first, second => (first, second, false)
  | ci :: rest, first, second =>
    if pairEnabled rank ci dpu then
      let firstDpuHasTransfer := matrix.hasTransfer rank ci dpu
      let secondDpuHasTransfer := matrix.hasTransfer rank ci (dpu + 1)
      if firstDpuHasTransfer != secondDpuHasTransfer then
        (first || firstDpuHasTransfer, second || secondDpuHasTransfer, true)
      else scanPair dpu rest (first || firstDpuHasTransfer) (second || secondDpuHasTransfer)
    else scanPair dpu rest first second

def isDuplicationNeeded : Bool :=
  decide (1 < rank.nrDpusPerCi) && rank.description.apiMustSwitchMramMux &&
    (firstLines rank).any fun dpu =>
      let scanned := scanPair rank matrix dpu (List.range rank.nrCis) false false
      scanned.1 && scanned.2.1 && scanned.2.2

/-- The DPUs of the first lines of the pairs, in the order of the loops. -/
def firstDpus : List (Nat × Nat) :=
  (firstLines rank).flatMap fun dpu => (List.range rank.nrCis).map fun ci => (ci, dpu)

/-- `duplicate_transfer_matrix`, with the matrices for the even and for the odd DPUs. -/
def duplicateTransferMatrix (even odd : TransferMatrix) : Bool × TransferMatrix × TransferMatrix :=
  if isDuplicationNeeded rank matrix then
    (true,
      (firstDpus rank).foldl
      (fun even (ci, dpu) => dpuTransferMatrixAddDpu rank ci dpu (matrix.buffer rank ci dpu) even) even,
      (firstDpus rank).foldl
        (fun odd (ci, dpu) => dpuTransferMatrixAddDpu rank ci (dpu + 1) (matrix.buffer rank ci (dpu + 1)) odd) odd)
  else (false, even, odd)

def isTransferMatrixFull : Bool :=
  (List.range rank.nrCis).all fun ci => (List.range rank.nrDpusPerCi).all fun dpu =>
    !(rank.sliceInfo ci).enabledDpus.getLsbD dpu || matrix.hasTransfer rank ci dpu || !(rank.dpus ci dpu).enabled

/-- The enabled DPUs of a line that have a transfer. -/
def getMuxMask (dpu : Nat) : BitVec 8 :=
  (List.range rank.nrCis).foldl
    (fun mask ci =>
      if (rank.dpus ci dpu).enabled && matrix.hasTransfer rank ci dpu then mask ||| 1#8 <<< ci else mask) 0#8

end Duplicate

/-- How the accesses to the muxes are answered: those to the whole rank and
those of a pass over the pairs, for each call and line. -/
structure TransferAnswers where
  rank : AccessAnswers
  line : Nat → Nat → AccessAnswers

section Transfer
variable (unchecked : Bool) (answers : TransferAnswers) (matrix : TransferMatrix)

/-- The loop over the pairs of `host_get_access_for_transfer_matrix`. There is no
result when the assertion fails. -/
def getAccessForPairs : List Nat → MuxState → Option (DpuError × MuxState)
  | [], s => some (.ok, s)
  | dpu :: rest, s =>
    let mask1 := getMuxMask s.rank matrix dpu
    let mask2 := getMuxMask s.rank matrix (dpu + 1)
    if mask1 = 0#8 ∧ mask2 = 0#8 then getAccessForPairs rest s
    else if ¬ (mask1 = 0#8 ∨ mask2 = 0#8 ∨ mask1 = mask2) then none
    else
      let switched := andThen .ok (dpuSwitchMuxForDpuLine unchecked dpu (mask1 ||| mask2) (answers.line dpu))
        (dpuSwitchMuxForDpuLine unchecked (dpu + 1) (mask1 ||| mask2) (answers.line (dpu + 1))) s
      if switched.1 = .ok then getAccessForPairs rest switched.2 else some switched

/-- `host_get_access_for_transfer_matrix`. -/
def hostGetAccessForTransferMatrix (s : MuxState) : Option (DpuError × MuxState) :=
  getAccessForPairs unchecked answers matrix (firstLines s.rank) s

/-- `host_get_access_for_transfer`. -/
def hostGetAccessForTransfer (s : MuxState) : Option (DpuError × MuxState) :=
  if isTransferMatrixFull s.rank matrix then some (Mux.dpuSwitchMuxForRank unchecked true answers.rank s)
  else hostGetAccessForTransferMatrix unchecked answers matrix s

end Transfer

/-- A rank, its muxes and the words of its MRAMs. -/
structure MramState where
  muxes : MuxState
  mram : Nat → Nat → Nat → BitVec 64

section Write
variable (stale : Nat → Nat → Nat → BitVec 64) (matrix : TransferMatrix)

/-- The word that a write of a line has for a control interface, which is
one left over from before if the DPU has no buffer. -/
def cacheLine (rank : Rank) (ci dpu i : Nat) : BitVec 64 :=
  match matrix.buffer rank ci dpu with
  | some buffer => buffer i
  | none => stale ci dpu i

/-- The write of a word of all DPUs of a line, which reaches those whose mux is at the side of the host. -/
def writeWord (dpu i : Nat) (s : MramState) : MramState :=
  { s with
    mram := fun ci eachDpu word =>
      if eachDpu = dpu ∧ ci < s.muxes.rank.nrCis ∧ s.muxes.mux ci dpu = true ∧ word = (i * 8 + matrix.offset) / 8
      then cacheLine stale matrix s.muxes.rank ci dpu i else s.mram ci eachDpu word }

/-- `threads_write_to_rank`, for all lines. -/
def writeToRank (s : MramState) : MramState :=
  if matrix.size = 0 then s
  else
    (List.range s.muxes.rank.nrDpusPerCi).foldl
      (fun s dpu =>
        if (List.range s.muxes.rank.nrCis).any fun ci => matrix.hasTransfer s.muxes.rank ci dpu then
          (List.range (matrix.size / 8)).foldl (fun s i => writeWord stale matrix dpu i s) s
        else s) s

/-- `do_mram_transfer` to the MRAMs. -/
def doMramTransfer (s : MramState) : MramState :=
  if (List.range MAX_NR_DPUS_PER_RANK).all fun index =>
    (matrix.ptr index).isNone then s else writeToRank stale matrix s

/-- A transfer after the access that it needs. -/
def transferAfter (access : MuxState → Option (DpuError × MuxState)) (s : MramState) :
    Option (DpuError × MramState) :=
  (access s.muxes).map fun (status, muxes) =>
    if status = .ok then (.ok, doMramTransfer stale matrix { s with muxes := muxes })
      else (status, { s with muxes := muxes })

end Write

section Copy
variable (unchecked : Bool) (stale : Nat → Nat → Nat → BitVec 64)

/-- How the accesses of a copy are answered. -/
structure CopyAnswers where
  whole : TransferAnswers
  even : TransferAnswers
  odd : TransferAnswers

/-- `copy_mram_for_dpus` with `DPU_TRANSFER_TO_MRAM`. -/
def copyMramForDpus (answers : CopyAnswers) (matrix : TransferMatrix) (s : MramState) :
    Option (DpuError × MramState) :=
  let duplicated := duplicateTransferMatrix s.muxes.rank matrix dpuTransferMatrixClearAll dpuTransferMatrixClearAll
  if !duplicated.1 then
    transferAfter stale matrix (hostGetAccessForTransfer unchecked answers.whole matrix) s
  else
    let even := { duplicated.2.1 with size := matrix.size, offset := matrix.offset }
    let odd := { duplicated.2.2 with size := matrix.size, offset := matrix.offset }
    (transferAfter stale even (hostGetAccessForTransferMatrix unchecked answers.even even) s).bind
      fun (status, s) =>
      if status = .ok then transferAfter stale odd (hostGetAccessForTransferMatrix unchecked answers.odd odd) s
      else some (status, s)

end Copy

end Upmem.MramCopy
