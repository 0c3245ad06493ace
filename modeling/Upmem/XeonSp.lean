import Upmem.ByteInterleave
import Upmem.Lib.Blit
import Upmem.SgStream

namespace Upmem.XeonSp
open Blit ByteInterleave Sg

def NB_REAL_CIS : Nat := 8

def BANK_START (dpuId : Nat) : Nat := 0x40000 * (dpuId % 4) + if dpuId ≥ 4 then 0x40 else 0
def BANK_OFFSET_NEXT_DATA (i : Nat) : Nat := i * 16
def BANK_CHUNK_SIZE : Nat := 0x20000
def BANK_NEXT_CHUNK_OFFSET : Nat := 0x100000

/-- The bits 21 to 15 of an offset go down by one, and its bit 14 becomes the bit 21. -/
def applyAddressTranslationOnMramOffset (byteOffset : BitVec 32) : BitVec 32 :=
  let mask21To15 : BitVec 32 := (1#32 <<< (21 - 15 + 1) - 1#32) <<< 15
  let mask21To14 : BitVec 32 := (1#32 <<< (21 - 14 + 1) - 1#32) <<< 14
  let bits21To15 := (byteOffset &&& mask21To15) >>> 15
  let bit14 := byteOffset >>> 14 &&& 1#32
  let unchangedBits := byteOffset &&& ~~~mask21To14
  unchangedBits ||| bits21To15 <<< 14 ||| bit14 <<< 21

/-- The place of an MRAM offset in the banks of a line. -/
def bankOffset (byteOffset : BitVec 32) : Nat :=
  let mram64BitWordOffset := (applyAddressTranslationOnMramOffset byteOffset).toNat / 8
  let nextData := BANK_OFFSET_NEXT_DATA (mram64BitWordOffset * 8)
  nextData % BANK_CHUNK_SIZE + nextData / BANK_CHUNK_SIZE * BANK_NEXT_CHUNK_OFFSET

/-- The buffers of a matrix, by the index of the DPU: an address, or the blocks of a scatter/gather transfer. -/
inductive XferBuffers
  | default (ptr : Nat → Option Nat)
  | sg (sgPtr : Nat → Option (List SgBlockInfo))

structure XferMatrix where
  buffers : XferBuffers
  offset : BitVec 32
  size : BitVec 32

def XferMatrix.has (matrix : XferMatrix) (index : Nat) : Bool :=
  match matrix.buffers with
  | .default ptr => (ptr index).isSome
  | .sg sgPtr => (sgPtr index).isSome

/-- The words of a transfer to each DPU. -/
def XferMatrix.words (matrix : XferMatrix) : Nat := matrix.size.toNat / 8

/-- The address of the block of a word of a transfer. -/
def XferMatrix.block (matrix : XferMatrix) (dpuId i : Nat) : Nat :=
  BANK_START dpuId + bankOffset (BitVec.ofNat 32 (i * 8) + matrix.offset)

/-- The DPUs of a line, by their index in a matrix. -/
def InLine (nbCis dpuId index : Nat) : Prop := index / NB_REAL_CIS = dpuId ∧ index % NB_REAL_CIS < nbCis

instance {nbCis dpuId index : Nat} : Decidable (InLine nbCis dpuId index) := inferInstanceAs (Decidable (_ ∧ _))

/-- `do_dpu_transfer`. -/
def doDpuTransfer (nbCis : Nat) (matrix : XferMatrix) (dpuId : Nat) : Bool :=
  (List.range nbCis).any fun ciId => matrix.has (NB_REAL_CIS * dpuId + ciId)

section Iterators
variable (zeros : Nat)

/-- The scatter/gather iterators of a transfer, by the index of the DPU. -/
def initIterators (matrix : XferMatrix) (index : Nat) : SgXferBufferIterator :=
  match matrix.buffers with
  | .default _ => initSgXferBufferIterator zeros []
  | .sg sgPtr => initSgXferBufferIterator zeros ((sgPtr index).getD [])

end Iterators

section Write
variable (zeros nbCis : Nat) (host : HostMemory) (matrix : XferMatrix)

/-- The state of `threads_write_to_rank`: the region that is mapped and the blocks that
have been written, in order. -/
structure WriteState where
  cacheLine : Bytes
  sgIt : Nat → SgXferBufferIterator
  region : Bytes
  blocks : List Nat

/-- The word of a DPU in `cache_line`, and its iterator after it. -/
def fetchWord (i index : Nat) (it : SgXferBufferIterator) : Option (List (BitVec 8) × SgXferBufferIterator) :=
  match matrix.buffers with
  | .default ptr => (ptr index).map fun address => ((List.range 8).map fun j => host (address + 8 * i + j), it)
  | .sg sgPtr => (sgPtr index).map fun _ => getNextEightBytes host it

def writeTurn (dpuId : Nat) (s : WriteState) (i : Nat) : WriteState :=
  let fetched ciId := if ciId < nbCis then fetchWord host matrix i (NB_REAL_CIS * dpuId + ciId)
    (s.sgIt ciId) else none
  let cacheLine : Bytes := fun p =>
    match fetched (p / 8) with
    | some (word, _) => word.getD (p % 8) 0#8
    | none => s.cacheLine p
  let address := matrix.block dpuId i
  { cacheLine := cacheLine
    sgIt := fun ciId => ((fetched ciId).map (·.2)).getD (s.sgIt ciId)
    region := blit (byteInterleaveAvx512 cacheLine) 0 s.region address 64
    blocks := s.blocks ++ [address] }

def writeLine (s : WriteState) (dpuId : Nat) : WriteState :=
  if doDpuTransfer nbCis matrix dpuId then
    (List.range matrix.words).foldl (writeTurn nbCis host matrix dpuId)
      { s with sgIt := fun ciId => initIterators zeros matrix (NB_REAL_CIS * dpuId + ciId) }
  else s

/-- `threads_write_to_rank`, from what `cache_line` contains before. -/
def threadsWriteToRank (dpuIdStart dpuIdStop : Nat) (s : WriteState) : WriteState :=
  if matrix.size = 0#32 then s
  else (List.range' dpuIdStart (dpuIdStop - dpuIdStart)).foldl (writeLine zeros nbCis host matrix) s

end Write

section Read
variable (zeros nbCis : Nat) (region : Bytes) (matrix : XferMatrix)

/-- The state of `threads_read_from_rank`: for each DPU the stores to its buffer, in
order, and the blocks that have been read. -/
structure ReadState where
  sgIt : Nat → SgXferBufferIterator
  stored : Nat → List (Nat × BitVec 8)
  blocks : List Nat

/-- The stores of a word of a DPU, and its iterator after it. -/
def storeWord (i index : Nat) (it : SgXferBufferIterator) (word : List (BitVec 8)) :
    Option (List (Nat × BitVec 8) × SgXferBufferIterator) :=
  match matrix.buffers with
  | .default ptr => (ptr index).map fun address => (((List.range 8).map fun j => address + 8 * i + j).zip word, it)
  | .sg sgPtr => (sgPtr index).map fun _ => writeNextEightBytes it word

def readTurn (dpuId : Nat) (s : ReadState) (i : Nat) : ReadState :=
  let address := matrix.block dpuId i
  let cacheLineInterleave := byteInterleaveAvx2 fun p => region (address + p)
  let done ciId := storeWord matrix i (NB_REAL_CIS * dpuId + ciId) (s.sgIt ciId)
    ((List.range 8).map fun j => cacheLineInterleave (8 * ciId + j))
  { sgIt := fun ciId => if ciId < nbCis then ((done ciId).map (·.2)).getD (s.sgIt ciId) else s.sgIt ciId
    stored := fun index =>
      if InLine nbCis dpuId index then s.stored index ++ ((done (index % NB_REAL_CIS)).map (·.1)).getD []
        else s.stored index
    blocks := s.blocks ++ [address] }

def readLine (s : ReadState) (dpuId : Nat) : ReadState :=
  if doDpuTransfer nbCis matrix dpuId then
    (List.range matrix.words).foldl (readTurn nbCis region matrix dpuId)
      { s with sgIt := fun ciId => initIterators zeros matrix (NB_REAL_CIS * dpuId + ciId) }
  else s

/-- `threads_read_from_rank`. Flushing and fencing change no memory. -/
def threadsReadFromRank (dpuIdStart dpuIdStop : Nat) (s : ReadState) : ReadState :=
  if matrix.size = 0#32 then s
  else (List.range' dpuIdStart (dpuIdStop - dpuIdStart)).foldl (readLine zeros nbCis region matrix) s

end Read

section Translation
variable (byteOffset : BitVec 32)

/-- The bit of an offset that becomes a bit of its translation. -/
def translatedFrom (i : Nat) : Nat := if 14 ≤ i ∧ i < 21 then i + 1 else if i = 21 then 14 else i

theorem translation_getLsbD {i : Nat} (inside : i < 32) :
    (applyAddressTranslationOnMramOffset byteOffset).getLsbD i = byteOffset.getLsbD (translatedFrom i) := by
  unfold applyAddressTranslationOnMramOffset
  interval_cases i <;> simp [translatedFrom]

theorem translation_injective {byteOffset byteOffset' : BitVec 32}
    (same : applyAddressTranslationOnMramOffset byteOffset = applyAddressTranslationOnMramOffset byteOffset') :
    byteOffset = byteOffset' := by
  refine BitVec.eq_of_getLsbD_eq fun i inside => ?_
  have bit (from_ : Nat) (small : from_ < 32) (is : translatedFrom from_ = i) :
      byteOffset.getLsbD i = byteOffset'.getLsbD i := by
    rw [← is, ← translation_getLsbD byteOffset small, ← translation_getLsbD byteOffset' small, same]
  by_cases first : i = 14
  · exact bit 21 (by omega) (by rw [first]; rfl)
  · by_cases moved : 15 ≤ i ∧ i < 22
    · exact bit (i - 1) (by omega) (by rw [translatedFrom, if_pos (by omega)]; omega)
    · exact bit i inside (by rw [translatedFrom, if_neg (by omega), if_neg (by omega)])

theorem translation_mod : (applyAddressTranslationOnMramOffset byteOffset).toNat % 8 = byteOffset.toNat % 8 := by
  have low : (applyAddressTranslationOnMramOffset byteOffset).setWidth 3 = byteOffset.setWidth 3 := by
    refine BitVec.eq_of_getLsbD_eq fun i inside => ?_
    rw [BitVec.getLsbD_setWidth, BitVec.getLsbD_setWidth, translation_getLsbD byteOffset (by omega), translatedFrom,
      if_neg (by omega), if_neg (by omega)]
  have numbers := congrArg BitVec.toNat low
  rwa [BitVec.toNat_setWidth, BitVec.toNat_setWidth] at numbers

end Translation

end Upmem.XeonSp
