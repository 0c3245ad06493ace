import Upmem.Lib.Codec
import Upmem.Rank

namespace Upmem.Checkpoint
open Codec

def SERIALIZED_CONTEXT_MAGIC : BitVec 32 := 0xfabddbaf#32
def SERIALIZED_CONTEXT_CHIP_VERSION : BitVec 32 := 18#32
def SERIALIZED_CONTEXT_VERSION : BitVec 32 := 3#32

def uint8 : Fixed (BitVec 8) := word 1
def uint16 : Fixed (BitVec 16) := word 2
def uint32 : Fixed (BitVec 32) := word 4
def uint64 : Fixed (BitVec 64) := word 8

structure ContextInfo where
  nrThreads : BitVec 32
  nrRegisters : BitVec 32
  nrAtomicBits : BitVec 32
  iramSize : BitVec 16
  mramSize : BitVec 32
  wramSize : BitVec 32
  deriving DecidableEq

/-- `struct dpu_context_t`. A memory that is not captured is none. -/
structure DpuContext where
  info : ContextInfo
  iram : Option (List (BitVec 64))
  mram : Option (List (BitVec 8))
  wram : Option (List (BitVec 32))
  registers : List (BitVec 32)
  pcs : List (BitVec 16)
  atomicRegister : List Bool
  zeroFlags : List Bool
  carryFlags : List Bool
  nrOfRunningThreads : BitVec 8
  scheduling : List (BitVec 8)
  bkpFault : Bool
  dmaFault : Bool
  memFault : Bool
  bkpFaultThreadIndex : BitVec 8
  dmaFaultThreadIndex : BitVec 8
  memFaultThreadIndex : BitVec 8
  bkpFaultId : BitVec 32
  deriving DecidableEq

/-- A size in an `uint32_t`. -/
def size32 (n : Nat) : Nat := n % 2 ^ 32

namespace DpuContext
variable (context : DpuContext)

def nrInstructions : Nat := if context.iram = none then 0 else context.info.iramSize.toNat
def nrWramWords : Nat := if context.wram = none then 0 else context.info.wramSize.toNat
def iramBytes : Nat := size32 (8 * context.nrInstructions)
def mramBytes : Nat := if context.mram = none then 0 else context.info.mramSize.toNat
def wramBytes : Nat := size32 (4 * context.nrWramWords)
def registersSize : Nat := size32 (4 * context.info.nrThreads.toNat * context.info.nrRegisters.toNat)
def pcsSize : Nat := size32 (2 * context.info.nrThreads.toNat)
def atomicRegisterSize : Nat := size32 (1 * context.info.nrAtomicBits.toNat)
def flagsSize : Nat := size32 (1 * context.info.nrThreads.toNat)

end DpuContext

/-- `dpu_checkpoint_get_serialized_context_size`. -/
def getSerializedContextSize (context : DpuContext) : Nat :=
  size32 (4 + 4 + 4 + 4 + 4 + 4 + 4 + 4 + 4 + 4 + context.iramBytes + context.mramBytes + context.wramBytes +
    context.registersSize + context.pcsSize + context.atomicRegisterSize + context.flagsSize +
    context.flagsSize + 1 +
    context.flagsSize + 1 + 1 + 1 + 1 + 1 + 1 + 4)

/-- The bytes that `SERIALIZED_ELEM` copies. -/
def serializedElem (elem : List Byte) (elemSize : Nat) : List Byte :=
  elem.take elemSize

/-- The bytes that `dpu_checkpoint_serialize` writes one after the other. -/
def serializedBytes (context : DpuContext) : List Byte :=
  serializedElem (uint32.encode SERIALIZED_CONTEXT_MAGIC) 4 ++
  serializedElem (uint32.encode SERIALIZED_CONTEXT_CHIP_VERSION) 4 ++
  serializedElem (uint32.encode SERIALIZED_CONTEXT_VERSION) 4 ++
  serializedElem (uint32.encode SERIALIZED_CONTEXT_MAGIC) 4 ++
  serializedElem (uint32.encode context.info.nrThreads) 4 ++
  serializedElem (uint32.encode context.info.nrRegisters) 4 ++
  serializedElem (uint32.encode context.info.nrAtomicBits) 4 ++
  serializedElem (uint32.encode (BitVec.ofNat 32 context.nrInstructions)) 4 ++
  serializedElem (uint32.encode (BitVec.ofNat 32 context.mramBytes)) 4 ++
  serializedElem (uint32.encode (BitVec.ofNat 32 context.nrWramWords)) 4 ++
  serializedElem (encodeAll uint64 (context.iram.getD [])) context.iramBytes ++
  serializedElem (encodeAll uint8 (context.mram.getD [])) context.mramBytes ++
  serializedElem (encodeAll uint32 (context.wram.getD [])) context.wramBytes ++
  serializedElem (encodeAll uint32 context.registers) context.registersSize ++
  serializedElem (encodeAll uint16 context.pcs) context.pcsSize ++
  serializedElem (encodeAll bool context.atomicRegister) context.atomicRegisterSize ++
  serializedElem (encodeAll bool context.zeroFlags) context.flagsSize ++
  serializedElem (encodeAll bool context.carryFlags) context.flagsSize ++
  serializedElem (uint8.encode context.nrOfRunningThreads) 1 ++
  serializedElem (encodeAll uint8 context.scheduling) context.flagsSize ++
  serializedElem (bool.encode context.bkpFault) 1 ++
  serializedElem (bool.encode context.dmaFault) 1 ++
  serializedElem (bool.encode context.memFault) 1 ++
  serializedElem (uint8.encode context.bkpFaultThreadIndex) 1 ++
  serializedElem (uint8.encode context.dmaFaultThreadIndex) 1 ++
  serializedElem (uint8.encode context.memFaultThreadIndex) 1 ++
  serializedElem (uint32.encode context.bkpFaultId) 4

/-- `dpu_checkpoint_serialize` into the buffer that is given, or into a new
one, for which memory is found. -/
def serialize (context : DpuContext) (buffer : Option (List Byte)) : Except DpuError (List Byte) :=
  match buffer with
  | none => .ok (serializedBytes context)
  | some buffer =>
    if buffer.length ≠ getSerializedContextSize context then .error .invalidBufferSize
    else .ok (serializedBytes context ++ buffer.drop (serializedBytes context).length)

/-- The part of a buffer that is not read yet. -/
abbrev Cursor := StateT (List Byte) (Except DpuError)

/-- The bytes that `DESERIALIZED_ELEM` copies. -/
def deserializedElem (elemSize : Nat) : Cursor (List Byte) :=
  fun input => takeBytes .elfInvalidFile elemSize input

def deserializedValue {α : Type} (c : Fixed α) : Cursor α := do
  let bytes ← deserializedElem c.size
  pure (c.decode bytes)

/-- An array of `count` elements, of which the first `size` bytes are copied; the others are zero. -/
def deserializedArray {α : Type} (c : Fixed α) (count size : Nat) : Cursor (List α) := do
  let bytes ← deserializedElem size
  pure (decodeAll c count (bytes ++ List.replicate (c.size * count - size) 0#8))

def expect (value : BitVec 32) : Cursor Unit := do
  let found ← deserializedValue uint32
  if found ≠ value then throw .elfInvalidFile

/-- A memory, unless its size is zero. -/
def deserializedMemory {α : Type} (c : Fixed α) (count : Nat) : Cursor (Option (List α)) :=
  if count ≠ 0 then some <$> deserializedArray c count (size32 (c.size * count)) else pure none

/-- `dpu_checkpoint_deserialize` and `dpu_context_fill`, where memory is found. -/
def deserializeFrom : Cursor DpuContext := do
  expect SERIALIZED_CONTEXT_MAGIC
  expect SERIALIZED_CONTEXT_CHIP_VERSION
  expect SERIALIZED_CONTEXT_VERSION
  expect SERIALIZED_CONTEXT_MAGIC
  let nrOfThreads ← deserializedValue uint32
  let nrOfWorkRegistersPerThread ← deserializedValue uint32
  let nrOfAtomicBits ← deserializedValue uint32
  let iramSize ← deserializedValue uint32
  let mramSize ← deserializedValue uint32
  let wramSize ← deserializedValue uint32
  let iram ← deserializedMemory uint64 iramSize.toNat
  let mram ← deserializedMemory uint8 mramSize.toNat
  let wram ← deserializedMemory uint32 wramSize.toNat
  let registers ← deserializedArray uint32 (nrOfThreads * nrOfWorkRegistersPerThread).toNat
    (size32 (4 * nrOfThreads.toNat * nrOfWorkRegistersPerThread.toNat))
  let pcs ← deserializedArray uint16 nrOfThreads.toNat (size32 (2 * nrOfThreads.toNat))
  let atomicRegister ← deserializedArray bool nrOfAtomicBits.toNat (size32 (1 * nrOfAtomicBits.toNat))
  let zeroFlags ← deserializedArray bool nrOfThreads.toNat (size32 (1 * nrOfThreads.toNat))
  let carryFlags ← deserializedArray bool nrOfThreads.toNat (size32 (1 * nrOfThreads.toNat))
  let nrOfRunningThreads ← deserializedValue uint8
  let scheduling ← deserializedArray uint8 nrOfThreads.toNat (size32 (1 * nrOfThreads.toNat))
  let bkpFault ← deserializedValue bool
  let dmaFault ← deserializedValue bool
  let memFault ← deserializedValue bool
  let bkpFaultThreadIndex ← deserializedValue uint8
  let dmaFaultThreadIndex ← deserializedValue uint8
  let memFaultThreadIndex ← deserializedValue uint8
  let bkpFaultId ← deserializedValue uint32
  pure
    { info := ⟨nrOfThreads, nrOfWorkRegistersPerThread, nrOfAtomicBits, iramSize.setWidth 16, mramSize, wramSize⟩
      iram, mram, wram, registers, pcs, atomicRegister, zeroFlags, carryFlags, nrOfRunningThreads, scheduling
      bkpFault, dmaFault, memFault, bkpFaultThreadIndex, dmaFaultThreadIndex, memFaultThreadIndex, bkpFaultId }

def deserialize (serializedContext : List Byte) : Except DpuError DpuContext :=
  (·.1) <$> deserializeFrom serializedContext

/-- The arrays of a context have the lengths that its sizes say. -/
structure DpuContext.Sized (context : DpuContext) : Prop where
  iram : ∀ memory, context.iram = some memory → memory.length = context.info.iramSize.toNat
  mram : ∀ memory, context.mram = some memory → memory.length = context.info.mramSize.toNat
  wram : ∀ memory, context.wram = some memory → memory.length = context.info.wramSize.toNat
  registers : context.registers.length = context.info.nrThreads.toNat * context.info.nrRegisters.toNat
  pcs : context.pcs.length = context.info.nrThreads.toNat
  atomicRegister : context.atomicRegister.length = context.info.nrAtomicBits.toNat
  zeroFlags : context.zeroFlags.length = context.info.nrThreads.toNat
  carryFlags : context.carryFlags.length = context.info.nrThreads.toNat
  scheduling : context.scheduling.length = context.info.nrThreads.toNat

/-- The number of bytes of everything that is serialized. -/
def DpuContext.totalSize (context : DpuContext) : Nat :=
  40 + 8 * (context.iram.getD []).length + (context.mram.getD []).length + 4 * (context.wram.getD []).length +
    4 * context.registers.length + 2 * context.pcs.length + context.atomicRegister.length +
    context.zeroFlags.length +
    context.carryFlags.length + 1 + context.scheduling.length + 10

/-- The context that comes back. A memory that is not captured has no size,
and one without elements is absent. -/
def DpuContext.restored (context : DpuContext) : DpuContext :=
  { context with
    info :=
      { context.info with
        iramSize := if context.iram = none then 0#16 else context.info.iramSize
        mramSize := if context.mram = none then 0#32 else context.info.mramSize
        wramSize := if context.wram = none then 0#32 else context.info.wramSize }
    iram := context.iram.filter (· ≠ [])
    mram := context.mram.filter (· ≠ [])
    wram := context.wram.filter (· ≠ []) }

theorem serializedElem_eq {elem : List Byte} {elemSize : Nat} (sized : elem.length = elemSize) :
    serializedElem elem elemSize = elem := by
  rw [serializedElem, ← sized, List.take_length]

section Reads
variable {α : Type} {c : Fixed α}

theorem cursor_bind {β γ : Type} {x : Cursor β} {f : β → Cursor γ} {input rest : List Byte} {b : β}
    (read : x input = .ok (b, rest)) : (x >>= f) input = f b rest := by
  change (x input >>= fun p => f p.1 p.2) = f b rest
  rw [read]
  rfl

theorem deserializedElem_append {bytes : List Byte} {size : Nat} (sized : bytes.length = size) (rest : List Byte) :
    deserializedElem size (bytes ++ rest) = .ok (bytes, rest) :=
  takeBytes_append _ sized rest

theorem deserializedValue_append (a : α) (rest : List Byte) :
    deserializedValue c (c.encode a ++ rest) = .ok (a, rest) := by
  rw [deserializedValue, cursor_bind (deserializedElem_append (c.length_encode a) rest), c.decode_encode]
  rfl

theorem expect_append (value : BitVec 32) (rest : List Byte) :
    expect value (uint32.encode value ++ rest) = .ok ((), rest) := by
  rw [expect, cursor_bind (deserializedValue_append value rest)]
  simp
  rfl

/-- An array whose bytes are all there. -/
theorem deserializedArray_append {as : List α} {count size : Nat} (length : as.length = count)
    (sized : c.size * count = size) (rest : List Byte) :
    deserializedArray c count size (encodeAll c as ++ rest) = .ok (as, rest) := by
  have bytes : (encodeAll c as).length = size := by rw [length_encodeAll, length, sized]
  rw [deserializedArray, cursor_bind (deserializedElem_append bytes rest), ← length, decodeAll_encodeAll]
  rfl

theorem deserializedMemory_append {memory : Option (List α)} {count : Nat}
    (length : (memory.getD []).length = count) (small : c.size * count < 2 ^ 32) (rest : List Byte) :
    deserializedMemory c count (encodeAll c (memory.getD []) ++ rest) = .ok (memory.filter (· ≠ []), rest) := by
  unfold deserializedMemory
  by_cases empty : count = 0
  · have none : memory.getD [] = [] := List.length_eq_zero_iff.mp (length.trans empty)
    rw [if_neg (not_not.mpr empty), none]
    cases memory with
    | none => rfl
    | some memory =>
      obtain rfl : memory = [] := none
      rfl
  · have sized : c.size * count = size32 (c.size * count) := (Nat.mod_eq_of_lt small).symm
    rw [if_pos empty, ← sized]
    cases memory with
    | none => exact absurd length.symm empty
    | some memory =>
      have some : memory ≠ [] := fun nil => empty (by rw [← length, nil]; rfl)
      have read : deserializedArray c count (c.size * count) (encodeAll c memory ++ rest) = .ok (memory, rest) :=
        deserializedArray_append length rfl rest
      change (deserializedArray c count (c.size * count) (encodeAll c memory ++ rest) >>= fun p =>
        Except.ok (Option.some p.1, p.2)) = _
      rw [read]
      have kept : Option.filter (fun memory => decide (memory ≠ [])) (Option.some memory) = Option.some memory := by
        simp [some]
      rw [kept]
      rfl

end Reads

section Sizes
variable {context : DpuContext} (sized : context.Sized)
include sized

theorem DpuContext.Sized.nrInstructions_eq : context.nrInstructions = (context.iram.getD []).length := by
  unfold DpuContext.nrInstructions
  cases captured : context.iram with
  | none => rfl
  | some memory => exact (sized.iram memory captured).symm

theorem DpuContext.Sized.nrWramWords_eq : context.nrWramWords = (context.wram.getD []).length := by
  unfold DpuContext.nrWramWords
  cases captured : context.wram with
  | none => rfl
  | some memory => exact (sized.wram memory captured).symm

theorem DpuContext.Sized.mramBytes_eq : context.mramBytes = (context.mram.getD []).length := by
  unfold DpuContext.mramBytes
  cases captured : context.mram with
  | none => rfl
  | some memory => exact (sized.mram memory captured).symm

end Sizes

section RoundTrip
variable {context : DpuContext} (sized : context.Sized) (small : context.totalSize < 2 ^ 32)
include sized small

/-- No size of the serialized arrays is cut off. -/
theorem DpuContext.Sized.sizes :
    context.iramBytes = 8 * (context.iram.getD []).length ∧ context.mramBytes = (context.mram.getD []).length ∧
      context.wramBytes = 4 * (context.wram.getD []).length ∧ context.registersSize = 4 * context.registers.length ∧
      context.pcsSize = 2 * context.pcs.length ∧ context.atomicRegisterSize = context.atomicRegister.length ∧
      context.flagsSize = context.zeroFlags.length := by
  unfold DpuContext.totalSize at small
  have iram := sized.nrInstructions_eq
  have mram := sized.mramBytes_eq
  have wram := sized.nrWramWords_eq
  refine ⟨?_, mram, ?_, ?_, ?_, ?_, ?_⟩
  · rw [DpuContext.iramBytes, iram, size32, Nat.mod_eq_of_lt (by omega)]
  · rw [DpuContext.wramBytes, wram, size32, Nat.mod_eq_of_lt (by omega)]
  · rw [DpuContext.registersSize, Nat.mul_assoc, ← sized.registers, size32, Nat.mod_eq_of_lt (by omega)]
  · rw [DpuContext.pcsSize, ← sized.pcs, size32, Nat.mod_eq_of_lt (by omega)]
  · rw [DpuContext.atomicRegisterSize, Nat.one_mul, ← sized.atomicRegister, size32, Nat.mod_eq_of_lt (by omega)]
  · rw [DpuContext.flagsSize, Nat.one_mul, ← sized.zeroFlags, size32, Nat.mod_eq_of_lt (by omega)]

/-- The elements are written whole. -/
theorem serializedBytes_eq : serializedBytes context =
    uint32.encode SERIALIZED_CONTEXT_MAGIC ++ (uint32.encode SERIALIZED_CONTEXT_CHIP_VERSION ++
    (uint32.encode SERIALIZED_CONTEXT_VERSION ++ (uint32.encode SERIALIZED_CONTEXT_MAGIC ++
    (uint32.encode context.info.nrThreads ++ (uint32.encode context.info.nrRegisters ++
    (uint32.encode context.info.nrAtomicBits ++ (uint32.encode (BitVec.ofNat 32 context.nrInstructions) ++
    (uint32.encode (BitVec.ofNat 32 context.mramBytes) ++ (uint32.encode (BitVec.ofNat 32 context.nrWramWords) ++
    (encodeAll uint64 (context.iram.getD []) ++ (encodeAll uint8 (context.mram.getD []) ++
    (encodeAll uint32 (context.wram.getD []) ++ (encodeAll uint32 context.registers ++
    (encodeAll uint16 context.pcs ++ (encodeAll bool context.atomicRegister ++ (encodeAll bool context.zeroFlags ++
    (encodeAll bool context.carryFlags ++ (uint8.encode context.nrOfRunningThreads ++
    (encodeAll uint8 context.scheduling ++ (bool.encode context.bkpFault ++ (bool.encode context.dmaFault ++
    (bool.encode context.memFault ++ (uint8.encode context.bkpFaultThreadIndex ++
    (uint8.encode context.dmaFaultThreadIndex ++ (uint8.encode context.memFaultThreadIndex ++
    (uint32.encode context.bkpFaultId ++ [])))))))))))))))))))))))))) := by
  obtain ⟨iram, mram, wram, registers, pcs, atomicRegister, flags⟩ := sized.sizes small
  have carryFlags : context.carryFlags.length = context.zeroFlags.length := by
    rw [sized.carryFlags, sized.zeroFlags]
  have scheduling : context.scheduling.length = context.zeroFlags.length := by
    rw [sized.scheduling, sized.zeroFlags]
  have u32 (value : BitVec 32) : serializedElem (uint32.encode value) 4 = uint32.encode value :=
    serializedElem_eq (uint32.length_encode value)
  have u8 (value : BitVec 8) : serializedElem (uint8.encode value) 1 = uint8.encode value :=
    serializedElem_eq (uint8.length_encode value)
  have flag (value : Bool) : serializedElem (bool.encode value) 1 = bool.encode value :=
    serializedElem_eq (bool.length_encode value)
  have all {α : Type} (c : Fixed α) (as : List α) (n : Nat) (length : n = c.size * as.length) :
      serializedElem (encodeAll c as) n = encodeAll c as :=
    serializedElem_eq ((length_encodeAll c as).trans length.symm)
  unfold serializedBytes
  rw [all uint64 _ _ iram, all uint8 _ _ (by rw [mram]; exact (Nat.one_mul _).symm), all uint32 _ _ wram,
    all uint32 _ _ registers, all uint16 _ _ pcs, all bool _ _ (by rw [atomicRegister]; exact (Nat.one_mul _).symm),
    all bool context.zeroFlags _ (by rw [flags]; exact (Nat.one_mul _).symm),
    all bool context.carryFlags _ (by rw [flags, carryFlags]; exact (Nat.one_mul _).symm),
    all uint8 context.scheduling _ (by rw [flags, scheduling]; exact (Nat.one_mul _).symm)]
  simp only [u32, u8, flag, List.append_assoc, List.append_nil]

theorem getSerializedContextSize_eq : getSerializedContextSize context = context.totalSize := by
  obtain ⟨iram, mram, wram, registers, pcs, atomicRegister, flags⟩ := sized.sizes small
  have carryFlags : context.carryFlags.length = context.zeroFlags.length := by
    rw [sized.carryFlags, sized.zeroFlags]
  have scheduling : context.scheduling.length = context.zeroFlags.length := by
    rw [sized.scheduling, sized.zeroFlags]
  have total : 4 + 4 + 4 + 4 + 4 + 4 + 4 + 4 + 4 + 4 + context.iramBytes + context.mramBytes + context.wramBytes +
      context.registersSize + context.pcsSize + context.atomicRegisterSize + context.flagsSize +
      context.flagsSize + 1 +
      context.flagsSize + 1 + 1 + 1 + 1 + 1 + 1 + 4 = context.totalSize := by
    unfold DpuContext.totalSize
    omega
  rw [getSerializedContextSize, total]
  exact Nat.mod_eq_of_lt small

theorem length_serializedBytes : (serializedBytes context).length = context.totalSize := by
  rw [serializedBytes_eq sized small]
  simp only [List.length_append, Fixed.length_encode, length_encodeAll, List.length_nil]
  have bytes : uint8.size = 1 ∧ uint16.size = 2 ∧ uint32.size = 4 ∧ uint64.size = 8 ∧ bool.size = 1 :=
    ⟨rfl, rfl, rfl, rfl, rfl⟩
  obtain ⟨u8, u16, u32, u64, flag⟩ := bytes
  rw [u8, u16, u32, u64, flag, DpuContext.totalSize]
  clear u8 u16 u32 u64 flag small sized
  generalize (context.iram.getD []).length = a
  generalize (context.mram.getD []).length = b
  generalize (context.wram.getD []).length = c
  omega

omit sized in
/-- A size below the bound of an `uint32_t` is read back as it was written. -/
theorem toNat_ofNat_size {n : Nat} (below : n ≤ context.totalSize) : (BitVec.ofNat 32 n).toNat = n := by
  rw [BitVec.toNat_ofNat]
  exact Nat.mod_eq_of_lt (below.trans_lt small)

theorem deserialize_serializedBytes : deserialize (serializedBytes context) = .ok context.restored := by
  have total : 8 * (context.iram.getD []).length ≤ context.totalSize ∧
    (context.mram.getD []).length ≤ context.totalSize ∧
      4 * (context.wram.getD []).length ≤ context.totalSize ∧ 4 * context.registers.length ≤ context.totalSize ∧
      2 * context.pcs.length ≤ context.totalSize ∧ context.atomicRegister.length ≤ context.totalSize := by
    unfold DpuContext.totalSize
    omega
  obtain ⟨iramFits, mramFits, wramFits, registersFit, pcsFit, atomicFits⟩ := total
  have nrInstructions : (BitVec.ofNat 32 context.nrInstructions).toNat = context.nrInstructions :=
    toNat_ofNat_size small (by rw [sized.nrInstructions_eq]; omega)
  have mramBytes : (BitVec.ofNat 32 context.mramBytes).toNat = context.mramBytes :=
    toNat_ofNat_size small (by rw [sized.mramBytes_eq]; omega)
  have nrWramWords : (BitVec.ofNat 32 context.nrWramWords).toNat = context.nrWramWords :=
    toNat_ofNat_size small (by rw [sized.nrWramWords_eq]; omega)
  have iram := nrInstructions.trans sized.nrInstructions_eq
  have mram := mramBytes.trans sized.mramBytes_eq
  have wram := nrWramWords.trans sized.nrWramWords_eq
  have product : context.registers.length = (context.info.nrThreads * context.info.nrRegisters).toNat := by
    rw [BitVec.toNat_mul, sized.registers, Nat.mod_eq_of_lt (by rw [← sized.registers]; omega)]
  have atomicFit : 1 * context.info.nrAtomicBits.toNat ≤ context.totalSize := by
    rwa [Nat.one_mul, ← sized.atomicRegister]
  have flagsFit : 1 * context.info.nrThreads.toNat ≤ context.totalSize := by
    rw [Nat.one_mul, ← sized.pcs]
    omega
  have cut {n : Nat} (below : n ≤ context.totalSize) : size32 n = n := Nat.mod_eq_of_lt (below.trans_lt small)
  have registers : uint32.size * (context.info.nrThreads * context.info.nrRegisters).toNat =
      size32 (4 * context.info.nrThreads.toNat * context.info.nrRegisters.toNat) := by
    rw [Nat.mul_assoc, ← sized.registers, cut registersFit, ← product]
    rfl
  have pcs : uint16.size * context.info.nrThreads.toNat = size32 (2 * context.info.nrThreads.toNat) :=
    (cut (by rw [← sized.pcs]; exact pcsFit)).symm
  have atomic : bool.size * context.info.nrAtomicBits.toNat = size32 (1 * context.info.nrAtomicBits.toNat) :=
    (cut atomicFit).symm
  have flags : bool.size * context.info.nrThreads.toNat = size32 (1 * context.info.nrThreads.toNat) :=
    (cut flagsFit).symm
  have scheduling : uint8.size * context.info.nrThreads.toNat = size32 (1 * context.info.nrThreads.toNat) := flags
  have iramSmall : uint64.size * (BitVec.ofNat 32 context.nrInstructions).toNat < 2 ^ 32 := by
    rw [iram]
    exact lt_of_le_of_lt iramFits small
  have mramSmall : uint8.size * (BitVec.ofNat 32 context.mramBytes).toNat < 2 ^ 32 := by
    rw [mram]
    exact lt_of_le_of_lt ((Nat.one_mul _).le.trans mramFits) small
  have wramSmall : uint32.size * (BitVec.ofNat 32 context.nrWramWords).toNat < 2 ^ 32 := by
    rw [wram]
    exact lt_of_le_of_lt wramFits small
  have run : deserializeFrom (serializedBytes context) = .ok (context.restored, []) := by
    rw [serializedBytes_eq sized small, deserializeFrom, cursor_bind (expect_append _ _),
      cursor_bind (expect_append _ _),
      cursor_bind (expect_append _ _), cursor_bind (expect_append _ _), cursor_bind (deserializedValue_append _ _),
      cursor_bind (deserializedValue_append _ _), cursor_bind (deserializedValue_append _ _),
      cursor_bind (deserializedValue_append _ _), cursor_bind (deserializedValue_append _ _),
      cursor_bind (deserializedValue_append _ _), cursor_bind (deserializedMemory_append iram.symm iramSmall _),
      cursor_bind (deserializedMemory_append mram.symm mramSmall _),
      cursor_bind (deserializedMemory_append wram.symm wramSmall _),
      cursor_bind (deserializedArray_append product registers _),
        cursor_bind (deserializedArray_append sized.pcs pcs _),
      cursor_bind (deserializedArray_append sized.atomicRegister atomic _),
      cursor_bind (deserializedArray_append sized.zeroFlags flags _),
      cursor_bind (deserializedArray_append sized.carryFlags flags _), cursor_bind (deserializedValue_append _ _),
      cursor_bind (deserializedArray_append sized.scheduling scheduling _),
        cursor_bind (deserializedValue_append _ _),
      cursor_bind (deserializedValue_append _ _), cursor_bind (deserializedValue_append _ _),
      cursor_bind (deserializedValue_append _ _), cursor_bind (deserializedValue_append _ _),
      cursor_bind (deserializedValue_append _ _), cursor_bind (deserializedValue_append _ _)]
    have iramSize : (BitVec.ofNat 32 context.nrInstructions).setWidth 16 = context.restored.info.iramSize := by
      unfold DpuContext.nrInstructions DpuContext.restored
      split_ifs with captured <;> simp
    have mramSize : BitVec.ofNat 32 context.mramBytes = context.restored.info.mramSize := by
      unfold DpuContext.mramBytes DpuContext.restored
      split_ifs with captured <;> simp
    have wramSize : BitVec.ofNat 32 context.nrWramWords = context.restored.info.wramSize := by
      unfold DpuContext.nrWramWords DpuContext.restored
      split_ifs with captured <;> simp
    rw [iramSize, mramSize, wramSize]
    rfl
  rw [deserialize, run]
  rfl

end RoundTrip

/-- The size that is announced is the one written, and what is written comes back. -/
theorem serialize_deserialize {context : DpuContext} (sized : context.Sized) (small : context.totalSize < 2 ^ 32)
    {buffer : Option (List Byte)}
    (fits : ∀ bytes, buffer = some bytes → bytes.length = getSerializedContextSize context) :
    ∃ bytes, serialize context buffer = .ok bytes ∧ bytes.length = getSerializedContextSize context ∧
      (serializedBytes context).length = getSerializedContextSize context ∧
      deserialize bytes = .ok context.restored := by
  have length : (serializedBytes context).length = getSerializedContextSize context :=
    (length_serializedBytes sized small).trans (getSerializedContextSize_eq sized small).symm
  have written : serialize context buffer = .ok (serializedBytes context) := by
    cases buffer with
    | none => rfl
    | some buffer =>
      have own : buffer.length = getSerializedContextSize context := fits buffer rfl
      have leftOver : buffer.drop (serializedBytes context).length = [] := List.drop_eq_nil_of_le (by omega)
      simp only [serialize, own, ne_eq, not_true_eq_false, if_false, leftOver, List.append_nil]
  exact ⟨serializedBytes context, written, length, length, deserialize_serializedBytes sized small⟩

/-- Two threads with one register each and an atomic bit, stopped by a fault
of the second one, with a captured instruction. -/
def twoThreads : DpuContext where
  info := ⟨2#32, 1#32, 1#32, 1#16, 64#32, 8#32⟩
  iram := some [0x7ef#64]
  mram := none
  wram := none
  registers := [5#32, 0xffffffff#32]
  pcs := [1#16, 0x100#16]
  atomicRegister := [true]
  zeroFlags := [false, true]
  carryFlags := [true, false]
  nrOfRunningThreads := 1#8
  scheduling := [0#8, 0xff#8]
  bkpFault := true
  dmaFault := false
  memFault := true
  bkpFaultThreadIndex := 1#8
  dmaFaultThreadIndex := 0#8
  memFaultThreadIndex := 1#8
  bkpFaultId := 0xabc#32

theorem serialize_deserialize_twoThreads : twoThreads.totalSize = 78 ∧
    ∃ bytes, serialize twoThreads none = .ok bytes ∧ bytes.length = getSerializedContextSize twoThreads ∧
      (serializedBytes twoThreads).length = getSerializedContextSize twoThreads ∧
      deserialize bytes = .ok twoThreads.restored := by
  have sized : twoThreads.Sized :=
    ⟨by simp [twoThreads], by simp [twoThreads], by simp [twoThreads], rfl, rfl, rfl, rfl, rfl, rfl⟩
  exact ⟨rfl, serialize_deserialize sized (by decide) (by simp)⟩

end Upmem.Checkpoint
