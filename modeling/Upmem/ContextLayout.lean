import Mathlib.Data.Set.Lattice
import Mathlib.Order.CompletePartialOrder
import Mathlib.Order.Interval.Finset.Nat
import Upmem.DebugRoutine
import Upmem.Lib.BitFields
import Upmem.Lib.PackedBits
import Upmem.Lib.Views

namespace Upmem.DebugRoutine
open BitFields

/-- The fields of a register context. -/
inductive Field
  | atomicBit (bit : Nat)
  | register (thread register : Nat)
  | carryFlag (thread : Nat)
  | zeroFlag (thread : Nat)
  deriving DecidableEq

/-- The field is one of those that the DPU has. -/
def Field.Of (dpu : RoutineDpu) : Field → Prop
  | .atomicBit bit => bit < dpu.nrOfAtomicBits
  | .register thread number => thread < dpu.nrOfThreads ∧ number < dpu.nrOfWorkRegistersPerThread
  | .carryFlag thread | .zeroFlag thread => thread < dpu.nrOfThreads

/-- The place of the flags of a thread in the context. -/
def flagsIndex (thread : Nat) : Nat := ATOMIC_REG_SIZE_IN_WORDS + WORK_REGS_SIZE_IN_WORDS + thread

/-- The raw word that has the field. -/
def Field.rawIndex : Field → Nat
  | .atomicBit bit => bit / 4
  | .register thread number =>
    if number % 2 = 0 then oddRegisterContextIndex thread number + 1
      else oddRegisterContextIndex thread (number - 1)
  | .carryFlag thread | .zeroFlag thread => flagsIndex thread

/-- The bits of that word that are the field. -/
def Field.bits : Field → Finset Nat
  | .atomicBit bit => Finset.Ico (8 * (bit % 4)) (8 * (bit % 4) + 8)
  | .register .. => Finset.range 32
  | .carryFlag _ => {0}
  | .zeroFlag _ => {1}

def Field.storage (field : Field) : Set (Nat × Nat) := {place | place.1 = field.rawIndex ∧ place.2 ∈ field.bits}

/-- What each bit of a field is to be. -/
def RegisterContext.storedBit (dpu : RoutineDpu) (context : RegisterContext) : Field → Nat → Bool
  | .atomicBit bit, _ => context.atomicRegister bit
  | .register thread number, k => (context.registers (thread * dpu.nrOfWorkRegistersPerThread + number)).getLsbD k
  | .carryFlag thread, _ => context.carryFlags thread
  | .zeroFlag thread, _ => context.zeroFlags thread

/-- The raw words have the context in the storage of its fields. -/
def Stores (dpu : RoutineDpu) (raw : Nat → BitVec 32) (context : RegisterContext) : Prop :=
  ∀ field : Field, field.Of dpu → ∀ k ∈ field.bits, (raw field.rawIndex).getLsbD k = context.storedBit dpu field k

/-- Two contexts that agree on the fields of the DPU. -/
structure SameFields (dpu : RoutineDpu) (context other : RegisterContext) : Prop where
  atomicRegister : ∀ bit < dpu.nrOfAtomicBits, context.atomicRegister bit = other.atomicRegister bit
  registers : ∀ thread < dpu.nrOfThreads, ∀ register < dpu.nrOfWorkRegistersPerThread,
    context.registers (thread * dpu.nrOfWorkRegistersPerThread + register) =
      other.registers (thread * dpu.nrOfWorkRegistersPerThread + register)
  carryFlags : ∀ thread < dpu.nrOfThreads, context.carryFlags thread = other.carryFlags thread
  zeroFlags : ∀ thread < dpu.nrOfThreads, context.zeroFlags thread = other.zeroFlags thread

/-- The fields of the DPU fit in the areas of the context. -/
structure Fits (dpu : RoutineDpu) : Prop where
  threads : dpu.nrOfThreads ≤ DebugFaults.DPU_NR_THREADS
  registers : dpu.nrOfWorkRegistersPerThread ≤ DPU_NR_WORK_REGS
  even : dpu.nrOfWorkRegistersPerThread % 2 = 0
  atomics : dpu.nrOfAtomicBits ≤ DPU_NR_ATOMIC_BITS

variable {dpu : RoutineDpu} {context : RegisterContext} {raw : Nat → BitVec 32}

theorem oddRegisterContextIndex_eq (thread register : Nat) :
    oddRegisterContextIndex thread register = 64 + register * 24 + 2 * thread := rfl

theorem flagsIndex_eq (thread : Nat) : flagsIndex thread = 640 + thread := rfl

theorem contextSizeInWords_eq : contextSizeInWords = 664 := rfl

theorem Fits.below (fits : Fits dpu) :
    dpu.nrOfThreads ≤ 24 ∧ dpu.nrOfWorkRegistersPerThread ≤ 24 ∧ dpu.nrOfAtomicBits ≤ 256 :=
  ⟨fits.threads, fits.registers, fits.atomics⟩

theorem mem_registerPairs (even : dpu.nrOfWorkRegistersPerThread % 2 = 0) {thread register : Nat} :
    (thread, register) ∈ dpu.registerPairs ↔
      thread < dpu.nrOfThreads ∧ register < dpu.nrOfWorkRegistersPerThread ∧ register % 2 = 0 := by
  simp only [RoutineDpu.registerPairs, List.mem_flatMap, List.mem_map, List.mem_range, Prod.mk.injEq]
  constructor
  · rintro ⟨thread, inside, pair, small, rfl, rfl⟩
    omega
  · rintro ⟨inside, small, half⟩
    exact ⟨thread, inside, register / 2, by omega, rfl, by omega⟩

/-- A register is in the pair of the even one at it or before it. -/
theorem pair_mem (even : dpu.nrOfWorkRegistersPerThread % 2 = 0) {thread register : Nat}
    (inside : thread < dpu.nrOfThreads) (small : register < dpu.nrOfWorkRegistersPerThread) :
    (thread, register - register % 2) ∈ dpu.registerPairs := by
  rw [mem_registerPairs even]
  omega

theorem Field.rawIndex_register (thread register : Nat) : (Field.register thread register).rawIndex =
    oddRegisterContextIndex thread (register - register % 2) + (1 - register % 2) := by
  rw [Field.rawIndex]
  split_ifs with half
  · rw [half, Nat.sub_zero]
  · rw [show register % 2 = 1 by omega, Nat.sub_self, Nat.add_zero]

/-- Each kind of field has its own words. -/
theorem Field.area (fits : Fits dpu) {field : Field} (of : field.Of dpu) :
    match field with
    | .atomicBit _ => field.rawIndex < 64
    | .register .. => 64 ≤ field.rawIndex ∧ field.rawIndex < 640
    | .carryFlag _ | .zeroFlag _ => 640 ≤ field.rawIndex ∧ field.rawIndex < contextSizeInWords := by
  have below := fits.below
  have even := fits.even
  cases field with
  | atomicBit bit =>
    change bit < dpu.nrOfAtomicBits at of
    change bit / 4 < 64
    omega
  | register thread register =>
    obtain ⟨inside, small⟩ := of
    rw [Field.rawIndex_register, oddRegisterContextIndex_eq]
    omega
  | carryFlag thread | zeroFlag thread =>
    change thread < dpu.nrOfThreads at of
    change 640 ≤ 640 + thread ∧ 640 + thread < 664
    omega

/-- Every raw index is inside the context. -/
theorem Field.rawIndex_lt (fits : Fits dpu) {field : Field} (of : field.Of dpu) :
    field.rawIndex < contextSizeInWords := by
  have area := Field.area fits of
  rw [contextSizeInWords_eq] at *
  cases field with
  | atomicBit | register | carryFlag | zeroFlag => simp only at area; omega

/-- No two fields share storage. -/
theorem Field.storage_disjoint (fits : Fits dpu) {field other : Field} (of : field.Of dpu) (of' : other.Of dpu)
    (differ : field ≠ other) : Disjoint field.storage other.storage := by
  rw [Set.disjoint_left]
  rintro ⟨word, k⟩ ⟨here, bit⟩ ⟨there, bit'⟩
  have same : field.rawIndex = other.rawIndex := here.symm.trans there
  have area := Field.area fits of
  have area' := Field.area fits of'
  dsimp only at bit bit'
  refine differ ?_
  cases field with
  | atomicBit i =>
    cases other with
    | atomicBit j =>
      simp only [Field.bits, Finset.mem_Ico] at bit bit'
      change i / 4 = j / 4 at same
      rw [show i = j by omega]
    | register | carryFlag | zeroFlag => simp only at area area'; omega
  | register thread register =>
    cases other with
    | register thread' register' =>
      have below := fits.below
      have even := fits.even
      obtain ⟨inside, small⟩ := of
      obtain ⟨inside', small'⟩ := of'
      rw [Field.rawIndex_register, Field.rawIndex_register, oddRegisterContextIndex_eq,
        oddRegisterContextIndex_eq] at same
      rw [show thread = thread' by omega, show register = register' by omega]
    | atomicBit | carryFlag | zeroFlag => simp only at area area'; omega
  | carryFlag thread =>
    cases other with
    | carryFlag thread' => exact congrArg Field.carryFlag (Nat.add_left_cancel same)
    | zeroFlag => simp [Field.bits] at bit bit'; omega
    | atomicBit | register => simp only at area area'; omega
  | zeroFlag thread =>
    cases other with
    | zeroFlag thread' => exact congrArg Field.zeroFlag (Nat.add_left_cancel same)
    | carryFlag => simp [Field.bits] at bit bit'; omega
    | atomicBit | register => simp only at area area'; omega

theorem field_setByte (word : BitVec 32) (byte : BitVec 8) {i j : Nat} (inside : j < 4) :
    field 8 (setByte word i byte) j = if j = i then byte else field 8 word j := by
  refine BitVec.eq_of_getLsbD_eq fun b small => ?_
  have written := shifted_getLsbD (w := 32) byte (p := i) small (show 8 * (j + 1) ≤ 32 by omega)
  have cleared := shifted_getLsbD (w := 32) 0xff#8 (p := i) small (show 8 * (j + 1) ≤ 32 by omega)
  have full : (0xff#8).getLsbD b = true := by
    rw [show 0xff#8 = BitVec.allOnes 8 from rfl, BitVec.getLsbD_allOnes, decide_eq_true small]
  have wide : 8 * j + b < 32 := by omega
  rw [field_getLsbD, decide_eq_true small, Bool.true_and, setByte, BitVec.getLsbD_or, BitVec.getLsbD_and,
    BitVec.getLsbD_not, written, show 0xff#32 = (0xff#8).setWidth 32 from rfl, cleared, full]
  by_cases same : i = j
  · simp [same]
  · rw [if_neg (Ne.symm same), field_getLsbD, decide_eq_true small, decide_eq_true wide, decide_eq_false same]
    simp

/-- The loop of the atomic bits. -/
def formatAtomics (dpu : RoutineDpu) (context : RegisterContext) (buffer : Nat → BitVec 32) : Nat → BitVec 32 :=
  (List.range dpu.nrOfAtomicBits).foldl (fun raw bit =>
    Function.update raw (bit / 4) (setByte (raw (bit / 4)) (bit % 4) (if context.atomicRegister bit then
      0xff#8 else 0#8))) buffer

theorem formatAtomics_byte (raw : Nat → BitVec 32) {bit : Nat} (inside : bit < dpu.nrOfAtomicBits) :
    field 8 (formatAtomics dpu context raw (bit / 4)) (bit % 4) = if context.atomicRegister bit then
      0xff#8 else 0#8 := by
  refine Views.foldl_writes (fun raw : Nat → BitVec 32 => field 8 (raw (bit / 4)) (bit % 4))
    (List.mem_range.mpr inside) (fun raw => ?_) (fun raw other _ differ => ?_) raw
  · rw [Function.update_self, field_setByte _ _ (Nat.mod_lt _ (by decide)), if_pos rfl]
  · by_cases word : bit / 4 = other / 4
    · rw [word, Function.update_self, field_setByte _ _ (Nat.mod_lt _ (by decide)),
        if_neg (by omega)]
    · rw [Function.update_of_ne word]

theorem formatAtomics_of_forall_ne (buffer : Nat → BitVec 32) {address : Nat}
    (other : ∀ bit < dpu.nrOfAtomicBits, bit / 4 ≠ address) :
    formatAtomics dpu context buffer address = buffer address := by
  refine Views.foldl_keeps (fun raw : Nat → BitVec 32 => raw address) (fun raw bit member => ?_) buffer
  exact Function.update_of_ne (other bit (List.mem_range.mp member)).symm _ _

/-- Two places one after the other get their values. -/
theorem update_update_succ {α : Type} (memory : Nat → α) (first : Nat) (low high : α) (address : Nat) :
    Function.update (Function.update memory first low) (first + 1) high address =
      if address = first + 1 then high else if address = first then low else memory address := by
  simp only [Function.update_apply]

/-- A raw word of the registers belongs to one pair. -/
theorem oddRegisterContextIndex_inj {thread register thread' register' : Nat} (below : thread < 24)
    (below' : thread' < 24)
    (even : register % 2 = 0) (even' : register' % 2 = 0)
    (meet : oddRegisterContextIndex thread register / 2 = oddRegisterContextIndex thread' register' / 2) :
    (thread, register) = (thread', register') := by
  rw [oddRegisterContextIndex_eq, oddRegisterContextIndex_eq] at meet
  rw [show thread = thread' by omega, show register = register' by omega]

theorem formatRegisters_register (fits : Fits dpu) (buffer : Nat → BitVec 32) {thread register : Nat}
    (inside : thread < dpu.nrOfThreads) (small : register < dpu.nrOfWorkRegistersPerThread) :
    formatRegisters dpu context buffer (Field.register thread register).rawIndex =
      context.registers (thread * dpu.nrOfWorkRegistersPerThread + register) := by
  have below := fits.below
  rw [Field.rawIndex_register]
  refine Views.foldl_writes (fun raw : Nat → BitVec 32 =>
    raw (oddRegisterContextIndex thread (register - register % 2) + (1 - register % 2)))
    (pair_mem fits.even inside small) (fun raw => ?_) (fun raw other member differ => ?_) buffer
  · dsimp only
    rw [update_update_succ]
    rcases Nat.mod_two_eq_zero_or_one register with half | half
    · rw [half, if_pos rfl, Nat.sub_zero]
    · rw [half, if_neg (by omega), if_pos (by omega), Nat.add_assoc, show register - 1 + 1 = register by omega]
  · obtain ⟨thread', register'⟩ := other
    obtain ⟨inside', small', even'⟩ := (mem_registerPairs fits.even).mp member
    have apart := mt (oddRegisterContextIndex_inj (show thread' < 24 by omega) (show thread < 24 by omega) even'
      (show (register - register % 2) % 2 = 0 by omega)) differ
    rw [oddRegisterContextIndex_eq, oddRegisterContextIndex_eq] at apart
    dsimp only
    rw [update_update_succ, oddRegisterContextIndex_eq, oddRegisterContextIndex_eq, if_neg (by omega),
      if_neg (by omega)]

theorem formatRegisters_of_forall_ne (buffer : Nat → BitVec 32) {address : Nat}
    (other : ∀ pair ∈ dpu.registerPairs, oddRegisterContextIndex pair.1 pair.2 ≠ address ∧
      oddRegisterContextIndex pair.1 pair.2 + 1 ≠ address) :
    formatRegisters dpu context buffer address = buffer address := by
  refine Views.foldl_keeps (fun raw : Nat → BitVec 32 => raw address) (fun raw pair member => ?_) buffer
  obtain ⟨odd, even⟩ := other pair member
  exact (update_update_succ ..).trans (by rw [if_neg even.symm, if_neg odd.symm])

/-- The loop of the flags. -/
def formatFlags (dpu : RoutineDpu) (context : RegisterContext) (buffer : Nat → BitVec 32) : Nat → BitVec 32 :=
  (List.range dpu.nrOfThreads).foldl (fun raw thread => Function.update raw (flagsIndex thread)
    ((if context.carryFlags thread then 1#32 else 0#32) + if context.zeroFlags thread then 2#32 else 0#32)) buffer

theorem formatFlags_flags (buffer : Nat → BitVec 32) {thread : Nat} (inside : thread < dpu.nrOfThreads) :
    formatFlags dpu context buffer (flagsIndex thread) =
      (if context.carryFlags thread then 1#32 else 0#32) + if context.zeroFlags thread then 2#32 else 0#32 := by
  refine Views.foldl_writes (fun raw : Nat → BitVec 32 => raw (flagsIndex thread)) (List.mem_range.mpr inside)
    (fun raw => Function.update_self ..) (fun raw other _ differ => Function.update_of_ne ?_ ..) buffer
  exact fun same => differ (Nat.add_left_cancel same).symm

theorem formatFlags_of_forall_ne (buffer : Nat → BitVec 32) {address : Nat}
    (other : ∀ thread < dpu.nrOfThreads, flagsIndex thread ≠ address) :
    formatFlags dpu context buffer address = buffer address := by
  refine Views.foldl_keeps (fun raw : Nat → BitVec 32 => raw address) (fun raw thread member => ?_) buffer
  exact Function.update_of_ne (other thread (List.mem_range.mp member)).symm _ _

/-- The formatting is its three loops. -/
theorem formatContext_eq (buffer : Nat → BitVec 32) : formatContext dpu context buffer =
    formatFlags dpu context (formatRegisters dpu context (formatAtomics dpu context buffer)) := rfl

/-- A loop writes the words of its own area only. -/
theorem formatFlags_of_lt (buffer : Nat → BitVec 32) {address : Nat} (low : address < 640) :
    formatFlags dpu context buffer address = buffer address := by
  refine formatFlags_of_forall_ne buffer fun thread _ => ?_
  rw [flagsIndex_eq]
  omega

theorem formatRegisters_of_lt (buffer : Nat → BitVec 32) {address : Nat} (low : address < 64) :
    formatRegisters dpu context buffer address = buffer address := by
  refine formatRegisters_of_forall_ne buffer fun pair _ => ?_
  rw [oddRegisterContextIndex_eq]
  omega

/-- The two bits of the flags of a thread. -/
theorem flags_getLsbD (carry zero : Bool) :
    ((if carry then 1#32 else 0#32) + if zero then 2#32 else 0#32).getLsbD 0 = carry ∧
      ((if carry then 1#32 else 0#32) + if zero then 2#32 else 0#32).getLsbD 1 = zero := by
  cases carry <;> cases zero <;> decide

/-- Formatting stores every field. -/
theorem formatContext_stores (fits : Fits dpu) (context : RegisterContext) (buffer : Nat → BitVec 32) :
    Stores dpu (formatContext dpu context buffer) context := by
  intro field of k bit
  have area := Field.area fits of
  rw [formatContext_eq]
  cases field with
  | atomicBit i =>
    have byte := @formatAtomics_byte dpu context buffer i of
    have inside : 8 * (i % 4) ≤ k ∧ k < 8 * (i % 4) + 8 := Finset.mem_Ico.mp bit
    have found := congrArg (BitVec.getLsbD · (k - 8 * (i % 4))) byte
    simp only [field_getLsbD, decide_eq_true (show k - 8 * (i % 4) < 8 by omega), Bool.true_and,
      Nat.add_sub_cancel' inside.1] at found
    rw [formatFlags_of_lt _ (area.trans (by decide)), formatRegisters_of_lt _ area, Field.rawIndex, found]
    have full : (0xff#8).getLsbD (k - 8 * (i % 4)) = true := by
      rw [show 0xff#8 = BitVec.allOnes 8 from rfl, BitVec.getLsbD_allOnes]
      exact decide_eq_true (by omega)
    rw [RegisterContext.storedBit]
    split_ifs with set
    · rw [full, set]
    · rw [BitVec.getLsbD_zero, Bool.eq_false_iff.mpr set]
  | register thread number =>
    rw [formatFlags_of_lt _ area.2, formatRegisters_register fits _ of.1 of.2, RegisterContext.storedBit]
  | carryFlag thread =>
    rw [Finset.mem_singleton.mp bit, Field.rawIndex, formatFlags_flags _ of]
    exact (flags_getLsbD ..).1
  | zeroFlag thread =>
    rw [Finset.mem_singleton.mp bit, Field.rawIndex, formatFlags_flags _ of]
    exact (flags_getLsbD ..).2

/-- Formatting writes no word without a field. -/
theorem formatContext_of_forall_ne (fits : Fits dpu) (buffer : Nat → BitVec 32) {address : Nat}
    (other : ∀ field : Field, field.Of dpu → field.rawIndex ≠ address) :
    formatContext dpu context buffer address = buffer address := by
  rw [formatContext_eq, formatFlags_of_forall_ne _ fun thread inside => other (.carryFlag thread) inside,
    formatRegisters_of_forall_ne _ ?_, formatAtomics_of_forall_ne _ fun bit inside => other (.atomicBit bit) inside]
  rintro ⟨thread, number⟩ member
  obtain ⟨inside, small, half⟩ := (mem_registerPairs fits.even).mp member
  have even := fits.even
  have low := other (.register thread number) ⟨inside, small⟩
  have high := other (.register thread (number + 1)) ⟨inside, by omega⟩
  rw [Field.rawIndex, if_pos half] at low
  rw [Field.rawIndex, if_neg (by omega)] at high
  exact ⟨high, low⟩

/-- The loop of the registers, which reads a pair in each turn. -/
def parseRegisters (dpu : RoutineDpu) (raw : Nat → BitVec 32) (registers : Nat → BitVec 32) : Nat → BitVec 32 :=
  dpu.registerPairs.foldl (fun registers (thread, register) =>
    let even := thread * dpu.nrOfWorkRegistersPerThread + register
    let odd := oddRegisterContextIndex thread register
    Function.update (Function.update registers even (raw (odd + 1))) (even + 1) (raw odd)) registers

/-- A register of the context belongs to one thread. -/
theorem register_index_inj {count thread register thread' register' : Nat} (small : register < count)
    (small' : register' < count) (same : thread * count + register = thread' * count + register') :
    thread = thread' ∧ register = register' := by
  have quotient := congrArg (· / count) same
  have remainder := congrArg (· % count) same
  have positive : 0 < count := by omega
  simp only [Nat.mul_comm _ count, Nat.mul_add_div positive, Nat.div_eq_of_lt small,
    Nat.div_eq_of_lt small'] at quotient
  simp only [Nat.mul_add_mod', Nat.mod_eq_of_lt small, Nat.mod_eq_of_lt small'] at remainder
  exact ⟨quotient, remainder⟩

theorem parseRegisters_register (even : dpu.nrOfWorkRegistersPerThread % 2 = 0) (registers : Nat → BitVec 32)
    {thread register : Nat} (inside : thread < dpu.nrOfThreads)
    (small : register < dpu.nrOfWorkRegistersPerThread) :
    parseRegisters dpu raw registers (thread * dpu.nrOfWorkRegistersPerThread + register) =
      raw (Field.register thread register).rawIndex := by
  rw [Field.rawIndex_register]
  refine Views.foldl_writes (fun registers : Nat → BitVec 32 =>
    registers (thread * dpu.nrOfWorkRegistersPerThread + register))
    (pair_mem even inside small) (fun registers => ?_) (fun registers other member differ => ?_) registers
  · dsimp only
    rw [update_update_succ]
    rcases Nat.mod_two_eq_zero_or_one register with half | half
    · rw [half, if_neg (by omega), if_pos (by omega), Nat.sub_zero]
    · rw [half, if_pos (by omega), Nat.sub_self, Nat.add_zero]
  · obtain ⟨thread', register'⟩ := other
    obtain ⟨inside', small', even'⟩ := (mem_registerPairs even).mp member
    dsimp only
    rw [update_update_succ, if_neg fun same => ?_, if_neg fun same => ?_]
    · obtain ⟨rfl, rfl⟩ := register_index_inj small small' same
      exact differ (by rw [even', Nat.sub_zero])
    · obtain ⟨rfl, rfl⟩ := register_index_inj small (show register' + 1 < _ by omega) same
      exact differ (by rw [show register' + 1 - (register' + 1) % 2 = register' by omega])

/-- A word is masked with a single bit. -/
theorem masked_bit (word : BitVec 32) {k : Nat} (inside : k < 32) :
    decide (word &&& BitVec.twoPow 32 k ≠ 0#32) = word.getLsbD k := by
  have clear := PackedBits.and_twoPow_eq_zero (x := word) inside
  cases bit : word.getLsbD k with
  | false => simp [clear.mpr bit]
  | true =>
    refine decide_eq_true fun zero => ?_
    simp [clear.mp zero] at bit

/-- A byte whose bits are all the same. -/
theorem masked_byte (word : BitVec 32) {q : Nat} {value : Bool}
    (bits : ∀ k ∈ Finset.Ico (8 * q) (8 * q + 8), word.getLsbD k = value) :
    decide (word >>> (8 * q) &&& 0xff#32 ≠ 0#32) = value := by
  rw [masked_eq (d := 8) word 0xff#32 q rfl (by decide)]
  have same (b : Nat) (small : b < 8) : (field 8 word q).getLsbD b = value := by
    rw [field_getLsbD, decide_eq_true small, Bool.true_and]
    exact bits _ (Finset.mem_Ico.mpr (by omega))
  cases value with
  | false =>
    have clear : field 8 word q = 0#8 :=
      BitVec.eq_of_getLsbD_eq fun b small => by rw [same b small, BitVec.getLsbD_zero]
    simp [clear]
  | true =>
    refine decide_eq_true fun zero => ?_
    have bit : ((field 8 word q).setWidth 32).getLsbD 0 = false := by rw [zero, BitVec.getLsbD_zero]
    rw [BitVec.getLsbD_setWidth, same 0 (by decide)] at bit
    contradiction

/-- Parsing finds what is stored. -/
theorem parseContext_of_stores (even : dpu.nrOfWorkRegistersPerThread % 2 = 0) (stored : Stores dpu raw context)
    (receiver : RegisterContext) : SameFields dpu (parseContext dpu raw receiver) context where
  atomicRegister bit inside := by
    refine (if_pos inside).trans (masked_byte _ fun k member => ?_)
    exact stored (.atomicBit bit) inside k member
  registers thread inside register small := by
    refine (parseRegisters_register even receiver.registers inside small).trans ?_
    exact BitVec.eq_of_getLsbD_eq fun k below =>
      stored (.register thread register) ⟨inside, small⟩ k (Finset.mem_range.mpr below)
  carryFlags thread inside := by
    refine (if_pos inside).trans ((masked_bit _ (k := 0) (by decide)).trans ?_)
    exact stored (.carryFlag thread) inside 0 (Finset.mem_singleton_self 0)
  zeroFlags thread inside := by
    refine (if_pos inside).trans ((masked_bit _ (k := 1) (by decide)).trans ?_)
    exact stored (.zeroFlag thread) inside 1 (Finset.mem_singleton_self 1)

/-- Parsing reads no word without a field. -/
theorem parseContext_congr (even : dpu.nrOfWorkRegistersPerThread % 2 = 0) {other : Nat → BitVec 32}
    (same : ∀ field : Field, field.Of dpu → raw field.rawIndex = other field.rawIndex)
    (receiver : RegisterContext) :
    parseContext dpu raw receiver = parseContext dpu other receiver := by
  have atomics (bit : Nat) (inside : bit < dpu.nrOfAtomicBits) : raw (bit / 4) = other (bit / 4) :=
    same (.atomicBit bit) inside
  have flags (thread : Nat) (inside : thread < dpu.nrOfThreads) :
      raw (flagsIndex thread) = other (flagsIndex thread) :=
    same (.carryFlag thread) inside
  have registers : parseRegisters dpu raw receiver.registers = parseRegisters dpu other receiver.registers := by
    refine List.foldl_ext _ _ _ fun registers (thread, register) member => ?_
    obtain ⟨inside, small, half⟩ := (mem_registerPairs even).mp member
    have low := same (.register thread register) ⟨inside, small⟩
    have high := same (.register thread (register + 1)) ⟨inside, by omega⟩
    rw [Field.rawIndex, if_pos half] at low
    rw [Field.rawIndex, if_neg (by omega), Nat.add_sub_cancel] at high
    simp only [low, high]
  refine (RegisterContext.mk.injEq ..).mpr ⟨?_, registers, ?_, ?_, rfl⟩
  · funext bit
    split_ifs with inside
    · rw [atomics bit inside]
    · rfl
  · funext thread
    split_ifs with inside
    · exact congrArg (fun flags : BitVec 32 => decide (flags &&& 1#32 ≠ 0#32)) (flags thread inside)
    · rfl
  · funext thread
    split_ifs with inside
    · exact congrArg (fun flags : BitVec 32 => decide (flags &&& 2#32 ≠ 0#32)) (flags thread inside)
    · rfl

/-- A context survives being formatted and parsed, inside the context area and with
storage of its own for every field. -/
structure ContextLayout (dpu : RoutineDpu) : Prop where
  roundTrip : ∀ context buffer receiver,
    SameFields dpu (parseContext dpu (formatContext dpu context buffer) receiver) context
  stores : ∀ context buffer, Stores dpu (formatContext dpu context buffer) context
  inside : ∀ field : Field, field.Of dpu → field.rawIndex < contextSizeInWords
  apart : ∀ field other : Field, field.Of dpu → other.Of dpu → field ≠ other → Disjoint field.storage other.storage
  writesFields : ∀ context buffer address, (∀ field : Field, field.Of dpu → field.rawIndex ≠ address) →
    formatContext dpu context buffer address = buffer address
  readsFields : ∀ raw other receiver, (∀ field : Field, field.Of dpu → raw field.rawIndex = other field.rawIndex) →
    parseContext dpu raw receiver = parseContext dpu other receiver

theorem contextLayout (fits : Fits dpu) : ContextLayout dpu where
  roundTrip context buffer := parseContext_of_stores fits.even (formatContext_stores fits context buffer)
  stores := formatContext_stores fits
  inside _ := Field.rawIndex_lt fits
  apart _ _ := Field.storage_disjoint fits
  writesFields _ buffer _ := formatContext_of_forall_ne fits buffer
  readsFields _ _ receiver same := parseContext_congr fits.even same receiver

/-- All threads, registers and atomic bits that the area has room for. -/
theorem contextLayout_full :
    ContextLayout ⟨0, true, DPU_NR_ATOMIC_BITS, DebugFaults.DPU_NR_THREADS, DPU_NR_WORK_REGS⟩ :=
  contextLayout ⟨Nat.le_refl _, Nat.le_refl _, rfl, Nat.le_refl _⟩

end Upmem.DebugRoutine
