import Upmem.Lib.FreeList
import Upmem.Lib.PowerMasks
import Mathlib.Data.BitVec
import Mathlib.Data.List.Nodup
import Mathlib.Logic.Relation

namespace Upmem.FsbAllocator
open FreeList

/-- The length of `wram` in `dpu.lds`. -/
def WRAM_SIZE : Nat := 64 * 1024

/-- The words of WRAM. -/
abbrev Wram := Nat → BitVec 32

def lw (wram : Wram) (address : BitVec 32) : BitVec 32 := wram (address.toNat / 4)

def sw (wram : Wram) (address value : BitVec 32) : Wram := Function.update wram (address.toNat / 4) value

/-- A store that faults outside of WRAM. -/
def store (wram : Wram) (address value : BitVec 32) : Option Wram :=
  if address.toNat + 4 ≤ WRAM_SIZE then some (sw wram address value) else none

/-- `mem_alloc`: the memory and the heap pointer behind it. It faults when the sum has
a carry, or when the last byte is outside of WRAM. -/
def memAlloc (heapPointer size : BitVec 32) : Option (BitVec 32 × BitVec 32) :=
  if size = 0#32 then some (heapPointer, heapPointer)
  else
    let pointer := (heapPointer + 7#32) &&& ~~~7#32
    let newHeapPointer := pointer + size
    if 2 ^ 32 ≤ pointer.toNat + size.toNat then none
    else if WRAM_SIZE ≤ (newHeapPointer - 1#32).toNat then none
    else some (pointer, newHeapPointer)

/-- The size of the blocks. -/
def roundedSize (blockSize : BitVec 32) : BitVec 32 :=
  if blockSize = 0#32 then 8#32 else (blockSize + 7#32) &&& ~~~7#32

/-- The loop of `fsb_alloc`. -/
def initBlocks (blockSize : BitVec 32) : Nat → Wram → BitVec 32 → Option (Wram × BitVec 32)
  | 0, wram, memory => some (wram, memory)
  | left + 1, wram, memory =>
    match store wram memory (memory + blockSize) with
    | some wram => initBlocks blockSize left wram (memory + blockSize)
    | none => none

/-- What `fsb_alloc` returns, with WRAM and the heap pointer. -/
structure Allocated where
  allocator : BitVec 32
  wram : Wram
  heapPointer : BitVec 32

/-- `fsb_alloc`. There is no result when it faults. -/
def fsbAlloc (heapPointer : BitVec 32) (wram : Wram) (blockSize nbOfBlocks : BitVec 32) : Option Allocated :=
  if 0xFFFFFFF8#32 < blockSize then none
  else do
    let blockSize := roundedSize blockSize
    let memorySpaceToAllocate := blockSize * nbOfBlocks + 4#32
    let (firstBlock, heapPointer) ← memAlloc heapPointer memorySpaceToAllocate
    let (wram, memory) ← initBlocks blockSize (nbOfBlocks - 1#32).toNat wram firstBlock
    let wram ← store wram memory 0#32
    let freePtr := memory + blockSize
    let wram ← store wram freePtr firstBlock
    return ⟨freePtr, wram, heapPointer⟩

/-- `fsb_get`. -/
def fsbGet (wram : Wram) (allocator : BitVec 32) : BitVec 32 × Wram :=
  let result := lw wram allocator
  if result = 0#32 then (0#32, wram)
  else
    let next := lw wram result
    (result, sw wram allocator next)

/-- `fsb_free`. -/
def fsbFree (wram : Wram) (allocator ptr : BitVec 32) : Wram :=
  let nextFree := lw wram allocator
  sw (sw wram ptr nextFree) allocator ptr

/-- WRAM, and the blocks that are owned. -/
structure Owners where
  wram : Wram
  owned : List Nat

/-- A call, or a write of an owner anywhere into its block. -/
inductive Step (allocator : BitVec 32) (size : Nat) : Owners → Owners → Prop
  | get {s result wram} : fsbGet s.wram allocator = (result, wram) → result ≠ 0#32 →
      Step allocator size s ⟨wram, result.toNat :: s.owned⟩
  | getNull {s wram} : fsbGet s.wram allocator = (0#32, wram) → Step allocator size s ⟨wram, s.owned⟩
  | free {s} {ptr : BitVec 32} : ptr.toNat ∈ s.owned →
      Step allocator size s ⟨fsbFree s.wram allocator ptr, s.owned.erase ptr.toNat⟩
  | write {s wram block} : block ∈ s.owned →
      (∀ word, 4 * word < block ∨ block + size ≤ 4 * word → wram word = s.wram word) →
      Step allocator size s ⟨wram, s.owned⟩

/-- The area that `fsb_alloc` has reserved. -/
structure Area where
  first : Nat
  size : Nat
  count : Nat
  positive : 0 < first
  aligned : first % 8 = 0
  sizeAligned : size % 8 = 0
  large : 8 ≤ size
  some : 0 < count
  inside : first + count * size + 4 ≤ WRAM_SIZE

namespace Area
variable (area : Area)

def block (k : Nat) : Nat := area.first + k * area.size

def blocks : List Nat := (List.range area.count).map area.block

/-- The place of the free pointer. -/
def freePtr : Nat := area.first + area.count * area.size

/-- The blocks are shared between the owners and the list. -/
def Holds (allocator : BitVec 32) (s : Owners) : Prop :=
  Shares (fun block => (s.wram (block / 4)).toNat) (lw s.wram allocator).toNat area.blocks s.owned

variable {area}

theorem mem_blocks {block : Nat} : block ∈ area.blocks ↔ ∃ k < area.count, area.block k = block := by
  simp [blocks]

theorem block_aligned (k : Nat) : area.block k % 8 = 0 := by
  have multiple : k * area.size % 8 = 0 := by rw [Nat.mul_mod, area.sizeAligned, Nat.mul_zero, Nat.zero_mod]
  have first := area.aligned
  unfold block
  omega

theorem block_succ (k : Nat) : area.block (k + 1) = area.block k + area.size := by
  unfold block
  rw [Nat.succ_mul, Nat.add_assoc]

theorem block_le {k n : Nat} (le : k ≤ n) : area.block k ≤ area.block n :=
  Nat.add_le_add_left (Nat.mul_le_mul_right _ le) _

/-- One of two blocks ends before the other begins. -/
theorem block_apart {k n : Nat} (different : k ≠ n) :
    area.block k + area.size ≤ area.block n ∨ area.block n + area.size ≤ area.block k := by
  rcases Nat.lt_or_gt_of_ne different with less | more
  · exact Or.inl (@block_succ area k ▸ block_le less)
  · exact Or.inr (@block_succ area n ▸ block_le more)

theorem block_injective : Function.Injective area.block := by
  intro k n same
  by_contra different
  have large := area.large
  have apart := @block_apart area k n different
  omega

theorem blocks_nodup : area.blocks.Nodup := List.nodup_range.map block_injective

/-- A block is 8 bytes aligned and lies before the free pointer. -/
theorem block_inside {block : Nat} (member : block ∈ area.blocks) :
    block % 8 = 0 ∧ 0 < block ∧ area.first ≤ block ∧ block + area.size ≤ area.freePtr := by
  obtain ⟨k, below, rfl⟩ := mem_blocks.mp member
  have last : area.block (k + 1) ≤ area.block area.count := block_le below
  have first : area.block 0 ≤ area.block k := block_le (Nat.zero_le k)
  rw [block_succ] at last
  have positive := area.positive
  refine ⟨block_aligned k, ?_, ?_, last⟩
  · unfold block at *; omega
  · unfold block at *; omega

/-- Blocks that are not the same do not overlap. -/
theorem blocks_apart {block other : Nat} (member : block ∈ area.blocks) (member' : other ∈ area.blocks)
    (different : block ≠ other) : block + area.size ≤ other ∨ other + area.size ≤ block := by
  obtain ⟨k, _, rfl⟩ := mem_blocks.mp member
  obtain ⟨n, _, rfl⟩ := mem_blocks.mp member'
  exact block_apart fun same => different (congrArg _ same)

theorem freePtr_aligned : area.freePtr % 8 = 0 := block_aligned area.count

section Words
variable {wram : Wram} {allocator value : BitVec 32} (place : allocator.toNat = area.freePtr)
include place

/-- The free pointer is in no block. -/
theorem load_sw_freePtr {block : Nat} (member : block ∈ area.blocks) :
    sw wram allocator value (block / 4) = wram (block / 4) := by
  obtain ⟨_, _, _, before⟩ := block_inside member
  have large := area.large
  exact Function.update_of_ne (by rw [place]; omega) _ _

omit place in
theorem lw_sw : lw (sw wram allocator value) allocator = value := Function.update_self _ _ _

/-- A write of the free pointer keeps what is free, if it keeps the head. -/
theorem holds_sw {s : Owners} {owned : List Nat}
    (shares : Shares (fun block => (wram (block / 4)).toNat) value.toNat area.blocks owned)
    (after : s = ⟨sw wram allocator value, owned⟩) : area.Holds allocator s := by
  subst after
  rw [Holds, lw_sw]
  exact shares.congr blocks_nodup fun block member _ => congrArg BitVec.toNat (load_sw_freePtr place member)

end Words

theorem holds_get {allocator result : BitVec 32} {s : Owners} {wram : Wram} (place : allocator.toNat = area.freePtr)
    (holds : area.Holds allocator s) (gets : fsbGet s.wram allocator = (result, wram)) (found : result ≠ 0#32) :
    area.Holds allocator ⟨wram, result.toNat :: s.owned⟩ := by
  simp only [fsbGet] at gets
  split_ifs at gets with none_
  · exact absurd (congrArg Prod.fst gets).symm found
  · cases gets
    have head : (lw s.wram allocator).toNat ≠ 0 := fun zero => none_ (BitVec.eq_of_toNat_eq zero)
    exact holds_sw place (Shares.take holds head).2 rfl

theorem holds_getNull {allocator : BitVec 32} {s : Owners} {wram : Wram} (holds : area.Holds allocator s)
    (gets : fsbGet s.wram allocator = (0#32, wram)) : area.Holds allocator ⟨wram, s.owned⟩ := by
  simp only [fsbGet] at gets
  split_ifs at gets with none_
  · cases gets
    exact holds
  · exact absurd (congrArg Prod.fst gets) none_

theorem holds_free {allocator ptr : BitVec 32} {s : Owners} (place : allocator.toNat = area.freePtr)
    (holds : area.Holds allocator s) (member : ptr.toNat ∈ s.owned) :
    area.Holds allocator ⟨fsbFree s.wram allocator ptr, s.owned.erase ptr.toNat⟩ := by
  obtain ⟨aligned, positive, _, _⟩ := block_inside (Shares.owned_mem holds member)
  refine holds_sw place (Shares.give holds blocks_nodup member positive.ne' ?_ fun other inside different => ?_) rfl
  · exact congrArg BitVec.toNat (Function.update_self _ _ _)
  · have otherAligned := (block_inside inside).1
    exact congrArg BitVec.toNat (Function.update_of_ne (by omega) _ _)

theorem holds_write {allocator : BitVec 32} {s : Owners} {wram : Wram} {block : Nat}
    (place : allocator.toNat = area.freePtr)
    (holds : area.Holds allocator s) (member : block ∈ s.owned)
    (same : ∀ word, 4 * word < block ∨ block + area.size ≤ 4 * word → wram word = s.wram word) :
    area.Holds allocator ⟨wram, s.owned⟩ := by
  have inside := Shares.owned_mem holds member
  have before := (block_inside inside).2.2.2
  have aligned := area.freePtr_aligned
  have head : lw wram allocator = lw s.wram allocator := same _ (Or.inr (by rw [place]; omega))
  rw [Holds, head]
  refine Shares.congr holds blocks_nodup fun other otherInside free => ?_
  have otherAligned := (block_inside otherInside).1
  have apart := blocks_apart otherInside inside (by rintro rfl; exact free member)
  have large := area.large
  exact congrArg BitVec.toNat (same _ (by omega))

theorem holds_step {allocator : BitVec 32} {s t : Owners} (place : allocator.toNat = area.freePtr)
    (holds : area.Holds allocator s) (step : Step allocator area.size s t) : area.Holds allocator t := by
  cases step with
  | get gets found => exact holds_get place holds gets found
  | getNull gets => exact holds_getNull holds gets
  | free member => exact holds_free place holds member
  | write member same => exact holds_write place holds member same

theorem holds_run {allocator : BitVec 32} {s t : Owners} (place : allocator.toNat = area.freePtr)
    (holds : area.Holds allocator s) (run : Relation.ReflTransGen (Step allocator area.size) s t) :
    area.Holds allocator t := by
  induction run with
  | refl => exact holds
  | tail _ step ih => exact holds_step place ih step

/-- The blocks one after the other are a list. -/
theorem threaded_blocks {load : Nat → Nat}
    (next : ∀ k, k + 1 < area.count → load (area.block k) = area.block (k + 1))
    (last : load (area.block (area.count - 1)) = 0) (left k : Nat) (whole : k + (left + 1) = area.count) :
    Threaded load (area.block k) ((List.range' k (left + 1)).map area.block) := by
  have valid (k : Nat) : area.block k ≠ 0 := by
    have positive := area.positive
    unfold block
    omega
  induction left generalizing k with
  | zero =>
    refine ⟨rfl, valid k, ?_⟩
    rw [show k = area.count - 1 by omega]
    exact last
  | succ left ih =>
    refine ⟨rfl, valid k, ?_⟩
    rw [next k (by omega)]
    exact ih (k + 1) (by omega)

end Area

section Init
variable {blockSize : BitVec 32} {wram wram' : Wram} {memory last : BitVec 32}

theorem store_some {address value : BitVec 32} :
    store wram address value = some wram' ↔ address.toNat + 4 ≤ WRAM_SIZE ∧ sw wram address value = wram' := by
  unfold store
  split_ifs with inside
  · simp [inside]
  · simp [inside]

theorem initBlocks_succ {left : Nat} (done : initBlocks blockSize (left + 1) wram memory = some (wram', last)) :
    memory.toNat + 4 ≤ WRAM_SIZE ∧
      initBlocks blockSize left (sw wram memory (memory + blockSize))
    (memory + blockSize) = some (wram', last) := by
  rw [initBlocks] at done
  split at done
  · rename_i stored
    obtain ⟨inside, rfl⟩ := store_some.mp stored
    exact ⟨inside, done⟩
  · cases done

/-- Where the loop ends, if all of its stores are in WRAM: a size from 2^31 on goes backwards. -/
theorem initBlocks_last {left : Nat} (done : initBlocks blockSize left wram memory = some (wram', last))
    (inside : last.toNat + 4 ≤ WRAM_SIZE) : memory.toNat + 4 ≤ WRAM_SIZE ∧
      ((blockSize.toNat < 2 ^ 31 ∧ last.toNat = memory.toNat + left * blockSize.toNat) ∨
        (2 ^ 31 ≤ blockSize.toNat ∧ memory.toNat = last.toNat + left * (2 ^ 32 - blockSize.toNat))) := by
  induction left generalizing wram memory with
  | zero =>
    cases done
    refine ⟨inside, ?_⟩
    omega
  | succ left ih =>
    obtain ⟨here, rest⟩ := initBlocks_succ done
    obtain ⟨next, ends⟩ := ih rest
    have word := blockSize.isLt
    rw [WRAM_SIZE] at here next
    rw [BitVec.toNat_add] at next ends
    refine ⟨here, ?_⟩
    rw [Nat.succ_mul, Nat.succ_mul]
    omega

/-- The loop links each block with the next one, and leaves what is before them. -/
theorem initBlocks_links {left : Nat} (done : initBlocks blockSize left wram memory = some (wram', last))
    (large : 8 ≤ blockSize.toNat) (small : memory.toNat + left * blockSize.toNat < 2 ^ 32) :
    (∀ k < left, (wram' ((memory.toNat + k * blockSize.toNat) / 4)).toNat = memory.toNat +
      (k + 1) * blockSize.toNat) ∧
      ∀ word < memory.toNat / 4, wram' word = wram word := by
  induction left generalizing wram memory with
  | zero =>
    cases done
    exact ⟨fun k below => absurd below (Nat.not_lt_zero k), fun _ _ => rfl⟩
  | succ left ih =>
    obtain ⟨_, rest⟩ := initBlocks_succ done
    rw [Nat.succ_mul] at small
    have next : (memory + blockSize).toNat = memory.toNat + blockSize.toNat := by
      rw [BitVec.toNat_add]
      omega
    obtain ⟨links, before⟩ := ih rest (by rw [next]; omega)
    rw [next] at links before
    refine ⟨fun k below => ?_, fun word less => ?_⟩
    · cases k with
      | zero =>
        rw [Nat.zero_mul, Nat.add_zero, before _ (by omega), Nat.zero_add, Nat.one_mul, ← next]
        exact congrArg BitVec.toNat (Function.update_self _ _ _)
      | succ k =>
        have link := links k (by omega)
        rw [Nat.succ_mul, Nat.succ_mul (k + 1)]
        rw [Nat.add_right_comm, Nat.add_assoc memory.toNat] at link
        rw [link]
        omega
    · rw [before word (by omega)]
      exact Function.update_of_ne (by omega) _ _

end Init

section Rounding

/-- Rounding down to a multiple of 8. -/
theorem toNat_and_not_seven (n : BitVec 32) : (n &&& ~~~7#32).toNat = n.toNat / 8 * 8 :=
  PowerMasks.toNat_and_not_mask (k := 3) n 7#32 rfl

theorem roundedSize_spec {blockSize : BitVec 32} (valid : ¬0xFFFFFFF8#32 < blockSize) :
    (roundedSize blockSize).toNat % 8 = 0 ∧ 8 ≤ (roundedSize blockSize).toNat ∧
      blockSize.toNat ≤ (roundedSize blockSize).toNat := by
  have bound : blockSize.toNat ≤ 0xFFFFFFF8 := not_lt.mp valid
  unfold roundedSize
  split_ifs with zero
  · rw [zero]
    decide
  · have positive : blockSize.toNat ≠ 0 := fun same => zero (BitVec.eq_of_toNat_eq same)
    have sum : (blockSize + 7#32).toNat = blockSize.toNat + 7 := by
      rw [BitVec.toNat_add, BitVec.toNat_ofNat]
      omega
    rw [toNat_and_not_seven, sum]
    omega

theorem memAlloc_some {heapPointer size memory newHeapPointer : BitVec 32} (some_ : size ≠ 0#32)
    (layout : heapPointer.toNat ≤ WRAM_SIZE) (done : memAlloc heapPointer size = some (memory, newHeapPointer)) :
    heapPointer.toNat ≤ memory.toNat ∧ memory.toNat % 8 = 0 ∧ newHeapPointer.toNat = memory.toNat + size.toNat ∧
      newHeapPointer.toNat ≤ WRAM_SIZE := by
  simp only [memAlloc, if_neg some_] at done
  split_ifs at done with carry outside
  cases done
  have up : (heapPointer + 7#32).toNat = heapPointer.toNat + 7 := by
    rw [WRAM_SIZE] at layout
    rw [BitVec.toNat_add, BitVec.toNat_ofNat]
    omega
  have sum : ((heapPointer + 7#32 &&& ~~~7#32) + size).toNat = (heapPointer + 7#32 &&& ~~~7#32).toNat +
      size.toNat := by
    rw [BitVec.toNat_add]
    omega
  have positive : size.toNat ≠ 0 := fun same => some_ (BitVec.eq_of_toNat_eq same)
  have last : ((heapPointer + 7#32 &&& ~~~7#32) + size - 1#32).toNat =
      ((heapPointer + 7#32 &&& ~~~7#32) + size).toNat - 1 := by
    rw [BitVec.toNat_sub, BitVec.toNat_ofNat]
    omega
  rw [toNat_and_not_seven, up] at *
  omega

end Rounding

/-- Where all stores of `fsb_alloc` are in WRAM, and the end of the area too, no product has wrapped. -/
theorem area_of_stores {size nbOfBlocks memory last space : BitVec 32} (aligned : size.toNat % 8 = 0)
    (large : 8 ≤ size.toNat) (product : space.toNat = (size.toNat * nbOfBlocks.toNat + 4) % 2 ^ 32)
    (inside : memory.toNat + space.toNat ≤ WRAM_SIZE)
    (ending : (size.toNat < 2 ^ 31 ∧ last.toNat = memory.toNat + (nbOfBlocks - 1#32).toNat * size.toNat) ∨
      (2 ^ 31 ≤ size.toNat ∧ memory.toNat = last.toNat + (nbOfBlocks - 1#32).toNat * (2 ^ 32 - size.toNat)))
    (lastInside : last.toNat + 4 ≤ WRAM_SIZE) (freeInside : (last + size).toNat + 4 ≤ WRAM_SIZE) :
    0 < nbOfBlocks.toNat ∧ last.toNat = memory.toNat + (nbOfBlocks.toNat - 1) * size.toNat ∧
      memory.toNat + nbOfBlocks.toNat * size.toNat + 4 ≤ WRAM_SIZE := by
  have word := size.isLt
  have lastWord := last.isLt
  rw [WRAM_SIZE] at *
  rw [BitVec.toNat_add] at freeInside
  rw [BitVec.toNat_sub, BitVec.toNat_ofNat] at ending
  obtain zero | ⟨turns, succ⟩ : nbOfBlocks.toNat = 0 ∨ ∃ turns, nbOfBlocks.toNat = turns + 1 := by
    cases nbOfBlocks.toNat with
    | zero => exact Or.inl rfl
    | succ turns => exact Or.inr ⟨turns, rfl⟩
  · -- the loop would take 2^32 - 1 turns
    have loop : (2 ^ 32 - 1 % 2 ^ 32 + nbOfBlocks.toNat) % 2 ^ 32 = 2 ^ 32 - 1 := by omega
    rw [loop] at ending
    omega
  · have bound := nbOfBlocks.isLt
    have loop : (2 ^ 32 - 1 % 2 ^ 32 + nbOfBlocks.toNat) % 2 ^ 32 = turns := by omega
    rw [loop] at ending
    rw [succ, Nat.mul_succ, Nat.mul_comm] at product
    rw [succ, Nat.add_sub_cancel, Nat.succ_mul]
    rcases ending with ⟨_, forward⟩ | ⟨_, backward⟩
    · omega
    · -- the space would be almost 2^32
      have split : turns * size.toNat + turns * (2 ^ 32 - size.toNat) = turns * 2 ^ 32 := by
        rw [← Nat.mul_add, Nat.add_sub_cancel' word.le]
      omega

/-- What `fsb_alloc` has set up when it returns. -/
theorem fsbAlloc_area {heapPointer blockSize nbOfBlocks : BitVec 32} {wram : Wram} {allocated : Allocated}
    (layout : 0 < heapPointer.toNat ∧ heapPointer.toNat ≤ WRAM_SIZE)
    (returns : fsbAlloc heapPointer wram blockSize nbOfBlocks = some allocated) :
    ∃ (area : Area) (memory : BitVec 32),
      memAlloc heapPointer (roundedSize blockSize * nbOfBlocks + 4#32) = some (memory, allocated.heapPointer) ∧
      area.first = memory.toNat ∧ area.size = (roundedSize blockSize).toNat ∧ area.count = nbOfBlocks.toNat ∧
      blockSize.toNat ≤ area.size ∧ allocated.allocator.toNat = area.freePtr ∧
      allocated.heapPointer.toNat = area.freePtr + 4 ∧ area.Holds allocated.allocator ⟨allocated.wram, []⟩ := by
  unfold fsbAlloc at returns
  split_ifs at returns with valid
  obtain ⟨aligned, large, fits⟩ := roundedSize_spec valid
  obtain ⟨⟨memory, newHeapPointer⟩, reserved, returns⟩ := Option.bind_eq_some_iff.mp returns
  obtain ⟨⟨linked, last⟩, loop, returns⟩ := Option.bind_eq_some_iff.mp returns
  obtain ⟨ended, lastStore, returns⟩ := Option.bind_eq_some_iff.mp returns
  obtain ⟨wram', headStore, returns⟩ := Option.bind_eq_some_iff.mp returns
  cases returns
  obtain ⟨lastInside, rfl⟩ := store_some.mp lastStore
  obtain ⟨freeInside, rfl⟩ := store_some.mp headStore
  generalize roundedSize blockSize = size at *
  have product : (size * nbOfBlocks + 4#32).toNat = (size.toNat * nbOfBlocks.toNat + 4) % 2 ^ 32 := by
    rw [BitVec.toNat_add, BitVec.toNat_mul, BitVec.toNat_ofNat]
    omega
  have multiple : size.toNat * nbOfBlocks.toNat % 8 = 0 := by rw [Nat.mul_mod, aligned, Nat.zero_mul, Nat.zero_mod]
  have some_ : size * nbOfBlocks + 4#32 ≠ 0#32 := by
    intro zero
    rw [zero, BitVec.toNat_ofNat] at product
    omega
  obtain ⟨after, memoryAligned, ends, inside⟩ := memAlloc_some some_ layout.2 reserved
  obtain ⟨_, ending⟩ := initBlocks_last loop lastInside
  obtain ⟨count, lastPlace, whole⟩ :=
    area_of_stores aligned large product (ends ▸ inside) ending lastInside freeInside
  have turns : (nbOfBlocks - 1#32).toNat = nbOfBlocks.toNat - 1 := by
    have bound := nbOfBlocks.isLt
    rw [BitVec.toNat_sub, BitVec.toNat_ofNat]
    omega
  have positive : 0 < memory.toNat := by omega
  let area : Area :=
    ⟨memory.toNat, size.toNat, nbOfBlocks.toNat, positive, memoryAligned, aligned, large, count, whole⟩
  have succ : (nbOfBlocks.toNat - 1) * size.toNat + size.toNat = nbOfBlocks.toNat * size.toNat := by
    rw [← Nat.succ_mul, Nat.succ_eq_add_one, Nat.sub_add_cancel count]
  have small : memory.toNat + nbOfBlocks.toNat * size.toNat < 2 ^ 31 := by
    rw [WRAM_SIZE] at whole
    omega
  have place : (last + size).toNat = area.freePtr := by
    have sum : (last + size).toNat = memory.toNat + nbOfBlocks.toNat * size.toNat := by
      rw [BitVec.toNat_add]
      omega
    exact sum
  have spaceEq : (size * nbOfBlocks + 4#32).toNat = nbOfBlocks.toNat * size.toNat + 4 := by
    rw [product, Nat.mul_comm]
    omega
  refine ⟨area, memory, reserved, rfl, rfl, rfl, fits, place, by rw [ends, spaceEq]; rfl, ?_⟩
  obtain ⟨links, _⟩ := initBlocks_links loop large (by rw [turns]; omega)
  rw [turns] at links
  have lastBlock : last.toNat = area.block (area.count - 1) := lastPlace
  have threaded := @Area.threaded_blocks area (fun block => (sw linked last 0#32 (block / 4)).toNat) ?_ ?_
    (nbOfBlocks.toNat - 1) 0 (by show 0 + (nbOfBlocks.toNat - 1 + 1) = nbOfBlocks.toNat; omega)
  · refine Area.holds_sw (s := ⟨_, []⟩) place ?_ rfl
    refine ⟨area.blocks, ?_, List.Perm.refl _⟩
    have whole : area.blocks = (List.range' 0 (nbOfBlocks.toNat - 1 + 1)).map area.block := by
      rw [Nat.sub_add_cancel count, ← List.range_eq_range']
      rfl
    have first : area.block 0 = memory.toNat := by
      show memory.toNat + 0 * size.toNat = memory.toNat
      omega
    rw [whole, ← first]
    exact threaded
  · intro k below
    have apart := @Area.block_apart area k (area.count - 1) (by omega)
    have other : area.block k / 4 ≠ last.toNat / 4 := by
      have sizes : 8 ≤ area.size := large
      rw [lastBlock]
      omega
    have kept : sw linked last 0#32 (area.block k / 4) = linked (area.block k / 4) :=
      Function.update_of_ne other _ _
    have turn : k + 1 < nbOfBlocks.toNat := below
    exact (congrArg BitVec.toNat kept).trans (links k (by omega))
  · show (sw linked last 0#32 (area.block (area.count - 1) / 4)).toNat = 0
    rw [← lastBlock, sw, Function.update_self]
    rfl

/-- What holds of the blocks that are owned. -/
structure Sound (heapPointer blockSize nbOfBlocks : BitVec 32) (allocated : Allocated) (s : Owners) : Prop where
  large : blockSize.toNat ≤ (roundedSize blockSize).toNat
  inside : ∃ memory, memAlloc heapPointer (roundedSize blockSize * nbOfBlocks + 4#32) = some
    (memory, allocated.heapPointer) ∧
    ∀ block ∈ s.owned, memory.toNat ≤ block ∧ block + (roundedSize blockSize).toNat ≤ allocated.heapPointer.toNat
  aligned : ∀ block ∈ s.owned, block % 8 = 0
  disjoint : s.owned.Pairwise fun block other =>
    block + (roundedSize blockSize).toNat ≤ other ∨ other + (roundedSize blockSize).toNat ≤ block
  freePtr : ∀ block ∈ s.owned, block + (roundedSize blockSize).toNat ≤ allocated.allocator.toNat
  null : (fsbGet s.wram allocated.allocator).1 = 0#32 ↔ s.owned.length = nbOfBlocks.toNat

/-- In every state that is reached after `fsb_alloc` has returned. -/
theorem fsb_sound {heapPointer blockSize nbOfBlocks : BitVec 32} {wram : Wram} {allocated : Allocated} {s : Owners}
    (layout : 0 < heapPointer.toNat ∧ heapPointer.toNat ≤ WRAM_SIZE)
    (returns : fsbAlloc heapPointer wram blockSize nbOfBlocks = some allocated)
    (run : Relation.ReflTransGen (Step allocated.allocator (roundedSize blockSize).toNat) ⟨allocated.wram, []⟩ s) :
    Sound heapPointer blockSize nbOfBlocks allocated s := by
  obtain ⟨area, memory, reserved, first, size, count, fits, place, ends, start⟩ := fsbAlloc_area layout returns
  rw [← size] at run
  have holds := Area.holds_run place start run
  have inside {block : Nat} (member : block ∈ s.owned) := Area.block_inside (Shares.owned_mem holds member)
  refine ⟨size ▸ fits, ⟨memory, reserved, fun block member => ?_⟩, fun block member => (inside member).1, ?_,
    fun block member => ?_, ?_⟩
  · rw [← size, ends]
    have bounds := inside member
    omega
  · rw [← size]
    refine (Shares.owned_nodup holds Area.blocks_nodup).imp_of_mem fun member other different => ?_
    exact Area.blocks_apart (Shares.owned_mem holds member) (Shares.owned_mem holds other) different
  · rw [← size, place]
    exact (inside member).2.2.2
  · have null := Shares.null_iff holds
    have length : area.blocks.length = nbOfBlocks.toNat := by
      rw [Area.blocks, List.length_map, List.length_range, count]
    rw [← length, ← null]
    simp only [fsbGet]
    split_ifs with zero
    · exact iff_of_true rfl (congrArg BitVec.toNat zero)
    · exact iff_of_false zero fun same => zero (BitVec.eq_of_toNat_eq same)

/-- Two blocks of 16 bytes, of which the first is taken. -/
theorem fsb_sound_two : ∃ allocated s, fsbAlloc 8#32 (fun _ => 0#32) 13#32 2#32 = some allocated ∧ s.owned = [8] ∧
    Sound 8#32 13#32 2#32 allocated s :=
  ⟨_, _, rfl, rfl, fsb_sound (by decide) rfl (.single (.get rfl (by decide)))⟩

end Upmem.FsbAllocator
