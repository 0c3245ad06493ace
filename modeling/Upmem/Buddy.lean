import Upmem.Mask
import Upmem.Lib.BuddyTree
import Upmem.Lib.PackedBits
import Mathlib.Tactic.IntervalCases

namespace Upmem.Buddy
open BuddyTree PackedBits

/-- `__buddy_blocks`, and what lies behind it. -/
abbrev Blocks := Nat → BitVec 32

/-- What `buddy_init` sets once. -/
structure Heap where
  heapStart : Nat
  sizeOfHeap : BitVec 32
  maxPower : Nat
  numberOfLevels : Nat

def DEPTH_LEVELS : Nat := 3

def SHIFT_ADDRESS_TO_INDEX : Nat := 4

/-- `1 << amount`, with the amount modulo 32. -/
def shiftOne (amount : Nat) : BitVec 32 := 1#32 <<< (amount % 32)

def nextPowerOf2 (x : BitVec 32) : Nat :=
  let powerOf2 := 31 - x.clz.toNat
  if popcount x ≠ 1 then powerOf2 + 1 else powerOf2

/-- The word of a block among `__buddy_blocks`. -/
def realIndex (level index : Nat) : Nat :=
  if level < 5 then 0 else 2 ^ (level - 5) + index >>> 5

/-- How far the bits of a level are shifted in the first word. -/
def offset (level : Nat) : Nat := if level < 4 then 32 - 2 <<< level else 0

/-- `highlight_target_bit`. -/
def targetBit (level index : Nat) : BitVec 32 := shiftOne index <<< offset level

/-- `highlight_buddy_bit`. -/
def buddyBit (level index : Nat) : BitVec 32 :=
  (if (shiftOne index).clz.toNat % 2 = 0 then shiftOne index >>> 1 else shiftOne index <<< 1) <<< offset level

/-- `loaded_case_mask`. -/
def loadedCaseMask : Nat → BitVec 32
  | 0 => 0x40000000
  | 1 => 0x30000000
  | 2 => 0x0F000000
  | 3 => 0x00FF0000
  | 4 => 0x0000FFFF
  | _ => 0xFFFFFFFF

/-- A free block that has been found in a level: its word, its index and its bit. -/
structure Found where
  realIndex : Nat
  indexInLevel : Nat
  highlightTargetBit : BitVec 32

/-- Where two neighbours differ in a word, at the upper of them. -/
def pairs (loaded : BitVec 32) : BitVec 32 := ((loaded <<< 1) ^^^ loaded) &&& 0xAAAAAAAA#32

/-- The search of a level, with the words that are left and the index behind them. -/
def searchLevel (blocks : Blocks) (level : Nat) : Nat → Nat → Option Found
  | 0, _ => none
  | number + 1, indexInLevel =>
    let address := number + (1 <<< level) >>> 5
    let loaded := blocks address &&& loadedCaseMask level
    let pairs := pairs loaded
    if pairs ≠ 0#32 then
      let index := (if level < 5 then indexInLevel + 1 <<< level else indexInLevel) - pairs.clz.toNat - 1
      let target := targetBit level index
      some (if loaded &&& target = 0#32 then ⟨address, index - 1, target >>> 1⟩ else ⟨address, index, target⟩)
    else searchLevel blocks level number (indexInLevel - 32)

/-- The halving of a block, down to the level that is asked for. -/
def descend (blocks : Blocks) : (current index left : Nat) → Nat × Blocks
  | _, index, 0 => (index, blocks)
  | current, index, left + 1 =>
    let index := index <<< 1
    let word := realIndex current index
    descend (Function.update blocks word (blocks word - targetBit current index)) (current + 1) index left

/-- The search of the levels from one on upwards, by how many are left. -/
def searchLevels (blocks : Blocks) (blocksLevel : Nat) : Nat → Option (Nat × Blocks)
  | 0 => none
  | current + 1 =>
    match searchLevel blocks current (if current < 5 then 1 else (1 <<< current) >>> 5) (1 <<< current) with
    | some found =>
      some (descend (Function.update blocks found.realIndex (blocks found.realIndex - found.highlightTargetBit))
        (current + 1) found.indexInLevel (blocksLevel - current))
    | none => searchLevels blocks blocksLevel current

/-- The level of the blocks of a size. -/
def Heap.blocksLevel (heap : Heap) (size : BitVec 32) : Nat :=
  let blocksLevel := heap.maxPower - nextPowerOf2 size
  if blocksLevel ≥ heap.numberOfLevels then heap.numberOfLevels - 1 else blocksLevel

/-- `safe_buddy_alloc`: a pointer if it is not `NULL`, and `__buddy_blocks`. -/
def Heap.safeBuddyAlloc (heap : Heap) (blocks : Blocks) (size : BitVec 32) : Option Nat × Blocks :=
  if size = 0#32 ∨ size > heap.sizeOfHeap then (none, blocks)
  -- the level is negative, and no level is searched
  else if heap.maxPower < nextPowerOf2 size then (none, blocks)
  else
    let blocksLevel := heap.blocksLevel size
    match searchLevels blocks blocksLevel (blocksLevel + 1) with
    | some (index, blocks) => (some (heap.heapStart + index <<< (heap.maxPower - blocksLevel)), blocks)
    | none => (none, blocks)

/-- The climb of `buddy_search_for_pointer` from the lowest level: the level and
the index in it where the pointer is found. -/
def climb (blocks : Blocks) : (level index : Nat) → Option (Nat × Nat)
  | 0, index => some (0, index)
  | level + 1, index =>
    let loaded := blocks (realIndex (level + 1) index)
    if loaded &&& targetBit (level + 1) index = 0#32 then some (level + 1, index)
    else if loaded &&& buddyBit (level + 1) index = 0#32 then none
    else climb blocks level (index >>> 1)

def Heap.buddySearchForPointer (heap : Heap) (blocks : Blocks) (pointer : Nat) : Option (Nat × Nat) :=
  if pointer % 8 ≠ 0 ∨ pointer < heap.heapStart ∨ pointer > heap.heapStart + heap.sizeOfHeap.toNat - 1 then none
  else climb blocks (heap.numberOfLevels - 1) ((pointer - heap.heapStart) >>> SHIFT_ADDRESS_TO_INDEX)

/-- `buddy_free_fusion_of_blocks` from a level and an index, with the word that has been loaded. -/
def fuse (blocks : Blocks) : (level index : Nat) → (loaded : BitVec 32) → Blocks
  | 0, _, _ => blocks
  | level + 1, index, loaded =>
    if loaded &&& targetBit (level + 1) index = 0#32 ∨ loaded &&& buddyBit (level + 1) index = 0#32 then blocks
    else
      let index := index >>> 1
      let word := realIndex level index
      let loaded := blocks word ||| targetBit level index
      fuse (Function.update blocks word loaded) level index loaded

def Heap.safeBuddyFree (heap : Heap) (blocks : Blocks) (pointer : Nat) : Blocks :=
  match heap.buddySearchForPointer blocks pointer with
  | none => blocks
  | some (level, index) =>
    let word := realIndex level index
    let loaded := blocks word ||| targetBit level index
    fuse (Function.update blocks word loaded) level index loaded

/-- `mem_alloc` rounds the heap pointer up. -/
def memAlloc (heapPointer : Nat) : Nat := (heapPointer + 7) / 8 * 8

/-- `buddy_init`, the first time. -/
def buddyInit (heapPointer : Nat) (memory : Blocks) (sizeOfHeap : BitVec 32) : Heap × Blocks :=
  let maxPower := 31 - sizeOfHeap.clz.toNat
  let numberOfLevels := maxPower - DEPTH_LEVELS
  let blocksInBuddyBlocks := (1 <<< (numberOfLevels - 5)) <<< 2
  (⟨memAlloc heapPointer + 4 * (blocksInBuddyBlocks >>> 2), sizeOfHeap, maxPower, numberOfLevels⟩,
    fun word => if word = 0 then 0x7fffffff
      else if 4 * word < blocksInBuddyBlocks then 0xffffffff else memory word)

section Slots
variable {level i : Nat}

/-- The place of the bit of a block among the bits of all words. -/
def slotOf (level i : Nat) : Nat := if level < 5 then 32 - 2 ^ (level + 1) + i else 2 ^ level + i

def slot (a : Block) : Nat := slotOf a.length (index a)

/-- The index of the other half. -/
def other (i : Nat) : Nat := if i % 2 = 1 then i - 1 else i + 1

theorem slotOf_deep (deep : ¬level < 5) : slotOf level i = 32 * 2 ^ (level - 5) + i := by
  obtain ⟨more, rfl⟩ := Nat.exists_eq_add_of_le' (not_lt.mp deep)
  rw [slotOf, if_neg deep, Nat.add_sub_cancel, Nat.pow_add, Nat.mul_comm]

theorem slotOf_lt (top : level < 5) (inside : i < 2 ^ level) : slotOf level i < 31 := by
  rw [slotOf, if_pos top]
  interval_cases level <;> omega

theorem realIndex_eq (inside : i < 2 ^ level) : realIndex level i = slotOf level i / 32 := by
  rw [realIndex]
  split_ifs with top
  · have small := slotOf_lt top inside
    omega
  · rw [slotOf_deep top, Nat.shiftRight_eq_div_pow]
    omega

theorem shiftOne_eq (i : Nat) : shiftOne i = BitVec.twoPow 32 (i % 32) := (BitVec.twoPow_eq ..).symm

theorem targetBit_eq (inside : i < 2 ^ level) : targetBit level i = BitVec.twoPow 32 (slotOf level i % 32) := by
  rw [targetBit, shiftOne_eq, BitVec.twoPow_eq, BitVec.twoPow_eq, ← BitVec.shiftLeft_add]
  congr 1
  unfold offset slotOf
  by_cases top : level < 5
  · interval_cases level <;> simp [Nat.shiftLeft_eq] <;> omega
  · have high : ¬level < 4 := by omega
    have deep := @slotOf_deep level i top
    rw [slotOf, if_neg top] at deep
    rw [if_neg top, if_neg high, deep]
    omega

theorem buddyBit_eq (level i : Nat) : buddyBit level i = targetBit level (other i) := by
  have zeros : ∀ n : Nat, n < 32 → (1#32 <<< n).clz.toNat = 31 - n := by decide
  have right : ∀ n : Nat, n < 32 → n % 2 = 1 → (1#32 <<< n) >>> (1 : Nat) = 1#32 <<< (n - 1) := by decide
  have left : ∀ n : Nat, n < 32 → n % 2 = 0 → (1#32 <<< n) <<< (1 : Nat) = 1#32 <<< (n + 1) := by decide
  rw [buddyBit, targetBit]
  congr 1
  unfold shiftOne other
  rw [zeros _ (Nat.mod_lt _ (by decide))]
  by_cases odd : i % 2 = 1
  · rw [if_pos odd, if_pos (by omega), right _ (Nat.mod_lt _ (by decide)) (by omega)]
    congr 1
    omega
  · rw [if_neg odd, if_neg (by omega), left _ (Nat.mod_lt _ (by decide)) (by omega)]
    congr 1
    omega

theorem realIndex_other (level i : Nat) : realIndex level (other i) = realIndex level i := by
  unfold realIndex other
  simp only [Nat.shiftRight_eq_div_pow]
  split_ifs <;> omega

theorem index_buddy {a : Block} (halved : a ≠ []) : index (buddy a) = other (index a) := by
  cases a with
  | nil => exact absurd rfl halved
  | cons half a =>
    cases half <;> simp [buddy, index, other]

theorem length_buddy (a : Block) : (buddy a).length = a.length := by
  cases a <;> rfl

theorem slotOf_injective {m j : Nat} (inside : i < 2 ^ level) (bound : j < 2 ^ m)
    (same : slotOf level i = slotOf m j) :
    level = m ∧ i = j := by
  by_cases top : level < 5
  · have small := slotOf_lt top inside
    have high : m < 5 := by
      by_contra deep
      rw [slotOf_deep deep] at same
      have positive := Nat.two_pow_pos (m - 5)
      omega
    unfold slotOf at same
    rw [if_pos top, if_pos high] at same
    interval_cases level <;> interval_cases m <;> omega
  · have deep : ¬m < 5 := by
      intro high
      have small := slotOf_lt high bound
      rw [slotOf_deep top] at same
      have positive := Nat.two_pow_pos (level - 5)
      omega
    rw [slotOf, slotOf, if_neg top, if_neg deep] at same
    have levels : level = m := by
      rcases lt_trichotomy level m with less | equal | more
      · have double : 2 ^ (level + 1) ≤ 2 ^ m := Nat.pow_le_pow_right (by decide) less
        rw [Nat.pow_succ] at double
        omega
      · exact equal
      · have double : 2 ^ (m + 1) ≤ 2 ^ level := Nat.pow_le_pow_right (by decide) more
        rw [Nat.pow_succ] at double
        omega
    subst levels
    exact ⟨rfl, by omega⟩

theorem slot_injective {a b : Block} (same : slot a = slot b) : a = b :=
  have ⟨lengths, indexes⟩ := slotOf_injective (index_lt a) (index_lt b) same
  index_injective lengths indexes

theorem slot_ne_top (a : Block) : slot a ≠ 31 := by
  by_cases top : a.length < 5
  · exact (slotOf_lt top (index_lt a)).ne
  · rw [slot, slotOf_deep top]
    have positive := Nat.two_pow_pos (a.length - 5)
    omega

end Slots

end Upmem.Buddy
