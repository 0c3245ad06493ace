import Upmem.SgHandler

namespace Upmem.Sg
open Transitions

/-- `struct sg_xfer_buffer_iterator`: the current block with the index in it,
and the blocks from there to the end of the arrays. -/
structure SgXferBufferIterator where
  currentBlockAddr : Nat
  currentBlockLength : BitVec 32
  currentBlockIndex : BitVec 32
  following : List SgBlockInfo

def ZEROS_LENGTH : BitVec 32 := 4096#32

abbrev HostMemory := Nat → BitVec 8

section Iterator
variable (zeros : Nat)

/-- `init_sg_xfer_buffer_iterator`, for a list of blocks that is not empty. -/
def initSgXferBufferIterator : List SgBlockInfo → SgXferBufferIterator
  | [] => ⟨zeros, ZEROS_LENGTH, 0#32, []⟩
  | block :: rest => ⟨block.addr, block.length, 0#32, rest ++ [⟨zeros, ZEROS_LENGTH⟩]⟩

def goToNextBlock (it : SgXferBufferIterator) : SgXferBufferIterator :=
  match it.following with
  | [] => { it with currentBlockIndex := 0#32 }
  | block :: rest => ⟨block.addr, block.length, 0#32, rest⟩

/-- The address of the next byte. -/
def getNextByte (it : SgXferBufferIterator) : Nat × SgXferBufferIterator :=
  let byte := it.currentBlockAddr + it.currentBlockIndex.toNat
  let it := { it with currentBlockIndex := it.currentBlockIndex + 1#32 }
  (byte,
    if it.currentBlockIndex = it.currentBlockLength then
      if it.following ≠ [] then goToNextBlock it else { it with currentBlockIndex := 0#32 }
    else it)

/-- The addresses of some bytes, one by one. -/
def getNextBytes : Nat → SgXferBufferIterator → List Nat × SgXferBufferIterator
  | 0, it => ([], it)
  | n + 1, it =>
    let byte := getNextByte it
    let rest := getNextBytes n byte.2
    (byte.1 :: rest.1, rest.2)

/-- The addresses of a word of the current block. -/
def wordAt (it : SgXferBufferIterator) : List Nat :=
  (List.range 8).map fun i => it.currentBlockAddr + it.currentBlockIndex.toNat + i

/-- The addresses of the next word, which both directions find in the same way. -/
def nextWord (it : SgXferBufferIterator) : List Nat × SgXferBufferIterator :=
  let length := it.currentBlockLength
  let current := it.currentBlockIndex
  if 8#32 + current < length then (wordAt it, { it with currentBlockIndex := current + 8#32 })
  else if length = 8#32 + current then (wordAt it, goToNextBlock it)
  else getNextBytes 8 it

def getNextEightBytes (mem : HostMemory) (it : SgXferBufferIterator) : List (BitVec 8) × SgXferBufferIterator :=
  ((nextWord it).1.map mem, (nextWord it).2)

/-- The stores of a word, each with its address. -/
def writeNextEightBytes (it : SgXferBufferIterator) (word : List (BitVec 8)) :
    List (Nat × BitVec 8) × SgXferBufferIterator :=
  if it.following = [] then ([], it) else ((nextWord it).1.zip word, (nextWord it).2)

/-- The bytes that the loop over the words of `threads_write_to_rank` has for a DPU. -/
def sendWords (mem : HostMemory) : Nat → SgXferBufferIterator → List (BitVec 8)
  | 0, _ => []
  | n + 1, it => (getNextEightBytes mem it).1 ++ sendWords mem n (getNextEightBytes mem it).2

/-- The stores that the loop over the words of `threads_read_from_rank` does for a DPU. -/
def receiveWords (mram : Nat → BitVec 8) : Nat → Nat → SgXferBufferIterator → List (Nat × BitVec 8)
  | 0, _, _ => []
  | n + 1, i, it =>
    let stores := writeNextEightBytes it ((List.range 8).map fun j => mram (8 * i + j))
    stores.1 ++ receiveWords mram n (i + 1) stores.2

end Iterator

/-- The addresses of the bytes of a block. -/
def SgBlockInfo.bytes (block : SgBlockInfo) : List Nat := (List.range block.length.toNat).map (block.addr + ·)

/-- The addresses of the bytes of some blocks, in order. -/
def streamOf (blocks : List SgBlockInfo) : List Nat := blocks.flatMap SgBlockInfo.bytes

/-- The address of a byte of the shared zeros. -/
def InZeros (zeros address : Nat) : Prop := zeros ≤ address ∧ address < zeros + ZEROS_LENGTH.toNat

section Iteration
variable {zeros : Nat} {it : SgXferBufferIterator} {pending : List Nat} {mem : HostMemory} {mram : Nat → BitVec 8}

/-- The bytes of the blocks that an iterator has still to come to. -/
inductive Reads (zeros : Nat) (it : SgXferBufferIterator) : List Nat → Prop
  | block (later : List SgBlockInfo) : it.following = later ++ [⟨zeros, ZEROS_LENGTH⟩] →
      it.currentBlockIndex < it.currentBlockLength → (∀ block ∈ later, block.length ≠ 0#32) →
      Reads zeros it
        ((SgBlockInfo.bytes ⟨it.currentBlockAddr, it.currentBlockLength⟩).drop it.currentBlockIndex.toNat ++
        streamOf later)
  | zeros : it.following = [] → it.currentBlockAddr = zeros → it.currentBlockLength = ZEROS_LENGTH →
      it.currentBlockIndex < ZEROS_LENGTH → Reads zeros it []

theorem drop_bytes (block : SgBlockInfo) {index : Nat} (inside : index < block.length.toNat) :
    block.bytes.drop index = (block.addr + index) :: block.bytes.drop (index + 1) := by
  have small : index < block.bytes.length := by simpa [SgBlockInfo.bytes] using inside
  rw [List.drop_eq_getElem_cons small]
  simp [SgBlockInfo.bytes]

theorem Reads.following_eq_nil (reads : Reads zeros it pending) : it.following = [] ↔ pending = [] := by
  cases reads with
  | block later next inside filled =>
    refine iff_of_false (by simp [next]) ?_
    rw [drop_bytes _ inside]
    simp
  | zeros last => simp [last]

/-- The iterator at the start of a block. -/
theorem Reads.start {block : SgBlockInfo} {later : List SgBlockInfo}
    (filled : ∀ b ∈ block :: later, b.length ≠ 0#32) :
    Reads zeros ⟨block.addr, block.length, 0#32, later ++ [⟨zeros, ZEROS_LENGTH⟩]⟩ (streamOf (block :: later)) := by
  obtain ⟨first, rest⟩ := List.forall_mem_cons.mp filled
  have inside : 0#32 < block.length := by bv_omega
  exact .block later rfl inside rest

/-- The iterator after the last byte of a block. -/
theorem Reads.next {later : List SgBlockInfo} (next : it.following = later ++ [⟨zeros, ZEROS_LENGTH⟩])
    (filled : ∀ b ∈ later, b.length ≠ 0#32) : Reads zeros (goToNextBlock it) (streamOf later) := by
  unfold goToNextBlock
  rw [next]
  cases later with
  | nil =>
    have inside : 0#32 < ZEROS_LENGTH := by decide
    exact .zeros rfl rfl rfl inside
  | cons block rest => exact .start filled

/-- An address is the next one of those that are pending, or one of the zeros after them. -/
def IsNext (zeros address : Nat) : List Nat → Prop
  | [] => InZeros zeros address
  | first :: _ => address = first

theorem getNextByte_spec (reads : Reads zeros it pending) :
    Reads zeros (getNextByte it).2 pending.tail ∧ IsNext zeros (getNextByte it).1 pending := by
  cases reads with
  | block later next inside filled =>
    have below : it.currentBlockIndex.toNat < it.currentBlockLength.toNat := inside
    rw [drop_bytes _ below]
    refine ⟨?_, rfl⟩
    have some_follows : it.following ≠ [] := by simp [next]
    rw [List.cons_append, List.tail_cons]
    simp only [getNextByte]
    by_cases last : it.currentBlockIndex + 1#32 = it.currentBlockLength
    · have all : it.currentBlockLength.toNat ≤ it.currentBlockIndex.toNat + 1 := by bv_omega
      rw [if_pos last, if_pos some_follows, List.drop_of_length_le (by simpa [SgBlockInfo.bytes] using all),
        List.nil_append]
      exact .next next filled
    · rw [if_neg last]
      have index : (it.currentBlockIndex + 1#32).toNat = it.currentBlockIndex.toNat + 1 := by bv_omega
      have more : it.currentBlockIndex + 1#32 < it.currentBlockLength := by bv_omega
      rw [← index]
      exact .block later next more filled
  | zeros last address length inside =>
    have below : it.currentBlockIndex.toNat < ZEROS_LENGTH.toNat := inside
    simp only [getNextByte, last, ne_eq, not_true_eq_false, if_false, IsNext, InZeros, address]
    refine ⟨?_, by omega, by omega⟩
    by_cases wraps : it.currentBlockIndex + 1#32 = it.currentBlockLength
    · rw [if_pos wraps]
      have start : 0#32 < ZEROS_LENGTH := by decide
      exact .zeros rfl rfl length start
    · rw [if_neg wraps]
      have more : it.currentBlockIndex + 1#32 < ZEROS_LENGTH := by
        rw [length] at wraps
        simp only [ZEROS_LENGTH] at *
        bv_omega
      exact .zeros rfl rfl length more

/-- Some bytes are the next ones of the blocks, followed by zeros. -/
theorem getNextBytes_spec (reads : Reads zeros it pending) (n : Nat) :
    Reads zeros (getNextBytes n it).2 (pending.drop n) ∧ ∃ pad : List Nat, pad.length = n - pending.length ∧
      (∀ address ∈ pad, InZeros zeros address) ∧ (getNextBytes n it).1 = pending.take n ++ pad := by
  induction n generalizing it pending with
  | zero => exact ⟨reads, [], by simp, by simp, by simp [getNextBytes]⟩
  | succ n ih =>
    obtain ⟨readsAfter, byte⟩ := getNextByte_spec reads
    obtain ⟨readsLast, pad, length, inZeros, bytes⟩ := ih readsAfter
    cases pending with
    | nil =>
      rw [List.tail_nil, List.drop_nil] at readsLast
      refine ⟨by rw [List.drop_nil]; exact readsLast, (getNextByte it).1 :: pad, by simpa using length, ?_, ?_⟩
      · exact List.forall_mem_cons.mpr ⟨byte, inZeros⟩
      · simpa [getNextBytes] using bytes
    | cons address rest =>
      refine ⟨readsLast, pad, by simpa using length, inZeros, ?_⟩
      simp only [getNextBytes, List.take_succ_cons, List.cons_append]
      exact congrArg₂ List.cons byte bytes

/-- The bytes within a block but its last one. -/
theorem getNextBytes_inside {n : Nat} (inside : it.currentBlockIndex.toNat + n < it.currentBlockLength.toNat) :
    getNextBytes n it = ((List.range n).map fun i => it.currentBlockAddr + it.currentBlockIndex.toNat + i,
      { it with currentBlockIndex := it.currentBlockIndex + BitVec.ofNat 32 n }) := by
  induction n generalizing it with
  | zero => simp [getNextBytes]
  | succ n ih =>
    have more : it.currentBlockIndex + 1#32 ≠ it.currentBlockLength := by bv_omega
    have byte : getNextByte it =
        (it.currentBlockAddr + it.currentBlockIndex.toNat,
          { it with currentBlockIndex := it.currentBlockIndex + 1#32 }) := by
      simp [getNextByte, more]
    have index : (it.currentBlockIndex + 1#32).toNat = it.currentBlockIndex.toNat + 1 := by bv_omega
    rw [getNextBytes, byte]
    dsimp only
    rw [ih (by simp only [index]; omega)]
    simp only [index, List.range_succ_eq_map, List.map_cons, List.map_map, Prod.mk.injEq, List.cons.injEq,
      Nat.add_zero,
      true_and]
    refine ⟨List.map_congr_left fun i _ => by simp only [Function.comp_apply]; omega, ?_⟩
    have sum : it.currentBlockIndex + 1#32 + BitVec.ofNat 32 n = it.currentBlockIndex +
        BitVec.ofNat 32 (n + 1) := by
      rw [BitVec.add_assoc, BitVec.ofNat_add, BitVec.add_comm (BitVec.ofNat 32 n)]
    rw [sum]

theorem getNextBytes_succ (n : Nat) : getNextBytes (n + 1) it =
    ((getNextBytes n it).1 ++ [(getNextByte (getNextBytes n it).2).1], (getNextByte (getNextBytes n it).2).2) := by
  induction n generalizing it with
  | zero => rfl
  | succ n ih =>
    rw [getNextBytes, ih]
    rfl

/-- The shortcuts for a word within a block do what the bytes one by one do. -/
theorem nextWord_eq (small : it.currentBlockIndex.toNat + 8 < 2 ^ 32) : nextWord it = getNextBytes 8 it := by
  unfold nextWord
  dsimp only
  split
  next inside =>
    rw [getNextBytes_inside (by bv_omega)]
    rfl
  · split
    next last =>
      have most : it.currentBlockIndex.toNat + 7 < it.currentBlockLength.toNat := by bv_omega
      have index : (it.currentBlockIndex + 7#32).toNat = it.currentBlockIndex.toNat + 7 := by bv_omega
      have ends : it.currentBlockIndex + 7#32 + 1#32 = it.currentBlockLength := by bv_omega
      rw [getNextBytes_succ, getNextBytes_inside most]
      refine Prod.ext ?_ ?_
      · simp only [getNextByte, wordAt, index, List.range_succ (n := 7), List.map_append]
        rfl
      · simp only [getNextByte, ends, if_true]
        split
        · rfl
        next none =>
          rw [goToNextBlock, not_not.mp none]
    next => rfl

theorem getNextByte_index_le : (getNextByte it).2.currentBlockIndex.toNat ≤ it.currentBlockIndex.toNat + 1 := by
  have up : (it.currentBlockIndex + 1#32).toNat ≤ it.currentBlockIndex.toNat + 1 := by
    rw [BitVec.toNat_add]
    exact Nat.mod_le _ _
  unfold getNextByte goToNextBlock
  dsimp only
  split_ifs
  · split
    · exact Nat.zero_le _
    · exact Nat.zero_le _
  · exact Nat.zero_le _
  · exact up

theorem getNextBytes_index_le (n : Nat) :
    (getNextBytes n it).2.currentBlockIndex.toNat ≤ it.currentBlockIndex.toNat + n := by
  induction n generalizing it with
  | zero => exact le_refl _
  | succ n ih =>
    have first := @getNextByte_index_le it
    have rest := @ih (getNextByte it).2
    rw [getNextBytes]
    dsimp only
    omega

/-- The index of an iterator does not overflow over some words, unless it is in the zeros, where it stays small. -/
def NoOverflow (it : SgXferBufferIterator) (pending : List Nat) (n : Nat) : Prop :=
  pending = [] ∨ it.currentBlockIndex.toNat + 8 * n < 2 ^ 32

theorem NoOverflow.small {n : Nat} (fits : NoOverflow it pending (n + 1)) (reads : Reads zeros it pending) :
    it.currentBlockIndex.toNat + 8 < 2 ^ 32 := by
  rcases fits with none | small
  · cases reads with
    | block later next inside filled =>
      have below : it.currentBlockIndex.toNat < it.currentBlockLength.toNat := inside
      rw [drop_bytes _ below] at none
      cases none
    | zeros last address length inside =>
      have below : it.currentBlockIndex.toNat < 4096 := inside
      omega
  · omega

theorem NoOverflow.next {n : Nat} (fits : NoOverflow it pending (n + 1)) :
    NoOverflow (getNextBytes 8 it).2 (pending.drop 8) n := by
  rcases fits with rfl | small
  · exact .inl List.drop_nil
  · have bound := @getNextBytes_index_le it 8
    exact .inr (by omega)

/-- The bytes for a DPU are those of the blocks, followed by bytes of the zeros. -/
theorem sendWords_spec (n : Nat) (reads : Reads zeros it pending) (fits : NoOverflow it pending n) :
    ∃ pad : List Nat, pad.length = 8 * n - pending.length ∧ (∀ address ∈ pad, InZeros zeros address) ∧
      sendWords mem n it = (pending.take (8 * n) ++ pad).map mem := by
  induction n generalizing it pending with
  | zero => exact ⟨[], by simp, by simp, by simp [sendWords]⟩
  | succ n ih =>
    obtain ⟨readsAfter, first, firstLength, firstZeros, word⟩ := getNextBytes_spec reads 8
    obtain ⟨pad, length, inZeros, words⟩ := ih readsAfter fits.next
    have bytes :
        sendWords mem (n + 1) it = (getNextBytes 8 it).1.map mem ++ sendWords mem n (getNextBytes 8 it).2 := by
      rw [sendWords, getNextEightBytes, nextWord_eq (fits.small reads)]
    refine ⟨first ++ pad, ?_, ?_, ?_⟩
    · rw [List.length_append, firstLength, length, List.length_drop]
      omega
    · simpa [or_imp, forall_and] using ⟨firstZeros, inZeros⟩
    · rw [bytes, words, word, ← List.map_append]
      by_cases long : 8 ≤ pending.length
      · have empty : first = [] := List.eq_nil_of_length_eq_zero (by omega)
        rw [empty, List.append_nil, List.nil_append, ← List.append_assoc, Nat.mul_succ, Nat.add_comm, List.take_add]
      · have none : pending.drop 8 = [] := List.drop_of_length_le (by omega)
        rw [none, List.take_nil, List.nil_append, List.append_assoc, List.take_of_length_le (by omega),
          List.take_of_length_le (by omega)]

/-- The bytes of a range. -/
def rangeBytes (mram : Nat → BitVec 8) (start n : Nat) : List (BitVec 8) :=
  (List.range n).map fun j => mram (start + j)

theorem rangeBytes_add (start m n : Nat) :
    rangeBytes mram start (m + n) = rangeBytes mram start m ++ rangeBytes mram (start + m) n := by
  simp only [rangeBytes, List.range_add, List.map_append, List.map_map, Function.comp_def, Nat.add_assoc]

/-- The stores for a DPU are those of the bytes of the blocks in order, if no word goes beyond the blocks. -/
theorem receiveWords_spec (n i : Nat) (reads : Reads zeros it pending) (fits : NoOverflow it pending n)
    (whole : pending.length % 8 = 0 ∨ 8 * n ≤ pending.length) :
    receiveWords mram n i it = (pending.take (8 * n)).zip (rangeBytes mram (8 * i) (8 * n)) := by
  induction n generalizing it pending i with
  | zero => simp [receiveWords]
  | succ n ih =>
    obtain ⟨readsAfter, pad, length, -, word⟩ := getNextBytes_spec reads 8
    rw [receiveWords, writeNextEightBytes]
    by_cases last : it.following = []
    · have none : pending = [] := reads.following_eq_nil.mp last
      subst none
      have rest := ih (i + 1) reads (.inl rfl) (.inl rfl)
      simp only [last, if_true, rest, List.take_nil, List.zip_nil_left, List.append_nil]
    · have some_pending : 0 < pending.length := List.length_pos_iff.mpr fun none =>
        last (reads.following_eq_nil.mpr none)
      have long : 8 ≤ pending.length := by omega
      have empty : pad = [] := List.eq_nil_of_length_eq_zero (by omega)
      have rest := ih (i + 1) readsAfter fits.next (by rw [List.length_drop]; omega)
      have words : 8 * (n + 1) = 8 + 8 * n := by omega
      rw [if_neg last, nextWord_eq (fits.small reads), word, empty, List.append_nil, rest, words,
        List.take_add, rangeBytes_add,
        List.zip_append (by simp [rangeBytes, long])]
      rfl

end Iteration

end Upmem.Sg
