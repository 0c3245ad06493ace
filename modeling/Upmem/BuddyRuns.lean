import Upmem.BuddyBlocks
import Upmem.Lib.Transitions
import Mathlib.Data.Nat.Log

namespace Upmem.Buddy
open BuddyTree PackedBits Transitions

section Init
variable {power : Nat}

/-- A block of a size takes the next power of two, from the smallest block on. -/
def blockSize (size : BitVec 32) : Nat := max 16 (2 ^ Nat.clog 2 size.toNat)

theorem popcount_twoPow {k : Nat} (inside : k < 32) : popcount (BitVec.twoPow 32 k) = 1 := by
  have all : ∀ k < 32, popcount (BitVec.twoPow 32 k) = 1 := by decide
  exact all k inside

theorem popcount_eq_one {x : BitVec 32} (one : popcount x = 1) {k : Nat} (inside : k < 32)
    (bit : x.getLsbD k = true) :
    x = BitVec.twoPow 32 k := by
  refine BitVec.eq_of_getLsbD_eq fun i below => ?_
  rw [BitVec.getLsbD_twoPow, decide_eq_true inside, Bool.true_and]
  by_cases same : k = i
  · rw [← same, bit, decide_eq_true rfl]
  · rw [decide_eq_false same]
    by_contra set
    rw [Bool.not_eq_false] at set
    have two : [k, i].Subperm ((List.range 32).filter fun i => x.getLsbD i) := by
      refine List.subperm_of_subset (by simpa using same) fun j member => ?_
      rcases List.mem_pair.mp member with rfl | rfl
      · exact List.mem_filter.mpr ⟨List.mem_range.mpr inside, bit⟩
      · exact List.mem_filter.mpr ⟨List.mem_range.mpr below, set⟩
    have lengths := two.length_le
    rw [← List.countP_eq_length_filter] at lengths
    rw [popcount] at one
    simp only [List.length_cons, List.length_nil] at lengths
    omega

theorem nextPowerOf2_eq {x : BitVec 32} (some : x ≠ 0#32) : nextPowerOf2 x = Nat.clog 2 x.toNat := by
  have lower : 2 ^ (31 - x.clz.toNat) ≤ x.toNat := BitVec.two_pow_sub_clz_le_toNat_of_ne_zero (by decide) some
  have upper := BitVec.toNat_lt_two_pow_sub_clz (x := x)
  have bit := BitVec.getLsbD_true_clz_of_ne_zero (by decide) some
  have below : x.clz.toNat < 32 := BitVec.lt_def.mp (BitVec.clz_lt_iff_ne_zero.mpr some)
  rw [nextPowerOf2]
  by_cases one : popcount x = 1
  · have whole := popcount_eq_one one (by omega) bit
    rw [if_neg (not_not.mpr one)]
    conv_rhs => rw [whole]
    rw [BitVec.toNat_twoPow, Nat.mod_eq_of_lt (Nat.pow_lt_pow_right (by decide) (by omega)),
      Nat.clog_pow _ _ (by decide)]
  · rw [if_pos one]
    have more : x.toNat ≠ 2 ^ (31 - x.clz.toNat) := by
      intro same
      refine one ?_
      have whole : x = BitVec.twoPow 32 (31 - x.clz.toNat) := by
        refine BitVec.eq_of_toNat_eq ?_
        rw [BitVec.toNat_twoPow, Nat.mod_eq_of_lt (Nat.pow_lt_pow_right (by decide) (by omega)), ← same]
      rw [whole]
      exact popcount_twoPow (by omega)
    refine le_antisymm ?_ (Nat.clog_le_of_le_pow ?_)
    · by_contra less
      have bound := (Nat.le_pow_clog one_lt_two x.toNat).trans
        (Nat.pow_le_pow_right (by decide) (show Nat.clog 2 x.toNat ≤ 31 - x.clz.toNat by omega))
      omega
    · have powers : 32 - x.clz.toNat = 31 - x.clz.toNat + 1 := by omega
      exact (powers ▸ upper).le

/-- The heap of a power of two. -/
structure Heap.Sized (heap : Heap) (power : Nat) : Prop where
  eight : 8 ≤ power
  word : power < 32
  sizeOfHeap : heap.sizeOfHeap.toNat = 2 ^ power
  maxPower : heap.maxPower = power
  numberOfLevels : heap.numberOfLevels = power - 3

theorem buddyInit_sized (heapPointer : Nat) (memory : Blocks) (eight : 8 ≤ power) (word : power < 32) :
    (buddyInit heapPointer memory (BitVec.ofNat 32 (2 ^ power))).1.Sized power := by
  have zeros : ∀ power < 32, 31 - (BitVec.ofNat 32 (2 ^ power)).clz.toNat = power := by decide
  refine ⟨eight, word, ?_, zeros power word, congrArg (· - DEPTH_LEVELS) (zeros power word)⟩
  exact (BitVec.toNat_ofNat ..).trans (Nat.mod_eq_of_lt (Nat.pow_lt_pow_right (by decide) word))

theorem buddyInit_heapStart (heapPointer : Nat) (memory : Blocks) (eight : 8 ≤ power) (word : power < 32) :
    (buddyInit heapPointer memory (BitVec.ofNat 32 (2 ^ power))).1.heapStart =
      memAlloc heapPointer + 4 * 2 ^ (power - 8) := by
  have levels := (buddyInit_sized heapPointer memory eight word).numberOfLevels
  simp only [buddyInit] at levels ⊢
  rw [levels, Nat.shiftLeft_eq, Nat.shiftLeft_eq, Nat.shiftRight_eq_div_pow, Nat.mul_div_cancel _ (by decide),
    Nat.one_mul, Nat.sub_sub]

theorem represents_init (heapPointer : Nat) (memory : Blocks) (eight : 8 ≤ power) (word : power < 32) :
    Represents (power - 3) memory (buddyInit heapPointer memory (BitVec.ofNat 32 (2 ^ power))).2 ∅ := by
  have levels := (buddyInit_sized heapPointer memory eight word).numberOfLevels
  have words : (buddyInit heapPointer memory (BitVec.ofNat 32 (2 ^ power))).2 = fun word =>
      if word = 0 then 0x7fffffff else if word < 2 ^ (power - 3 - 5) then 0xffffffff else memory word := by
    simp only [buddyInit] at levels ⊢
    rw [levels]
    funext word
    simp only [Nat.shiftLeft_eq, Nat.one_mul]
    refine if_congr Iff.rfl rfl (if_congr (by omega) rfl rfl)
  rw [words]
  refine ⟨fun a deep => iff_of_true ?_ fun _ none => absurd none (Set.notMem_empty _), by
    simp [bitAt], fun word behind => ?_⟩
  · have inside := slot_word_lt deep (by omega)
    have ones : ∀ p < 32, (0xffffffff#32).getLsbD p = true := by decide
    have first : ∀ p < 31, (0x7fffffff#32).getLsbD p = true := by decide
    rw [bitAt]
    split_ifs with top
    · have other := slot_ne_top a
      exact first _ (by omega)
    · exact ones _ (place_lt _)
  · have positive := Nat.two_pow_pos (power - 3 - 5)
    rw [if_neg (by omega), if_neg (by omega)]

/-- Every bit but that above the first block is of a block. -/
theorem exists_slot {depth s : Nat} (five : 5 ≤ depth) (below : s / 32 < 2 ^ (depth - 5)) (other : s ≠ 31) :
    ∃ a : Block, a.length < depth ∧ slot a = s := by
  obtain ⟨level, i, inside, deep, place⟩ : ∃ level i, i < 2 ^ level ∧ level < depth ∧ slotOf level i = s := by
    by_cases top : s < 31
    · have place (level : Nat) (small : level < 5) (above : 32 - 2 ^ (level + 1) ≤ s)
          (under : s < 32 - 2 ^ (level + 1) + 2 ^ level) :
          ∃ level i, i < 2 ^ level ∧ level < depth ∧ slotOf level i = s := by
        refine ⟨level, s - (32 - 2 ^ (level + 1)), by omega, by omega, ?_⟩
        rw [slotOf, if_pos small]
        omega
      rcases show s < 16 ∨ 16 ≤ s ∧ s < 24 ∨ 24 ≤ s ∧ s < 28 ∨ 28 ≤ s ∧ s < 30 ∨ s = 30 by omega with
        less | less | less | less | less
      · exact place 4 (by decide) (by omega) (by omega)
      · exact place 3 (by decide) (by omega) (by omega)
      · exact place 2 (by decide) (by omega) (by omega)
      · exact place 1 (by decide) (by omega) (by omega)
      · exact place 0 (by decide) (by omega) (by omega)
    · have lower := Nat.pow_log_le_self 2 (show s ≠ 0 by omega)
      have upper := Nat.lt_pow_succ_log_self one_lt_two s
      have high : 5 ≤ Nat.log 2 s := Nat.le_log_of_pow_le one_lt_two (by omega)
      have whole : 2 ^ depth = 2 ^ (depth - 5) * 32 := by
        rw [← Nat.pow_add 2 (depth - 5) 5]
        congr 1
        omega
      have small : Nat.log 2 s < depth := Nat.log_lt_of_lt_pow (by omega) (by omega)
      rw [Nat.pow_succ] at upper
      refine ⟨Nat.log 2 s, s - 2 ^ Nat.log 2 s, by omega, small, ?_⟩
      rw [slotOf, if_neg (by omega)]
      omega
  obtain ⟨a, rfl, rfl⟩ := exists_index inside
  exact ⟨a, deep, place⟩

theorem Represents.unique {depth : Nat} {memory blocks after : Blocks} {held : Set Block} (five : 5 ≤ depth)
    (rep : Represents depth memory blocks held) (same : Represents depth memory after held) : blocks = after := by
  funext word
  by_cases inside : word < 2 ^ (depth - 5)
  · refine BitVec.eq_of_getLsbD_eq fun i below => ?_
    have bits : bitAt blocks (32 * word + i) = bitAt after (32 * word + i) := by
      by_cases last : 32 * word + i = 31
      · rw [last, rep.top, same.top]
      · obtain ⟨a, deep, place⟩ := exists_slot five (s := 32 * word + i) (by omega) last
        rw [← place, Bool.eq_iff_iff, rep.bits a deep, same.bits a deep]
    have here : (32 * word + i) / 32 = word := by omega
    have there : (32 * word + i) % 32 = i := by omega
    rwa [bitAt, bitAt, here, there] at bits
  · rw [rep.beyond word (not_lt.mp inside), same.beyond word (not_lt.mp inside)]

end Init

/-- `__buddy_blocks`, and the pointers that have been returned and not freed, with the sizes that were asked for. -/
structure State where
  blocks : Blocks
  live : List (Nat × BitVec 32)

inductive Action
  | alloc (size : BitVec 32)
  | free (pointer : Nat)

/-- A call of `buddy_alloc`, or of `buddy_free` on a live pointer. -/
inductive Heap.Step (heap : Heap) : State → Action → State → Prop
  | alloc {s : State} {size : BitVec 32} : heap.Step s (.alloc size)
    { blocks := (heap.safeBuddyAlloc s.blocks size).2
      live := ((heap.safeBuddyAlloc s.blocks size).1.map fun pointer => (pointer, size)).toList ++ s.live }
  | free {s : State} {pointer : Nat} (member : pointer ∈ s.live.map Prod.fst) : heap.Step s (.free pointer)
    { blocks := heap.safeBuddyFree s.blocks pointer
      live := s.live.filter fun each => each.1 ≠ pointer }

theorem Heap.Step.allocated {heap : Heap} {s : State} {size : BitVec 32} {pointer : Nat}
    (found : (heap.safeBuddyAlloc s.blocks size).1 = some pointer) :
    heap.Step s (.alloc size) ⟨(heap.safeBuddyAlloc s.blocks size).2, (pointer, size) :: s.live⟩ := by
  have taken := @Heap.Step.alloc heap s size
  rwa [found] at taken

/-- Two ranges of bytes share none. -/
def Disjoint (start size other otherSize : Nat) : Prop := start + size ≤ other ∨ other + otherSize ≤ start

section Heaps
variable {heap : Heap} {power : Nat} {memory blocks : Blocks} {held : Set Block} {size : BitVec 32}

/-- The pointer to a block. -/
def Heap.pointer (heap : Heap) (b : Block) : Nat := heap.heapStart + start heap.maxPower b

theorem Heap.Sized.start_eq (sized : heap.Sized power) {b : Block} {rest : Nat}
    (depth : power = b.length + rest + 4) :
    start heap.maxPower b = index b * 2 ^ rest * 16 := by
  rw [start, sized.maxPower, show power - b.length = rest + 4 by omega, Nat.pow_add, Nat.mul_assoc]

theorem Heap.Sized.clog_le (sized : heap.Sized power) (fits : ¬size > heap.sizeOfHeap) :
    Nat.clog 2 size.toNat ≤ power := by
  refine Nat.clog_le_of_le_pow ?_
  rw [← sized.sizeOfHeap]
  exact not_lt.mp fits

theorem Heap.Sized.blocksLevel (sized : heap.Sized power) (nonzero : size ≠ 0#32) (fits : ¬size > heap.sizeOfHeap) :
    heap.blocksLevel size < power - 3 ∧ 2 ^ (power - heap.blocksLevel size) = blockSize size := by
  have bound := sized.clog_le fits
  have eight := sized.eight
  rw [Heap.blocksLevel, sized.maxPower, sized.numberOfLevels, nextPowerOf2_eq nonzero, blockSize]
  split_ifs with small
  · have least : 2 ^ Nat.clog 2 size.toNat ≤ 2 ^ 4 := Nat.pow_le_pow_right (by decide) (by omega)
    rw [show power - (power - 3 - 1) = 4 by omega]
    exact ⟨by omega, (max_eq_left least).symm⟩
  · have least : 2 ^ 4 ≤ 2 ^ Nat.clog 2 size.toNat := Nat.pow_le_pow_right (by decide) (by omega)
    rw [show power - (power - Nat.clog 2 size.toNat) = Nat.clog 2 size.toNat by omega]
    exact ⟨by omega, (max_eq_right least).symm⟩

/-- `buddy_alloc` takes a free block of the size, if there is one. -/
theorem Heap.Sized.safeBuddyAlloc_cases (sized : heap.Sized power) (rep : Represents (power - 3) memory blocks held)
    (apart : held.Pairwise Apart) (nonzero : size ≠ 0#32) (fits : ¬size > heap.sizeOfHeap) :
    (∃ (b : Block) (after : Blocks), b.length = heap.blocksLevel size ∧ Free held b ∧
      heap.safeBuddyAlloc blocks size = (some (heap.pointer b), after) ∧
        Represents (power - 3) memory after (insert b held)) ∨
      heap.safeBuddyAlloc blocks size = (none, blocks) ∧
        ∀ a : Block, a.length = heap.blocksLevel size → ¬Free held a := by
  have eight := sized.eight
  have deep := (sized.blocksLevel nonzero fits).1
  have searched : ¬heap.maxPower < nextPowerOf2 size := by
    rw [sized.maxPower, nextPowerOf2_eq nonzero, not_lt]
    exact sized.clog_le fits
  rw [Heap.safeBuddyAlloc, if_neg (not_or.mpr ⟨nonzero, fits⟩), if_neg searched]
  rcases searchLevels_cases (by omega) rep apart deep le_rfl with ⟨b, after, length, free, found,
    kept⟩ | ⟨failed, none⟩
  · refine .inl ⟨b, after, length, free, ?_, kept⟩
    rw [Heap.pointer, start, length]
    simp only [found, Nat.shiftLeft_eq]
  · refine .inr ⟨by simp only [failed], fun a length free => ?_⟩
    obtain ⟨b, within, largest⟩ := free.largest
    have shorter := within.length_le
    exact none b (by omega) largest

/-- `buddy_search_for_pointer` climbs from the smallest block that a pointer into the heap points to. -/
theorem Heap.Sized.search_climbs (sized : heap.Sized power) {pointer : Nat} (aligned : pointer % 8 = 0)
    (above : heap.heapStart ≤ pointer) (below : pointer < heap.heapStart + 2 ^ power) :
    ∃ l : Block, l.length = power - 4 ∧
      (∀ blocks, heap.buddySearchForPointer blocks pointer = climb blocks l.length (index l)) ∧
      ∀ b : Block, b.length < power - 3 →
        (b <:+ l ↔ heap.pointer b ≤ pointer ∧ pointer < heap.pointer b + 2 ^ (power - b.length)) := by
  have eight := sized.eight
  obtain ⟨offset, rfl⟩ := Nat.exists_eq_add_of_le above
  have small : offset / 2 ^ 4 < 2 ^ (power - 4) := by
    refine Nat.div_lt_of_lt_mul ?_
    rw [← Nat.pow_add, show 4 + (power - 4) = power by omega]
    omega
  obtain ⟨l, length, place⟩ := exists_index small
  refine ⟨l, length, fun blocks => ?_, fun b deep => ?_⟩
  · rw [Heap.buddySearchForPointer, if_neg, Nat.add_sub_cancel_left, Nat.shiftRight_eq_div_pow,
      sized.numberOfLevels, length,
      place]
    · rfl
    · rw [sized.sizeOfHeap]
      omega
  · rw [suffix_iff_index (by omega), place, length, Nat.div_div_eq_div_mul, ← Nat.pow_add,
      show 4 + (power - 4 - b.length) = power - b.length by
      omega, Nat.div_eq_iff (Nat.two_pow_pos _), Heap.pointer, start,
      sized.maxPower]
    have positive := Nat.two_pow_pos (power - b.length)
    omega

/-- It finds the held block that a pointer points into. -/
theorem Heap.Sized.search_within (sized : heap.Sized power) (rep : Represents (power - 3) memory blocks held)
    (apart : held.Pairwise Apart) {b : Block} (member : b ∈ held) (deep : b.length < power - 3) {pointer : Nat}
    (aligned : pointer % 8 = 0)
    (within : heap.pointer b ≤ pointer ∧ pointer < heap.pointer b + 2 ^ (power - b.length)) :
    heap.buddySearchForPointer blocks pointer = some (b.length, index b) := by
  have range := @BuddyTree.inside power b (by omega)
  have place : heap.pointer b = heap.heapStart + start power b := by rw [Heap.pointer, sized.maxPower]
  unfold BuddyTree.size at range
  obtain ⟨l, length, climbs, contains⟩ := sized.search_climbs aligned (by omega) (by omega)
  rw [climbs]
  exact climb_within rep apart member ((contains b deep).mpr within) (by omega)

/-- It finds a held block, provided that the heap is aligned. -/
theorem Heap.Sized.search_held (sized : heap.Sized power) (aligned : 8 ∣ heap.heapStart)
    (rep : Represents (power - 3) memory blocks held) (apart : held.Pairwise Apart) {b : Block} (member : b ∈ held)
    (deep : b.length < power - 3) :
    heap.buddySearchForPointer blocks (heap.pointer b) = some (b.length, index b) := by
  obtain ⟨rest, depth⟩ : ∃ rest, power = b.length + rest + 4 := ⟨power - 4 - b.length, by omega⟩
  refine sized.search_within rep apart member deep ?_ ⟨le_rfl, Nat.lt_add_of_pos_right (Nat.two_pow_pos _)⟩
  rw [Heap.pointer, sized.start_eq depth]
  omega

/-- It refuses every pointer into a heap that is not aligned. -/
theorem Heap.Sized.search_refused (sized : heap.Sized power) (misaligned : ¬8 ∣ heap.heapStart) (blocks : Blocks)
    {b : Block} (deep : b.length < power - 3) : heap.buddySearchForPointer blocks (heap.pointer b) = none := by
  obtain ⟨rest, depth⟩ : ∃ rest, power = b.length + rest + 4 := ⟨power - 4 - b.length, by omega⟩
  exact if_pos (.inl (by rw [Heap.pointer, sized.start_eq depth]; omega))

/-- `buddy_free` releases the block that has been found. -/
theorem Heap.Sized.safeBuddyFree_found (sized : heap.Sized power) (rep : Represents (power - 3) memory blocks held)
    (apart : held.Pairwise Apart) {b : Block} (member : b ∈ held) (deep : b.length < power - 3) {pointer : Nat}
    (found : heap.buddySearchForPointer blocks pointer = some (b.length, index b)) :
    Represents (power - 3) memory (heap.safeBuddyFree blocks pointer) (held \ {b}) := by
  have eight := sized.eight
  rw [Heap.safeBuddyFree, found]
  have released := release_represents (by omega) rep apart member deep
  rw [setBit_word, setBit_eq] at released
  exact released

/-- `buddy_free` releases a held block, provided that the heap is aligned. -/
theorem Heap.Sized.safeBuddyFree_represents (sized : heap.Sized power) (aligned : 8 ∣ heap.heapStart)
    (rep : Represents (power - 3) memory blocks held) (apart : held.Pairwise Apart) {b : Block} (member : b ∈ held)
    (deep : b.length < power - 3) :
    Represents (power - 3) memory (heap.safeBuddyFree blocks (heap.pointer b)) (held \ {b}) :=
  sized.safeBuddyFree_found rep apart member deep (sized.search_held aligned rep apart member deep)

/-- It leaves `__buddy_blocks` as they are for a pointer into no held block. -/
theorem Heap.Sized.safeBuddyFree_outside (sized : heap.Sized power)
    (rep : Represents (power - 3) memory blocks held)
    (deep : ∀ b ∈ held, b.length < power - 3) {pointer : Nat}
    (outside : pointer % 8 = 0 → ∀ b ∈ held,
      ¬(heap.pointer b ≤ pointer ∧ pointer < heap.pointer b + 2 ^ (power - b.length))) :
    heap.safeBuddyFree blocks pointer = blocks := by
  by_cases refused : pointer % 8 ≠ 0 ∨ pointer < heap.heapStart ∨
    pointer > heap.heapStart + heap.sizeOfHeap.toNat - 1
  · rw [Heap.safeBuddyFree, Heap.buddySearchForPointer, if_pos refused]
  rw [sized.sizeOfHeap] at refused
  have positive := Nat.two_pow_pos power
  have aligned : pointer % 8 = 0 := by omega
  obtain ⟨l, length, climbs, contains⟩ := sized.search_climbs aligned (by omega) (by omega)
  have dead (b : Block) (within : b <:+ l) : b ∉ held := fun member =>
    outside aligned b member ((contains b (deep b member)).mp within)
  have clear : Clear held l := by
    intro b member within
    have small := deep b member
    have same := within.eq_of_length_le (show b.length ≤ l.length by omega)
    exact dead b (same ▸ List.suffix_rfl) member
  have eight := sized.eight
  have small : l.length < power - 3 := by omega
  rw [Heap.safeBuddyFree, climbs]
  rcases climb_clear rep small dead clear with failed | ⟨root, whole⟩
  · rw [failed]
  · rw [root]
    have set := (rep.bits [] (show 0 < power - 3 by omega)).mpr whole
    have same := setBit_same set
    rw [setBit_eq] at same
    exact same

theorem Heap.Sized.safeBuddyFree_refuses (sized : heap.Sized power) (misaligned : ¬8 ∣ heap.heapStart) {b : Block}
    (deep : b.length < power - 3) : heap.safeBuddyFree blocks (heap.pointer b) = blocks := by
  rw [Heap.safeBuddyFree, sized.search_refused misaligned blocks deep]

/-- What `__buddy_blocks` represents holds a block for each live pointer, and no other
where frees have an effect. -/
structure Heap.Tracks (heap : Heap) (power : Nat) (memory : Blocks) (s : State) (held : Set Block) : Prop where
  represents : Represents (power - 3) memory s.blocks held
  apart : held.Pairwise Apart
  deep : ∀ b ∈ held, b.length < power - 3
  live : ∀ each ∈ s.live, ∃ b ∈ held, each.1 = heap.pointer b ∧ 2 ^ (power - b.length) = blockSize each.2
  distinct : (s.live.map Prod.fst).Nodup
  only : 8 ∣ heap.heapStart → ∀ b ∈ held, ∃ each ∈ s.live, each.1 = heap.pointer b

theorem Heap.Sized.disjoint (sized : heap.Sized power) {b c : Block} (deepB : b.length < power - 3)
    (deepC : c.length < power - 3) (apart : Apart b c) :
    Disjoint (heap.pointer b) (2 ^ (power - b.length)) (heap.pointer c) (2 ^ (power - c.length)) := by
  have ranges := @Apart.disjoint power b c (by omega) (by omega) apart
  unfold Disjoint Heap.pointer
  unfold BuddyTree.size at ranges
  rw [sized.maxPower]
  omega

theorem Heap.Sized.pointer_ne (sized : heap.Sized power) {b c : Block} (deepB : b.length < power - 3)
    (deepC : c.length < power - 3) (apart : Apart b c) : heap.pointer b ≠ heap.pointer c := by
  have ranges := sized.disjoint deepB deepC apart
  have positiveB := Nat.two_pow_pos (power - b.length)
  have positiveC := Nat.two_pow_pos (power - c.length)
  unfold Disjoint at ranges
  omega

theorem Heap.Tracks.step {s t : State} {a : Action} (sized : heap.Sized power)
    (tracks : heap.Tracks power memory s held)
    (taken : heap.Step s a t) : ∃ after, heap.Tracks power memory t after := by
  have ⟨represents, apart, deep, live, distinct, only⟩ := tracks
  cases taken with
  | @alloc size =>
    by_cases refused : size = 0#32 ∨ size > heap.sizeOfHeap
    · refine ⟨held, ?_⟩
      rw [Heap.safeBuddyAlloc, if_pos refused]
      exact tracks
    · obtain ⟨nonzero, fits⟩ := not_or.mp refused
      obtain ⟨small, exact_size⟩ := sized.blocksLevel nonzero fits
      rcases sized.safeBuddyAlloc_cases represents apart nonzero fits with ⟨b, after, length, free,
        found, kept⟩ | ⟨failed, _⟩
      · rw [← length] at small exact_size
        refine ⟨insert b held, ?_⟩
        rw [found]
        refine ⟨kept, free.insert apart, ?_, ?_, ?_, fun aligned => ?_⟩
        · exact Set.forall_mem_insert.mpr ⟨small, deep⟩
        · intro each member
          rcases List.mem_cons.mp member with rfl | old
          · exact ⟨b, Set.mem_insert _ _, rfl, exact_size⟩
          · obtain ⟨c, other, same⟩ := live each old
            exact ⟨c, Set.mem_insert_of_mem _ other, same⟩
        · refine List.nodup_cons.mpr ⟨fun member => ?_, distinct⟩
          obtain ⟨each, old, same⟩ := List.mem_map.mp member
          obtain ⟨c, other, place, _⟩ := live each old
          exact sized.pointer_ne small (deep c other) (free c other) (same.symm.trans place)
        · refine Set.forall_mem_insert.mpr ⟨⟨_, List.mem_cons_self, rfl⟩, fun c other => ?_⟩
          obtain ⟨each, old, place⟩ := only aligned c other
          exact ⟨each, List.mem_cons_of_mem _ old, place⟩
      · refine ⟨held, ?_⟩
        rw [failed]
        exact tracks
  | @free pointer member =>
    obtain ⟨freed, old, rfl⟩ := List.mem_map.mp member
    obtain ⟨b, among, place, _⟩ := live freed old
    have kept : ((s.live.filter fun each => each.1 ≠ freed.1).map Prod.fst).Nodup :=
      distinct.sublist (List.filter_sublist.map _)
    by_cases aligned : 8 ∣ heap.heapStart
    · refine ⟨held \ {b}, ?_, apart.mono Set.sdiff_subset, fun c other => deep c other.1, ?_, kept, fun _ => ?_⟩
      · simp only [place]
        exact sized.safeBuddyFree_represents aligned represents apart among (deep b among)
      · intro each member
        obtain ⟨earlier, other⟩ := List.mem_filter.mp member
        obtain ⟨c, there, same, exact_size⟩ := live each earlier
        refine ⟨c, ⟨there, ?_⟩, same, exact_size⟩
        rintro rfl
        exact of_decide_eq_true other (same.trans place.symm)
      · rintro c ⟨there, differ⟩
        obtain ⟨each, earlier, same⟩ := only aligned c there
        refine ⟨each, List.mem_filter.mpr ⟨earlier, decide_eq_true ?_⟩, same⟩
        rw [same, place]
        exact sized.pointer_ne (deep c there) (deep b among) (apart there among differ)
    · refine ⟨held, ?_, apart, deep, ?_, kept, fun whole => absurd whole aligned⟩
      · simp only [place]
        rw [sized.safeBuddyFree_refuses aligned (deep b among)]
        exact represents
      · exact fun each member => live each (List.mem_filter.mp member).1

end Heaps

/-- A range of bytes is an aligned block of a size in a heap, and apart from every live block. -/
structure Heap.Vacant (heap : Heap) (power : Nat) (live : List (Nat × BitVec 32)) (size : BitVec 32)
    (pointer : Nat) : Prop where
  inside : heap.heapStart ≤ pointer ∧ pointer + blockSize size ≤ heap.heapStart + 2 ^ power
  aligned : blockSize size ∣ pointer - heap.heapStart
  apart : ∀ each ∈ live, Disjoint pointer (blockSize size) each.1 (blockSize each.2)

section Vacant
variable {heap : Heap} {power : Nat} {memory : Blocks} {held : Set Block} {s : State} {size : BitVec 32}

theorem Heap.Tracks.vacant (sized : heap.Sized power) (tracks : heap.Tracks power memory s held) {b : Block}
    (deep : b.length < power - 3) (length : 2 ^ (power - b.length) = blockSize size) (free : Free held b) :
    heap.Vacant power s.live size (heap.pointer b) := by
  refine ⟨?_, ?_, fun each member => ?_⟩
  · have range := @BuddyTree.inside power b (by omega)
    rw [BuddyTree.size, length] at range
    rw [Heap.pointer, sized.maxPower]
    omega
  · rw [Heap.pointer, Nat.add_sub_cancel_left, start, sized.maxPower, length]
    exact Nat.dvd_mul_left _ _
  · obtain ⟨c, other, place, exact_size⟩ := tracks.live each member
    rw [place, ← exact_size, ← length]
    exact sized.disjoint deep (tracks.deep c other) (free c other)

/-- Where frees have an effect every vacant block is free. -/
theorem Heap.Tracks.free_of_vacant (sized : heap.Sized power) (tracks : heap.Tracks power memory s held)
    (aligned : 8 ∣ heap.heapStart) (nonzero : size ≠ 0#32) (fits : ¬size > heap.sizeOfHeap) {pointer : Nat}
    (vacant : heap.Vacant power s.live size pointer) :
    ∃ b : Block, b.length = heap.blocksLevel size ∧ Free held b := by
  obtain ⟨deep, length⟩ := sized.blocksLevel nonzero fits
  obtain ⟨⟨above, below⟩, whole, apart⟩ := vacant
  obtain ⟨i, place⟩ := whole
  have positive : 0 < blockSize size := length ▸ Nat.two_pow_pos _
  have bound : i < 2 ^ heap.blocksLevel size := by
    have product : 2 ^ power = blockSize size * 2 ^ heap.blocksLevel size := by
      rw [← length, ← Nat.pow_add]
      congr 1
      omega
    have room : blockSize size * (i + 1) ≤ blockSize size * 2 ^ heap.blocksLevel size := by
      rw [← product, Nat.mul_add, ← place]
      omega
    exact Nat.le_of_mul_le_mul_left room positive
  obtain ⟨b, level, rfl⟩ := exists_index bound
  refine ⟨b, level, fun c other => ?_⟩
  obtain ⟨each, member, there⟩ := tracks.only aligned c other
  obtain ⟨d, holds, here, exact_size⟩ := tracks.live each member
  have same : c = d := by
    by_contra differ
    exact sized.pointer_ne (tracks.deep c other) (tracks.deep d holds) (tracks.apart other holds differ)
      (there.symm.trans here)
  subst same
  have disjoint := apart each member
  have small := tracks.deep c other
  rw [← exact_size, there, Heap.pointer, sized.maxPower] at disjoint
  refine @apart_of_disjoint power _ _ (by omega) (by omega) ?_
  unfold Disjoint at disjoint
  rw [start, start, BuddyTree.size, BuddyTree.size, level, length]
  rw [start] at disjoint
  rw [Nat.mul_comm] at place
  omega

end Vacant

/-- The heap of `2 ^ power` bytes that `buddy_init` sets up. -/
def heapOf (heapPointer : Nat) (memory : Blocks) (power : Nat) : Heap :=
  (buddyInit heapPointer memory (BitVec.ofNat 32 (2 ^ power))).1

/-- What it leaves, with nothing live. -/
def initial (heapPointer : Nat) (memory : Blocks) (power : Nat) : State :=
  ⟨(buddyInit heapPointer memory (BitVec.ofNat 32 (2 ^ power))).2, []⟩

section Runs
variable {heapPointer power : Nat} {memory : Blocks} {s : State} {size : BitVec 32}

theorem tracks_initial (heapPointer : Nat) (memory : Blocks) (eight : 8 ≤ power) (word : power < 32) :
    (heapOf heapPointer memory power).Tracks power memory (initial heapPointer memory power) ∅ where
  represents := represents_init heapPointer memory eight word
  apart := Set.pairwise_empty _
  deep _ none := absurd none (Set.notMem_empty _)
  live _ none := nomatch none
  distinct := List.nodup_nil
  only _ _ none := absurd none (Set.notMem_empty _)

theorem reachable_tracks (eight : 8 ≤ power) (word : power < 32)
    (reach : Reachable (heapOf heapPointer memory power).Step (initial heapPointer memory power) s) :
    ∃ held, (heapOf heapPointer memory power).Tracks power memory s held := by
  refine reach.invariant (P := fun s => ∃ held, (heapOf heapPointer memory power).Tracks power memory s held)
    ⟨∅, tracks_initial heapPointer memory eight word⟩ ?_
  rintro s a t ⟨held, tracks⟩ taken
  exact tracks.step (buddyInit_sized heapPointer memory eight word) taken

/-- What `buddy_alloc` returns in any run is a block of the size, and apart from every live block. -/
theorem buddyAlloc_vacant (eight : 8 ≤ power) (word : power < 32)
    (reach : Reachable (heapOf heapPointer memory power).Step (initial heapPointer memory power) s) {pointer : Nat}
    (allocated : ((heapOf heapPointer memory power).safeBuddyAlloc s.blocks size).1 = some pointer) :
    (heapOf heapPointer memory power).Vacant power s.live size pointer := by
  have sized : (heapOf heapPointer memory power).Sized power := buddyInit_sized heapPointer memory eight word
  obtain ⟨held, tracks⟩ := reachable_tracks eight word reach
  by_cases refused : size = 0#32 ∨ size > (heapOf heapPointer memory power).sizeOfHeap
  · rw [Heap.safeBuddyAlloc, if_pos refused] at allocated
    cases allocated
  · obtain ⟨nonzero, fits⟩ := not_or.mp refused
    obtain ⟨deep, length⟩ := sized.blocksLevel nonzero fits
    rcases sized.safeBuddyAlloc_cases tracks.represents tracks.apart nonzero fits with
      ⟨b, after, level, free, found, _⟩ | ⟨failed, _⟩
    · rw [found] at allocated
      rw [← level] at deep length
      rw [← Option.some.inj allocated]
      exact tracks.vacant sized deep length free
    · rw [failed] at allocated
      cases allocated

/-- A heap of 512 bytes in which the first of two blocks has been freed. -/
def secondLeft : State where
  blocks :=
    let heap := heapOf 0 (fun _ => 0) 9
    heap.safeBuddyFree
      (heap.safeBuddyAlloc (heap.safeBuddyAlloc (initial 0 (fun _ => 0) 9).blocks 16#32).2 16#32).2 8
  live := [(24, 16#32)]

theorem secondLeft_reached : Reachable (heapOf 0 (fun _ => 0) 9).Step (initial 0 (fun _ => 0) 9) secondLeft := by
  have first := @Heap.Step.allocated (heapOf 0 (fun _ => 0) 9) (initial 0 (fun _ => 0) 9) 16#32 8 (by decide)
  have second := @Heap.Step.allocated (heapOf 0 (fun _ => 0) 9)
    ⟨((heapOf 0 (fun _ => 0) 9).safeBuddyAlloc (initial 0 (fun _ => 0) 9).blocks 16#32).2, [(8, 16#32)]⟩ 16#32 24
    (by decide)
  exact ((Reachable.next ⟨[], .start⟩ first).next second).next (.free (.tail _ (.head _)))

/-- It takes the block that has been freed, ahead of the one that is live. -/
theorem buddyAlloc_freed_vacant : (heapOf 0 (fun _ => 0) 9).Vacant 9 secondLeft.live 10#32 8 :=
  buddyAlloc_vacant (by decide) (by decide) secondLeft_reached (by decide)

/-- `buddy_alloc` fails only if there is no vacant block, and no allocation is left behind when nothing is live. -/
structure Heap.Complete (heap : Heap) (power : Nat) (start s : State) : Prop where
  fails : ∀ size, size ≠ 0#32 → size ≤ heap.sizeOfHeap →
    ((heap.safeBuddyAlloc s.blocks size).1 = none ↔ ¬∃ pointer, heap.Vacant power s.live size pointer)
  restored : s.live = [] → s.blocks = start.blocks

theorem heapStart_aligned_iff (heapPointer : Nat) (memory : Blocks) (eight : 8 ≤ power) (word : power < 32) :
    8 ∣ (heapOf heapPointer memory power).heapStart ↔ 9 ≤ power := by
  rw [heapOf, buddyInit_heapStart heapPointer memory eight word, memAlloc]
  constructor
  · intro aligned
    by_contra small
    obtain rfl : power = 8 := by omega
    omega
  · intro large
    obtain ⟨more, rfl⟩ := Nat.exists_eq_add_of_le' large
    rw [show more + 9 - 8 = more + 1 by omega, Nat.pow_succ]
    omega

/-- Where a free has no effect, a block that has been freed is left behind. -/
theorem free_leaves (eight : 8 ≤ power) (word : power < 32)
    (misaligned : ¬8 ∣ (heapOf heapPointer memory power).heapStart) :
    ∃ s, Reachable (heapOf heapPointer memory power).Step (initial heapPointer memory power) s ∧ s.live = [] ∧
      s.blocks ≠ (initial heapPointer memory power).blocks := by
  have sized : (heapOf heapPointer memory power).Sized power := buddyInit_sized heapPointer memory eight word
  have start := tracks_initial heapPointer memory eight word
  have fits : ¬(16#32 : BitVec 32) > (heapOf heapPointer memory power).sizeOfHeap := by
    rw [gt_iff_lt, BitVec.lt_def, sized.sizeOfHeap, not_lt]
    exact Nat.pow_le_pow_right (n := 2) (i := 4) (by decide) (by omega)
  have nonzero : (16#32 : BitVec 32) ≠ 0#32 := by decide
  have deep := (sized.blocksLevel nonzero fits).1
  rcases sized.safeBuddyAlloc_cases start.represents start.apart nonzero fits with
    ⟨b, after, level, _, found, kept⟩ | ⟨_, none⟩
  · have allocated : Reachable (heapOf heapPointer memory power).Step (initial heapPointer memory power) _ :=
      Reachable.next ⟨[], .start⟩ (@Heap.Step.alloc _ _ 16#32)
    rw [found] at allocated
    refine ⟨_,
      allocated.next (@Heap.Step.free _ _ ((heapOf heapPointer memory power).pointer b) List.mem_cons_self), ?_, ?_⟩
    · simp [initial]
    · simp only [sized.safeBuddyFree_refuses misaligned (level ▸ deep)]
      intro same
      have set := (start.represents.bits b (level ▸ deep)).mpr fun _ none => absurd none (Set.notMem_empty _)
      rw [← same] at set
      exact (kept.bits b (level ▸ deep)).mp set b (Set.mem_insert _ _) List.suffix_rfl
  · refine absurd ?_ (none (List.replicate _ false) List.length_replicate)
    exact fun _ none => absurd none (Set.notMem_empty _)

theorem smallest_heap_incomplete : ¬∀ s, Reachable (heapOf 0 (fun _ => 0) 8).Step (initial 0 (fun _ => 0) 8) s →
    (heapOf 0 (fun _ => 0) 8).Complete 8 (initial 0 (fun _ => 0) 8) s := by
  intro complete
  obtain ⟨s, reach, freed, left⟩ := @free_leaves 0 8 (fun _ => 0) (le_refl 8) (by decide)
    fun aligned => absurd ((heapStart_aligned_iff 0 _ (le_refl 8) (by decide)).mp aligned) (by decide)
  exact left ((complete s reach).restored freed)

/-- The allocator is complete in all its runs if and only if its heap is larger than 256 bytes. -/
theorem buddy_complete_iff (heapPointer : Nat) (memory : Blocks) (eight : 8 ≤ power) (word : power < 32) :
    (∀ s, Reachable (heapOf heapPointer memory power).Step (initial heapPointer memory power) s →
      (heapOf heapPointer memory power).Complete power (initial heapPointer memory power) s) ↔ 9 ≤ power := by
  have sized : (heapOf heapPointer memory power).Sized power := buddyInit_sized heapPointer memory eight word
  rw [← heapStart_aligned_iff heapPointer memory eight word]
  constructor
  · intro complete
    by_contra misaligned
    obtain ⟨s, reach, freed, left⟩ := free_leaves eight word misaligned
    exact left ((complete s reach).restored freed)
  · intro aligned s reach
    obtain ⟨held, tracks⟩ := reachable_tracks eight word reach
    refine ⟨fun size nonzero le => ?_, fun freed => ?_⟩
    · have fits : ¬size > (heapOf heapPointer memory power).sizeOfHeap := BitVec.not_lt.mpr le
      obtain ⟨deep, length⟩ := sized.blocksLevel nonzero fits
      rcases sized.safeBuddyAlloc_cases tracks.represents tracks.apart nonzero fits with
        ⟨b, after, level, free, found, _⟩ | ⟨failed, none⟩
      · rw [← level] at deep length
        rw [found]
        exact iff_of_false (Option.some_ne_none _) fun full => full ⟨_, tracks.vacant sized deep length free⟩
      · rw [failed]
        refine iff_of_true rfl ?_
        rintro ⟨pointer, vacant⟩
        obtain ⟨b, level, free⟩ := tracks.free_of_vacant sized aligned nonzero fits vacant
        exact none b level free
    · have empty : held = ∅ := by
        refine Set.eq_empty_of_forall_notMem fun b member => ?_
        obtain ⟨each, there, _⟩ := tracks.only aligned b member
        rw [freed] at there
        cases there
      rw [empty] at tracks
      exact tracks.represents.unique (by omega) (represents_init heapPointer memory eight word)

theorem secondLeft_complete : (heapOf 0 (fun _ => 0) 9).Complete 9 (initial 0 (fun _ => 0) 9) secondLeft :=
  (buddy_complete_iff 0 (fun _ => 0) (by decide) (by decide)).mpr le_rfl _ secondLeft_reached

end Runs

end Upmem.Buddy
