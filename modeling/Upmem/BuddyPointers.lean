import Upmem.BuddyRuns

namespace Upmem.Buddy
open BuddyTree Transitions

/-- A pointer that is aligned on 64 bits points into a block of a size. -/
def Within (pointer : Nat) (each : Nat × BitVec 32) : Prop :=
  pointer % 8 = 0 ∧ each.1 ≤ pointer ∧ pointer < each.1 + blockSize each.2

instance (pointer : Nat) (each : Nat × BitVec 32) : Decidable (Within pointer each) :=
  inferInstanceAs (Decidable (_ ∧ _ ∧ _))

/-- A call of `buddy_alloc`, or of `buddy_free` on any pointer. It is to free the block that it points into. -/
inductive Heap.AnyStep (heap : Heap) : State → Action → State → Prop
  | alloc {s : State} {size : BitVec 32} : heap.AnyStep s (.alloc size)
    { blocks := (heap.safeBuddyAlloc s.blocks size).2
      live := ((heap.safeBuddyAlloc s.blocks size).1.map fun pointer => (pointer, size)).toList ++ s.live }
  | free {s : State} {pointer : Nat} {each : Nat × BitVec 32} (member : each ∈ s.live)
      (within : Within pointer each) :
    heap.AnyStep s (.free pointer)
    { blocks := heap.safeBuddyFree s.blocks pointer
      live := s.live.filter fun other => other.1 ≠ each.1 }
  | stray {s : State} {pointer : Nat} (outside : ∀ each ∈ s.live, ¬Within pointer each) :
      heap.AnyStep s (.free pointer)
    { blocks := heap.safeBuddyFree s.blocks pointer
      live := s.live }

/-- The blocks that live pointers with their sizes stand for. -/
def Heap.heldBy (heap : Heap) (power : Nat) (live : List (Nat × BitVec 32)) : Set Block :=
  {b | b.length < power - 3 ∧ ∃ each ∈ live, each.1 = heap.pointer b ∧ 2 ^ (power - b.length) = blockSize each.2}

/-- `__buddy_blocks` represents the live blocks, and no other. -/
structure Heap.Exact (heap : Heap) (power : Nat) (memory : Blocks) (s : State) : Prop where
  represents : Represents (power - 3) memory s.blocks (heap.heldBy power s.live)
  apart : (heap.heldBy power s.live).Pairwise Apart
  live : ∀ each ∈ s.live, ∃ b ∈ heap.heldBy power s.live, each.1 = heap.pointer b ∧
    2 ^ (power - b.length) = blockSize each.2

section Pointers
variable {heap : Heap} {power pointer : Nat} {memory : Blocks} {s : State} {size : BitVec 32}
  {each : Nat × BitVec 32}

theorem Heap.Sized.pointer_injective (sized : heap.Sized power) {b c : Block} (deepB : b.length < power - 3)
    (deepC : c.length < power - 3) (same : heap.pointer b = heap.pointer c)
    (sizes : 2 ^ (power - b.length) = 2 ^ (power - c.length)) : b = c := by
  have lengths := Nat.pow_right_injective (le_refl 2) sizes
  unfold Heap.pointer at same
  have starts : start heap.maxPower b = start heap.maxPower c := Nat.add_left_cancel same
  rw [start, start, sized.maxPower, sizes] at starts
  refine index_injective ?_ (Nat.eq_of_mul_eq_mul_right (Nat.two_pow_pos _) starts)
  omega

theorem Heap.Sized.heldBy_cons (sized : heap.Sized power) (live : List (Nat × BitVec 32)) {b : Block}
    (deep : b.length < power - 3) (length : 2 ^ (power - b.length) = blockSize size) :
    heap.heldBy power ((heap.pointer b, size) :: live) = insert b (heap.heldBy power live) := by
  ext c
  constructor
  · rintro ⟨small, each, member, place, exact_size⟩
    rcases List.mem_cons.mp member with rfl | old
    · exact .inl (sized.pointer_injective deep small place (length.trans exact_size.symm)).symm
    · exact .inr ⟨small, each, old, place, exact_size⟩
  · rintro (rfl | ⟨small, each, old, place, exact_size⟩)
    · exact ⟨deep, _, List.mem_cons_self, rfl, length⟩
    · exact ⟨small, each, List.mem_cons_of_mem _ old, place, exact_size⟩

/-- The blocks that are left without one of them. -/
theorem Heap.Exact.heldBy_filter (exact_ : heap.Exact power memory s) (sized : heap.Sized power) {b : Block}
    (among : b ∈ heap.heldBy power s.live) (place : each.1 = heap.pointer b) :
    heap.heldBy power (s.live.filter fun other => other.1 ≠ each.1) = heap.heldBy power s.live \ {b} := by
  ext c
  constructor
  · rintro ⟨small, other, member, there, exact_size⟩
    obtain ⟨earlier, differ⟩ := List.mem_filter.mp member
    refine ⟨⟨small, other, earlier, there, exact_size⟩, ?_⟩
    rintro rfl
    exact of_decide_eq_true differ (there.trans place.symm)
  · rintro ⟨held, differ⟩
    obtain ⟨small, other, earlier, there, exact_size⟩ := held
    refine ⟨small, other, List.mem_filter.mpr ⟨earlier, decide_eq_true ?_⟩, there, exact_size⟩
    rw [there, place]
    exact sized.pointer_ne small among.1 (exact_.apart ⟨small, other, earlier, there, exact_size⟩ among differ)

/-- `buddy_free` of a pointer into a live block releases this block. -/
theorem Heap.Exact.free_within (exact_ : heap.Exact power memory s) (sized : heap.Sized power)
    (member : each ∈ s.live)
    (within : Within pointer each) : heap.Exact power memory
      ⟨heap.safeBuddyFree s.blocks pointer, s.live.filter fun other => other.1 ≠ each.1⟩ := by
  obtain ⟨aligned, above, below⟩ := within
  obtain ⟨b, among, place, exact_size⟩ := exact_.live each member
  have left := exact_.heldBy_filter sized among place
  rw [place] at above
  rw [place, ← exact_size] at below
  refine ⟨?_, ?_, fun other found => ?_⟩
  · rw [left]
    exact sized.safeBuddyFree_found exact_.represents exact_.apart among among.1
      (sized.search_within exact_.represents exact_.apart among among.1 aligned ⟨above, below⟩)
  · rw [left]
    exact exact_.apart.mono Set.sdiff_subset
  · obtain ⟨earlier, differ⟩ := List.mem_filter.mp found
    obtain ⟨c, held, there, other_size⟩ := exact_.live other earlier
    refine ⟨c, ?_, there, other_size⟩
    rw [left]
    refine ⟨held, ?_⟩
    rintro rfl
    exact of_decide_eq_true differ (there.trans place.symm)

/-- `buddy_free` of any other pointer changes nothing. -/
theorem Heap.Exact.free_stray (exact_ : heap.Exact power memory s) (sized : heap.Sized power)
    (outside : ∀ each ∈ s.live, ¬Within pointer each) : heap.safeBuddyFree s.blocks pointer = s.blocks := by
  refine sized.safeBuddyFree_outside exact_.represents (fun b among => among.1) fun aligned b among inside => ?_
  obtain ⟨_, each, member, place, exact_size⟩ := among
  refine outside each member ⟨aligned, ?_, ?_⟩
  · rw [place]
    exact inside.1
  · rw [place, ← exact_size]
    exact inside.2

theorem Heap.Exact.alloc (exact_ : heap.Exact power memory s) (sized : heap.Sized power) : heap.Exact power memory
    ⟨(heap.safeBuddyAlloc s.blocks size).2,
      ((heap.safeBuddyAlloc s.blocks size).1.map fun pointer => (pointer, size)).toList ++ s.live⟩ := by
  by_cases refused : size = 0#32 ∨ size > heap.sizeOfHeap
  · rw [Heap.safeBuddyAlloc, if_pos refused]
    exact exact_
  obtain ⟨nonzero, fits⟩ := not_or.mp refused
  obtain ⟨small, exact_size⟩ := sized.blocksLevel nonzero fits
  rcases sized.safeBuddyAlloc_cases exact_.represents exact_.apart nonzero fits with
    ⟨b, after, length, free, found, kept⟩ | ⟨failed, _⟩
  · rw [← length] at small exact_size
    have grown := sized.heldBy_cons s.live small exact_size
    rw [found]
    refine ⟨?_, ?_, ?_⟩
    · exact grown.symm ▸ kept
    · exact grown.symm ▸ free.insert exact_.apart
    · intro each member
      rcases List.mem_cons.mp member with rfl | old
      · exact ⟨b, grown.symm ▸ Set.mem_insert _ _, rfl, exact_size⟩
      · obtain ⟨c, held, same⟩ := exact_.live each old
        exact ⟨c, grown.symm ▸ Set.mem_insert_of_mem _ held, same⟩
  · rw [failed]
    exact exact_

theorem Heap.Exact.step {t : State} {a : Action} (exact_ : heap.Exact power memory s) (sized : heap.Sized power)
    (taken : heap.AnyStep s a t) : heap.Exact power memory t := by
  cases taken with
  | alloc => exact exact_.alloc sized
  | free member within => exact exact_.free_within sized member within
  | stray outside =>
    rw [exact_.free_stray sized outside]
    exact exact_

end Pointers

section Runs
variable {heapPointer power : Nat} {memory : Blocks} {s : State}

theorem exact_initial (heapPointer : Nat) (memory : Blocks) (eight : 8 ≤ power) (word : power < 32) :
    (heapOf heapPointer memory power).Exact power memory (initial heapPointer memory power) := by
  have none_ : (heapOf heapPointer memory power).heldBy power (initial heapPointer memory power).live = ∅ :=
    Set.eq_empty_of_forall_notMem fun b ⟨_, _, member, _⟩ => nomatch member
  refine ⟨?_, ?_, fun _ member => nomatch member⟩
  · rw [none_]
    exact represents_init heapPointer memory eight word
  · rw [none_]
    exact Set.pairwise_empty _

/-- In every run `buddy_free` frees the live block that a pointer points into, and no
other pointer changes anything. -/
theorem buddyFree_any (eight : 8 ≤ power) (word : power < 32)
    (reach : Reachable (heapOf heapPointer memory power).AnyStep (initial heapPointer memory power) s)
    (pointer : Nat) :
    Represents (power - 3) memory s.blocks ((heapOf heapPointer memory power).heldBy power s.live) ∧
      (∀ each ∈ s.live, Within pointer each →
        Represents (power - 3) memory ((heapOf heapPointer memory power).safeBuddyFree s.blocks pointer)
          ((heapOf heapPointer memory power).heldBy power (s.live.filter fun other => other.1 ≠ each.1))) ∧
      ((∀ each ∈ s.live, ¬Within pointer each) →
        (heapOf heapPointer memory power).safeBuddyFree s.blocks pointer = s.blocks) := by
  have sized : (heapOf heapPointer memory power).Sized power := buddyInit_sized heapPointer memory eight word
  have exact_ : (heapOf heapPointer memory power).Exact power memory s :=
    reach.invariant (exact_initial heapPointer memory eight word) fun _ _ _ exact_ taken => exact_.step sized taken
  exact ⟨exact_.represents, fun each member within => (exact_.free_within sized member within).represents,
    exact_.free_stray sized⟩

end Runs

/-- A pointer into the middle of the first block of a heap of 256 bytes. -/
theorem buddyFree_inner : Represents 5 (fun _ => 0) ((heapOf 0 (fun _ => 0) 8).safeBuddyFree
      ((heapOf 0 (fun _ => 0) 8).safeBuddyAlloc (initial 0 (fun _ => 0) 8).blocks 16#32).2 8)
    ((heapOf 0 (fun _ => 0) 8).heldBy 8 ([(4, 16#32)].filter fun other => other.1 ≠ 4)) := by
  have found : ((heapOf 0 (fun _ => 0) 8).safeBuddyAlloc (initial 0 (fun _ => 0) 8).blocks 16#32).1 = some 4 := by
    decide
  have live : (((heapOf 0 (fun _ => 0) 8).safeBuddyAlloc (initial 0 (fun _ => 0) 8).blocks 16#32).1.map
      fun pointer => (pointer, 16#32)).toList ++ (initial 0 (fun _ => 0) 8).live = [(4, 16#32)] := by
    rw [found]
    rfl
  have freed := (buddyFree_any (by decide) (by decide)
    (Reachable.next ⟨[],
      .start⟩ (@Heap.AnyStep.alloc (heapOf 0 (fun _ => 0) 8) (initial 0 (fun _ => 0) 8) 16#32)) 8).2.1
    (4, 16#32)
  rw [live] at freed
  exact freed List.mem_cons_self (by decide)

/-- A heap whose size is no power of two. -/
def unevenHeap : Heap × Blocks := buddyInit 0 (fun _ => 0) 300#32

/-- Its last bytes are no part of any block, and to free them changes a block. -/
theorem unevenHeap_changes : ¬∀ s, Reachable unevenHeap.1.AnyStep ⟨unevenHeap.2, []⟩ s → ∀ pointer,
    (∀ each ∈ s.live, ¬Within pointer each) → unevenHeap.1.safeBuddyFree s.blocks pointer = s.blocks := by
  intro unchanged
  have same :=
    unchanged _ (Reachable.next ⟨[], .start⟩ (@Heap.AnyStep.alloc unevenHeap.1 ⟨unevenHeap.2, []⟩ 16#32)) 264
    (by decide)
  exact absurd (congrFun same 0) (by decide)

end Upmem.Buddy
