import Upmem.BuddyRuns
import Upmem.Lib.Blit

namespace Upmem.Buddy
open BuddyTree Transitions Blit

/-- What the heap holds, by address. -/
abbrev Bytes := Nat → BitVec 8

/-- `number` units copied one after another, the first one first. -/
def copyUnits (unit : Nat) (bytes : Bytes) (dest src : Nat) : (number : Nat) → Bytes
  | 0 => bytes
  | number + 1 =>
    let bytes := copyUnits unit bytes dest src number
    blit bytes (src + unit * number) bytes (dest + unit * number) unit

/-- Bytes, words and bytes again. -/
def copyParts (bytes : Bytes) (dest src headLen bodyLen tailLen : Nat) : Bytes :=
  let bytes := copyUnits 1 bytes dest src headLen
  let bytes := copyUnits 4 bytes (dest + headLen) (src + headLen) bodyLen
  copyUnits 1 bytes (dest + (headLen + 4 * bodyLen)) (src + (headLen + 4 * bodyLen)) tailLen

/-- `memcpy`, where `head` is the first word boundary and `body` the last one,
on ranges of the heap, whose addresses do not wrap around. There it has the
effect of `WramCopy.memcpy`, which computes in `uint32_t`. -/
def memcpy (bytes : Bytes) (dest src len : Nat) : Bytes :=
  let tail := dest + len
  let body := tail / 4 * 4
  let head := if dest % 4 ≠ src % 4 then tail else if tail < (dest + 3) / 4 * 4 then tail else (dest + 3) / 4 * 4
  let headLen := head - dest
  let bodyLen := if body < dest + headLen then 0 else (body - (dest + headLen)) / 4
  copyParts bytes dest src headLen bodyLen (tail - (dest + (headLen + 4 * bodyLen)))

/-- `buddy_sizeofblock`, where the shift takes the index in the level. -/
def Heap.buddySizeofblock (heap : Heap) (blocks : Blocks) (pointer : Nat) : Option (BitVec 32) :=
  (heap.buddySearchForPointer blocks pointer).map fun found => shiftOne (12#32 - BitVec.ofNat 32 found.2).toNat

/-- A block freed, another one taken and the contents copied, to address 0 if there is none. -/
def Heap.move (heap : Heap) (blocks : Blocks) (bytes : Bytes) (pointer : Nat) (size sizeBlock : BitVec 32) :
    Option Nat × Blocks × Bytes :=
  let (result, blocks) := heap.safeBuddyAlloc (heap.safeBuddyFree blocks pointer) size
  (result, blocks, memcpy bytes (result.getD 0) pointer sizeBlock.toNat)

def Heap.buddyRealloc (heap : Heap) (blocks : Blocks) (bytes : Bytes) (size : BitVec 32) :
    Option Nat → Option Nat × Blocks × Bytes
  | none =>
    let (result, blocks) := heap.safeBuddyAlloc blocks size
    (result, blocks, bytes)
  | some pointer =>
    if size = 0#32 then (some pointer, heap.safeBuddyFree blocks pointer, bytes)
    else
      match heap.buddySizeofblock blocks pointer with
      | none => (none, blocks, bytes)
      | some sizeBlock =>
        if size ≤ sizeBlock >>> 1 then heap.move blocks bytes pointer size size
        else if size ≤ sizeBlock then (some pointer, blocks, bytes)
        else heap.move blocks bytes pointer size sizeBlock

section Memcpy
variable {bytes : Bytes} {unit dest src len k : Nat}

theorem copyUnits_outside (unit : Nat) (bytes : Bytes) {dest number a : Nat} (src : Nat)
    (outside : a < dest ∨ dest + unit * number ≤ a) : copyUnits unit bytes dest src number a = bytes a := by
  induction number with
  | zero => rfl
  | succ number ih =>
    rw [Nat.mul_succ] at outside
    rw [copyUnits, blit_outside _ _ _ (by omega)]
    exact ih (by omega)

/-- What lies before the destination, and all of a source that it does not lie before,
is read before it is written. -/
theorem copyUnits_inside {number : Nat} (inside : k < unit * number) (apart : dest ≤ src ∨ src + k < dest) :
    copyUnits unit bytes dest src number (dest + k) = bytes (src + k) := by
  induction number with
  | zero => exact absurd inside (Nat.not_lt_zero _)
  | succ number ih =>
    rw [Nat.mul_succ] at inside
    rw [copyUnits]
    by_cases last : unit * number ≤ k
    · obtain ⟨rest, rfl⟩ := Nat.exists_eq_add_of_le last
      rw [← Nat.add_assoc, blit_inside _ _ _ _ (by omega), Nat.add_assoc]
      exact copyUnits_outside _ _ _ (by omega)
    · rw [blit_outside _ _ _ (by omega)]
      exact ih (by omega)

theorem memcpy_parts (bytes : Bytes) (dest src len : Nat) : ∃ headLen bodyLen,
    headLen + 4 * bodyLen ≤ len ∧
      memcpy bytes dest src len = copyParts bytes dest src headLen bodyLen (len - (headLen + 4 * bodyLen)) := by
  refine ⟨_, _, ?_, congrArg (copyParts bytes dest src _ _) (Nat.add_sub_add_left ..)⟩
  split_ifs <;> omega

/-- Bytes, words and bytes again. -/
theorem copyParts_outside (bytes : Bytes) (src : Nat) {headLen bodyLen tailLen a : Nat}
    (whole : headLen + 4 * bodyLen + tailLen = len) (outside : a < dest ∨ dest + len ≤ a) :
    copyParts bytes dest src headLen bodyLen tailLen a = bytes a := by
  rw [copyParts, copyUnits_outside, copyUnits_outside, copyUnits_outside] <;> omega

theorem copyParts_inside (bytes : Bytes) {headLen bodyLen tailLen : Nat}
    (whole : headLen + 4 * bodyLen + tailLen = len)
    (inside : k < len) (apart : dest ≤ src ∨ src + k < dest) :
    copyParts bytes dest src headLen bodyLen tailLen (dest + k) = bytes (src + k) := by
  rw [copyParts]
  by_cases head : k < headLen
  · rw [copyUnits_outside _ _ _ (by omega), copyUnits_outside _ _ _ (by omega)]
    exact copyUnits_inside (by omega) apart
  obtain ⟨more, rfl⟩ := Nat.exists_eq_add_of_le (not_lt.mp head)
  by_cases body : more < 4 * bodyLen
  · rw [copyUnits_outside _ _ _ (by omega), ← Nat.add_assoc, copyUnits_inside body (by omega),
      copyUnits_outside _ _ _ (by omega), Nat.add_assoc]
  · obtain ⟨rest, rfl⟩ := Nat.exists_eq_add_of_le (not_lt.mp body)
    rw [← Nat.add_assoc headLen, ← Nat.add_assoc dest _ rest, copyUnits_inside (by omega) (by omega),
      copyUnits_outside _ _ _ (by omega), copyUnits_outside _ _ _ (by omega), Nat.add_assoc]

theorem memcpy_outside (bytes : Bytes) (src : Nat) {a : Nat} (outside : a < dest ∨ dest + len ≤ a) :
    memcpy bytes dest src len a = bytes a := by
  obtain ⟨headLen, bodyLen, within, parts⟩ := memcpy_parts bytes dest src len
  rw [parts]
  exact copyParts_outside bytes src (Nat.add_sub_cancel' within) outside

theorem memcpy_inside (bytes : Bytes) (inside : k < len) (apart : dest ≤ src ∨ src + k < dest) :
    memcpy bytes dest src len (dest + k) = bytes (src + k) := by
  obtain ⟨headLen, bodyLen, within, parts⟩ := memcpy_parts bytes dest src len
  rw [parts]
  exact copyParts_inside bytes (Nat.add_sub_cancel' within) inside apart

end Memcpy

/-- The state of the allocator, and what the heap holds. -/
structure Filled extends State where
  bytes : Bytes

inductive Call
  | alloc (size : BitVec 32)
  | free (pointer : Nat)
  | write (bytes : Bytes)
  | realloc (pointer : Nat) (size : BitVec 32)

/-- What is live after `buddy_realloc`: the old block is freed, and the new one is
live, where it moves the block. -/
def Heap.reallocLive (heap : Heap) (s : State) (pointer : Nat) (size : BitVec 32) : List (Nat × BitVec 32) :=
  match heap.buddySizeofblock s.blocks pointer with
  | none => s.live
  | some sizeBlock =>
    if ¬size ≤ sizeBlock >>> 1 ∧ size ≤ sizeBlock then s.live
    else ((heap.safeBuddyAlloc (heap.safeBuddyFree s.blocks pointer) size).1.map fun result => (result,
      size)).toList ++
      s.live.filter fun each => each.1 ≠ pointer

/-- `buddy_realloc` of a pointer to a size that is not 0. -/
def Heap.realloc (heap : Heap) (s : Filled) (pointer : Nat) (size : BitVec 32) : Option Nat × Filled :=
  let (result, blocks, bytes) := heap.buddyRealloc s.blocks s.bytes size (some pointer)
  (result, ⟨⟨blocks, heap.reallocLive s.toState pointer size⟩, bytes⟩)

/-- The calls with what the program writes in between. -/
inductive Heap.Calls (heap : Heap) : Filled → Call → Filled → Prop
  | alloc {s : Filled} {t : State} {size : BitVec 32} (taken : heap.Step s.toState (.alloc size) t) :
    heap.Calls s (.alloc size) ⟨t, s.bytes⟩
  | free {s : Filled} {t : State} {pointer : Nat} (taken : heap.Step s.toState (.free pointer) t) :
    heap.Calls s (.free pointer) ⟨t, s.bytes⟩
  | write {s : Filled} {bytes : Bytes} : heap.Calls s (.write bytes) ⟨s.toState, bytes⟩
  | realloc {s : Filled} {pointer : Nat} {size : BitVec 32} (member : pointer ∈ s.live.map Prod.fst)
    (nonzero : size ≠ 0#32) : heap.Calls s (.realloc pointer size) (heap.realloc s pointer size).2

/-- What `buddy_realloc` is to do with a live block that was asked for with some size. -/
structure Heap.Reallocated (heap : Heap) (s t : Filled) (pointer : Nat) (asked size : BitVec 32)
    (result : Option Nat) : Prop where
  failed : result = none → (pointer, asked) ∈ t.live ∧ ∀ k < blockSize asked,
    t.bytes (pointer + k) = s.bytes (pointer + k)
  moved : ∀ place, result = some place → ∃ given, (place, given) ∈ t.live ∧ size.toNat ≤ blockSize given ∧
    heap.buddySearchForPointer t.blocks place =
      some (heap.maxPower - Nat.log 2 (blockSize given), (place - heap.heapStart) / blockSize given) ∧
    (∀ each ∈ t.live, each.1 ≠ place → Disjoint place (blockSize given) each.1 (blockSize each.2)) ∧
    (∀ k, k < blockSize asked → k < size.toNat → t.bytes (place + k) = s.bytes (pointer + k)) ∧
    (place ≠ pointer → pointer ∉ t.live.map Prod.fst)
  others : ∀ each ∈ s.live, each.1 ≠ pointer → each ∈ t.live ∧
    heap.buddySearchForPointer t.blocks each.1 = heap.buddySearchForPointer s.blocks each.1 ∧
    ∀ k < blockSize each.2, t.bytes (each.1 + k) = s.bytes (each.1 + k)
  only : ∀ each ∈ t.live, some each.1 ≠ result → each ∈ s.live

/-- The size that `buddy_sizeofblock` takes a block for. -/
def Heap.claimedSize (heap : Heap) (pointer : Nat) (asked : BitVec 32) : BitVec 32 :=
  shiftOne (12#32 - BitVec.ofNat 32 ((pointer - heap.heapStart) / blockSize asked)).toNat

/-- Where `buddy_realloc` does what it is to do: a block that stays in place is as large
as it has to be, and for one that moves there is room once it has been freed, and what is
copied covers all of it or all of the new size. -/
def Heap.Fits (heap : Heap) (power : Nat) (s : State) (pointer : Nat) (asked size : BitVec 32) : Prop :=
  8 ∣ heap.heapStart →
    if ¬size ≤ heap.claimedSize pointer asked >>> 1 ∧ size ≤ heap.claimedSize pointer asked then
    size.toNat ≤ blockSize asked
    else (∃ place, heap.Vacant power (s.live.filter fun each => each.1 ≠ pointer) size place) ∧
      (size ≤ heap.claimedSize pointer asked >>> 1 ∨ blockSize asked ≤ (heap.claimedSize pointer asked).toNat)

section Realloc
variable {heap : Heap} {power : Nat} {memory : Blocks} {held : Set Block} {s : State}

theorem le_blockSize (size : BitVec 32) : size.toNat ≤ blockSize size :=
  (Nat.le_pow_clog one_lt_two _).trans (le_max_right _ _)

theorem Heap.Tracks.disjoint (sized : heap.Sized power) (tracks : heap.Tracks power memory s held)
    {one two : Nat × BitVec 32} (first : one ∈ s.live) (second : two ∈ s.live) (differ : one.1 ≠ two.1) :
    Disjoint one.1 (blockSize one.2) two.1 (blockSize two.2) := by
  obtain ⟨b, memberB, placeB, sizeB⟩ := tracks.live one first
  obtain ⟨c, memberC, placeC, sizeC⟩ := tracks.live two second
  have blocks : b ≠ c := by
    rintro rfl
    exact differ (placeB.trans placeC.symm)
  rw [placeB, placeC, ← sizeB, ← sizeC]
  exact sized.disjoint (tracks.deep b memberB) (tracks.deep c memberC) (tracks.apart memberB memberC blocks)

theorem Heap.Sized.index_pointer (sized : heap.Sized power) {b : Block} {asked : BitVec 32}
    (exact_size : 2 ^ (power - b.length) = blockSize asked) :
    (heap.pointer b - heap.heapStart) / blockSize asked = index b := by
  rw [Heap.pointer, Nat.add_sub_cancel_left, start, sized.maxPower, ← exact_size]
  exact Nat.mul_div_cancel _ (Nat.two_pow_pos _)

/-- A live pointer is found at the level and the index that its size and its place give. -/
theorem Heap.Tracks.search (sized : heap.Sized power) (tracks : heap.Tracks power memory s held)
    (aligned : 8 ∣ heap.heapStart) {each : Nat × BitVec 32} (member : each ∈ s.live) :
    heap.buddySearchForPointer s.blocks each.1 =
      some (heap.maxPower - Nat.log 2 (blockSize each.2), (each.1 - heap.heapStart) / blockSize each.2) := by
  rw [sized.maxPower]
  obtain ⟨b, among, place, exact_size⟩ := tracks.live each member
  have deep := tracks.deep b among
  rw [place, sized.index_pointer exact_size, ← exact_size, Nat.log_pow one_lt_two,
    sized.search_held aligned tracks.represents tracks.apart among deep]
  congr 2
  omega

theorem Heap.Tracks.refused (sized : heap.Sized power) (tracks : heap.Tracks power memory s held)
    (misaligned : ¬8 ∣ heap.heapStart) (blocks : Blocks) {each : Nat × BitVec 32} (member : each ∈ s.live) :
    heap.buddySearchForPointer blocks each.1 = none := by
  obtain ⟨b, among, place, _⟩ := tracks.live each member
  rw [place]
  exact sized.search_refused misaligned blocks (tracks.deep b among)

theorem blockSize_pow (size : BitVec 32) : ∃ exponent, blockSize size = 2 ^ exponent := by
  rw [blockSize]
  rcases max_choice 16 (2 ^ Nat.clog 2 size.toNat) with same | same
  · exact ⟨4, same⟩
  · exact ⟨_, same⟩

/-- A multiple of a power of two does not lie within the smaller of it and another one,
from a multiple of the other on. -/
theorem multiple_apart {a b x y : Nat} (left : 2 ^ a ∣ x) (right : 2 ^ b ∣ y) :
    y ≤ x ∨ x + 2 ^ a ≤ y ∨ x + 2 ^ b ≤ y := by
  by_contra! ⟨above, first, second⟩
  have divides : 2 ^ min a b ∣ y - x :=
    Nat.dvd_sub ((pow_dvd_pow 2 (min_le_right a b)).trans right) ((pow_dvd_pow 2 (min_le_left a b)).trans left)
  have smaller : y - x < 2 ^ min a b := by
    rcases min_choice a b with same | same <;> rw [same] <;> omega
  have none := Nat.eq_zero_of_dvd_of_lt divides smaller
  omega

/-- What is copied from a live block is not written before it is read. -/
theorem Heap.Tracks.ahead (sized : heap.Sized power) (tracks : heap.Tracks power memory s held)
    {pointer place : Nat} {asked size : BitVec 32} (member : (pointer, asked) ∈ s.live)
    (above : heap.heapStart ≤ place) (whole : blockSize size ∣ place - heap.heapStart) :
    place ≤ pointer ∨ pointer + blockSize asked ≤ place ∨ pointer + blockSize size ≤ place := by
  obtain ⟨b, _, here, exact_size⟩ := tracks.live _ member
  simp only at here exact_size
  obtain ⟨exponent, power_size⟩ := blockSize_pow size
  rw [power_size] at whole ⊢
  have multiple : 2 ^ (power - b.length) ∣ pointer - heap.heapStart := by
    rw [here, Heap.pointer, Nat.add_sub_cancel_left, start, sized.maxPower]
    exact Nat.dvd_mul_left _ _
  have apart := multiple_apart multiple whole
  have within : heap.heapStart ≤ pointer := here ▸ Nat.le_add_right _ _
  rw [← exact_size]
  omega

/-- Where there is room once a block has been freed, `buddy_alloc` finds it. -/
theorem Heap.Tracks.moves (sized : heap.Sized power) (tracks : heap.Tracks power memory s held)
    (aligned : 8 ∣ heap.heapStart) {pointer room : Nat} {size : BitVec 32} (member : pointer ∈ s.live.map Prod.fst)
    (nonzero : size ≠ 0#32) (vacant : heap.Vacant power (s.live.filter fun each => each.1 ≠ pointer) size room) :
    ∃ place after, heap.safeBuddyAlloc (heap.safeBuddyFree s.blocks pointer) size = (some place, after) ∧
      heap.Vacant power (s.live.filter fun each => each.1 ≠ pointer) size place ∧
      ∃ held,
      heap.Tracks power memory ⟨after, (place, size) :: s.live.filter fun each => each.1 ≠ pointer⟩ held := by
  obtain ⟨kept, freed⟩ := tracks.step sized (.free member)
  have fits : ¬size > heap.sizeOfHeap := by
    have inside := vacant.inside
    have enough := le_blockSize size
    rw [gt_iff_lt, BitVec.lt_def, sized.sizeOfHeap]
    omega
  rcases sized.safeBuddyAlloc_cases freed.represents freed.apart nonzero fits with
    ⟨b, after, level, free, found, _⟩ | ⟨_, none⟩
  · obtain ⟨deep, length⟩ := sized.blocksLevel nonzero fits
    rw [← level] at deep length
    refine ⟨heap.pointer b, after, found, freed.vacant sized deep length free, ?_⟩
    have taken := freed.step sized (@Heap.Step.alloc heap _ size)
    rw [found] at taken
    exact taken
  · obtain ⟨b, level, free⟩ := freed.free_of_vacant sized aligned nonzero fits vacant
    exact absurd free (none b level)

theorem Heap.Tracks.reallocated {s : Filled} (sized : heap.Sized power)
    (tracks : heap.Tracks power memory s.toState held)
    (aligned : 8 ∣ heap.heapStart) {pointer place copied : Nat} {asked size : BitVec 32} {after : Blocks}
    {kept : Set Block}
    (member : (pointer, asked) ∈ s.live)
    (vacant : heap.Vacant power (s.live.filter fun each => each.1 ≠ pointer) size place)
    (moved : heap.Tracks power memory ⟨after, (place, size) :: s.live.filter fun each => each.1 ≠ pointer⟩ kept)
    (most : copied ≤ size.toNat) (enough : ∀ k < blockSize asked, k < size.toNat → k < copied) :
    heap.Reallocated s
      ⟨⟨after, (place, size) :: s.live.filter fun each => each.1 ≠ pointer⟩, memcpy s.bytes place pointer copied⟩
      pointer asked size (some place) where
  failed none := nomatch none
  moved
    | _, rfl => by
      refine ⟨size, List.mem_cons_self, le_blockSize size, moved.search sized aligned List.mem_cons_self,
        fun each among differ => ?_, fun k old new => ?_, fun differ => ?_⟩
      · rcases List.mem_cons.mp among with rfl | among
        · exact absurd rfl differ
        · exact vacant.apart each among
      · have ahead := tracks.ahead sized member vacant.inside.1 vacant.aligned
        have room := le_blockSize size
        exact memcpy_inside s.bytes (enough k old new) (by omega)
      · intro among
        rcases List.mem_cons.mp among with same | among
        · exact differ same.symm
        · obtain ⟨each, among, same⟩ := List.mem_map.mp among
          exact of_decide_eq_true (List.mem_filter.mp among).2 same
  others each among differ := by
    have still : each ∈ s.live.filter fun each =>
      each.1 ≠ pointer := List.mem_filter.mpr ⟨among, decide_eq_true differ⟩
    refine ⟨List.mem_cons_of_mem _ still, ?_, fun k inside => memcpy_outside s.bytes pointer ?_⟩
    · rw [tracks.search sized aligned among]
      exact moved.search sized aligned (List.mem_cons_of_mem _ still)
    · have apart := vacant.apart each still
      have room := le_blockSize size
      unfold Disjoint at apart
      omega
  only each among differ := by
    rcases List.mem_cons.mp among with rfl | among
    · exact absurd rfl differ
    · exact (List.mem_filter.mp among).1

/-- Where nothing changes, and the pointer is returned or not. -/
theorem Heap.Tracks.stays {s : Filled} (sized : heap.Sized power) (tracks : heap.Tracks power memory s.toState held)
    {pointer : Nat} {asked size : BitVec 32} (member : (pointer, asked) ∈ s.live) {result : Option Nat}
    (kept : ∀ place, result = some place → 8 ∣ heap.heapStart ∧ place = pointer ∧ size.toNat ≤ blockSize asked) :
    heap.Reallocated s s pointer asked size result where
  failed _ := ⟨member, fun _ _ => rfl⟩
  moved place same := by
    obtain ⟨aligned, rfl, large⟩ := kept place same
    refine ⟨asked, member, large, tracks.search sized aligned member, fun each among differ => ?_, fun _ _ _ => rfl,
      fun differ => absurd rfl differ⟩
    exact tracks.disjoint sized member among (Ne.symm differ)
  others _ among _ := ⟨among, rfl, fun _ _ => rfl⟩
  only _ among _ := among

theorem Heap.Tracks.buddySizeofblock (sized : heap.Sized power) (tracks : heap.Tracks power memory s held)
    (aligned : 8 ∣ heap.heapStart) {pointer : Nat} {asked : BitVec 32} (member : (pointer, asked) ∈ s.live) :
    heap.buddySizeofblock s.blocks pointer = some (heap.claimedSize pointer asked) := by
  rw [Heap.buddySizeofblock, tracks.search sized aligned member]
  rfl

/-- A call of `buddy_realloc` that fits does what it is to do. -/
theorem Heap.Tracks.realloc_reallocated {s : Filled} (sized : heap.Sized power)
    (tracks : heap.Tracks power memory s.toState held) {pointer : Nat} {asked size : BitVec 32}
    (member : (pointer, asked) ∈ s.live) (nonzero : size ≠ 0#32)
    (fits : heap.Fits power s.toState pointer asked size) :
    heap.Reallocated s (heap.realloc s pointer size).2 pointer asked size (heap.realloc s pointer size).1 := by
  by_cases aligned : 8 ∣ heap.heapStart
  · have known := tracks.buddySizeofblock sized aligned member
    have among : pointer ∈ s.live.map Prod.fst := List.mem_map_of_mem member
    specialize fits aligned
    by_cases less : size ≤ heap.claimedSize pointer asked >>> 1
    · rw [if_neg fun both => both.1 less] at fits
      obtain ⟨⟨room, vacant⟩, _⟩ := fits
      obtain ⟨place, after, found, free, kept, moved⟩ := tracks.moves sized aligned among nonzero vacant
      have right := tracks.reallocated sized aligned member free moved le_rfl fun _ _ new => new
      simpa [Heap.realloc, Heap.buddyRealloc, Heap.reallocLive, Heap.move, known, nonzero, less, found] using right
    by_cases same : size ≤ heap.claimedSize pointer asked
    · rw [if_pos ⟨less, same⟩] at fits
      have right := tracks.stays sized member fun place given => ⟨aligned, (Option.some.inj given).symm, fits⟩
      simpa [Heap.realloc, Heap.buddyRealloc, Heap.reallocLive, known, nonzero, less, same] using right
    · rw [if_neg fun both => same both.2] at fits
      obtain ⟨⟨room, vacant⟩, copied⟩ := fits
      obtain ⟨place, after, found, free, kept, moved⟩ := tracks.moves sized aligned among nonzero vacant
      have most := BitVec.le_def.not.mp same
      have right := tracks.reallocated sized aligned member free moved (not_le.mp most).le
        fun _ old _ => old.trans_le (copied.resolve_left less)
      simpa [Heap.realloc, Heap.buddyRealloc, Heap.reallocLive, Heap.move, known, nonzero, less, same,
        found] using right
  · have unknown : heap.buddySizeofblock s.blocks pointer = none := by
      rw [Heap.buddySizeofblock, tracks.refused sized aligned s.blocks member]
      rfl
    have right : heap.Reallocated s s pointer asked size none :=
      tracks.stays sized member fun _ given => absurd given (Option.some_ne_none _).symm
    simpa [Heap.realloc, Heap.buddyRealloc, Heap.reallocLive, unknown, nonzero] using right

theorem Heap.Tracks.calls {s t : Filled} {call : Call} (sized : heap.Sized power)
    (tracks : heap.Tracks power memory s.toState held) (taken : heap.Calls s call t) :
    ∃ after, heap.Tracks power memory t.toState after := by
  cases taken with
  | alloc taken => exact tracks.step sized taken
  | free taken => exact tracks.step sized taken
  | write => exact ⟨held, tracks⟩
  | @realloc pointer size member nonzero =>
    obtain ⟨kept, freed⟩ := tracks.step sized (.free member)
    have moved := freed.step sized (@Heap.Step.alloc heap _ size)
    rw [Heap.realloc, Heap.buddyRealloc, Heap.reallocLive, if_neg nonzero]
    cases known : heap.buddySizeofblock s.blocks pointer with
    | none => exact ⟨held, tracks⟩
    | some sizeBlock =>
      by_cases less : size ≤ sizeBlock >>> 1
      · simpa [less, Heap.move] using moved
      by_cases same : size ≤ sizeBlock
      · simpa [less, same] using ⟨held, tracks⟩
      · simpa [less, same, Heap.move] using moved

theorem Heap.Calls.realloc_inv {s t : Filled} {pointer : Nat} {size : BitVec 32}
    (taken : heap.Calls s (.realloc pointer size) t) : size ≠ 0#32 ∧ t = (heap.realloc s pointer size).2 := by
  cases taken with
  | realloc _ nonzero => exact ⟨nonzero, rfl⟩

end Realloc

/-- If the transition is a call of `buddy_realloc`, it fits. -/
def Heap.FitsCall (heap : Heap) (power : Nat) (τ : Transition Filled Call) : Prop :=
  ∀ pointer asked size, τ.action = .realloc pointer size → (pointer, asked) ∈ τ.before.live →
    heap.Fits power τ.before.toState pointer asked size

/-- If it is one, it does what it is to do. -/
def Heap.RightCall (heap : Heap) (τ : Transition Filled Call) : Prop :=
  ∀ pointer asked size, τ.action = .realloc pointer size → (pointer, asked) ∈ τ.before.live →
    heap.Reallocated τ.before τ.after pointer asked size (heap.realloc τ.before pointer size).1

section Runs
variable {heapPointer power : Nat} {memory : Blocks} {bytes : Bytes} {s : Filled}
  {history : List (Transition Filled Call)}

/-- In a run where all calls of `buddy_realloc` fit, they all do what they are to do. -/
theorem buddyRealloc_right (eight : 8 ≤ power) (word : power < 32)
    (run : Run (heapOf heapPointer memory power).Calls ⟨initial heapPointer memory power, bytes⟩ history s)
    (fits : ∀ τ ∈ history, (heapOf heapPointer memory power).FitsCall power τ) :
    ∀ τ ∈ history, (heapOf heapPointer memory power).RightCall τ := by
  have sized : (heapOf heapPointer memory power).Sized power := buddyInit_sized heapPointer memory eight word
  intro τ among pointer asked size called member
  obtain ⟨reach, taken⟩ := run.transition_step among
  obtain ⟨held, tracks⟩ := reach.invariant
    (P := fun s => ∃ held, (heapOf heapPointer memory power).Tracks power memory s.toState held)
    ⟨∅, tracks_initial heapPointer memory eight word⟩ fun s _ t ⟨_, tracks⟩ taken => tracks.calls sized taken
  rw [called] at taken
  obtain ⟨nonzero, after⟩ := taken.realloc_inv
  rw [after]
  exact tracks.realloc_reallocated sized member nonzero (fits τ among pointer asked size called member)

/-- A heap of 4096 bytes with one block, at its start. -/
def firstBlock (asked : BitVec 32) : Filled :=
  ⟨⟨((heapOf 0 (fun _ => 0) 12).safeBuddyAlloc (initial 0 (fun _ => 0) 12).blocks asked).2,
    [(64, asked)]⟩, fun _ => 0⟩

theorem firstBlock_run (asked size : BitVec 32) (nonzero : size ≠ 0#32)
    (found : ((heapOf 0 (fun _ => 0) 12).safeBuddyAlloc (initial 0 (fun _ => 0) 12).blocks asked).1 = some 64) :
    Run (heapOf 0 (fun _ => 0) 12).Calls ⟨initial 0 (fun _ => 0) 12, fun _ => 0⟩
      [⟨firstBlock asked, .realloc 64 size, ((heapOf 0 (fun _ => 0) 12).realloc (firstBlock asked) 64 size).2⟩,
        ⟨⟨initial 0 (fun _ => 0) 12, fun _ => 0⟩, .alloc asked, firstBlock asked⟩]
      ((heapOf 0 (fun _ => 0) 12).realloc (firstBlock asked) 64 size).2 := by
  exact (Run.start.next (.alloc (.allocated found))).next (.realloc List.mem_cons_self nonzero)

/-- A heap of 4096 bytes of which the second half is live and the first one has been freed. -/
def secondHalf : Filled where
  blocks :=
    let heap := heapOf 0 (fun _ => 0) 12
    heap.safeBuddyFree
      (heap.safeBuddyAlloc (heap.safeBuddyAlloc (initial 0 (fun _ => 0) 12).blocks 2048#32).2 2048#32).2 64
  live := [(2112, 2048#32)]
  bytes a := BitVec.ofNat 8 a

/-- What is left of 1000 bytes moves to the first half. -/
theorem buddyRealloc_moves_back : (heapOf 0 (fun _ => 0) 12).RightCall
    ⟨secondHalf, .realloc 2112 1000#32, ((heapOf 0 (fun _ => 0) 12).realloc secondHalf 2112 1000#32).2⟩ := by
  have first := @Heap.Step.allocated (heapOf 0 (fun _ => 0) 12) (initial 0 (fun _ => 0) 12) 2048#32 64
    (by decide)
  have second := @Heap.Step.allocated (heapOf 0 (fun _ => 0) 12)
    ⟨((heapOf 0 (fun _ => 0) 12).safeBuddyAlloc (initial 0 (fun _ => 0) 12).blocks 2048#32).2,
      [(64, 2048#32)]⟩ 2048#32
    2112 (by decide)
  have before : Run (heapOf 0 (fun _ => 0) 12).Calls ⟨initial 0 (fun _ => 0) 12,
      fun a => BitVec.ofNat 8 a⟩ _ secondHalf :=
    ((Run.start.next (.alloc first)).next (.alloc second)).next (.free (.free (.tail _ (.head _))))
  refine buddyRealloc_right (by decide) (by decide) (before.next (.realloc List.mem_cons_self (by decide))) ?_ _
    List.mem_cons_self
  intro τ among pointer asked size called member _
  rcases List.mem_cons.mp among with rfl | earlier
  · cases called
    cases List.mem_singleton.mp member
    have claimed : (heapOf 0 (fun _ => 0) 12).claimedSize 2112 2048#32 = 2048#32 := by decide
    rw [claimed, if_neg (by decide)]
    exact ⟨⟨64, by decide, by decide +kernel, fun each none => nomatch none⟩, .inl (by decide)⟩
  · simp only [List.mem_cons, List.not_mem_nil, or_false] at earlier
    rcases earlier with rfl | rfl | rfl
    all_goals cases called

/-- A block of 2048 bytes that is taken for one of 4096 stays in place for 3000 bytes. -/
theorem buddyRealloc_stays_small : ¬∀ (bytes : Bytes) (history : List (Transition Filled Call)) (s : Filled),
    Run (heapOf 0 (fun _ => 0) 12).Calls ⟨initial 0 (fun _ => 0) 12, bytes⟩ history s →
      ∀ τ ∈ history, (heapOf 0 (fun _ => 0) 12).RightCall τ := by
  intro right
  have run := firstBlock_run 2048#32 3000#32 (by decide) (by decide)
  have called := right _ _ _ run _ List.mem_cons_self 64 2048#32 3000#32 rfl List.mem_cons_self
  obtain ⟨given, member, large, _⟩ := called.moved 64 (by decide)
  have live : ((heapOf 0 (fun _ => 0) 12).realloc (firstBlock 2048#32) 64 3000#32).2.live = [(64, 2048#32)] := by
    decide
  rw [live] at member
  cases List.mem_singleton.mp member
  exact absurd large (by decide)

end Runs

end Upmem.Buddy
