import Upmem.BuddyRealloc

namespace Upmem.Buddy
open BuddyTree Transitions

/-- `strlen`, for a number of turns. -/
def strlen (bytes : Bytes) (string : Nat) : (turns : Nat) → Option Nat
  | 0 => none
  | turns + 1 => if bytes string ≠ 0#8 then (strlen bytes (string + 1) turns).map (· + 1) else some 0

/-- `strnlen`, by what is left of `max_len`. -/
def strnlen (bytes : Bytes) (string : Nat) : (maxLen : Nat) → Nat
  | 0 => 0
  | maxLen + 1 => if bytes string ≠ 0#8 then strnlen bytes (string + 1) maxLen + 1 else 0

/-- What a call returns, with `__buddy_blocks` and the bytes behind it. -/
structure Duplicate where
  result : Option Nat
  blocks : Blocks
  bytes : Bytes

def Heap.strdup (heap : Heap) (blocks : Blocks) (bytes : Bytes) (string turns : Nat) : Option Duplicate :=
  (strlen bytes string turns).map fun len =>
    let length := (BitVec.ofNat 32 len + 1#32).toNat
    match heap.safeBuddyAlloc blocks (BitVec.ofNat 32 length) with
    | (some result, blocks) => ⟨some result, blocks, memcpy bytes result string length⟩
    | (none, blocks) => ⟨none, blocks, bytes⟩

/-- The terminator goes to `length + 1`. -/
def Heap.strndup (heap : Heap) (blocks : Blocks) (bytes : Bytes) (string n : Nat) : Duplicate :=
  let length := strnlen bytes string n
  match heap.safeBuddyAlloc blocks (BitVec.ofNat 32 (length + 1)) with
  | (some result, blocks) =>
    ⟨some result, blocks, Function.update (memcpy bytes result string length) (result + (length + 1)) 0#8⟩
  | (none, blocks) => ⟨none, blocks, bytes⟩

/-- A string of a length, and its terminator. -/
structure Terminated (bytes : Bytes) (string length : Nat) : Prop where
  characters : ∀ k < length, bytes (string + k) ≠ 0#8
  terminator : bytes (string + length) = 0#8

/-- Each byte of a string is outside the heap or in a live block. -/
def Heap.Owned (heap : Heap) (power : Nat) (s : State) (string length : Nat) : Prop :=
  ∀ k ≤ length, (string + k < heap.heapStart ∨ heap.heapStart + 2 ^ power ≤ string + k) ∨
    ∃ each ∈ s.live, each.1 ≤ string + k ∧ string + k < each.1 + blockSize each.2

/-- What the duplication of some characters is to do. -/
structure Heap.Duplicates (heap : Heap) (power : Nat) (s : State) (bytes : Bytes) (string length : Nat)
    (duplicate : Duplicate) : Prop where
  allocated : heap.safeBuddyAlloc s.blocks (BitVec.ofNat 32 (length + 1)) = (duplicate.result, duplicate.blocks)
  null : duplicate.result = none → duplicate.bytes = bytes
  fresh : ∀ place, duplicate.result = some place → heap.Vacant power s.live (BitVec.ofNat 32 (length + 1)) place
  characters : ∀ place, duplicate.result = some place → ∀ k < length,
    duplicate.bytes (place + k) = bytes (string + k)
  terminator : ∀ place, duplicate.result = some place → duplicate.bytes (place + length) = 0#8
  rest : ∀ place, duplicate.result = some place → ∀ a, a < place ∨ place + (length + 1) ≤ a →
    duplicate.bytes a = bytes a
  others : ∀ each ∈ s.live, ∀ k < blockSize each.2, duplicate.bytes (each.1 + k) = bytes (each.1 + k)
  allocator : ∀ a < heap.heapStart, duplicate.bytes a = bytes a

section Lengths
variable {bytes : Bytes} {string length turns n : Nat}

theorem Terminated.first (terminated : Terminated bytes string (length + 1)) : bytes string ≠ 0#8 :=
  terminated.characters 0 (Nat.succ_pos _)

theorem Terminated.next (terminated : Terminated bytes string (length + 1)) :
    Terminated bytes (string + 1) length := by
  constructor
  · intro k below
    rw [Nat.add_assoc, Nat.add_comm 1]
    exact terminated.characters (k + 1) (Nat.succ_lt_succ below)
  · rw [Nat.add_assoc, Nat.add_comm 1]
    exact terminated.terminator

theorem strlen_eq (terminated : Terminated bytes string length) (enough : length < turns) :
    strlen bytes string turns = some length := by
  induction turns generalizing string length with
  | zero => exact absurd enough (Nat.not_lt_zero _)
  | succ turns ih =>
    cases length with
    | zero => exact if_neg (not_not.mpr terminated.terminator)
    | succ length =>
      rw [strlen, if_pos terminated.first, ih terminated.next (Nat.lt_of_succ_lt_succ enough), Option.map_some]

theorem strnlen_eq (terminated : Terminated bytes string length) : strnlen bytes string n = min length n := by
  induction n generalizing string length with
  | zero => rw [strnlen, Nat.min_zero]
  | succ n ih =>
    cases length with
    | zero =>
      rw [Nat.zero_min]
      exact if_neg (not_not.mpr terminated.terminator)
    | succ length => rw [strnlen, if_pos terminated.first, ih terminated.next, Nat.add_min_add_right]

end Lengths

section Duplication
variable {heap : Heap} {power : Nat} {s : State} {bytes : Bytes} {string length place : Nat}

/-- A string that is owned lies before a vacant block or behind it. -/
theorem Heap.Owned.apart {size : BitVec 32} (owned : heap.Owned power s string length)
    (vacant : heap.Vacant power s.live size place) : string + length < place ∨ place + blockSize size ≤ string := by
  have outside (k : Nat) (within : k ≤ length) : string + k < place ∨ place + blockSize size ≤ string + k := by
    rcases owned k within with outside | ⟨each, member, lower, upper⟩
    · have inside := vacant.inside
      omega
    · have disjoint := vacant.apart each member
      unfold Disjoint at disjoint
      omega
  by_contra! both
  rcases outside 0 (Nat.zero_le _) with before | after
  · -- a string that begins before the block and does not end there meets its first byte
    have first := outside (place - string) (by omega)
    have positive : 0 < blockSize size := (Nat.two_pow_pos 4).trans_le (le_max_left _ _)
    omega
  · omega

/-- What is written within the room of the block. -/
theorem Heap.Duplicates.of_room {duplicate : Duplicate} {size : BitVec 32} (room : length + 1 ≤ blockSize size)
    (sized : size = BitVec.ofNat 32 (length + 1))
    (allocated : heap.safeBuddyAlloc s.blocks size = (some place, duplicate.blocks))
    (result : duplicate.result = some place)
    (vacant : heap.Vacant power s.live size place)
    (characters : ∀ k < length, duplicate.bytes (place + k) = bytes (string + k))
    (terminator : duplicate.bytes (place + length) = 0#8)
    (rest : ∀ a, a < place ∨ place + (length + 1) ≤ a → duplicate.bytes a = bytes a) :
    heap.Duplicates power s bytes string length duplicate := by
  subst sized
  have same {other : Nat} (also : duplicate.result = some other) : other = place := by
    rw [result] at also
    exact (Option.some.inj also).symm
  refine ⟨by rw [allocated, result],
    fun none_ => (nomatch none_.symm.trans result), fun other also => same also ▸ vacant,
    fun other also => same also ▸ characters, fun other also => same also ▸ terminator, fun other also =>
      same also ▸ rest,
    fun each member k inside => rest _ ?_, fun a below => rest _ ?_⟩
  · have disjoint := vacant.apart each member
    unfold Disjoint at disjoint
    omega
  · have inside := vacant.inside
    omega

theorem Heap.Duplicates.of_null {duplicate : Duplicate}
    (allocated : heap.safeBuddyAlloc s.blocks (BitVec.ofNat 32 (length + 1)) = (none, duplicate.blocks))
    (result : duplicate.result = none) (same : duplicate.bytes = bytes) :
    heap.Duplicates power s bytes string length duplicate := by
  refine ⟨by rw [allocated, result], fun _ => same, ?_, ?_, ?_, ?_, fun _ _ _ _ => by
    rw [same], fun _ _ => by rw [same]⟩
  all_goals
    intro place found
    rw [result] at found
    cases found

/-- A size that is not refused is not 0. -/
theorem room_of_alloc {blocks blocks' : Blocks} (short : length < 2 ^ 32)
    (allocated : heap.safeBuddyAlloc blocks (BitVec.ofNat 32 (length + 1)) = (some place, blocks')) :
    length + 1 ≤ blockSize (BitVec.ofNat 32 (length + 1)) := by
  have nonzero : BitVec.ofNat 32 (length + 1) ≠ 0#32 := by
    intro zero
    rw [Heap.safeBuddyAlloc, if_pos (.inl zero)] at allocated
    cases allocated
  have small : length + 1 ≠ 2 ^ 32 := by
    intro whole
    rw [whole] at nonzero
    exact nonzero rfl
  have room := le_blockSize (BitVec.ofNat 32 (length + 1))
  rw [BitVec.toNat_ofNat, Nat.mod_eq_of_lt (by omega)] at room
  exact room

end Duplication

section Reached
variable {heapPointer power : Nat} {memory : Blocks} {s : State} {bytes : Bytes} {string length n turns : Nat}
  (eight : 8 ≤ power) (word : power < 32)
  (reach : Reachable (heapOf heapPointer memory power).Step (initial heapPointer memory power) s)
  (terminated : Terminated bytes string length) (inside : string + length < 2 ^ 32)
  (owned : (heapOf heapPointer memory power).Owned power s string length)
include eight word reach terminated inside owned

theorem strdup_duplicates (enough : length < turns) : ∃ duplicate,
    (heapOf heapPointer memory power).strdup s.blocks bytes string turns = some duplicate ∧
      (heapOf heapPointer memory power).Duplicates power s bytes string length duplicate := by
  have sum : BitVec.ofNat 32 (BitVec.ofNat 32 length + 1#32).toNat = BitVec.ofNat 32 (length + 1) := by
    rw [BitVec.ofNat_toNat, BitVec.setWidth_eq, ← BitVec.ofNat_add]
  rw [Heap.strdup, strlen_eq terminated enough, Option.map_some]
  refine ⟨_, rfl, ?_⟩
  simp only [sum]
  cases allocation : (heapOf heapPointer memory power).safeBuddyAlloc s.blocks (BitVec.ofNat 32 (length + 1)) with
  | mk result blocks =>
    cases result with
    | none => exact .of_null allocation rfl rfl
    | some place =>
      have vacant := buddyAlloc_vacant eight word reach (congrArg Prod.fst allocation)
      have room := room_of_alloc (by omega) allocation
      have apart := owned.apart vacant
      have whole : (BitVec.ofNat 32 length + 1#32).toNat = length + 1 := by
        have bound : length + 1 ≠ 2 ^ 32 := by
          intro same
          rw [same] at allocation
          cases allocation
        rw [BitVec.toNat_add, BitVec.toNat_ofNat, BitVec.toNat_ofNat]
        omega
      simp only [whole]
      refine .of_room room rfl allocation rfl vacant (fun k below => ?_) ?_ fun a outside => ?_
      · exact memcpy_inside bytes (by omega) (by omega)
      · exact (memcpy_inside bytes (by omega) (by omega)).trans terminated.terminator
      · exact memcpy_outside bytes string outside

/-- `strndup` does what it is to do if and only if the two bytes behind the characters are 0 before. -/
theorem strndup_duplicates_iff : (heapOf heapPointer memory power).Duplicates power s bytes string (min length n)
      ((heapOf heapPointer memory power).strndup s.blocks bytes string n) ↔
    ∀ place, ((heapOf heapPointer memory power).safeBuddyAlloc s.blocks (BitVec.ofNat 32 (min length n + 1))).1 =
      some place → bytes (place + min length n) = 0#8 ∧ bytes (place + (min length n + 1)) = 0#8 := by
  have short : min length n ≤ length := min_le_left _ _
  rw [Heap.strndup, strnlen_eq terminated]
  generalize min length n = count at *
  cases allocation : (heapOf heapPointer memory power).safeBuddyAlloc s.blocks (BitVec.ofNat 32 (count + 1)) with
  | mk result blocks =>
    cases result with
    | none => exact iff_of_true (.of_null allocation rfl rfl) fun place found => nomatch found
    | some place =>
      have vacant := buddyAlloc_vacant eight word reach (congrArg Prod.fst allocation)
      have room := room_of_alloc (by omega) allocation
      have apart := owned.apart vacant
      have copied (k : Nat) (below : k < count) :
          memcpy bytes place string count (place + k) = bytes (string + k) :=
        memcpy_inside bytes below (by omega)
      have kept (a : Nat) (outside : a < place ∨ place + count ≤ a) : memcpy bytes place string count a = bytes a :=
        memcpy_outside bytes string outside
      dsimp only
      constructor
      · intro duplicates other found
        cases found
        have terminator := duplicates.terminator place rfl
        have rest := duplicates.rest place rfl (place + (count + 1)) (Or.inr le_rfl)
        dsimp only at terminator rest
        rw [Function.update_of_ne (by omega), kept _ (Or.inr le_rfl)] at terminator
        rw [Function.update_self] at rest
        exact ⟨terminator, rest.symm⟩
      · intro zeros
        obtain ⟨first, second⟩ := zeros place rfl
        refine .of_room room rfl allocation rfl vacant (fun k below => ?_) ?_ fun a outside => ?_
        · exact (Function.update_of_ne (by omega) _ _).trans (copied k below)
        · exact (Function.update_of_ne (by omega) _ _).trans ((kept _ (Or.inr le_rfl)).trans first)
        · by_cases last : a = place + (count + 1)
          · rw [last, second]
            exact Function.update_self _ _ _
          · exact (Function.update_of_ne last _ _).trans (kept a (by omega))

/-- Both functions do what they are to do if and only if `strndup` finds its terminator. -/
theorem string_duplication_iff (enough : length < turns) :
    ((∃ duplicate, (heapOf heapPointer memory power).strdup s.blocks bytes string turns = some duplicate ∧
        (heapOf heapPointer memory power).Duplicates power s bytes string length duplicate) ∧
      (heapOf heapPointer memory power).Duplicates power s bytes string (min length n)
        ((heapOf heapPointer memory power).strndup s.blocks bytes string n)) ↔
      ∀ place, ((heapOf heapPointer memory power).safeBuddyAlloc s.blocks
        (BitVec.ofNat 32 (min length n + 1))).1 = some place →
        bytes (place + min length n) = 0#8 ∧ bytes (place + (min length n + 1)) = 0#8 :=
  (and_iff_right (strdup_duplicates eight word reach terminated inside owned enough)).trans
    (strndup_duplicates_iff eight word reach terminated inside owned)

end Reached

/-- A string of two characters in the live block, and zeros where the duplicate of the first will end. -/
def twoCharacters : Bytes := fun a =>
  if a = 24 then 0x61#8 else if a = 25 then 0x62#8 else if a = 26 ∨ a = 9 ∨ a = 10 then 0#8 else 0xff#8

theorem string_duplication_live :
    (∃ duplicate, (heapOf 0 (fun _ => 0) 9).strdup secondLeft.blocks twoCharacters 24 3 = some duplicate ∧
      (heapOf 0 (fun _ => 0) 9).Duplicates 9 secondLeft twoCharacters 24 2 duplicate) ∧
    (heapOf 0 (fun _ => 0) 9).Duplicates 9 secondLeft twoCharacters 24 (min 2 1)
      ((heapOf 0 (fun _ => 0) 9).strndup secondLeft.blocks twoCharacters 24 1) := by
  refine (@string_duplication_iff 0 9 (fun _ => 0) secondLeft twoCharacters 24 2 1 3 (by decide) (by decide)
    secondLeft_reached ⟨by decide, by decide⟩ (by decide)
    (fun k within => .inr ⟨(24, 16#32), List.mem_cons_self, Nat.le_add_right 24 k, ?_⟩) (by decide)).mpr
    fun place found => ?_
  · have room := le_blockSize 16#32
    exact Nat.add_lt_add_left (lt_of_lt_of_le (Nat.lt_of_le_of_lt within (by decide)) room) 24
  · have first : ((heapOf 0 (fun _ => 0) 9).safeBuddyAlloc secondLeft.blocks (BitVec.ofNat 32 (min 2 1 + 1))).1 =
        some 8 := by
      decide
    obtain rfl := Option.some.inj (first.symm.trans found)
    decide

/-- A memory of ones, but for a string of one character. -/
def oneCharacter : Bytes := fun a => if a = 4096 then 0x61#8 else if a = 4097 then 0#8 else 0xff#8

/-- Its duplicate is not terminated. -/
theorem oneCharacter_unterminated :
    ¬(heapOf 0 (fun _ => 0) 9).Duplicates 9 (initial 0 (fun _ => 0) 9) oneCharacter 4096 1
    ((heapOf 0 (fun _ => 0) 9).strndup (initial 0 (fun _ => 0) 9).blocks oneCharacter 4096 1) := by
  intro duplicates
  have place :
    ((heapOf 0 (fun _ => 0) 9).safeBuddyAlloc (initial 0 (fun _ => 0) 9).blocks (BitVec.ofNat 32 (1 + 1))).1 =
      some 8 := by
    decide
  have terminator := duplicates.terminator 8 ((congrArg Prod.fst duplicates.allocated).symm.trans place)
  exact absurd terminator (by decide)

end Upmem.Buddy
