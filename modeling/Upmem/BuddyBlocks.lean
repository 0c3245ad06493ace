import Upmem.Buddy

namespace Upmem.Buddy
open BuddyTree PackedBits

/-- The bit of a block is set if and only if no held block lies within it, the
bit that no block has is not set, and what lies behind is as it was. -/
structure Represents (depth : Nat) (memory blocks : Blocks) (held : Set Block) : Prop where
  bits : ∀ a : Block, a.length < depth → (bitAt blocks (slot a) = true ↔ Clear held a)
  top : bitAt blocks 31 = false
  beyond : ∀ word, 2 ^ (depth - 5) ≤ word → blocks word = memory word

section Tests
variable {blocks : Blocks}

theorem target_test {a : Block} : blocks (realIndex a.length (index a)) &&& targetBit a.length (index a) = 0#32 ↔
    bitAt blocks (slot a) = false := by
  rw [realIndex_eq (index_lt a), targetBit_eq (index_lt a)]
  exact bitAt_eq_false

theorem buddy_test (blocks : Blocks) {a : Block} (halved : a ≠ []) :
    blocks (realIndex a.length (index a)) &&& buddyBit a.length (index a) = 0#32 ↔
      bitAt blocks (slot (buddy a)) = false := by
  rw [← target_test (a := buddy a), index_buddy halved, length_buddy, realIndex_other, buddyBit_eq]

end Tests

section Search
variable {depth level number : Nat} {blocks : Blocks} {held : Set Block} {loaded : BitVec 32}

theorem pairs_getLsbD (loaded : BitVec 32) {p : Nat} (inside : p < 32) : (pairs loaded).getLsbD p =
    (decide (p % 2 = 1) && (loaded.getLsbD (p - 1) != loaded.getLsbD p)) := by
  have odds : ∀ p < 32, (0xAAAAAAAA#32).getLsbD p = decide (p % 2 = 1) := by decide
  rw [pairs, BitVec.getLsbD_and, BitVec.getLsbD_xor, BitVec.getLsbD_shiftLeft, odds p inside]
  by_cases odd : p % 2 = 1
  · have positive : ¬p < 1 := by omega
    simp [odd, inside, positive]
  · simp [odd]

theorem pairs_eq_zero (none : pairs loaded = 0#32) {p : Nat} (inside : p < 32) (odd : p % 2 = 1) :
    loaded.getLsbD (p - 1) = loaded.getLsbD p := by
  have differ := pairs_getLsbD loaded inside
  rw [none] at differ
  simpa [odd] using differ

/-- The first pair that differs, from the top. -/
theorem pairs_clz (some : pairs loaded ≠ 0#32) : ∃ p < 32, (pairs loaded).clz.toNat = 31 - p ∧ p % 2 = 1 ∧
    loaded.getLsbD (p - 1) ≠ loaded.getLsbD p := by
  have below : (pairs loaded).clz.toNat < 32 := BitVec.lt_def.mp (BitVec.clz_lt_iff_ne_zero.mpr some)
  have bit := BitVec.getLsbD_true_clz_of_ne_zero (by decide) some
  rw [pairs_getLsbD loaded (by omega)] at bit
  simp only [Bool.and_eq_true, decide_eq_true_eq, bne_iff_ne] at bit
  exact ⟨_, by omega, by omega, bit⟩

theorem mask_getLsbD (top : level < 5) {p : Nat} (inside : p < 32) :
    (loadedCaseMask level).getLsbD p = decide (32 - 2 ^ (level + 1) ≤ p ∧ p < 32 - 2 ^ level) := by
  have all : ∀ level < 5, ∀ p < 32,
      (loadedCaseMask level).getLsbD p = decide (32 - 2 ^ (level + 1) ≤ p ∧ p < 32 - 2 ^ level) := by decide
  exact all level top p inside

theorem mask_deep (deep : ¬level < 5) : loadedCaseMask level = 0xFFFFFFFF#32 := by
  obtain ⟨more, rfl⟩ := Nat.exists_eq_add_of_le' (not_lt.mp deep)
  rfl

end Search

section Level
variable {depth level number i : Nat} {memory blocks : Blocks} {held : Set Block}

theorem realIndex_number :
    realIndex level i = number + (1 <<< level) >>> 5 ↔ number = if level < 5 then 0 else i / 32 := by
  rw [realIndex, Nat.shiftLeft_eq, Nat.one_mul, Nat.shiftRight_eq_div_pow, Nat.shiftRight_eq_div_pow]
  split_ifs with top
  · have none : 2 ^ level / 2 ^ 5 = 0 := Nat.div_eq_of_lt (Nat.pow_lt_pow_right (by decide) top)
    omega
  · rw [Nat.pow_div (by omega) (by decide)]
    omega

/-- The bit of a block in the word that is loaded with the mask of its level. -/
theorem loaded_getLsbD (blocks : Blocks) (inside : i < 2 ^ level)
    (word : realIndex level i = number + (1 <<< level) >>> 5) :
    (blocks (number + (1 <<< level) >>> 5) &&& loadedCaseMask level).getLsbD (slotOf level i % 32) =
      bitAt blocks (slotOf level i) := by
  have masked : (loadedCaseMask level).getLsbD (slotOf level i % 32) = true := by
    by_cases top : level < 5
    · rw [mask_getLsbD top (place_lt _), Nat.mod_eq_of_lt ((slotOf_lt top inside).trans (by decide)),
        slotOf, if_pos top]
      interval_cases level <;> simp <;> omega
    · have ones : ∀ p < 32, (0xFFFFFFFF#32).getLsbD p = true := by decide
      rw [mask_deep top]
      exact ones _ (place_lt _)
  rw [BitVec.getLsbD_and, masked, Bool.and_true, ← word, realIndex_eq inside]
  rfl

/-- What the search of a level returns for a block. -/
def foundAt (a : Block) : Found := ⟨slot a / 32, index a, BitVec.twoPow 32 (slot a % 32)⟩

theorem Represents.largest (rep : Represents depth memory blocks held) {a : Block} (deep : a.length < depth)
    (clear : bitAt blocks (slot a) = true) (beside : a = [] ∨ bitAt blocks (slot (buddy a)) = false) :
    Largest held a := by
  refine ⟨(rep.bits a deep).mp clear, beside.imp_right fun unset whole => ?_⟩
  rw [(rep.bits (buddy a) (by rwa [length_buddy])).mpr whole] at unset
  cases unset

theorem buddy_buddy (a : Block) : buddy (buddy a) = a := by
  cases a with
  | nil => rfl
  | cons half a => rw [buddy, buddy, Bool.not_not]

/-- The upper of two neighbours. -/
theorem slot_buddy {a : Block} (halved : a ≠ []) (odd : index a % 2 = 1) :
    slot (buddy a) = slot a - 1 ∧ slot a % 2 = 1 := by
  have before : index (buddy a) = index a - 1 := by rw [index_buddy halved, other, if_pos odd]
  obtain ⟨level, length⟩ := Nat.exists_eq_succ_of_ne_zero (mt List.length_eq_zero_iff.mp halved)
  have positive := Nat.two_pow_pos level
  unfold slot
  rw [before, length_buddy, length]
  unfold slotOf
  split_ifs with top
  · rw [Nat.pow_succ, Nat.pow_succ]
    omega
  · rw [Nat.pow_succ]
    omega

/-- Where a pair of a word differs below the first level, one of its blocks is free. -/
theorem pair_found (rep : Represents depth memory blocks held) {a : Block} (halved : a ≠ [])
    (deep : a.length < depth)
    (odd : index a % 2 = 1) {loaded : BitVec 32} (upper : loaded.getLsbD (slot a % 32) = bitAt blocks (slot a))
    (lower : loaded.getLsbD (slot (buddy a) % 32) = bitAt blocks (slot (buddy a)))
    (differ : loaded.getLsbD (slot (buddy a) % 32) ≠ loaded.getLsbD (slot a % 32)) :
    ∃ b : Block, b.length = a.length ∧ Largest held b ∧
      (if loaded &&& BitVec.twoPow 32 (slot a % 32) = 0#32 then
        ⟨slot a / 32, index a - 1, BitVec.twoPow 32 (slot a % 32) >>> 1⟩ else foundAt a) = foundAt b := by
  rw [upper, lower] at differ
  cases bit : bitAt blocks (slot a) with
  | true =>
    refine ⟨a, rfl, rep.largest deep bit (.inr (by simpa [bit] using differ)), if_neg fun zero => ?_⟩
    rw [and_twoPow_eq_zero (place_lt _), upper, bit] at zero
    cases zero
  | false =>
    have beside : bitAt blocks (slot (buddy a)) = true := by simpa [bit] using differ
    refine ⟨buddy a, length_buddy a, rep.largest (by rwa [length_buddy]) beside (.inr (by rwa [buddy_buddy])), ?_⟩
    rw [if_pos ((and_twoPow_eq_zero (place_lt _)).mpr (upper.trans bit)), foundAt]
    have before : index (buddy a) = index a - 1 := by rw [index_buddy halved, other, if_pos odd]
    obtain ⟨below, place⟩ := slot_buddy halved odd
    have shift : ∀ p < 32, p % 2 = 1 → BitVec.twoPow 32 p >>> 1 = BitVec.twoPow 32 (p - 1) := by decide
    rw [shift _ (place_lt _) (by omega), before, below]
    congr 1
    · omega
    · congr 1
      omega

/-- The bits of a block and of its buddy are in the same word. -/
theorem loaded_buddy (blocks : Blocks) {a : Block} (halved : a ≠ [])
    (word : realIndex a.length (index a) = number + (1 <<< a.length) >>> 5) :
    (blocks (number + (1 <<< a.length) >>> 5) &&& loadedCaseMask a.length).getLsbD (slot (buddy a) % 32) =
      bitAt blocks (slot (buddy a)) := by
  rw [← realIndex_other, ← index_buddy halved] at word
  have bound := index_lt (buddy a)
  have bit := loaded_getLsbD blocks (length_buddy a ▸ bound) word
  rwa [slot, length_buddy]

/-- The bits of the two halves of a block are the same where no pair of the word differs. -/
theorem pair_same {a : Block} (halved : a ≠ []) {loaded : BitVec 32} (none : pairs loaded = 0#32) :
    loaded.getLsbD (slot (buddy a) % 32) = loaded.getLsbD (slot a % 32) := by
  have upper {a : Block} (halved : a ≠ []) (odd : index a % 2 = 1) :
      loaded.getLsbD (slot (buddy a) % 32) = loaded.getLsbD (slot a % 32) := by
    obtain ⟨below, place⟩ := slot_buddy halved odd
    have beside : slot (buddy a) % 32 = slot a % 32 - 1 := by omega
    rw [beside]
    exact pairs_eq_zero none (place_lt _) (by omega)
  rcases Nat.mod_two_eq_zero_or_one (index a) with even | odd
  · have lower : index (buddy a) % 2 = 1 := by
      rw [index_buddy halved, other, if_neg (by omega)]
      omega
    have same := upper (mt (congrArg buddy) (by rwa [buddy_buddy])) lower
    rw [buddy_buddy] at same
    exact same.symm
  · exact upper halved odd

/-- The index of the upper of two neighbours that differ. -/
theorem found_place (bound : number < if level + 1 < 5 then 1 else (1 <<< (level + 1)) >>> 5) {loaded : BitVec 32}
    (load : loaded = blocks (number + (1 <<< (level + 1)) >>> 5) &&& loadedCaseMask (level + 1)) {p found : Nat}
    (below : p < 32) (odd : p % 2 = 1) (differ : loaded.getLsbD (p - 1) ≠ loaded.getLsbD p)
    (place : found = (if level + 1 < 5 then 1 <<< (level + 1) + 1 <<< (level + 1) else 32 * (number + 1)) -
      (31 - p) - 1) :
    found < 2 ^ (level + 1) ∧ found % 2 = 1 ∧ slotOf (level + 1) found % 32 = p ∧
      realIndex (level + 1) found = number + (1 <<< (level + 1)) >>> 5 := by
  rw [realIndex_number]
  by_cases top : level + 1 < 5
  · rw [if_pos top] at bound place
    have masked : (loadedCaseMask (level + 1)).getLsbD (p - 1) = true ∨
        (loadedCaseMask (level + 1)).getLsbD p = true := by
      by_contra unmasked
      rw [not_or, Bool.not_eq_true, Bool.not_eq_true] at unmasked
      rw [load, BitVec.getLsbD_and, BitVec.getLsbD_and, unmasked.1, unmasked.2, Bool.and_false,
        Bool.and_false] at differ
      exact differ rfl
    rw [mask_getLsbD top (by omega), mask_getLsbD top below, decide_eq_true_eq, decide_eq_true_eq] at masked
    rw [if_pos top]
    unfold slotOf
    rw [if_pos top]
    have small : level < 4 := by omega
    interval_cases level <;> simp [Nat.shiftLeft_eq] at place masked ⊢ <;> omega
  · rw [if_neg top] at bound place
    rw [if_neg top, slotOf_deep top]
    rw [Nat.shiftLeft_eq, Nat.one_mul, Nat.shiftRight_eq_div_pow] at bound
    have deep := @slotOf_deep (level + 1) 0 top
    rw [slotOf, if_neg top] at deep
    omega

/-- A word of the search of a level in which some pair differs. -/
theorem word_found (rep : Represents depth memory blocks held) (deep : level < depth)
    (bound : number < if level < 5 then 1 else (1 <<< level) >>> 5) {loaded : BitVec 32} {found : Nat}
    (load : loaded = blocks (number + (1 <<< level) >>> 5) &&& loadedCaseMask level) (some : pairs loaded ≠ 0#32)
    (place : found = (if level < 5 then 1 <<< level + 1 <<< level
      else 32 * (number + 1)) - (pairs loaded).clz.toNat - 1) :
    ∃ b : Block, b.length = level ∧ Largest held b ∧
      (if loaded &&& targetBit level found = 0#32 then
        ⟨number + (1 <<< level) >>> 5, found - 1, targetBit level found >>> 1⟩
      else ⟨number + (1 <<< level) >>> 5, found, targetBit level found⟩) = foundAt b := by
  obtain ⟨p, below, zeros, odd, differ⟩ := pairs_clz some
  rw [zeros] at place
  cases level with
  | zero =>
    have bits (q : Nat) (inside : q < 32) : loaded.getLsbD q = (decide (q = 30) && bitAt blocks 30) := by
      have all : ∀ q < 32, (decide (32 - 2 ^ (0 + 1) ≤ q ∧ q < 32 - 2 ^ 0)) = decide (q = 30) := by decide
      obtain rfl : number = 0 := Nat.lt_one_iff.mp bound
      rw [load, BitVec.getLsbD_and, mask_getLsbD (by decide) inside, all q inside, Bool.and_comm]
      by_cases last : q = 30
      · rw [last]
        rfl
      · simp [last]
    rw [bits p below, bits (p - 1) (by omega)] at differ
    have last : p = 31 := by
      by_contra other
      have first : p ≠ 30 := by omega
      have second : p - 1 ≠ 30 := by omega
      simp [first, second] at differ
    subst last
    have set : bitAt blocks 30 = true := by simpa using differ
    obtain rfl : number = 0 := Nat.lt_one_iff.mp bound
    obtain rfl : found = 1 := place
    have target : targetBit 0 1 = BitVec.twoPow 32 31 := by decide
    have unset : loaded &&& targetBit 0 1 = 0#32 := by
      rw [target, and_twoPow_eq_zero (by decide), bits 31 (by decide)]
      rfl
    exact ⟨[], rfl, rep.largest deep set (.inl rfl), if_pos unset⟩
  | succ level =>
    obtain ⟨inside, upper, here, word⟩ := found_place bound load below odd differ place
    obtain ⟨a, length, rfl⟩ := exists_index inside
    have halved : a ≠ [] :=
      fun empty => absurd (length.symm.trans (congrArg List.length empty)) (Nat.succ_ne_zero _)
    rw [← length] at deep load here word ⊢
    have bit := loaded_getLsbD blocks (index_lt a) word
    have beside := loaded_buddy blocks halved word
    rw [← load] at bit beside
    have last : slot a % 32 = p := here
    have before : slot (buddy a) % 32 = p - 1 := by
      have neighbour := slot_buddy halved upper
      omega
    have pair := pair_found rep halved deep upper bit beside (by rwa [last, before])
    rwa [targetBit_eq (index_lt a), ← word, realIndex_eq (index_lt a)]

/-- A word of the search of a level in which no pair differs. -/
theorem word_missed (rep : Represents depth memory blocks held) {a : Block} (deep : a.length < depth)
    {loaded : BitVec 32}
    (load : loaded = blocks (number + (1 <<< a.length) >>> 5) &&& loadedCaseMask a.length)
    (none : pairs loaded = 0#32) (here : number = if a.length < 5 then 0 else index a / 32) : ¬Largest held a := by
  rintro ⟨clear, beside⟩
  have set := (rep.bits a deep).mpr clear
  have word := realIndex_number.mpr here
  have bit := loaded_getLsbD blocks (index_lt a) word
  rw [← load] at bit
  cases a with
  | nil =>
    have last := pairs_eq_zero none (p := 31) (by decide) (by decide)
    have unset : loaded.getLsbD 31 = false := by
      rw [load, BitVec.getLsbD_and, mask_getLsbD (by decide) (by decide)]
      simp
    rw [unset] at last
    exact absurd ((bit.trans set).symm.trans last) (by decide)
  | cons half a =>
    have halved := List.cons_ne_nil half a
    have occupied := mt (rep.bits (buddy (half :: a)) (by rwa [length_buddy])).mp (beside.resolve_left halved)
    have beside := loaded_buddy blocks halved word
    rw [← load] at beside
    exact occupied (beside.symm.trans ((pair_same halved none).trans (bit.trans set)))

/-- The search of a level finds a largest block in which nothing is held, if there is one. -/
theorem searchLevel_cases (rep : Represents depth memory blocks held) (deep : level < depth)
    {words indexInLevel : Nat}
    (bound : words ≤ if level < 5 then 1 else (1 <<< level) >>> 5)
    (behind : words ≠ 0 → indexInLevel = if level < 5 then 1 <<< level else 32 * words) :
    (∃ b : Block, b.length = level ∧ Largest held b ∧
      searchLevel blocks level words indexInLevel = some (foundAt b)) ∨
      searchLevel blocks level words indexInLevel = none ∧
        ∀ a : Block, a.length = level → (if level < 5 then 0 else index a / 32) < words → ¬Largest held a := by
  induction words generalizing indexInLevel with
  | zero => exact .inr ⟨rfl, fun _ _ none => absurd none (Nat.not_lt_zero _)⟩
  | succ number ih =>
    have start := behind (Nat.succ_ne_zero _)
    rw [searchLevel]
    by_cases some : pairs (blocks (number + (1 <<< level) >>> 5) &&& loadedCaseMask level) ≠ 0#32
    · rw [if_pos some]
      obtain ⟨b, length, largest, found⟩ := word_found rep deep (by omega) rfl some rfl
      have index : (if level < 5 then indexInLevel + 1 <<< level else indexInLevel) =
          if level < 5 then 1 <<< level + 1 <<< level else 32 * (number + 1) := by
        rw [start]
        split_ifs <;> rfl
      refine .inl ⟨b, length, largest, ?_⟩
      simp only [index]
      exact congrArg _ found
    · rw [if_neg some]
      rcases @ih (indexInLevel - 32) (by omega)
        (fun more => by split_ifs at * <;> omega) with found | ⟨missed, none⟩
      · exact .inl found
      · refine .inr ⟨missed, fun a length here => ?_⟩
        rcases Nat.lt_succ_iff_lt_or_eq.mp here with earlier | last
        · exact none a length earlier
        · subst length
          exact word_missed rep deep rfl (not_not.mp some) last.symm

end Level

section Alloc
variable {depth level : Nat} {memory blocks : Blocks} {held : Set Block}

theorem slot_word_lt {a : Block} (deep : a.length < depth) (five : 5 ≤ depth) : slot a / 32 < 2 ^ (depth - 5) := by
  by_cases top : a.length < 5
  · have small : slot a < 31 := slotOf_lt top (index_lt a)
    have positive := Nat.two_pow_pos (depth - 5)
    omega
  · have bound := index_lt a
    have same : slot a = 32 * 2 ^ (a.length - 5) + index a := slotOf_deep top
    have none := @slotOf_deep a.length 0 top
    rw [slotOf, if_neg top] at none
    have double : 2 ^ (a.length - 5 + 1) ≤ 2 ^ (depth - 5) := Nat.pow_le_pow_right (by decide) (by omega)
    rw [Nat.pow_succ] at double
    omega

/-- Clearing the bit of a block. -/
def clearBit (blocks : Blocks) (a : Block) : Blocks :=
  Function.update blocks (slot a / 32) (blocks (slot a / 32) - BitVec.twoPow 32 (slot a % 32))

theorem bitAt_clearBit {a : Block} (set : bitAt blocks (slot a) = true) (s : Nat) :
    bitAt (clearBit blocks a) s = (bitAt blocks s && decide (s ≠ slot a)) := bitAt_sub set

/-- What has been cleared from `blocks` to `after`: the bits of the blocks from `a` to `b`. -/
structure Cleared (depth : Nat) (a b : Block) (blocks after : Blocks) : Prop where
  bits : ∀ c : Block, bitAt after (slot c) = true ↔ bitAt blocks (slot c) = true ∧ ¬(a <:+ c ∧ c <:+ b)
  top : bitAt after 31 = bitAt blocks 31
  beyond : ∀ word, 2 ^ (depth - 5) ≤ word → after word = blocks word

theorem cleared_one (blocks : Blocks) {a : Block} (deep : a.length < depth) (five : 5 ≤ depth)
    (set : bitAt blocks (slot a) = true) :
    Cleared depth a a blocks (clearBit blocks a) where
  bits c := by
    rw [bitAt_clearBit set, Bool.and_eq_true, decide_eq_true_eq]
    refine and_congr_right fun _ => not_congr ⟨fun same => ?_, fun between => ?_⟩
    · rw [slot_injective same]
      exact ⟨List.suffix_rfl, List.suffix_rfl⟩
    · rw [between.2.eq_of_length_le between.1.length_le]
  top := by
    rw [bitAt_clearBit set]
    simp [(slot_ne_top a).symm]
  beyond word behind := by
    have small := slot_word_lt deep five
    exact Function.update_of_ne (by omega) _ _

theorem descend_succ (a : Block) (left : Nat) :
    descend blocks (a.length + 1) (index a) (left + 1) =
      descend (clearBit blocks (false :: a)) ((false :: a).length + 1) (index (false :: a)) left := by
  have index_half : index a <<< 1 = index (false :: a) := by
    rw [Nat.shiftLeft_eq, index, Bool.toNat_false, Nat.mul_comm, Nat.add_zero]
  rw [descend, index_half]
  have word := realIndex_eq (index_lt (false :: a))
  have target := targetBit_eq (index_lt (false :: a))
  rw [List.length_cons] at word target
  simp only [word, target]
  rfl

/-- The halving clears the first halves, down to the block that is returned. -/
theorem descend_cleared (five : 5 ≤ depth) (left : Nat) {a : Block} (deep : a.length + left < depth)
    (set : ∀ c : Block, a <:+ c → c ≠ a → c.length < depth → bitAt blocks (slot c) = true) :
    ∃ after, descend blocks (a.length + 1) (index a) left = (index (List.replicate left false ++ a), after) ∧
      ∀ before, Cleared depth a a before blocks →
      Cleared depth a (List.replicate left false ++ a) before after := by
  induction left generalizing a blocks with
  | zero => exact ⟨blocks, rfl, fun before cleared => cleared⟩
  | succ left ih =>
    have length : (false :: a).length = a.length + 1 := List.length_cons
    have half_set := set (false :: a) (List.suffix_cons _ a) (List.cons_ne_self _ a) (by omega)
    have first := cleared_one blocks (by omega) five half_set
    obtain ⟨after, run, rest⟩ :=
      @ih (clearBit blocks (false :: a)) (false :: a) (by omega) fun c within proper small => by
      rw [bitAt_clearBit half_set, Bool.and_eq_true, decide_eq_true_eq]
      refine ⟨set c ((List.suffix_cons _ a).trans within) ?_ small, fun same => proper (slot_injective same)⟩
      rintro rfl
      exact not_suffix_self_cons _ _ within
    have block : List.replicate left false ++ false :: a = List.replicate (left + 1) false ++ a := by
      rw [List.replicate_succ', List.append_assoc, List.singleton_append]
    rw [descend_succ, run, block]
    refine ⟨after, rfl, fun before cleared => ?_⟩
    have second := rest blocks first
    rw [block] at second
    refine ⟨fun c => ?_, second.top.trans cleared.top, fun word behind =>
      (second.beyond word behind).trans (cleared.beyond word behind)⟩
    rw [second.bits, cleared.bits, and_assoc]
    refine and_congr_right fun _ => ?_
    have half : false :: a <:+ List.replicate (left + 1) false ++ a := block ▸ List.suffix_append _ _
    constructor
    · rintro ⟨other, outside⟩ ⟨within, inside⟩
      rcases List.suffix_or_suffix_of_suffix half inside with below | above
      · exact outside ⟨below, inside⟩
      · rcases List.suffix_cons_iff.mp above with rfl | above
        · exact outside ⟨List.suffix_rfl, inside⟩
        · exact other ⟨within, above⟩
    · exact fun outside => ⟨fun same => outside ⟨same.1, same.2.trans (List.suffix_append _ a)⟩,
        fun below => outside ⟨(List.suffix_cons _ a).trans below.1, below.2⟩⟩

/-- The search of the levels takes a free block of the level that is asked for, if there is one. -/
theorem searchLevels_cases (five : 5 ≤ depth) (rep : Represents depth memory blocks held)
    (apart : held.Pairwise Apart)
    (deep : level < depth) {levels : Nat} (bound : levels ≤ level + 1) :
    (∃ (b : Block) (after : Blocks), b.length = level ∧ Free held b ∧
        searchLevels blocks level levels = some (index b, after) ∧ Represents depth memory after (insert b held)) ∨
      searchLevels blocks level levels = none ∧ ∀ a : Block, a.length < levels → ¬Largest held a := by
  induction levels with
  | zero => exact .inr ⟨rfl, fun _ none => absurd none (Nat.not_lt_zero _)⟩
  | succ current ih =>
    have words : (if current < 5 then 1 else (1 <<< current) >>> 5) ≤ if current < 5 then 1
        else (1 <<< current) >>> 5 :=
      le_rfl
    have behind : (if current < 5 then 1 else (1 <<< current) >>> 5) ≠ 0 →
        1 <<< current = if current < 5 then 1 <<< current else 32 * if current < 5 then 1
        else (1 <<< current) >>> 5 := by
      intro _
      split_ifs with top
      · rfl
      · have whole := @slotOf_deep current 0 top
        rw [slotOf, if_neg top] at whole
        rw [Nat.shiftLeft_eq, Nat.one_mul, Nat.shiftRight_eq_div_pow]
        omega
    rw [searchLevels]
    rcases searchLevel_cases rep (by omega) words behind with ⟨a, length, largest, found⟩ | ⟨missed, none⟩
    · refine .inl ?_
      subst length
      have set := (rep.bits a (by omega)).mpr largest.1
      obtain ⟨after, run, rest⟩ := @descend_cleared depth (clearBit blocks a) five (level - a.length) a (by omega)
        fun c within proper small => by
          rw [bitAt_clearBit set, Bool.and_eq_true, decide_eq_true_eq]
          exact ⟨(rep.bits c small).mpr (largest.1.within within), fun same => proper (slot_injective same)⟩
      have cleared := rest blocks (cleared_one blocks (by omega) five set)
      have within : a <:+ List.replicate (level - a.length) false ++ a := List.suffix_append _ _
      refine ⟨_, after, ?_, (largest.free apart).within within, ?_, ?_⟩
      · rw [List.length_append, List.length_replicate]
        omega
      · rw [found]
        exact congrArg some run
      · refine ⟨fun c small => ?_, cleared.top.trans rep.top, fun word behind =>
          (cleared.beyond word behind).trans (rep.beyond word behind)⟩
        rw [cleared.bits, rep.bits c small, largest.clear_insert within]
    · rw [missed]
      rcases ih (by omega) with found | ⟨failed, earlier⟩
      · exact .inl found
      · refine .inr ⟨failed, fun a small => ?_⟩
        rcases Nat.lt_succ_iff_lt_or_eq.mp small with less | same
        · exact earlier a less
        · refine none a same ?_
          have bound := index_lt a
          rw [same] at bound
          split_ifs with top
          · exact Nat.one_pos
          · rw [Nat.shiftLeft_eq, Nat.one_mul, Nat.shiftRight_eq_div_pow]
            have whole := @slotOf_deep current 0 top
            rw [slotOf, if_neg top] at whole
            omega

end Alloc

section Free
variable {depth : Nat} {memory blocks : Blocks} {held : Set Block}

/-- The climb from one of the smallest blocks in a held block ends there. -/
theorem climb_within (rep : Represents depth memory blocks held) (apart : held.Pairwise Apart) {b l : Block}
    (member : b ∈ held) (within : b <:+ l) (deep : l.length < depth) :
    climb blocks l.length (index l) = some (b.length, index b) := by
  obtain ⟨rest, rfl⟩ := within
  induction rest with
  | nil =>
    rw [List.nil_append] at deep ⊢
    cases b with
    | nil => rfl
    | cons half b =>
      have occupied : bitAt blocks (slot (half :: b)) = false := by
        rw [← Bool.not_eq_true, rep.bits _ deep]
        exact fun clear => clear _ member List.suffix_rfl
      exact if_pos (target_test.mpr occupied)
  | cons half rest ih =>
    have below (half : Bool) (deep : (half :: (rest ++ b)).length < depth) :
        bitAt blocks (slot (half :: (rest ++ b))) = true := by
      rw [rep.bits _ deep]
      refine clear_below apart member ((List.suffix_append _ b).trans (List.suffix_cons _ _)) fun same => ?_
      have lengths := congrArg List.length same
      rw [List.length_cons, List.length_append] at lengths
      omega
    rw [List.cons_append] at deep ⊢
    have target := mt target_test.mp ((Bool.not_eq_false _).mpr (below half deep))
    have beside := mt (buddy_test _ (List.cons_ne_nil half _)).mp ((Bool.not_eq_false _).mpr (below (!half) deep))
    rw [List.length_cons] at target beside deep ⊢
    rw [climb, if_neg target, if_neg beside, Nat.shiftRight_eq_div_pow, Nat.pow_one, index_tail]
    exact ih (by omega)

/-- The climb from a block in which nothing is held, and that lies in nothing that is
held, fails or finds a whole range in which nothing is held. -/
theorem climb_clear (rep : Represents depth memory blocks held) {l : Block} (deep : l.length < depth)
    (dead : ∀ b, b <:+ l → b ∉ held) (clear : Clear held l) :
    climb blocks l.length (index l) = none ∨ climb blocks l.length (index l) = some (0, 0) ∧ Clear held [] := by
  induction l with
  | nil => exact .inr ⟨rfl, clear⟩
  | cons half e ih =>
    have target := mt target_test.mp ((Bool.not_eq_false _).mpr ((rep.bits _ deep).mpr clear))
    have test := buddy_test blocks (List.cons_ne_nil half e)
    have beside := rep.bits (buddy (half :: e)) deep
    rw [List.length_cons] at target test deep ⊢
    rw [climb, if_neg target]
    by_cases merges : Clear held (buddy (half :: e))
    · have set : ¬bitAt blocks (slot (buddy (half :: e))) = false := (Bool.not_eq_false _).mpr (beside.mpr merges)
      rw [if_neg (mt test.mp set), Nat.shiftRight_eq_div_pow, Nat.pow_one, index_tail]
      refine ih (by omega) (fun b within => dead b (within.trans (List.suffix_cons _ e))) ?_
      exact (clear_halves half (dead e (List.suffix_cons _ e))).mpr ⟨clear, merges⟩
    · exact .inl (if_pos (test.mpr ((Bool.not_eq_true _).mp (mt beside.mp merges))))

/-- Setting the bit of a block. -/
def setBit (blocks : Blocks) (a : Block) : Blocks :=
  Function.update blocks (slot a / 32) (blocks (slot a / 32) ||| BitVec.twoPow 32 (slot a % 32))

theorem bitAt_setBit (a : Block) (s : Nat) :
    bitAt (setBit blocks a) s = (bitAt blocks s || decide (s = slot a)) := bitAt_or

theorem setBit_eq (blocks : Blocks) (a : Block) : setBit blocks a =
    Function.update blocks (realIndex a.length (index a))
      (blocks (realIndex a.length (index a)) ||| targetBit a.length (index a)) := by
  rw [realIndex_eq (index_lt a), targetBit_eq (index_lt a)]
  rfl

theorem setBit_word (blocks : Blocks) (a : Block) : setBit blocks a (realIndex a.length (index a)) =
    blocks (realIndex a.length (index a)) ||| targetBit a.length (index a) := by
  rw [setBit_eq, Function.update_self]

/-- A bit that is set already. -/
theorem setBit_same {a : Block} (set : bitAt blocks (slot a) = true) : setBit blocks a = blocks := by
  refine Function.update_eq_self_iff.mpr (BitVec.eq_of_getLsbD_eq fun i below => ?_)
  rw [BitVec.getLsbD_or, BitVec.getLsbD_twoPow, decide_eq_true (place_lt _), Bool.true_and]
  by_cases here : slot a % 32 = i
  · rw [← here, decide_eq_true rfl, Bool.or_true]
    exact set.symm
  · rw [decide_eq_false here, Bool.or_false]

/-- The fusion sets the bits of the blocks in which nothing is held any more. -/
theorem fuse_represents (five : 5 ≤ depth) {d : Block} (deep : d.length < depth) (dead : ∀ e, e <:+ d → e ∉ held)
    (clear : Clear held d)
    (bits : ∀ c : Block, c.length < depth → (bitAt blocks (slot c) = true ↔ Clear held c ∧ ¬(c <:+ d ∧ c ≠ d)))
    (top : bitAt blocks 31 = false) (beyond : ∀ word, 2 ^ (depth - 5) ≤ word → blocks word = memory word) :
    Represents depth memory (fuse blocks d.length (index d) (blocks (realIndex d.length (index d)))) held := by
  induction d generalizing blocks with
  | nil =>
    refine ⟨fun c small => (bits c small).trans (and_iff_left fun outside => ?_), top, beyond⟩
    exact outside.2 (List.suffix_nil.mp outside.1)
  | cons half e ih =>
    have set := (bits (half :: e) deep).mpr ⟨clear, fun same => same.2 rfl⟩
    have target := mt target_test.mp ((Bool.not_eq_false _).mpr set)
    rw [List.length_cons] at target deep
    have differ : buddy (half :: e) ≠ half :: e := by cases half <;> simp [buddy]
    have apart : ¬(buddy (half :: e) <:+ half :: e ∧ buddy (half :: e) ≠ half :: e) := fun within =>
      differ (within.1.eq_of_length (length_buddy _))
    have beside := (bits (buddy (half :: e)) (by rw [length_buddy]; exact deep)).trans (and_iff_left apart)
    have test := buddy_test blocks (List.cons_ne_nil half e)
    rw [List.length_cons] at test ⊢
    rw [fuse]
    by_cases merges : Clear held (buddy (half :: e))
    · rw [if_neg (not_or.mpr ⟨target, fun zero => by rw [test.mp zero] at beside; simp [merges] at beside⟩),
        Nat.shiftRight_eq_div_pow, Nat.pow_one, index_tail]
      have whole : Clear held e := (clear_halves half (dead e (List.suffix_cons _ e))).mpr ⟨clear, merges⟩
      have loaded := setBit_word blocks e
      simp only [← setBit_eq] at loaded ⊢
      rw [← loaded]
      refine @ih (setBit blocks e) (by omega) (fun f within => dead f (within.trans (List.suffix_cons _ e))) whole
        (fun c small => ?_) ?_ fun word behind => ?_
      · rw [bitAt_setBit, Bool.or_eq_true, decide_eq_true_eq, bits c small]
        constructor
        · rintro (⟨clearC, outside⟩ | same)
          · refine ⟨clearC, fun within => outside ⟨within.1.trans (List.suffix_cons _ e), ?_⟩⟩
            rintro rfl
            exact not_suffix_self_cons _ _ within.1
          · rw [slot_injective same]
            exact ⟨whole, fun proper => proper.2 rfl⟩
        · rintro ⟨clearC, outside⟩
          by_cases same : c = e
          · exact .inr (by rw [same])
          · exact .inl ⟨clearC, fun within =>
              outside ⟨(List.suffix_cons_iff.mp within.1).resolve_left within.2, same⟩⟩
      · rw [bitAt_setBit, top]
        simp [(slot_ne_top e).symm]
      · have inside := slot_word_lt (show e.length < depth by omega) five
        exact (Function.update_of_ne (by omega) _ _).trans (beyond word behind)
    · rw [if_pos (.inr (test.mpr (by rw [← Bool.not_eq_true, beside]; exact merges)))]
      refine ⟨fun c small => (bits c small).trans (and_iff_left_of_imp fun whole outside => ?_), top, beyond⟩
      refine merges (whole.within ?_)
      rcases List.suffix_cons_iff.mp outside.1 with same | within
      · exact absurd same outside.2
      · exact within.trans (List.suffix_cons _ e)

/-- Setting the bit of a held block and fusing leaves the bits of what is held without it. -/
theorem release_represents (five : 5 ≤ depth) (rep : Represents depth memory blocks held)
    (apart : held.Pairwise Apart)
    {b : Block} (member : b ∈ held) (deep : b.length < depth) :
    Represents depth memory
      (fuse (setBit blocks b) b.length (index b) (setBit blocks b (realIndex b.length (index b))))
      (held \ {b}) := by
  refine fuse_represents five deep ?_ (clear_self_removed apart member) (fun c small => ?_) ?_ fun word behind => ?_
  · rintro e within ⟨other, differ⟩
    exact (apart other member differ).1 within
  · rw [bitAt_setBit, Bool.or_eq_true, decide_eq_true_eq, rep.bits c small]
    constructor
    · rintro (clear | same)
      · have outside : ¬c <:+ b := clear b member
        exact ⟨(clear_remove outside).mpr clear, fun within => outside within.1⟩
      · rw [slot_injective same]
        exact ⟨clear_self_removed apart member, fun proper => proper.2 rfl⟩
    · rintro ⟨clear, outside⟩
      by_cases same : c = b
      · exact .inr (by rw [same])
      · exact .inl ((clear_remove fun within => outside ⟨within, same⟩).mp clear)
  · rw [bitAt_setBit, rep.top]
    simp [(slot_ne_top b).symm]
  · have inside := slot_word_lt deep five
    exact (Function.update_of_ne (by omega) _ _).trans (rep.beyond word behind)

end Free

end Upmem.Buddy
