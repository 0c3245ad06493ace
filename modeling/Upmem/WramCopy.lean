import Upmem.BuddyRealloc

namespace Upmem.WramCopy
open Blit

/-- A memory of bytes. -/
abbrev Bytes := Nat → BitVec 8

/-- Arithmetic of `uint32_t`. -/
def u32 (n : Nat) : Nat := n % 2 ^ 32

def sub (a b : Nat) : Nat := u32 (a + (2 ^ 32 - b))

/-- The difference of two pointers to words, which is signed. -/
def wordsBetween (a b : Nat) : Nat :=
  if sub a b < 2 ^ 31 then sub a b / 4 else u32 (sub a b / 4 + (2 ^ 32 - 2 ^ 30))

/-- The turns of a loop from `len - 1` down to 0 whose counter is an `int32_t`. -/
def signedTurns (len : Nat) : Nat := if len ≤ 2 ^ 31 then len else 0

/-- A byte copied. -/
def copyByte (memory : Bytes) (d s : Nat) : Bytes := blit memory s memory d 1

/-- A word copied. A word that is not aligned has no place. -/
def copyWord (memory : Bytes) (dw sw : Nat) : Option Bytes :=
  if dw % 4 = 0 ∧ sw % 4 = 0 then some (blit memory sw memory dw 4) else none

/-- `d[i] = s[i]`, for the first `i`. -/
def copyBytes (memory : Bytes) (d s : Nat) : Nat → Bytes
  | 0 => memory
  | i + 1 => copyByte (copyBytes memory d s i) (u32 (d + i)) (u32 (s + i))

/-- `dw[i] = sw[i]`, for the first `i`. -/
def copyWords (memory : Bytes) (dw sw : Nat) : Nat → Option Bytes
  | 0 => some memory
  | i + 1 => (copyWords memory dw sw i).bind fun memory => copyWord memory (u32 (dw + 4 * i)) (u32 (sw + 4 * i))

/-- `__memcpy_wram_4align`. -/
def memcpyWram4align (memory : Bytes) (dest src len : Nat) : Option Bytes := copyWords memory dest src (len / 4)

def memcpy (memory : Bytes) (dest src len : Nat) : Option Bytes :=
  let tail := u32 (dest + len)
  let body := tail / 4 * 4
  let boundary := u32 (dest + 3) / 4 * 4
  let head := if dest % 4 ≠ src % 4 then tail else if tail < boundary then tail else boundary
  let headLen := sub head dest
  let memory := copyBytes memory dest src headLen
  let dw := u32 (dest + headLen)
  let sw := u32 (src + headLen)
  let bodyLen := if body < dw then 0 else wordsBetween body dw
  (if bodyLen ≠ 0 then memcpyWram4align memory dw sw (u32 (bodyLen * 4)) else some memory).map fun memory =>
    let d := u32 (dw + 4 * bodyLen)
    copyBytes memory d (u32 (sw + 4 * bodyLen)) (sub tail d)

/-- `d[i - len] = s[i - len]`, for the first `i` from the last of them on. -/
def copyBytesBack (memory : Bytes) (d s len : Nat) : Nat → Bytes
  | 0 => memory
  | i + 1 => copyBytesBack (copyByte memory (u32 (d + sub i len)) (u32 (s + sub i len))) d s len i

/-- `dw[i - len] = sw[i - len]`, for the first `i` from the last of them on. -/
def copyWordsBack (memory : Bytes) (dw sw len : Nat) : Nat → Option Bytes
  | 0 => some memory
  | i + 1 =>
    (copyWord memory (u32 (dw + 4 * sub i len)) (u32 (sw + 4 * sub i len))).bind fun memory =>
      copyWordsBack memory dw sw len i

def memmove (memory : Bytes) (dest src len : Nat) : Option Bytes :=
  if dest ≤ src ∨ dest ≥ u32 (src + len) then memcpy memory dest src len
  else
    let d := u32 (dest + len)
    let s := u32 (src + len)
    let tail := dest
    let body := u32 (tail + 3) / 4 * 4
    let head := if dest % 4 ≠ src % 4 then tail else if tail > d / 4 * 4 then tail else d / 4 * 4
    let headLen := sub d head
    let memory := copyBytesBack memory d s headLen (signedTurns headLen)
    let dw := sub d headLen
    let sw := sub s headLen
    let bodyLen := if dw < body then 0 else wordsBetween dw body
    (copyWordsBack memory dw sw bodyLen (signedTurns bodyLen)).map fun memory =>
      let d := sub dw (u32 (4 * bodyLen))
      let s := sub sw (u32 (4 * bodyLen))
      let tailLen := sub d tail
      copyBytesBack memory d s tailLen (signedTurns tailLen)

/-- The bytes of a word. -/
def bytesOf (word : BitVec 32) (k : Nat) : BitVec 8 := (word >>> (8 * k)).setWidth 8

/-- `__memset_wram_1align`. -/
def memsetWram1align (memory : Bytes) (dest : Nat) (c : BitVec 32) : Nat → Bytes
  | 0 => memory
  | i + 1 => Function.update (memsetWram1align memory dest c i) (u32 (dest + i)) (c.setWidth 8)

/-- The word of four times the byte. -/
def cccc (c : BitVec 32) : BitVec 32 :=
  let c := c &&& 0xff#32
  c ||| c <<< 8 ||| c <<< 16 ||| c <<< 24

def setWords (memory : Bytes) (dest : Nat) (c : BitVec 32) : Nat → Option Bytes
  | 0 => some memory
  | i + 1 => (setWords memory dest c i).bind fun memory =>
    if u32 (dest + 4 * i) % 4 = 0 then some (blit (bytesOf (cccc c)) 0 memory (u32 (dest + 4 * i)) 4) else none

/-- `__memset_wram_4align`. -/
def memsetWram4align (memory : Bytes) (dest : Nat) (c : BitVec 32) (len : Nat) : Option Bytes :=
  setWords memory dest c (len / 4)

def memset (memory : Bytes) (dest : Nat) (c : BitVec 32) (len : Nat) : Option Bytes :=
  let alignOffset := dest % 4
  let headLen := if alignOffset ≠ 0 then min (4 - alignOffset) len else 0
  let memory := memsetWram1align memory dest c headLen
  let len := len - headLen
  let d := u32 (dest + headLen)
  let bodyLen := if 4 ≤ len then len / 4 * 4 else 0
  (if 4 ≤ len then memsetWram4align memory d c bodyLen else some memory).map fun memory =>
    memsetWram1align memory (u32 (d + bodyLen)) c (len - bodyLen)

/-- `mram_read` and `mram_write` of 8 bytes, which must be aligned. -/
def mramRead (mram : Bytes) (source : Nat) : Option Bytes :=
  if source % 8 = 0 then some (blit mram source (fun _ => 0#8) 0 8) else none

def mramWrite (mram cache : Bytes) (dest : Nat) : Option Bytes :=
  if dest % 8 = 0 then some (blit cache 0 mram dest 8) else none

/-- `__memset_mram_8align`. -/
def memsetMram8align (mram cache : Bytes) (dest : Nat) : Nat → Option Bytes
  | 0 => some mram
  | i + 1 => (memsetMram8align mram cache dest i).bind fun mram => mramWrite mram cache (u32 (dest + 8 * i))

/-- A part of 8 bytes that is read, set and written back. -/
def memsetPart (mram : Bytes) (d offset : Nat) (c : BitVec 32) (len : Nat) : Option Bytes :=
  (mramRead mram d).bind fun cache => mramWrite mram (memsetWram1align cache offset c len) d

/-- `__memset_mram`. -/
def memsetMram (mram : Bytes) (dest : Nat) (c : BitVec 32) (len : Nat) : Option Bytes :=
  let d := dest / 8 * 8
  let alignOffset := dest % 8
  let headLen := if alignOffset ≠ 0 then min (8 - alignOffset) len else 0
  (if alignOffset ≠ 0 then memsetPart mram d alignOffset c headLen else some mram).bind fun mram =>
    let len := len - headLen
    let d := if alignOffset ≠ 0 then u32 (d + 8) else d
    let bodyLen := if 8 ≤ len then len / 8 * 8 else 0
    (if 8 ≤ len then
      (memsetWram4align (fun _ => 0#8) 0 c 8).bind fun cache => memsetMram8align mram cache d (bodyLen / 8)
    else some mram).bind fun mram =>
      let len := len - bodyLen
      let d := u32 (d + bodyLen)
      if 0 < len then memsetPart mram d 0 c len else some mram

/-- `number` units copied one after another, the last one first. -/
def copyUnitsBack (unit : Nat) (memory : Bytes) (dest src : Nat) : (number : Nat) → Bytes
  | 0 => memory
  | number + 1 =>
    copyUnitsBack unit (blit memory (src + unit * number) memory (dest + unit * number) unit) dest src number

/-- What the whole of a copy leaves: all bytes of the source are read first. -/
def copied (memory : Bytes) (dest src len : Nat) : Bytes := blit memory src memory dest len

/-- A byte written to a stretch of the memory. -/
def filled (memory : Bytes) (dest : Nat) (c : BitVec 32) (len : Nat) : Bytes :=
  blit (fun _ => c.setWidth 8) 0 memory dest len

/-- Where `memcpy` does not round the destination up beyond the end of the address space. -/
def Rounds (dest src len : Nat) : Prop := dest % 4 = src % 4 → dest + 3 < 2 ^ 32 ∨ dest + len = 2 ^ 32

/-- Where the counts of the backward copy fit their signed counters, and the
destination is not rounded up beyond the end of the address space. -/
def Counts (dest src len : Nat) : Prop :=
  dest + 3 < 2 ^ 32 ∧
    if dest % 4 = src % 4 ∧ dest + len ≠ 2 ^ 32 then (dest + len) / 4 * 4 - (dest + 3) / 4 * 4 < 2 ^ 31
    else len ≤ 2 ^ 31

section Words

theorem u32_eq {n : Nat} (small : n < 2 ^ 32) : u32 n = n := Nat.mod_eq_of_lt small

theorem sub_eq {a b : Nat} (le : b ≤ a) (small : a < 2 ^ 32) : sub a b = a - b := by
  unfold sub u32
  omega

/-- The end of a range less its start. -/
theorem sub_end {dest len : Nat} (start : dest < 2 ^ 32) (short : len < 2 ^ 32) :
    sub (u32 (dest + len)) dest = len := by
  unfold sub u32
  omega

theorem sub_len {dest len : Nat} (start : dest < 2 ^ 32) (short : len < 2 ^ 32) :
    sub (u32 (dest + len)) len = dest := by
  unfold sub u32
  omega

theorem wordsBetween_self {a : Nat} (small : a < 2 ^ 32) : wordsBetween a a = 0 := by
  rw [wordsBetween, sub_eq le_rfl small, Nat.sub_self, if_pos (by decide)]

/-- Four times the difference of two pointers is the difference of the addresses. -/
theorem wordsBetween_spec {a b : Nat} (le : b ≤ a) (small : a < 2 ^ 32) (whole : (a - b) % 4 = 0) :
    4 * wordsBetween a b % 2 ^ 32 = a - b ∧ (wordsBetween a b = 0 ↔ a = b) ∧
      (a - b < 2 ^ 31 → wordsBetween a b = (a - b) / 4) := by
  rw [wordsBetween, sub_eq le small]
  unfold u32
  split_ifs with low
  · omega
  · omega

/-- A range that reaches the first word boundary: the bytes before it, whole words, and the bytes behind them. -/
theorem range_parts {dest len : Nat} (reaches : (dest + 3) / 4 * 4 ≤ dest + len) : ∃ low words high,
    low + 4 * words + high = len ∧ low < 4 ∧ high < 4 ∧ (dest + low) % 4 = 0 ∧ (dest + 3) / 4 * 4 = dest + low ∧
      (dest + len) / 4 * 4 = dest + (low + 4 * words) :=
  ⟨(dest + 3) / 4 * 4 - dest, (dest + len) / 4 - (dest + 3) / 4, (dest + len) % 4, by omega, by
    omega, by omega, by omega,
    by omega, by omega⟩

end Words

section Loops
variable {memory : Bytes} {dest src n len : Nat}

theorem copyBytes_eq (destEnd : dest + n ≤ 2 ^ 32) (srcEnd : src + n ≤ 2 ^ 32) :
    copyBytes memory dest src n = Buddy.copyUnits 1 memory dest src n := by
  induction n with
  | zero => rfl
  | succ n ih =>
    rw [copyBytes, ih (by omega) (by omega), u32_eq (by omega), u32_eq (by omega), Buddy.copyUnits, Nat.one_mul]
    rfl

theorem copyWords_eq (destAligned : dest % 4 = 0) (srcAligned : src % 4 = 0) (destEnd : dest + 4 * n ≤ 2 ^ 32)
    (srcEnd : src + 4 * n ≤ 2 ^ 32) : copyWords memory dest src n = some (Buddy.copyUnits 4 memory dest src n) := by
  induction n with
  | zero => rfl
  | succ n ih =>
    rw [copyWords, ih (by omega) (by omega), Option.bind_some, u32_eq (by omega), u32_eq (by omega), copyWord,
      if_pos (by omega)]
    rfl

/-- An index below a length, from the end of a range on. -/
theorem back_address {unit i : Nat} (below : i < n) (short : n < 2 ^ 32) (units : unit = 1 ∨ unit = 4)
    (destEnd : dest + unit * n ≤ 2 ^ 32) : u32 (u32 (dest + unit * n) + unit * sub i n) = dest + unit * i := by
  unfold sub u32
  rcases units with rfl | rfl
  · omega
  · omega

theorem copyBytesBack_eq (le : n ≤ len) (short : len < 2 ^ 32) (destEnd : dest + len ≤ 2 ^ 32)
    (srcEnd : src + len ≤ 2 ^ 32) :
    copyBytesBack memory (u32 (dest + len)) (u32 (src + len)) len n = copyUnitsBack 1 memory dest src n := by
  induction n generalizing memory with
  | zero => rfl
  | succ n ih =>
    have destAt := @back_address dest len 1 n (by omega) short (Or.inl rfl) (by omega)
    have srcAt := @back_address src len 1 n (by omega) short (Or.inl rfl) (by omega)
    rw [Nat.one_mul, Nat.one_mul] at destAt srcAt
    rw [copyBytesBack, destAt, srcAt, ih (by omega), copyUnitsBack]
    rfl

theorem copyWordsBack_eq (le : n ≤ len) (short : len < 2 ^ 32) (destAligned : dest % 4 = 0)
    (srcAligned : src % 4 = 0)
    (destEnd : dest + 4 * len ≤ 2 ^ 32) (srcEnd : src + 4 * len ≤ 2 ^ 32) :
    copyWordsBack memory (u32 (dest + 4 * len)) (u32 (src + 4 * len)) len n =
      some (copyUnitsBack 4 memory dest src n) := by
  induction n generalizing memory with
  | zero => rfl
  | succ n ih =>
    have destAt := @back_address dest len 4 n (by omega) short (Or.inr rfl) destEnd
    have srcAt := @back_address src len 4 n (by omega) short (Or.inr rfl) srcEnd
    rw [copyWordsBack, destAt, srcAt, copyWord, if_pos (by omega), Option.bind_some, ih (by omega), copyUnitsBack]

theorem copyUnitsBack_outside (unit : Nat) {number a : Nat} (outside : a < dest ∨ dest + unit * number ≤ a) :
    copyUnitsBack unit memory dest src number a = memory a := by
  induction number generalizing memory with
  | zero => rfl
  | succ number ih =>
    rw [Nat.mul_succ] at outside
    rw [copyUnitsBack, ih (by omega)]
    exact blit_outside _ _ _ (by omega)

/-- A source that does not begin above the destination is read before it is written. -/
theorem copyUnitsBack_inside (unit : Nat) {number k : Nat} (inside : k < unit * number) (behind : src ≤ dest) :
    copyUnitsBack unit memory dest src number (dest + k) = memory (src + k) := by
  induction number generalizing memory with
  | zero => exact absurd inside (Nat.not_lt_zero _)
  | succ number ih =>
    rw [Nat.mul_succ] at inside
    rw [copyUnitsBack]
    by_cases last : unit * number ≤ k
    · obtain ⟨rest, rfl⟩ := Nat.exists_eq_add_of_le last
      rw [copyUnitsBack_outside unit (by omega), ← Nat.add_assoc, blit_inside _ _ _ _ (by omega), Nat.add_assoc]
    · rw [ih (by omega)]
      exact blit_outside _ _ _ (by omega)

/-- The law of a copy, from what it leaves inside and outside. -/
theorem eq_copied {after : Bytes} (inside : ∀ k < len, after (dest + k) = memory (src + k))
    (outside : ∀ a, a < dest ∨ dest + len ≤ a → after a = memory a) : after = copied memory dest src len := by
  funext a
  by_cases within : dest ≤ a ∧ a < dest + len
  · obtain ⟨k, rfl⟩ := Nat.exists_eq_add_of_le within.1
    rw [inside k (by omega), copied, blit_inside _ _ _ _ (by omega)]
  · rw [outside a (by omega), copied, blit_outside _ _ _ within]

/-- Bytes, words and bytes again, the last ones first. -/
theorem copyPartsBack_eq {tailLen bodyLen headLen : Nat} (whole : tailLen + 4 * bodyLen + headLen = len)
    (behind : src ≤ dest) :
    copyUnitsBack 1
      (copyUnitsBack 4 (copyUnitsBack 1 memory (dest + (tailLen + 4 * bodyLen)) (src + (tailLen + 4 * bodyLen))
      headLen) (dest + tailLen) (src + tailLen) bodyLen) dest src tailLen = copied memory dest src len := by
  refine eq_copied (fun k inside => ?_) fun a outside => ?_
  · by_cases tail : k < tailLen
    · rw [copyUnitsBack_inside 1 (by omega) behind, copyUnitsBack_outside 4 (by omega),
        copyUnitsBack_outside 1 (by omega)]
    obtain ⟨more, rfl⟩ := Nat.exists_eq_add_of_le (not_lt.mp tail)
    rw [copyUnitsBack_outside 1 (by omega)]
    by_cases body : more < 4 * bodyLen
    · rw [show dest + (tailLen + more) = dest + tailLen + more by omega, copyUnitsBack_inside 4 body (by omega),
        copyUnitsBack_outside 1 (by omega), Nat.add_assoc]
    · obtain ⟨rest, rfl⟩ := Nat.exists_eq_add_of_le (not_lt.mp body)
      rw [copyUnitsBack_outside 4 (by omega), show dest + (tailLen + (4 * bodyLen + rest)) =
        dest + (tailLen + 4 * bodyLen) + rest by omega, copyUnitsBack_inside 1 (by omega) (by omega)]
      congr 1
      omega
  · rw [copyUnitsBack_outside 1 (by omega), copyUnitsBack_outside 4 (by omega), copyUnitsBack_outside 1 (by omega)]

end Loops

section Copies
variable {memory : Bytes} {dest src len : Nat} (destEnd : dest + len ≤ 2 ^ 32) (srcEnd : src + len ≤ 2 ^ 32)
  (start : dest < 2 ^ 32) (short : len < 2 ^ 32)
include destEnd srcEnd start short

/-- Without a body all bytes are copied one after the other. -/
theorem memcpy_bytes (head : dest % 4 ≠ src % 4 ∨ u32 (dest + len) ≤ u32 (dest + 3) / 4 * 4) :
    memcpy memory dest src len = some (Buddy.copyUnits 1 memory dest src len) := by
  have whole : (if dest % 4 ≠ src % 4 then u32 (dest + len) else
      if u32 (dest + len) < u32 (dest + 3) / 4 * 4 then u32 (dest + len) else u32 (dest + 3) / 4 * 4) = u32
          (dest + len) := by
    split_ifs <;> omega
  have tail : u32 (dest + len) < 2 ^ 32 := Nat.mod_lt _ (by decide)
  have body : (if u32 (dest + len) / 4 * 4 < u32 (dest + len) then 0 else
      wordsBetween (u32 (dest + len) / 4 * 4) (u32 (dest + len))) = 0 := by
    split_ifs with less
    · rfl
    · rw [show u32 (dest + len) / 4 * 4 = u32 (dest + len) by omega, wordsBetween_self tail]
  simp only [memcpy, whole, sub_end start short, body, ne_eq, not_true_eq_false, if_false, Option.map_some,
    Nat.mul_zero,
    Nat.add_zero, u32_eq tail, sub_eq le_rfl tail, Nat.sub_self, copyBytes]
  rw [copyBytes_eq destEnd srcEnd]

omit destEnd in
/-- Where the words begin and end, and what is copied. -/
theorem memcpy_words (aligned : dest % 4 = src % 4) (low : dest + 3 < 2 ^ 32) (inside : dest + len < 2 ^ 32)
    (reaches : (dest + 3) / 4 * 4 < dest + len) : ∃ headLen bodyLen tailLen, headLen + 4 * bodyLen + tailLen = len ∧
      memcpy memory dest src len = some (Buddy.copyParts memory dest src headLen bodyLen tailLen) := by
  obtain ⟨headLen, bodyLen, tailLen, whole, _, _, destAligned, first, last⟩ := range_parts reaches.le
  have srcAligned : (src + headLen) % 4 = 0 := by omega
  have tail : u32 (dest + len) = dest + len := u32_eq inside
  have boundary : u32 (dest + 3) = dest + 3 := u32_eq low
  rw [first] at reaches
  refine ⟨headLen, bodyLen, tailLen, whole, ?_⟩
  simp only [memcpy, tail, boundary, ne_eq, aligned, not_true_eq_false, if_false, first, last,
    if_neg (not_lt.mpr reaches.le)]
  clear first last aligned low tail boundary
  have head : sub (dest + headLen) dest = headLen := by rw [sub_eq (by omega) (by omega), Nat.add_sub_cancel_left]
  have dw : u32 (dest + headLen) = dest + headLen := u32_eq (by omega)
  have sw : u32 (src + headLen) = src + headLen := u32_eq (by omega)
  have bytes : copyBytes memory dest src headLen = Buddy.copyUnits 1 memory dest src headLen :=
    copyBytes_eq (by omega) (by omega)
  have rest : sub (dest + len) (dest + (headLen + 4 * bodyLen)) = tailLen := by
    rw [sub_eq (by omega) inside]
    omega
  simp only [head, dw, sw, bytes, if_neg (show ¬dest + (headLen + 4 * bodyLen) < dest + headLen by omega)]
  obtain ⟨count, none_, _⟩ := @wordsBetween_spec (dest + (headLen + 4 * bodyLen)) (dest + headLen)
    (by omega) (by omega)
    (by omega)
  generalize wordsBetween (dest + (headLen + 4 * bodyLen)) (dest + headLen) = turns at count none_ ⊢
  have words (memory : Bytes) : (if turns ≠ 0 then
      memcpyWram4align memory (dest + headLen) (src + headLen) (u32 (turns * 4)) else some memory) =
      some (Buddy.copyUnits 4 memory (dest + headLen) (src + headLen) bodyLen) := by
    split_ifs with some_
    · have all : u32 (turns * 4) / 4 = bodyLen := by
        unfold u32
        omega
      rw [memcpyWram4align, all, copyWords_eq destAligned srcAligned (by omega) (by omega)]
    · rw [not_not, none_] at some_
      rw [show bodyLen = 0 by omega]
      rfl
  have d : u32 (dest + headLen + 4 * turns) = dest + (headLen + 4 * bodyLen) := by
    unfold u32
    omega
  rw [words, Option.map_some, d, rest, Buddy.copyParts]
  -- the source may end where the address space ends, and then no byte is left
  cases tailLen with
  | zero => rfl
  | succ tailLen =>
    have s : u32 (src + headLen + 4 * turns) = src + (headLen + 4 * bodyLen) := by
      unfold u32
      omega
    rw [s, copyBytes_eq (by omega) (by omega)]

/-- A copy forward, unless the destination begins within the source. -/
theorem memcpy_eq (apart : dest ≤ src ∨ src + len ≤ dest) (rounds : Rounds dest src len) :
    memcpy memory dest src len = some (copied memory dest src len) := by
  by_cases head : dest % 4 ≠ src % 4 ∨ u32 (dest + len) ≤ u32 (dest + 3) / 4 * 4
  · rw [memcpy_bytes destEnd srcEnd start short head]
    refine congrArg some (eq_copied (fun k inside => ?_) fun a outside => ?_)
    · exact Buddy.copyUnits_inside (by omega) (by omega)
    · exact Buddy.copyUnits_outside _ _ _ (by omega)
  · rw [not_or, not_not, not_le] at head
    obtain ⟨aligned, some_⟩ := head
    have inside : dest + len < 2 ^ 32 := by
      by_contra ends
      rw [show dest + len = 2 ^ 32 by omega] at some_
      exact absurd some_ (Nat.not_lt_zero _)
    have low : dest + 3 < 2 ^ 32 := (rounds aligned).resolve_right (by omega)
    rw [u32_eq inside, u32_eq low] at some_
    obtain ⟨headLen, bodyLen, tailLen, whole, parts⟩ :=
      @memcpy_words memory dest src len srcEnd start short aligned low inside some_
    rw [parts]
    refine congrArg some (eq_copied (fun k inside => ?_) fun a outside => ?_)
    · exact Buddy.copyParts_inside memory whole inside (by omega)
    · exact Buddy.copyParts_outside memory src whole outside

/-- The copy on the numbers that the heap uses is this one. -/
theorem memcpy_eq_heap (apart : dest ≤ src ∨ src + len ≤ dest) (rounds : Rounds dest src len) :
    memcpy memory dest src len = some (Buddy.memcpy memory dest src len) := by
  rw [memcpy_eq destEnd srcEnd start short apart rounds]
  refine congrArg some (eq_copied (fun k inside => ?_) fun a outside => ?_).symm
  · exact Buddy.memcpy_inside memory inside (by omega)
  · exact Buddy.memcpy_outside memory src outside

/-- Without a body all bytes are copied from the last one on. -/
theorem memmove_bytes (behind : src < dest) (inside : dest < u32 (src + len))
    (head : dest % 4 ≠ src % 4 ∨ dest > u32 (dest + len) / 4 * 4) (low : dest + 3 < 2 ^ 32) (turns : len ≤ 2 ^ 31) :
    memmove memory dest src len = some (copyUnitsBack 1 memory dest src len) := by
  have whole : (if dest % 4 ≠ src % 4 then dest else
      if dest > u32 (dest + len) / 4 * 4 then dest else u32 (dest + len) / 4 * 4) = dest := by
    split_ifs <;> omega
  have body : (if dest < u32 (dest + 3) / 4 * 4 then 0 else wordsBetween dest (u32 (dest + 3) / 4 * 4)) = 0 := by
    rw [u32_eq low]
    split_ifs with less
    · rfl
    · rw [show (dest + 3) / 4 * 4 = dest by omega, wordsBetween_self start]
  have all : signedTurns len = len := if_pos turns
  have none_ : signedTurns 0 = 0 := rfl
  have first := @copyBytesBack_eq memory dest src len len le_rfl short destEnd srcEnd
  simp only [memmove, if_neg (show ¬(dest ≤ src ∨ dest ≥ u32 (src + len)) by omega), whole,
    sub_end start short, all, first,
    sub_len start short, body, none_, copyWordsBack, Option.map_some, Nat.mul_zero,
      u32_eq (show 0 < 2 ^ 32 by decide),
    sub_eq (Nat.zero_le dest) start, Nat.sub_zero, sub_eq (le_refl dest) start, Nat.sub_self, copyBytesBack]

omit destEnd in
/-- Where the words begin and end in a copy from the last one on. -/
theorem memmove_words (behind : src < dest) (inside : dest < src + len) (aligned : dest % 4 = src % 4)
    (destInside : dest + len < 2 ^ 32) (words : (dest + len) / 4 * 4 - (dest + 3) / 4 * 4 < 2 ^ 31) :
    memmove memory dest src len = some (copied memory dest src len) := by
  obtain ⟨tailLen, bodyLen, headLen, whole, _, _, destAligned, low, boundary⟩ := @range_parts dest len (by omega)
  have srcAligned : (src + tailLen) % 4 = 0 := by omega
  have destTail : u32 (dest + len) = dest + len := u32_eq destInside
  have srcTail : u32 (src + len) = src + len := u32_eq (by omega)
  have up : u32 (dest + 3) = dest + 3 := u32_eq (by omega)
  simp only [memmove, srcTail, if_neg (show ¬(dest ≤ src ∨ dest ≥ src + len) by omega), destTail, up,
    boundary, low, ne_eq,
    aligned, not_true_eq_false, if_false, if_neg (show ¬dest > dest + (tailLen + 4 * bodyLen) by omega)]
  rw [boundary, low] at words
  clear aligned low boundary up
  have small : 4 * bodyLen < 2 ^ 31 := by omega
  have turns {n : Nat} (few : n ≤ 2 ^ 31) : signedTurns n = n := if_pos few
  have head : sub (dest + len) (dest + (tailLen + 4 * bodyLen)) = headLen := by
    rw [sub_eq (by omega) destInside]
    omega
  have headTurns : signedTurns headLen = headLen := turns (by omega)
  have headLoop : copyBytesBack memory (dest + len) (src + len) headLen headLen =
      copyUnitsBack 1 memory (dest + (tailLen + 4 * bodyLen)) (src + (tailLen + 4 * bodyLen)) headLen := by
    have loop :=
      @copyBytesBack_eq memory (dest + (tailLen + 4 * bodyLen)) (src + (tailLen + 4 * bodyLen)) headLen headLen
      le_rfl (by omega) (by omega) (by omega)
    rwa [Nat.add_assoc dest, Nat.add_assoc src, whole, destTail, srcTail] at loop
  have dw : sub (dest + len) headLen = dest + (tailLen + 4 * bodyLen) := by
    rw [sub_eq (by omega) destInside]
    omega
  have sw : sub (src + len) headLen = src + (tailLen + 4 * bodyLen) := by
    rw [sub_eq (by omega) (by omega)]
    omega
  have count : wordsBetween (dest + (tailLen + 4 * bodyLen)) (dest + tailLen) = bodyLen := by
    obtain ⟨_, _, few⟩ := @wordsBetween_spec (dest + (tailLen + 4 * bodyLen)) (dest + tailLen) (by omega) (by omega)
      (by omega)
    rw [few (by omega)]
    omega
  have bodyTurns : signedTurns bodyLen = bodyLen := turns (by omega)
  simp only [head, headTurns, headLoop, dw, sw,
    if_neg (show ¬dest + (tailLen + 4 * bodyLen) < dest + tailLen by omega),
    count, bodyTurns]
  clear head headTurns headLoop dw sw count bodyTurns destTail srcTail
  have bodyLoop (memory : Bytes) :
    copyWordsBack memory (dest + (tailLen + 4 * bodyLen)) (src + (tailLen + 4 * bodyLen))
      bodyLen bodyLen = some (copyUnitsBack 4 memory (dest + tailLen) (src + tailLen) bodyLen) := by
    have loop :=
      @copyWordsBack_eq memory (dest + tailLen) (src + tailLen) bodyLen bodyLen le_rfl (by omega) destAligned
      srcAligned (by omega) (by omega)
    rwa [u32_eq (by omega), u32_eq (by omega), Nat.add_assoc, Nat.add_assoc] at loop
  have d : sub (dest + (tailLen + 4 * bodyLen)) (u32 (4 * bodyLen)) = dest + tailLen := by
    rw [u32_eq (by omega), sub_eq (by omega) (by omega)]
    omega
  have s : sub (src + (tailLen + 4 * bodyLen)) (u32 (4 * bodyLen)) = src + tailLen := by
    rw [u32_eq (by omega), sub_eq (by omega) (by omega)]
    omega
  have rest : sub (dest + tailLen) dest = tailLen := by rw [sub_eq (by omega) (by omega), Nat.add_sub_cancel_left]
  have tailTurns : signedTurns tailLen = tailLen := turns (by omega)
  have tailLoop (memory : Bytes) : copyBytesBack memory (dest + tailLen) (src + tailLen) tailLen tailLen =
      copyUnitsBack 1 memory dest src tailLen := by
    have loop := @copyBytesBack_eq memory dest src tailLen tailLen le_rfl (by omega) (by omega) (by omega)
    rwa [u32_eq (by omega), u32_eq (by omega)] at loop
  rw [bodyLoop, Option.map_some, d, s, rest, tailTurns, tailLoop, copyPartsBack_eq whole behind.le]

/-- A copy forward or from the last byte on. -/
theorem memmove_eq (forward : dest ≤ src ∨ src + len ≤ dest → Rounds dest src len)
    (backward : src < dest → dest < src + len → Counts dest src len) :
    memmove memory dest src len = some (copied memory dest src len) := by
  by_cases ahead : dest ≤ src ∨ dest ≥ u32 (src + len)
  · have apart : dest ≤ src ∨ src + len ≤ dest := by
      unfold u32 at ahead
      omega
    rw [memmove, if_pos ahead]
    exact memcpy_eq destEnd srcEnd start short apart (forward apart)
  rw [not_or, not_le, ge_iff_le, not_le] at ahead
  obtain ⟨behind, inside⟩ := ahead
  have within : dest < src + len := by
    unfold u32 at inside
    omega
  obtain ⟨low, counts⟩ := backward behind within
  split_ifs at counts with words
  · exact memmove_words srcEnd start short behind within words.1 (by omega) counts
  · have head : dest % 4 ≠ src % 4 ∨ dest > u32 (dest + len) / 4 * 4 := by
      unfold u32
      omega
    rw [memmove_bytes destEnd srcEnd start short behind inside head low counts]
    refine congrArg some (eq_copied (fun k below => ?_) fun a outside => ?_)
    · exact copyUnitsBack_inside 1 (by omega) behind.le
    · exact copyUnitsBack_outside 1 (by omega)

end Copies

section Fills
variable {memory : Bytes} {c : BitVec 32} {dest len n : Nat}

theorem filled_zero : filled memory dest c 0 = memory := blit_zero _ _ _ _

theorem filled_append (memory : Bytes) (dest : Nat) (c : BitVec 32) (m n : Nat) :
    filled (filled memory dest c m) (dest + m) c n = filled memory dest c (m + n) := by
  exact blit_append (fun _ => c.setWidth 8) memory 0 dest m n

theorem memsetWram1align_eq (ends : dest + n ≤ 2 ^ 32) :
    memsetWram1align memory dest c n = filled memory dest c n := by
  induction n with
  | zero => exact filled_zero.symm
  | succ n ih =>
    rw [memsetWram1align, ih (by omega), u32_eq (by omega), ← filled_append]
    funext a
    rw [Function.update_apply]
    split_ifs with last
    · rw [last, filled, blit, if_pos ⟨le_rfl, Nat.lt_succ_self _⟩]
    · exact (blit_outside _ _ _ (by omega)).symm

/-- A stretch may end where the address space ends, if nothing of it is left there. -/
theorem memsetWram1align_u32 (ends : dest + n ≤ 2 ^ 32) :
    memsetWram1align memory (u32 dest) c n = filled memory dest c n := by
  cases n with
  | zero => exact filled_zero.symm
  | succ n => rw [u32_eq (by omega), memsetWram1align_eq ends]

/-- Each byte of the word is the byte. -/
theorem bytesOf_cccc (c : BitVec 32) {k : Nat} (inside : k < 4) : bytesOf (cccc c) k = c.setWidth 8 := by
  have low : c &&& 0xff#32 = (c.setWidth 8).setWidth 32 := by
    have same : ∀ i < 32, (0xff#32).getLsbD i = decide (i < 8) := by decide
    refine BitVec.eq_of_getLsbD_eq fun i below => ?_
    rw [BitVec.getLsbD_and, same i below, BitVec.getLsbD_setWidth, BitVec.getLsbD_setWidth, decide_eq_true below,
      Bool.true_and, Bool.and_comm]
  have all : ∀ b : BitVec 8, ∀ k < 4, bytesOf (b.setWidth 32 ||| b.setWidth 32 <<< 8 ||| b.setWidth 32 <<< 16 |||
      b.setWidth 32 <<< 24) k = b := by decide
  simp only [cccc, low]
  exact all (c.setWidth 8) k inside

theorem setWords_eq (aligned : dest % 4 = 0) (ends : dest + 4 * n ≤ 2 ^ 32) :
    setWords memory dest c n = some (filled memory dest c (4 * n)) := by
  induction n with
  | zero => exact congrArg some filled_zero.symm
  | succ n ih =>
    have word (memory : Bytes) :
        blit (bytesOf (cccc c)) 0 memory (dest + 4 * n) 4 = filled memory (dest + 4 * n) c 4 :=
      blit_congr (fun k inside => bytesOf_cccc c (by omega)) fun _ _ => rfl
    rw [setWords, ih (by omega), Option.bind_some, u32_eq (by omega), if_pos (by omega), word, filled_append,
      Nat.mul_succ]

theorem u32_add (a b : Nat) : u32 (u32 a + b) = u32 (a + b) := Nat.mod_add_mod a (2 ^ 32) b

/-- Words and the bytes behind them. -/
theorem memset_rest (aligned : 4 ≤ n → dest % 4 = 0) (ends : dest + n ≤ 2 ^ 32) :
    ((if 4 ≤ n then memsetWram4align memory (u32 dest) c (if 4 ≤ n then n / 4 * 4 else 0)
      else some memory).map fun memory =>
      memsetWram1align memory (u32 (u32 dest + if 4 ≤ n then n / 4 * 4 else 0)) c (n - if 4 ≤ n then
        n / 4 * 4 else 0)) =
      some (filled memory dest c n) := by
  rw [u32_add]
  split_ifs with words
  · have place : u32 dest = dest := u32_eq (by omega)
    rw [memsetWram4align, place, Nat.mul_div_cancel _ (by decide), setWords_eq (aligned words) (by omega),
      Option.map_some,
      memsetWram1align_u32 (by omega), Nat.mul_comm, filled_append]
    congr 2
    omega
  · rw [Option.map_some, Nat.add_zero, Nat.sub_zero, memsetWram1align_u32 ends]

theorem memset_eq (ends : dest + len ≤ 2 ^ 32) :
    memset memory dest c len = some (filled memory dest c len) := by
  obtain ⟨headLen, head⟩ : ∃ headLen, headLen = if dest % 4 ≠ 0 then min (4 - dest % 4) len else 0 := ⟨_, rfl⟩
  have within : headLen ≤ len ∧ (4 ≤ len - headLen → (dest + headLen) % 4 = 0) := by
    rw [head]
    split_ifs <;> omega
  simp only [memset, ← head]
  rw [memset_rest within.2 (by omega), memsetWram1align_eq (by omega), filled_append, Nat.add_sub_cancel' within.1]

/-- A part of 8 bytes that is read and written back changes where it is set. -/
theorem memsetPart_eq {offset : Nat} (aligned : dest % 8 = 0) (inside : offset + n ≤ 8) :
    memsetPart memory dest offset c n = some (filled memory (dest + offset) c n) := by
  rw [memsetPart, mramRead, if_pos aligned, Option.bind_some, mramWrite, if_pos aligned,
    memsetWram1align_eq (by omega)]
  refine congrArg some (funext fun a => ?_)
  by_cases within : dest ≤ a ∧ a < dest + 8
  · obtain ⟨k, rfl⟩ := Nat.exists_eq_add_of_le within.1
    have small : k < 8 := by omega
    rw [blit_inside _ _ _ _ small, Nat.zero_add, filled, filled]
    by_cases set : offset ≤ k ∧ k < offset + n
    · rw [blit, if_pos set, blit, if_pos (by omega)]
    · have cell := blit_inside memory (fun _ => 0#8) dest 0 small
      rw [Nat.zero_add] at cell
      rw [blit_outside _ _ _ set, cell]
      exact (blit_outside _ _ _ (by omega)).symm
  · rw [blit_outside _ _ _ within, filled, blit_outside _ _ _ (by omega)]

theorem memsetMram8align_eq {cache : Bytes} (set : ∀ k < 8, cache k = c.setWidth 8) (aligned : dest % 8 = 0)
    (ends : dest + 8 * n ≤ 2 ^ 32) :
    memsetMram8align memory cache dest n = some (filled memory dest c (8 * n)) := by
  induction n with
  | zero => exact congrArg some filled_zero.symm
  | succ n ih =>
    have part (memory : Bytes) : blit cache 0 memory (dest + 8 * n) 8 = filled memory (dest + 8 * n) c 8 :=
      blit_congr (fun k inside => by rw [Nat.zero_add]; exact set k inside) fun _ _ => rfl
    rw [memsetMram8align, ih (by omega), Option.bind_some, u32_eq (by omega), mramWrite, if_pos (by omega), part,
      filled_append, Nat.mul_succ]

/-- Parts of 8 bytes and the bytes behind them. -/
theorem memsetMram_rest (aligned : 0 < n → dest % 8 = 0) (ends : dest + n ≤ 2 ^ 32) :
    ((if 8 ≤ n then
        (memsetWram4align (fun _ => 0#8) 0 c 8).bind fun cache =>
          memsetMram8align memory cache (u32 dest) ((if 8 ≤ n then n / 8 * 8 else 0) / 8)
      else some memory).bind fun memory =>
        if 0 < n - (if 8 ≤ n then n / 8 * 8 else 0) then
          memsetPart memory (u32 (u32 dest + if 8 ≤ n then n / 8 * 8 else 0)) 0 c
            (n - if 8 ≤ n then n / 8 * 8 else 0)
        else some memory) = some (filled memory dest c n) := by
  have cache : memsetWram4align (fun _ => 0#8) 0 c 8 = some (filled (fun _ => 0#8) 0 c 8) :=
    setWords_eq rfl (by decide)
  have set : ∀ k < 8, filled (fun _ => 0#8) 0 c 8 k = c.setWidth 8 :=
    fun k inside => if_pos ⟨Nat.zero_le k, by omega⟩
  rw [u32_add]
  by_cases parts : 8 ≤ n
  · simp only [if_pos parts]
    have place : u32 dest = dest := u32_eq (by omega)
    rw [cache, Option.bind_some, place, Nat.mul_div_cancel _ (by decide),
      memsetMram8align_eq set (aligned (by omega)) (by omega), Option.bind_some]
    split_ifs with rest
    · have aligned := aligned (by omega)
      rw [u32_eq (by omega), memsetPart_eq (by omega) (by omega), Nat.add_zero, Nat.mul_comm 8, filled_append]
      congr 2
      omega
    · congr 2
      omega
  · simp only [if_neg parts, Option.bind_some, Nat.add_zero, Nat.sub_zero]
    split_ifs with rest
    · rw [u32_eq (by omega), memsetPart_eq (aligned rest) (by omega), Nat.add_zero]
    · rw [show n = 0 by omega, filled_zero]

theorem memsetMram_eq (start : dest < 2 ^ 32) (ends : dest + len ≤ 2 ^ 32) :
    memsetMram memory dest c len = some (filled memory dest c len) := by
  by_cases offset : dest % 8 = 0
  · have place : dest / 8 * 8 = u32 dest := by
      rw [u32_eq start]
      omega
    simp only [memsetMram, offset, ne_eq, not_true_eq_false, if_false, Option.bind_some, Nat.sub_zero, place]
    exact memsetMram_rest (fun _ => offset) ends
  · have part : memsetPart memory (dest / 8 * 8) (dest % 8) c (min (8 - dest % 8) len) =
        some (filled memory dest c (min (8 - dest % 8) len)) := by
      rw [memsetPart_eq (by omega) (by omega), show dest / 8 * 8 + dest % 8 = dest by omega]
    simp only [memsetMram, ne_eq, offset, not_false_eq_true, if_true, part, Option.bind_some]
    by_cases rest : 8 - dest % 8 ≤ len
    · rw [min_eq_left rest, show dest / 8 * 8 + 8 = dest + (8 - dest % 8) by omega,
        memsetMram_rest (fun _ => by omega) (by omega), filled_append, Nat.add_sub_cancel' rest]
    · rw [min_eq_right (by omega), Nat.sub_self]
      simp only [show ¬8 ≤ 0 by decide, if_false, Option.bind_some, Nat.sub_zero, lt_irrefl]

end Fills

/-- The ranges of WRAM are far from the end of the address space. -/
theorem wram_ranges {dest src len : Nat} (inside : dest + len ≤ 64 * 1024) :
    Rounds dest src len ∧ Counts dest src len := by
  refine ⟨fun _ => Or.inl (by omega), by omega, ?_⟩
  split_ifs <;> omega

/-- What the functions for strings leave, with every word and every DMA aligned. -/
theorem string_functions_eq (memory : Bytes) (dest src len : Nat) (c : BitVec 32) (start : dest < 2 ^ 32)
    (short : len < 2 ^ 32) (destEnd : dest + len ≤ 2 ^ 32) (srcEnd : src + len ≤ 2 ^ 32) :
    (dest ≤ src ∨ src + len ≤ dest → Rounds dest src len →
      memcpy memory dest src len = some (copied memory dest src len)) ∧
    ((dest ≤ src ∨ src + len ≤ dest → Rounds dest src len) → (src < dest → dest < src + len → Counts dest src len) →
      memmove memory dest src len = some (copied memory dest src len)) ∧
    memset memory dest c len = some (filled memory dest c len) ∧
    memsetMram memory dest c len = some (filled memory dest c len) :=
  ⟨memcpy_eq destEnd srcEnd start short, memmove_eq destEnd srcEnd start short, memset_eq destEnd,
    memsetMram_eq start destEnd⟩

/-- A string and its terminator moved by one byte. -/
theorem string_functions_five :
    memmove (fun a => BitVec.ofNat 8 a) 6 5 9 = some (copied (fun a => BitVec.ofNat 8 a) 6 5 9) ∧
      memset (fun a => BitVec.ofNat 8 a) 6 0#32 9 = some (filled (fun a => BitVec.ofNat 8 a) 6 0#32 9) :=
  have all :=
    string_functions_eq (fun a => BitVec.ofNat 8 a) 6 5 9 0#32 (by decide) (by decide) (by decide) (by decide)
  ⟨all.2.1 (fun _ => (wram_ranges (by decide)).1) (fun _ _ => (wram_ranges (by decide)).2), all.2.2.1⟩

/-- More than 2^31 bytes are not copied backwards. -/
theorem memmove_long_unchanged : memmove (fun a => if a = 8 then 1#8 else 0#8) 9 8 (2 ^ 31 + 1) ≠
    some (copied (fun a => if a = 8 then 1#8 else 0#8) 9 8 (2 ^ 31 + 1)) := by
  intro same
  have unchanged : memmove (fun a => if a = 8 then 1#8 else 0#8) 9 8 (2 ^ 31 + 1) =
      some (fun a => if a = 8 then 1#8 else 0#8) := by
    rfl
  have first := congrFun (Option.some.inj (unchanged.symm.trans same)) 9
  exact absurd first (by decide)

end Upmem.WramCopy
