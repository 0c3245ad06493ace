import Upmem.VpdDb

namespace Upmem.VpdDb
open Codec

/-- What the decoding does with the memory: it reads a byte, or passes some of them to the container. -/
inductive Access
  | read (index : Int)
  | passed (start length : Int)

/-- It is within the length that is given, and a length is not negative. -/
def Access.Inside (maxLen : Int) : Access → Prop
  | read index => 0 ≤ index ∧ index < maxLen
  | passed start length => 0 ≤ start ∧ 0 ≤ length ∧ start + length ≤ maxLen

/-- Arithmetic of `int32_t`. -/
def int32 (n : Int) : Int := n.bmod (2 ^ 32)

/-- `vpd_decode_len` at a place of the memory, by how many bytes are left of `max_len`. -/
def decodeLenAt (memory : Int → Byte) (place : Int) : Nat → BitVec 32 → Nat → List Access × Option (BitVec 32 × Nat)
  | 0, _, _ => ([], none)
  | left + 1, length, i =>
    let byte := memory (place + i)
    let length := length <<< 7 ||| (byte &&& 0x7f#8).setWidth 32
    if byte &&& 0x80#8 ≠ 0#8 then
      let rest := decodeLenAt memory place left length (i + 1)
      (.read (place + i) :: rest.1, rest.2)
    else ([.read (place + i)], some (length, i + 1))

section Decode
variable (memory : Int → Byte) (maxLen : Int)

/-- `vpd_decode_len` where the cursor is. -/
def lenAt (consumed : Int) : List Access × Option (BitVec 32 × Nat) :=
  decodeLenAt memory consumed (int32 (maxLen - consumed)).toNat 0#32 0

/-- `vpd_decode_string` behind the length of the key, with what the callback returns. -/
def decodeValueAt (accepts : Bool) (key : Int) (keyLen : BitVec 32) : List Access × Option Int :=
  let cursor := int32 (key + keyLen.toInt)
  let decoded := lenAt memory maxLen cursor
  match decoded.2 with
  | none => (decoded.1, none)
  | some (valueLen, decodedLen) =>
    let value := int32 (cursor + decodedLen)
    if maxLen < value then (decoded.1, none)
    else
      (decoded.1 ++ [.passed key keyLen.toInt, .passed value valueLen.toInt],
        if accepts then some (int32 (value + valueLen.toInt)) else none)

/-- `vpd_decode_string`: what it does with the memory, and where it goes on. -/
def decodeStringAt (accepts : Bool) (consumed : Int) : List Access × Option Int :=
  if maxLen ≤ consumed then ([], none)
  else
    match ValueType.ofCode (memory consumed) with
    | none => ([.read consumed], none)
    | some _ =>
      let decoded := lenAt memory maxLen (int32 (consumed + 1))
      match decoded.2 with
      | none => (.read consumed :: decoded.1, none)
      | some (keyLen, decodedLen) =>
        let key := int32 (int32 (consumed + 1) + decodedLen)
        if maxLen ≤ key then (.read consumed :: decoded.1, none)
        else
          let rest := decodeValueAt memory maxLen accepts key keyLen
          (.read consumed :: decoded.1 ++ rest.1, rest.2)

/-- `vpd_decode_to_container`, for a number of turns. The container accepts a string if its allocations succeed. -/
def decodeLoopAt (accepts : Nat → Bool) : (turns n : Nat) → Int → Option (List Access)
  | 0, _, _ => none
  | turns + 1, n, consumed =>
    let turn := decodeStringAt memory maxLen (accepts n) consumed
    match turn.2 with
    | none => some turn.1
    | some consumed => (decodeLoopAt accepts turns (n + 1) consumed).map (turn.1 ++ ·)

/-- The loop ends, and what it does with the memory is within the length. -/
def SafeFrom (accepts : Nat → Bool) (n : Nat) (consumed : Int) : Prop :=
  ∃ turns accesses, decodeLoopAt memory maxLen accepts turns n consumed = some accesses ∧
    ∀ access ∈ accesses, access.Inside maxLen

/-- At a place there is a type that is known, then the length of a key, which begins before the end. -/
structure KeyAt (consumed key : Int) (keyLen : BitVec 32) : Prop where
  before : consumed < maxLen
  known : ValueType.ofCode (memory consumed) ≠ none
  decoded : ∃ decodedLen : Nat, (lenAt memory maxLen (consumed + 1)).2 = some (keyLen, decodedLen) ∧
    key = consumed + 1 + decodedLen
  starts : key < maxLen

/-- At a place there is the length of a value. -/
def ValueAt (cursor value : Int) (valueLen : BitVec 32) : Prop :=
  ∃ decodedLen : Nat, (lenAt memory maxLen cursor).2 = some (valueLen, decodedLen) ∧ value = cursor + decodedLen

/-- A whole record, and the place behind it. -/
structure WholeRecord (consumed next : Int) : Prop where
  whole : ∃ key keyLen value valueLen, KeyAt memory maxLen consumed key keyLen ∧ 0 ≤ keyLen.toInt ∧
    ValueAt memory maxLen (key + keyLen.toInt) value valueLen ∧ 0 ≤ valueLen.toInt ∧
      next = value + valueLen.toInt ∧ next ≤ maxLen

/-- The places that are reached through whole records that the container has accepted. -/
inductive Reached (accepts : Nat → Bool) : Nat → Int → Prop
  | start : Reached accepts 0 0
  | next {n consumed next} : Reached accepts n consumed → WholeRecord memory maxLen consumed next →
      accepts n = true → Reached accepts (n + 1) next

/-- A key length that is negative is so low that what is left of the length wraps, and the length of a value is not
negative and within what is left. -/
structure SoundAt (consumed : Int) : Prop where
  key : ∀ key keyLen, KeyAt memory maxLen consumed key keyLen → keyLen.toInt < 0 →
    2 ^ 31 ≤ maxLen - key - keyLen.toInt
  value : ∀ key keyLen, KeyAt memory maxLen consumed key keyLen → 0 ≤ keyLen.toInt → ∀ value valueLen,
    ValueAt memory maxLen (key + keyLen.toInt) value valueLen → 0 ≤ valueLen.toInt ∧ value + valueLen.toInt ≤ maxLen

end Decode

section Int32

theorem int32_eq {n : Int} (low : -2 ^ 31 ≤ n) (high : n < 2 ^ 31) : int32 n = n := by
  unfold int32
  rw [Int.bmod_def]
  omega

theorem int32_wraps {n : Int} (low : 2 ^ 31 ≤ n) (high : n < 2 ^ 32 + 2 ^ 31) : int32 n = n - 2 ^ 32 := by
  unfold int32
  rw [Int.bmod_def]
  omega

theorem int32_sub (a b : Int) : int32 (a - int32 b) = int32 (a - b) := Int.sub_bmod_bmod

end Int32

section Len
variable {memory : Int → Byte} {place : Int}

/-- The bytes that are read are those from the place on that are left. -/
theorem decodeLenAt_reads {left i : Nat} {length : BitVec 32} {access : Access}
    (member : access ∈ (decodeLenAt memory place left length i).1) :
    ∃ j : Nat, i ≤ j ∧ j < i + left ∧ access = .read (place + j) := by
  induction left generalizing length i with
  | zero => cases member
  | succ left ih =>
    rw [decodeLenAt] at member
    split_ifs at member
    · rcases List.mem_cons.mp member with rfl | rest
      · exact ⟨i, le_rfl, by omega, rfl⟩
      · obtain ⟨j, after, inside, rfl⟩ := ih rest
        exact ⟨j, by omega, by omega, rfl⟩
    · rw [List.mem_singleton.mp member]
      exact ⟨i, le_rfl, by omega, rfl⟩

/-- The last byte of a length is the one without the flag. -/
theorem decodeLenAt_some {left i decodedLen : Nat} {length result : BitVec 32}
    (decoded : (decodeLenAt memory place left length i).2 = some (result, decodedLen)) :
    i < decodedLen ∧ decodedLen ≤ i + left ∧ memory (place + (decodedLen - 1 : Nat)) &&& 0x80#8 = 0#8 := by
  induction left generalizing length i with
  | zero => cases decoded
  | succ left ih =>
    rw [decodeLenAt] at decoded
    split_ifs at decoded with more
    · obtain ⟨after, inside, last⟩ := ih decoded
      exact ⟨by omega, by omega, last⟩
    · cases decoded
      exact ⟨by omega, by omega, not_not.mp more⟩

/-- A byte without the flag ends a length. -/
theorem decodeLenAt_ends {left i j : Nat} {length : BitVec 32} (after : i ≤ j) (inside : j < i + left)
    (last : memory (place + j) &&& 0x80#8 = 0#8) :
    ∃ result decodedLen, (decodeLenAt memory place left length i).2 = some (result, decodedLen) ∧
      decodedLen ≤ j + 1 := by
  induction left generalizing length i with
  | zero => omega
  | succ left ih =>
    rw [decodeLenAt]
    split_ifs with more
    · have later : i ≠ j := by
        rintro rfl
        exact more last
      exact ih (by omega) (by omega)
    · exact ⟨_, _, rfl, by omega⟩

end Len

section Steps
variable {memory : Int → Byte} {maxLen : Int} {accepts : Bool} {consumed key value : Int}
  {keyLen valueLen : BitVec 32}

variable (memory) in
/-- What is read of a length from inside the buffer is inside. -/
theorem lenAt_inside (bound : maxLen < 2 ^ 31) (inside : 0 ≤ consumed) (before : consumed ≤ maxLen) :
    ∀ access ∈ (lenAt memory maxLen consumed).1, access.Inside maxLen := by
  intro access member
  obtain ⟨j, _, small, rfl⟩ := decodeLenAt_reads member
  rw [int32_eq (by omega) (by omega)] at small
  exact ⟨by omega, by omega⟩

theorem lenAt_none (beyond : int32 (maxLen - consumed) ≤ 0) : lenAt memory maxLen consumed = ([], none) := by
  rw [lenAt, Int.toNat_of_nonpos beyond]
  rfl

theorem ValueAt.place (bound : maxLen < 2 ^ 31) (low : -2 ^ 31 < maxLen - consumed) (inside : 0 ≤ consumed)
    (at_ : ValueAt memory maxLen consumed value valueLen) : consumed < value ∧ value ≤ maxLen := by
  obtain ⟨decodedLen, decoded, rfl⟩ := at_
  obtain ⟨positive, small, _⟩ := decodeLenAt_some decoded
  rw [int32_eq (by omega) (by omega)] at small
  omega

theorem KeyAt.place (at_ : KeyAt memory maxLen consumed key keyLen) :
    consumed + 1 < key ∧ memory (key - 1) &&& 0x80#8 = 0#8 := by
  obtain ⟨before, _, ⟨decodedLen, decoded, rfl⟩, _⟩ := at_
  obtain ⟨positive, _, last⟩ := decodeLenAt_some decoded
  rw [show consumed + 1 + (decodedLen : Int) - 1 = consumed + 1 + (decodedLen - 1 : Nat) by omega]
  exact ⟨by omega, last⟩

variable (memory) in
/-- A key length that is not negative leaves the cursor where its bytes end, or nothing of the length. -/
theorem lenAt_forward (bound : maxLen < 2 ^ 31) (inside : 0 ≤ key) (starts : key < maxLen)
    (forward : 0 ≤ keyLen.toInt) :
    (int32 (key + keyLen.toInt) = key + keyLen.toInt ∧ key + keyLen.toInt < maxLen) ∨
      (lenAt memory maxLen (int32 (key + keyLen.toInt)) = ([], none) ∧
        lenAt memory maxLen (key + keyLen.toInt) = ([], none)) := by
  have high : keyLen.toInt < 2 ^ 31 := by simpa using keyLen.toInt_lt
  by_cases within : key + keyLen.toInt < maxLen
  · exact Or.inl ⟨int32_eq (by omega) (by omega), within⟩
  · have beyond : int32 (maxLen - (key + keyLen.toInt)) ≤ 0 := by
      rw [int32_eq (by omega) (by omega)]
      omega
    exact Or.inr ⟨lenAt_none (by rwa [int32_sub]), lenAt_none beyond⟩

theorem decodeValueAt_whole (bound : maxLen < 2 ^ 31) (inside : 0 ≤ key) (starts : key < maxLen)
    (forward : 0 ≤ keyLen.toInt) (value_ : ValueAt memory maxLen (key + keyLen.toInt) value valueLen) :
    decodeValueAt memory maxLen accepts key keyLen =
      ((lenAt memory maxLen (key + keyLen.toInt)).1 ++ [.passed key keyLen.toInt, .passed value valueLen.toInt],
        if accepts then some (int32 (value + valueLen.toInt)) else none) := by
  rcases lenAt_forward memory bound inside starts forward with ⟨cursor, within⟩ | ⟨_, beyond⟩
  · have place := value_.place bound (by omega) (by omega)
    obtain ⟨decodedLen, decoded, rfl⟩ := value_
    simp only [decodeValueAt, cursor, decoded,
      int32_eq (n := key + keyLen.toInt + decodedLen) (by omega) (by omega)]
    rw [if_neg (by omega)]
  · obtain ⟨decodedLen, decoded, rfl⟩ := value_
    rw [beyond] at decoded
    cases decoded

variable (accepts) in
theorem decodeValueAt_none (bound : maxLen < 2 ^ 31) (inside : 0 ≤ key) (starts : key < maxLen)
    (forward : 0 ≤ keyLen.toInt)
    (missing : ¬∃ value valueLen, ValueAt memory maxLen (key + keyLen.toInt) value valueLen) :
    decodeValueAt memory maxLen accepts key keyLen = ((lenAt memory maxLen (int32 (key + keyLen.toInt))).1, none) ∧
      ∀ access ∈ (lenAt memory maxLen (int32 (key + keyLen.toInt))).1, access.Inside maxLen := by
  rcases lenAt_forward memory bound inside starts forward with ⟨cursor, within⟩ | ⟨beyond, _⟩
  · have undecoded : (lenAt memory maxLen (key + keyLen.toInt)).2 = none := by
      rw [Option.eq_none_iff_forall_ne_some]
      exact fun decoded same => missing ⟨_, decoded.1, decoded.2, same, rfl⟩
    refine ⟨?_, ?_⟩
    · simp only [decodeValueAt, cursor, undecoded]
    · rw [cursor]
      exact lenAt_inside memory bound (by omega) (by omega)
  · refine ⟨?_, ?_⟩
    · simp only [decodeValueAt, beyond]
    · rw [beyond]
      exact fun access member => absurd member List.not_mem_nil

/-- A key length that is too low leaves nothing. -/
theorem decodeValueAt_low (inside : 0 ≤ key) (bound : maxLen < 2 ^ 31) (starts : key < maxLen)
    (back : keyLen.toInt < 0)
    (low : 2 ^ 31 ≤ maxLen - key - keyLen.toInt) : decodeValueAt memory maxLen accepts key keyLen = ([], none) := by
  have lowest : -2 ^ 31 ≤ keyLen.toInt := by simpa using keyLen.le_toInt
  have none_ : lenAt memory maxLen (int32 (key + keyLen.toInt)) = ([], none) := by
    refine lenAt_none ?_
    rw [int32_sub, int32_wraps (by omega) (by omega)]
    omega
  simp only [decodeValueAt, none_]

variable (accepts) in
/-- Any other negative key length reads before the buffer, or is passed to the container. -/
theorem decodeValueAt_back (bound : maxLen < 2 ^ 31) (starts : key < maxLen) (inside : 0 < key)
    (last : memory (key - 1) &&& 0x80#8 = 0#8) (back : keyLen.toInt < 0)
    (high : maxLen - key - keyLen.toInt < 2 ^ 31) :
    ∃ access ∈ (decodeValueAt memory maxLen accepts key keyLen).1, ¬access.Inside maxLen := by
  have lowest : -2 ^ 31 ≤ keyLen.toInt := by simpa using keyLen.le_toInt
  have cursor : int32 (key + keyLen.toInt) = key + keyLen.toInt := int32_eq (by omega) (by omega)
  have left : (int32 (maxLen - (key + keyLen.toInt))).toNat = (maxLen - (key + keyLen.toInt)).toNat := by
    rw [int32_eq (by omega) (by omega)]
  -- the flag of the byte before the key ends the length at the latest
  obtain ⟨valueLen, decodedLen, decoded, short⟩ : ∃ valueLen decodedLen,
      (lenAt memory maxLen (key + keyLen.toInt)).2 = some (valueLen, decodedLen) ∧
      (decodedLen : Int) ≤ -keyLen.toInt := by
    obtain ⟨valueLen, decodedLen, decoded, short⟩ := @decodeLenAt_ends memory (key + keyLen.toInt)
      (int32 (maxLen - (key + keyLen.toInt))).toNat 0 (-keyLen.toInt - 1).toNat 0#32 (by omega) (by omega) (by
        rw [← last]
        congr 2
        omega)
    exact ⟨valueLen, decodedLen, decoded, by omega⟩
  have value : int32 (key + keyLen.toInt + decodedLen) = key + keyLen.toInt + decodedLen :=
    int32_eq (by omega) (by omega)
  refine ⟨.passed key keyLen.toInt, ?_, fun both => by have := both.2.1; omega⟩
  simp only [decodeValueAt, cursor, decoded, value]
  rw [if_neg (by omega)]
  simp

theorem decodeStringAt_key (bound : maxLen < 2 ^ 31) (inside : 0 ≤ consumed)
    (key_ : KeyAt memory maxLen consumed key keyLen) :
    decodeStringAt memory maxLen accepts consumed =
      (.read consumed :: (lenAt memory maxLen (consumed + 1)).1 ++
        (decodeValueAt memory maxLen accepts key keyLen).1,
        (decodeValueAt memory maxLen accepts key keyLen).2) := by
  obtain ⟨before, known, ⟨decodedLen, decoded, rfl⟩, starts⟩ := key_
  obtain ⟨valueType, known⟩ := Option.ne_none_iff_exists'.mp known
  have next : int32 (consumed + 1) = consumed + 1 := int32_eq (by omega) (by omega)
  have key : int32 (consumed + 1 + decodedLen) = consumed + 1 + decodedLen := int32_eq (by omega) (by omega)
  rw [decodeStringAt, if_neg (not_le.mpr before)]
  simp only [known, next, decoded, key]
  rw [if_neg (not_le.mpr starts)]

variable (accepts) in
/-- Without a key the loop ends. -/
theorem decodeStringAt_none (bound : maxLen < 2 ^ 31) (inside : 0 ≤ consumed)
    (missing : ¬∃ key keyLen, KeyAt memory maxLen consumed key keyLen) :
    (decodeStringAt memory maxLen accepts consumed).2 = none ∧
      ∀ access ∈ (decodeStringAt memory maxLen accepts consumed).1, access.Inside maxLen := by
  rw [decodeStringAt]
  split_ifs with ended
  · exact ⟨rfl, fun access member => absurd member List.not_mem_nil⟩
  have here : (Access.read consumed).Inside maxLen := ⟨inside, not_le.mp ended⟩
  have next : int32 (consumed + 1) = consumed + 1 := int32_eq (by omega) (by omega)
  have reads := lenAt_inside memory bound (show 0 ≤ consumed + 1 by omega) (by omega)
  cases known : ValueType.ofCode (memory consumed) with
  | none => exact ⟨rfl, List.forall_mem_singleton.mpr here⟩
  | some valueType =>
    simp only [next]
    cases decoded : (lenAt memory maxLen (consumed + 1)).2 with
    | none => exact ⟨rfl, List.forall_mem_cons.mpr ⟨here, reads⟩⟩
    | some pair =>
      obtain ⟨_, small, _⟩ := decodeLenAt_some decoded
      rw [int32_eq (by omega) (by omega)] at small
      have key : int32 (consumed + 1 + pair.2) = consumed + 1 + pair.2 := int32_eq (by omega) (by omega)
      have ends : maxLen ≤ consumed + 1 + pair.2 := by
        by_contra starts
        exact missing
          ⟨_, pair.1, not_le.mp ended, by rw [known]; exact Option.some_ne_none _, ⟨pair.2, decoded, rfl⟩,
          not_le.mp starts⟩
      simp only [key, if_pos ends]
      exact ⟨trivial, List.forall_mem_cons.mpr ⟨here, reads⟩⟩

end Steps

section Runs
variable {memory : Int → Byte} {maxLen : Int} {accepts : Nat → Bool}

/-- At a sound place a turn is within the length, and goes on only behind a whole record that is accepted. -/
theorem decodeStringAt_sound (accepts : Bool) {consumed : Int} (bound : maxLen < 2 ^ 31) (inside : 0 ≤ consumed)
    (sound : SoundAt memory maxLen consumed) :
    (∀ access ∈ (decodeStringAt memory maxLen accepts consumed).1, access.Inside maxLen) ∧
      ∀ next, (decodeStringAt memory maxLen accepts consumed).2 = some next →
        WholeRecord memory maxLen consumed next ∧ accepts = true ∧ consumed < next ∧ next ≤ maxLen := by
  by_cases key_ : ∃ key keyLen, KeyAt memory maxLen consumed key keyLen
  case neg =>
    obtain ⟨ends, within⟩ := decodeStringAt_none accepts bound inside key_
    exact ⟨within, fun next goes => absurd (ends.symm.trans goes) (Option.some_ne_none next).symm⟩
  obtain ⟨key, keyLen, key_⟩ := key_
  have place := key_.place
  have starts := key_.starts
  have here : (Access.read consumed).Inside maxLen := ⟨inside, key_.before⟩
  have reads := lenAt_inside memory bound (show 0 ≤ consumed + 1 by omega) (by omega)
  rw [decodeStringAt_key bound inside key_]
  by_cases back : keyLen.toInt < 0
  · rw [decodeValueAt_low (by omega) bound starts back (sound.key key keyLen key_ back), List.append_nil]
    exact ⟨List.forall_mem_cons.mpr ⟨here, reads⟩, fun next goes => nomatch goes⟩
  have forward := not_lt.mp back
  by_cases value_ : ∃ value valueLen, ValueAt memory maxLen (key + keyLen.toInt) value valueLen
  case neg =>
    obtain ⟨same, within⟩ := decodeValueAt_none accepts bound (by omega) starts forward value_
    rw [same]
    refine ⟨fun access member => ?_, fun next goes => nomatch goes⟩
    rcases List.mem_append.mp member with first | second
    · exact List.forall_mem_cons.mpr ⟨here, reads⟩ access first
    · exact within access second
  obtain ⟨value, valueLen, value_⟩ := value_
  obtain ⟨positive, fits⟩ := sound.value key keyLen key_ forward value valueLen value_
  have cursor : key + keyLen.toInt < maxLen ∧ key + keyLen.toInt < value := by
    rcases lenAt_forward memory bound (by omega) starts forward with ⟨_, within⟩ | ⟨_, beyond⟩
    · exact ⟨within, (value_.place bound (by omega) (by omega)).1⟩
    · obtain ⟨decodedLen, decoded, _⟩ := value_
      rw [beyond] at decoded
      cases decoded
  rw [decodeValueAt_whole bound (by omega) starts forward value_, int32_eq (by omega) (by omega)]
  refine ⟨fun access member => ?_, fun next goes => ?_⟩
  · rcases List.mem_append.mp member with first | second
    · exact List.forall_mem_cons.mpr ⟨here, reads⟩ access first
    rcases List.mem_append.mp second with length | passes
    · exact lenAt_inside memory bound (by omega) (by omega) access length
    · simp only [List.mem_cons, List.not_mem_nil, or_false] at passes
      rcases passes with rfl | rfl
      · exact ⟨by omega, forward, by omega⟩
      · exact ⟨by omega, positive, fits⟩
  · split_ifs at goes with accepted
    cases goes
    exact ⟨⟨key, keyLen, value, valueLen, key_, forward, value_, positive, rfl, fits⟩, accepted, by omega, fits⟩

/-- A turn that is within the length begins at a sound place. -/
theorem soundAt_of_turn (accepts : Bool) {consumed : Int} (bound : maxLen < 2 ^ 31) (inside : 0 ≤ consumed)
    (within : ∀ access ∈ (decodeStringAt memory maxLen accepts consumed).1, access.Inside maxLen) :
    SoundAt memory maxLen consumed := by
  have rest (key : Int) (keyLen : BitVec 32) (key_ : KeyAt memory maxLen consumed key keyLen) :
      ∀ access ∈ (decodeValueAt memory maxLen accepts key keyLen).1, access.Inside maxLen := by
    rw [decodeStringAt_key bound inside key_] at within
    exact fun access member => within access (List.mem_append_right _ member)
  constructor
  · intro key keyLen key_ back
    have place := key_.place
    by_contra high
    obtain ⟨access, member, outside⟩ := decodeValueAt_back accepts bound key_.starts (by omega) place.2 back
      (not_le.mp high)
    exact outside (rest key keyLen key_ access member)
  · intro key keyLen key_ forward value valueLen value_
    have place := key_.place
    have passes := rest key keyLen key_
    rw [decodeValueAt_whole bound (by omega) key_.starts forward value_] at passes
    have fits := passes (.passed value valueLen.toInt) (by simp)
    exact ⟨fits.2.1, fits.2.2⟩

/-- Behind a whole record that is accepted the loop goes on. -/
theorem decodeStringAt_next {consumed next : Int} (bound : maxLen < 2 ^ 31) (inside : 0 ≤ consumed)
    (record : WholeRecord memory maxLen consumed next) :
    (decodeStringAt memory maxLen true consumed).2 = some next ∧ 0 ≤ next := by
  obtain ⟨key, keyLen, value, valueLen, key_, forward, value_, positive, rfl, fits⟩ := record
  have place := key_.place
  have cursor : 0 ≤ value := by
    rcases lenAt_forward memory bound (by omega) key_.starts forward with ⟨_, within⟩ | ⟨_, beyond⟩
    · have after := value_.place bound (by omega) (by omega)
      omega
    · obtain ⟨decodedLen, decoded, _⟩ := value_
      rw [beyond] at decoded
      cases decoded
  rw [decodeStringAt_key bound inside key_, decodeValueAt_whole bound (by omega) key_.starts forward value_]
  exact ⟨congrArg some (int32_eq (by omega) (by omega)), by omega⟩

/-- The loop is safe from every place that it reaches, if it is from the start. -/
theorem SafeFrom.reached (bound : maxLen < 2 ^ 31) (safe : SafeFrom memory maxLen accepts 0 0) {n : Nat}
    {consumed : Int}
    (reached : Reached memory maxLen accepts n consumed) :
    0 ≤ consumed ∧ SafeFrom memory maxLen accepts n consumed := by
  induction reached with
  | start => exact ⟨le_rfl, safe⟩
  | @next n consumed next _ record accepted ih =>
    obtain ⟨inside, turns, accesses, ends, within⟩ := ih
    obtain ⟨goes, positive⟩ := decodeStringAt_next bound inside record
    cases turns with
    | zero => cases ends
    | succ turns =>
      simp only [decodeLoopAt, accepted, goes] at ends
      obtain ⟨rest, after, rfl⟩ := Option.map_eq_some_iff.mp ends
      exact ⟨positive, turns, rest, after, fun access member => within access (List.mem_append_right _ member)⟩

theorem SafeFrom.soundAt {n : Nat} {consumed : Int} (bound : maxLen < 2 ^ 31) (inside : 0 ≤ consumed)
    (safe : SafeFrom memory maxLen accepts n consumed) : SoundAt memory maxLen consumed := by
  obtain ⟨turns, accesses, ends, within⟩ := safe
  cases turns with
  | zero => cases ends
  | succ turns =>
    refine soundAt_of_turn (accepts n) bound inside fun access member => within access ?_
    rw [decodeLoopAt] at ends
    cases goes : (decodeStringAt memory maxLen (accepts n) consumed).2 with
    | none =>
      simp only [goes] at ends
      exact Option.some.inj ends ▸ member
    | some next =>
      simp only [goes] at ends
      obtain ⟨rest, _, rfl⟩ := Option.map_eq_some_iff.mp ends
      exact List.mem_append_left _ member

/-- The bytes that are left after each record bound the number of turns. -/
theorem safeFrom_of_sound (bound : maxLen < 2 ^ 31)
    (sound : ∀ n consumed, Reached memory maxLen accepts n consumed → SoundAt memory maxLen consumed) (left n : Nat)
    (consumed : Int) (reached : Reached memory maxLen accepts n consumed) (inside : 0 ≤ consumed)
    (enough : maxLen - consumed ≤ left) : SafeFrom memory maxLen accepts n consumed := by
  induction left generalizing n consumed with
  | zero =>
    refine ⟨1, [], ?_, fun access member => absurd member List.not_mem_nil⟩
    simp only [decodeLoopAt, decodeStringAt, if_pos (show maxLen ≤ consumed by omega)]
  | succ left ih =>
    obtain ⟨within, goesOn⟩ := decodeStringAt_sound (accepts n) bound inside (sound n consumed reached)
    cases goes : (decodeStringAt memory maxLen (accepts n) consumed).2 with
    | none => exact ⟨1, _, by simp only [decodeLoopAt, goes], within⟩
    | some next =>
      obtain ⟨record, accepted, after, _⟩ := goesOn next goes
      obtain ⟨turns, rest, ends, restWithin⟩ :=
        ih (n + 1) next (.next reached record accepted) (by omega) (by omega)
      refine ⟨turns + 1, (decodeStringAt memory maxLen (accepts n) consumed).1 ++ rest, ?_, fun access member => ?_⟩
      · simp only [decodeLoopAt, goes, ends, Option.map_some]
      · rcases List.mem_append.mp member with first | second
        · exact within access first
        · exact restWithin access second

end Runs

/-- The decoding ends and stays within the length if and only if every record that is reached is sound. -/
theorem decodeToContainer_safe_iff (memory : Int → Byte) (maxLen : Int) (accepts : Nat → Bool)
    (bound : maxLen < 2 ^ 31) :
    SafeFrom memory maxLen accepts 0 0 ↔
      ∀ n consumed, Reached memory maxLen accepts n consumed → SoundAt memory maxLen consumed := by
  constructor
  · intro safe n consumed reached
    obtain ⟨inside, from_⟩ := safe.reached bound reached
    exact from_.soundAt bound inside
  · intro sound
    exact safeFrom_of_sound bound sound maxLen.toNat 0 0 .start le_rfl (by omega)

/-- A byte array of two bytes under the key `a`. -/
def arrayRecord (place : Int) : Byte := [9#8, 1#8, 0x61#8, 2#8, 1#8, 2#8].getD place.toNat 0#8

theorem arrayRecord_key {key : Int} {keyLen : BitVec 32} (at_ : KeyAt arrayRecord 6 0 key keyLen) :
    key = 2 ∧ keyLen = 1#32 := by
  obtain ⟨_, _, ⟨decodedLen, decoded, rfl⟩, _⟩ := at_
  have read : (lenAt arrayRecord 6 (0 + 1)).2 = some (1#32, 1) := by decide
  obtain ⟨rfl, rfl⟩ := Prod.mk.inj (Option.some.inj (decoded.symm.trans read))
  exact ⟨rfl, rfl⟩

theorem arrayRecord_value {value : Int} {valueLen : BitVec 32} (at_ : ValueAt arrayRecord 6 3 value valueLen) :
    value = 4 ∧ valueLen = 2#32 := by
  obtain ⟨decodedLen, decoded, rfl⟩ := at_
  have read : (lenAt arrayRecord 6 3).2 = some (2#32, 1) := by decide
  obtain ⟨rfl, rfl⟩ := Prod.mk.inj (Option.some.inj (decoded.symm.trans read))
  exact ⟨rfl, rfl⟩

theorem decodeToContainer_arrayRecord : SafeFrom arrayRecord 6 (fun _ => true) 0 0 := by
  refine (decodeToContainer_safe_iff _ _ _ (by decide)).mpr fun n consumed reached => ?_
  have places : consumed = 0 ∨ consumed = 6 := by
    induction reached with
    | start => exact .inl rfl
    | next _ record _ before =>
      obtain ⟨key, keyLen, value, valueLen, key_, _, value_, _, next, _⟩ := record.whole
      rcases before with rfl | rfl
      · obtain ⟨rfl, rfl⟩ := arrayRecord_key key_
        obtain ⟨rfl, rfl⟩ := arrayRecord_value value_
        exact .inr next
      · exact absurd key_.before (lt_irrefl _)
  rcases places with rfl | rfl
  · constructor
    · intro key keyLen key_ back
      obtain ⟨rfl, rfl⟩ := arrayRecord_key key_
      exact absurd back (by decide)
    · intro key keyLen key_ _ value valueLen value_
      obtain ⟨rfl, rfl⟩ := arrayRecord_key key_
      obtain ⟨rfl, rfl⟩ := arrayRecord_value value_
      decide
  · exact ⟨fun key keyLen key_ => absurd key_.before (lt_irrefl _), fun key keyLen key_ =>
      absurd key_.before (lt_irrefl _)⟩

/-- A string whose key is empty and whose value is to be 16 bytes long, of which there are none. -/
theorem decodeToContainer_longValue :
    ¬SafeFrom (fun index => if index = 2 then 16#8 else 0#8) 3 (fun _ => true) 0 0 := by
  intro safe
  obtain ⟨turns, accesses, ends, within⟩ := safe
  cases turns with
  | zero => cases ends
  | succ turns =>
    have turn : decodeStringAt (fun index => if index = 2 then 16#8 else 0#8) 3 true 0 =
        ([.read 0, .read 1, .read 2, .passed 2 0, .passed 3 16], some 19) := by
      rfl
    rw [decodeLoopAt] at ends
    simp only [turn] at ends
    obtain ⟨rest, _, rfl⟩ := Option.map_eq_some_iff.mp ends
    have passed := within (.passed 3 16) (by simp)
    exact absurd passed.2.2 (by decide)

end Upmem.VpdDb
