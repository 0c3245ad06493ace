import Mathlib.Data.BitVec
import Mathlib.Data.Nat.Log
import Upmem.Vpd

namespace Upmem.VpdDb
open Codec

/-- `enum vpd_data_type`. -/
inductive ValueType
  | string | byte | short | int | long | byteArray
  deriving DecidableEq

def ValueType.code : ValueType → Byte
  | .string => 0#8
  | .byte => 1#8
  | .short => 2#8
  | .int => 4#8
  | .long => 8#8
  | .byteArray => 9#8

def ValueType.ofCode (code : Byte) : Option ValueType :=
  [string, byte, short, int, long, byteArray].find? fun valueType => valueType.code == code

@[simp] theorem ValueType.ofCode_code (valueType : ValueType) : ofCode valueType.code = some valueType := by
  cases valueType <;> decide

/-- `struct dpu_vpd_string_pair`. The key is without its final zero, and `value_len` is the length of the value. -/
structure StringPair where
  key : List Byte
  value : List Byte
  valueType : ValueType
  deriving DecidableEq

/-- A database is the list of its pairs. -/
abbrev Database := List StringPair

/-- Why a call ends early. `outside` is an access that leaves the buffer. -/
inductive Fault
  | err | errOverflow | outside
  deriving DecidableEq

/-- `vpd_set_string` when every allocation succeeds: the first pair of that key is filled again, else the new
one goes to the end. -/
def setString : Database → StringPair → Database
  | [], pair => [pair]
  | current :: next, pair => if current.key = pair.key then pair :: next else current :: setString next pair

/-- `dpu_vpd_db_update`. -/
abbrev dbUpdate := setString

/-- The first loop of `vpd_encode_len`: the groups of seven bits, in reverse. -/
def reverseGroups (shifting reversed : BitVec 32) (encodedLen : Nat) : BitVec 32 × Nat :=
  if shifting = 0#32 then (reversed, encodedLen)
  else reverseGroups (shifting >>> 7) (reversed <<< 7 ||| shifting &&& 0x7f#32) (encodedLen + 1)
termination_by shifting.toNat
decreasing_by
  rename_i more
  have positive : shifting.toNat ≠ 0 := fun zero => more (BitVec.eq_of_toNat_eq zero)
  rw [BitVec.toNat_ushiftRight, Nat.shiftRight_eq_div_pow]
  omega

/-- The second loop. The last byte has its MORE flag cleared. -/
def outputGroups : Nat → BitVec 32 → List Byte
  | 0, _ => []
  | 1, reversed => [(0x80#8 ||| reversed.setWidth 8 &&& 0x7f#8) &&& 0x7f#8]
  | count + 2, reversed => (0x80#8 ||| reversed.setWidth 8 &&& 0x7f#8) :: outputGroups (count + 1) (reversed >>> 7)

/-- `vpd_encode_len`. The room is compared before the length 0 is given its byte. -/
def encodeLen (len : BitVec 32) (maxLen : Nat) : Except Fault (List Byte) :=
  if len.toInt < 0 then .error .err
  else
    let groups := reverseGroups len 0#32 0
    if groups.2 > maxLen then .error .errOverflow
    else
      let encodedLen := if groups.2 = 0 then 1 else groups.2
      if maxLen < encodedLen then .error .outside else .ok (outputGroups encodedLen groups.1)

/-- What `vpd_encode_string` does with a key and then with a value: its length, and its bytes.
The sum of two `int` is compared with the size of the buffer. -/
def encodeField (maxBufferLen : Nat) (bytes : List Byte) (len : BitVec 32) (output : List Byte) :
    Except Fault (List Byte) :=
  match encodeLen len (maxBufferLen - output.length) with
  | .error .outside => .error .outside
  | .error _ => .error .err
  | .ok encoded =>
    let output := output ++ encoded
    if (BitVec.ofNat 32 output.length + len).toInt > maxBufferLen then .error .errOverflow
    else if output.length + len.toNat > maxBufferLen then .error .outside
    else .ok (output ++ bytes.take len.toNat)

/-- `vpd_encode_string`, after the bytes that are already generated. -/
def encodeString (maxBufferLen : Nat) (output : List Byte) (pair : StringPair) : Except Fault (List Byte) :=
  if output.length ≥ maxBufferLen then .error .errOverflow
  else do
    let output ← encodeField maxBufferLen pair.key (BitVec.ofNat 32 pair.key.length)
      (output ++ [pair.valueType.code])
    encodeField maxBufferLen pair.value (BitVec.ofNat 32 pair.value.length) output

/-- The loop of `vpd_encode_container` over the pairs. -/
def encodePairs (maxBufferLen : Nat) : Database → List Byte → Except Fault (List Byte)
  | [], output => .ok output
  | current :: next, output => do
    let output ← encodeString maxBufferLen output current
    encodePairs maxBufferLen next output

/-- `vpd_encode_container`. -/
def encodeContainer (db : Database) (maxBufLen : Nat) : Except Fault (List Byte) :=
  match encodePairs maxBufLen db [] with
  | .error .outside => .error .outside
  | .error _ => .error .err
  | .ok output => .ok output

/-- `vpd_decode_len`, on the bytes from the cursor to the end of the buffer. -/
def decodeLen : List Byte → BitVec 32 → Nat → Option (BitVec 32 × Nat)
  | [], _, _ => none
  | byte :: bytes, length, i =>
    let length := length <<< 7 ||| (byte &&& 0x7f#8).setWidth 32
    if byte &&& 0x80#8 ≠ 0#8 then decodeLen bytes length (i + 1) else some (length, i + 1)

/-- The bytes of a C string. -/
def stringOf (bytes : List Byte) : List Byte := bytes.takeWhile (· ≠ 0#8)

/-- `vpd_decode_cb`, for a key and a value of the given lengths at two positions of the buffer. -/
def decodeCb (input : List Byte) (key : Nat) (keyLen : BitVec 32) (value : Nat) (valueLen : BitVec 32)
    (valueType : ValueType) (db : Database) : Except Fault Database :=
  if keyLen.toInt < 0 ∨ input.length < key + keyLen.toNat then .error .outside
  else if valueLen.toInt < 0 ∨ input.length < value + valueLen.toNat then .error .outside
  else
    .ok (setString db ⟨stringOf ((input.drop key).take keyLen.toNat),
      (input.drop value).take valueLen.toNat, valueType⟩)

/-- `vpd_decode_string`. A negative length moves the cursor back. -/
def decodeString (input : List Byte) (consumed : Nat) (db : Database) : Except Fault (Nat × Database) :=
  match input.drop consumed with
  | [] => .error .errOverflow
  | code :: rest =>
    match ValueType.ofCode code with
    | none => .error .err
    | some valueType =>
      match decodeLen rest 0#32 0 with
      | none => .error .errOverflow
      | some (keyLen, decodedLen) =>
        if consumed + 1 + decodedLen ≥ input.length then .error .errOverflow
        else
          let key := consumed + 1 + decodedLen
          let cursor : Int := key + keyLen.toInt
          if cursor < 0 ∨ 2 ^ 31 ≤ cursor then .error .outside
          else
            match decodeLen (input.drop cursor.toNat) 0#32 0 with
            | none => .error .errOverflow
            | some (valueLen, decodedLen) =>
              let value := cursor.toNat + decodedLen
              if value > input.length then .error .errOverflow
              else do
                let db ← decodeCb input key keyLen value valueLen valueType db
                return (value + valueLen.toNat, db)

/-- The loop of `vpd_decode_to_container`, which the first error ends. -/
def decodeLoop (input : List Byte) : Nat → Nat → Database → Except Fault Database
  | 0, _, db => .ok db
  | fuel + 1, consumed, db =>
    match decodeString input consumed db with
    | .error .outside => .error .outside
    | .error _ => .ok db
    | .ok (consumed, db) => decodeLoop input fuel consumed db

/-- `vpd_decode_to_container`. A string takes at least one byte, so no loop is longer than the buffer. -/
def decodeToContainer (input : List Byte) (db : Database) : Except Fault Database :=
  decodeLoop input (input.length + 1) 0 db

example : encodeContainer [⟨[0x61#8], [1#8, 2#8], .byteArray⟩] 6 = .ok [9#8, 1#8, 0x61#8, 2#8, 1#8, 2#8] := by
  simp [encodeContainer, encodePairs, encodeString, encodeField, encodeLen, reverseGroups, outputGroups,
    ValueType.code, BitVec.toInt, bind, Except.bind]

/-- How many groups of seven bits the encoding of a length has. -/
def lenSize (n : Nat) : Nat := Nat.log 128 n + 1

theorem lenSize_le_iff {n count : Nat} (positive : 0 < count) : lenSize n ≤ count ↔ n < 128 ^ count :=
  ⟨fun le => Nat.lt_pow_of_log_lt (by decide) le, fun lt => Nat.log_lt_of_lt_pow' (by omega) lt⟩

theorem lenSize_mono {m n : Nat} (le : m ≤ n) : lenSize m ≤ lenSize n :=
  Nat.succ_le_succ (Nat.log_mono_right le)

theorem lenSize_pos (n : Nat) : 0 < lenSize n := Nat.succ_pos _

@[simp] theorem lenSize_zero : lenSize 0 = 1 := by simp [lenSize]

/-- The groups of a number pushed on another one, the lowest first. -/
def pushGroups : Nat → Nat → Nat → Nat
  | 0, _, pushed => pushed
  | count + 1, n, pushed => pushGroups count (n / 128) (pushed * 128 + n % 128)

theorem pushGroups_mod (count n pushed : Nat) :
    pushGroups count n (pushed % 2 ^ 32) % 2 ^ 32 = pushGroups count n pushed % 2 ^ 32 := by
  induction count generalizing n pushed with
  | zero => exact Nat.mod_mod _ _
  | succ count ih =>
    rw [pushGroups, pushGroups, ← ih, ← ih (n / 128) (pushed * 128 + n % 128)]
    congr 2
    omega

theorem toNat_push (pushed : BitVec 32) {group : BitVec 32} (small : group.toNat < 128) :
    (pushed <<< 7 ||| group).toNat = (pushed.toNat * 128 + group.toNat) % 2 ^ 32 := by
  have high : pushed.toNat <<< 7 % 2 ^ 32 = (pushed.toNat % 2 ^ 25) <<< 7 := by
    rw [Nat.shiftLeft_eq, Nat.shiftLeft_eq]
    omega
  rw [BitVec.toNat_or, BitVec.toNat_shiftLeft, high, ← Nat.shiftLeft_add_eq_or_of_lt (by omega), Nat.shiftLeft_eq]
  omega

theorem toNat_lowGroup (shifting : BitVec 32) : (shifting &&& 0x7f#32).toNat = shifting.toNat % 128 := by
  rw [BitVec.toNat_and]
  exact Nat.and_two_pow_sub_one_eq_mod shifting.toNat 7

theorem toNat_nextGroups (shifting : BitVec 32) : (shifting >>> 7).toNat = shifting.toNat / 128 := by
  rw [BitVec.toNat_ushiftRight, Nat.shiftRight_eq_div_pow]

/-- The loop runs once for each group up to the highest one that is not zero. -/
theorem reverseGroups_eq {count : Nat} (shifting reversed : BitVec 32) (encodedLen : Nat)
    (below : shifting.toNat < 128 ^ count) (above : 128 ^ count ≤ shifting.toNat * 128 + 127) :
    (reverseGroups shifting reversed encodedLen).2 = encodedLen + count ∧
      (reverseGroups shifting reversed encodedLen).1.toNat =
        pushGroups count shifting.toNat reversed.toNat % 2 ^ 32 := by
  induction count generalizing shifting reversed encodedLen with
  | zero =>
    have zero : shifting = 0#32 := BitVec.eq_of_toNat_eq (by simpa using below)
    rw [reverseGroups, if_pos zero]
    exact ⟨rfl, (Nat.mod_eq_of_lt reversed.isLt).symm⟩
  | succ count ih =>
    rw [Nat.pow_succ] at below above
    have positive := Nat.pow_pos (n := count) (show 0 < 128 by decide)
    have more : shifting ≠ 0#32 := by
      rintro rfl
      rw [BitVec.toNat_ofNat] at above
      omega
    have next := ih (shifting >>> 7) (reversed <<< 7 ||| shifting &&& 0x7f#32) (encodedLen + 1)
      (by rw [toNat_nextGroups]; omega) (by rw [toNat_nextGroups]; omega)
    rw [reverseGroups, if_neg more]
    refine ⟨by omega, ?_⟩
    rw [next.2, toNat_push reversed (by rw [toNat_lowGroup]; omega), toNat_lowGroup, toNat_nextGroups,
      pushGroups_mod]
    rfl

/-- What the decoder takes of a byte. -/
theorem toNat_groupOf (reversed : BitVec 32) :
    ((reversed.setWidth 8 &&& 0x7f#8).setWidth 32).toNat = reversed.toNat % 128 := by
  rw [BitVec.toNat_setWidth, BitVec.toNat_and, BitVec.toNat_setWidth]
  have low := Nat.and_two_pow_sub_one_eq_mod (reversed.toNat % 2 ^ 8) 7
  rw [show (0x7f#8).toNat = 2 ^ 7 - 1 from rfl, low]
  omega

theorem marked_low (group : Byte) : (0x80#8 ||| group &&& 0x7f#8) &&& 0x7f#8 = group &&& 0x7f#8 := by
  revert group; decide

theorem marked_more (group : Byte) : (0x80#8 ||| group &&& 0x7f#8) &&& 0x80#8 ≠ 0#8 := by
  revert group; decide

theorem cleared_more (group : Byte) : (group &&& 0x7f#8) &&& 0x80#8 = 0#8 := by
  revert group; decide

theorem toNat_decodePush (length reversed : BitVec 32) :
    (length <<< 7 ||| (reversed.setWidth 8 &&& 0x7f#8).setWidth 32).toNat =
      (length.toNat * 128 + reversed.toNat % 128) % 2 ^ 32 := by
  rw [toNat_push length (by rw [toNat_groupOf]; omega), toNat_groupOf]

/-- Decoding pushes the groups that were written, in the order of their bytes. -/
theorem decodeLen_outputGroups (count : Nat) (reversed length : BitVec 32) (i : Nat) (rest : List Byte) :
    ∃ decoded :
    BitVec 32, decodeLen (outputGroups (count + 1) reversed ++ rest) length i = some (decoded, i + count + 1) ∧
      decoded.toNat = pushGroups (count + 1) reversed.toNat length.toNat % 2 ^ 32 := by
  induction count generalizing reversed length i with
  | zero =>
    refine ⟨length <<< 7 ||| (reversed.setWidth 8 &&& 0x7f#8).setWidth 32, ?_, toNat_decodePush length reversed⟩
    have last : reversed.setWidth 8 &&& 0x7f#8 &&& 0x7f#8 = reversed.setWidth 8 &&& 0x7f#8 := by
      rw [BitVec.and_assoc, BitVec.and_self]
    rw [outputGroups, List.cons_append, decodeLen, marked_low, if_neg (not_not.mpr (cleared_more _)),
      last, Nat.add_zero]
  | succ count ih =>
    obtain ⟨decoded, decodes, value⟩ :=
      ih (reversed >>> 7) (length <<< 7 ||| (reversed.setWidth 8 &&& 0x7f#8).setWidth 32) (i + 1)
    refine ⟨decoded, ?_, ?_⟩
    · rw [outputGroups, List.cons_append, decodeLen, if_pos (marked_more _), marked_low, decodes]
      congr 2
      omega
    · rw [value, toNat_nextGroups, toNat_decodePush, pushGroups_mod]
      rfl

@[simp] theorem length_outputGroups (count : Nat) (reversed : BitVec 32) :
    (outputGroups count reversed).length = count := by
  fun_induction outputGroups with
  | case1 => rfl
  | case2 => rfl
  | case3 reversed count ih => rw [List.length_cons, ih]

/-- The groups that `vpd_encode_len` writes for a length. -/
def lenBytes (len : BitVec 32) : List Byte := outputGroups (lenSize len.toNat) (reverseGroups len 0#32 0).1

@[simp] theorem length_lenBytes (len : BitVec 32) : (lenBytes len).length = lenSize len.toNat :=
  length_outputGroups _ _

theorem lenSize_bounds {n : Nat} (positive : n ≠ 0) : n < 128 ^ lenSize n ∧ 128 ^ lenSize n ≤ n * 128 + 127 := by
  have below := Nat.lt_pow_succ_log_self (b := 128) (by decide) n
  have above := Nat.pow_log_le_self 128 positive
  refine ⟨below, ?_⟩
  rw [lenSize, Nat.pow_succ]
  omega

theorem reverseGroups_len {len : BitVec 32} (positive : len.toNat ≠ 0) :
    (reverseGroups len 0#32 0).2 = lenSize len.toNat ∧
      (reverseGroups len 0#32 0).1.toNat = pushGroups (lenSize len.toNat) len.toNat 0 % 2 ^ 32 := by
  have loop := reverseGroups_eq len 0#32 0 (lenSize_bounds positive).1 (lenSize_bounds positive).2
  rwa [Nat.zero_add] at loop

/-- The length that is read back: of five groups, the lowest keeps four bits only. -/
def storedLen (n : Nat) : Nat := if n < 2 ^ 28 then n else n - n / 16 % 8 * 16

theorem pushGroups_succ (count n pushed : Nat) :
    pushGroups (count + 1) n pushed = pushGroups count n pushed * 128 + n / 128 ^ count % 128 := by
  induction count generalizing n pushed with
  | zero => simp [pushGroups]
  | succ count ih =>
    rw [pushGroups, ih, Nat.div_div_eq_div_mul, Nat.pow_succ', ← pushGroups]

theorem pushGroups_low (count n high pushed : Nat) :
    pushGroups count (n + 128 ^ count * high) pushed = pushGroups count n pushed := by
  induction count generalizing n pushed with
  | zero => rfl
  | succ count ih =>
    have low : (n + 128 ^ (count + 1) * high) % 128 = n % 128 := by
      rw [Nat.pow_succ', Nat.mul_assoc, Nat.add_mul_mod_self_left]
    have rest : (n + 128 ^ (count + 1) * high) / 128 = n / 128 + 128 ^ count * high := by
      rw [Nat.pow_succ', Nat.mul_assoc, Nat.add_mul_div_left _ _ (by decide)]
    rw [pushGroups, pushGroups, low, rest, ih]

/-- To push the groups of a number and then those of the result restores their order. -/
theorem pushGroups_twice (count n pushed pushed' : Nat) :
    pushGroups count (pushGroups count n pushed) pushed' = pushed' * 128 ^ count + n % 128 ^ count := by
  induction count generalizing pushed' with
  | zero => simp [pushGroups, Nat.mod_one]
  | succ count ih =>
    have low : (pushGroups count n pushed * 128 + n / 128 ^ count % 128) % 128 = n / 128 ^ count % 128 := by omega
    have rest : (pushGroups count n pushed * 128 + n / 128 ^ count % 128) / 128 = pushGroups count n pushed := by
      omega
    rw [pushGroups_succ count n pushed, pushGroups, low, rest, ih, Nat.pow_succ, Nat.mod_mul]
    ring

theorem pushGroups_lt (count n : Nat) : pushGroups count n 0 < 128 ^ count := by
  induction count with
  | zero => exact Nat.one_pos
  | succ count ih =>
    rw [pushGroups_succ, Nat.pow_succ]
    omega

theorem storedLen_few {count n : Nat} (below : n < 128 ^ count) (few : count ≤ 4) :
    pushGroups count (pushGroups count n 0 % 2 ^ 32) 0 % 2 ^ 32 = n := by
  have power : 128 ^ count ≤ 128 ^ 4 := Nat.pow_le_pow_right (by decide) few
  have small := pushGroups_lt count n
  rw [Nat.mod_eq_of_lt (a := pushGroups count n 0) (by omega), pushGroups_twice, Nat.zero_mul,
    Nat.zero_add, Nat.mod_eq_of_lt below,
    Nat.mod_eq_of_lt (by omega)]

/-- The word holds 32 bits of the five groups, so the top three of the group that is written last are lost. -/
theorem storedLen_five {n : Nat} (below : n < 2 ^ 31) :
    pushGroups 5 (pushGroups 5 n 0 % 2 ^ 32) 0 % 2 ^ 32 = n - n / 16 % 8 * 16 := by
  have bound := pushGroups_lt 5 n
  have whole := pushGroups_twice 5 n 0 0
  rw [pushGroups_succ 4, Nat.zero_mul, Nat.zero_add, Nat.mod_eq_of_lt (a := n) (by omega)] at whole
  rw [pushGroups_succ 4]
  generalize pushGroups 5 n 0 = pushed at bound whole ⊢
  have drop : pushed = pushed % 2 ^ 32 + 128 ^ 4 * (pushed / 2 ^ 32 * 16) := by omega
  have same : pushGroups 4 pushed 0 = pushGroups 4 (pushed % 2 ^ 32) 0 := by
    conv_lhs => rw [drop]
    exact pushGroups_low 4 _ _ 0
  rw [same] at whole
  omega

theorem decodeLen_lenBytes (len : BitVec 32) (small : len.toNat < 2 ^ 31) (rest : List Byte) :
    ∃ decoded : BitVec 32, decodeLen (lenBytes len ++ rest) 0#32 0 = some (decoded, lenSize len.toNat) ∧
      decoded.toNat = storedLen len.toNat := by
  obtain ⟨count, counted⟩ := Nat.exists_eq_add_one_of_ne_zero (lenSize_pos len.toNat).ne'
  obtain ⟨decoded, decodes, value⟩ :=
    decodeLen_outputGroups count (reverseGroups len 0#32 0).1 0#32 0 rest
  refine ⟨decoded, ?_, ?_⟩
  · rw [lenBytes, counted, decodes]
    congr 2
    omega
  · rw [value, ← counted]
    by_cases zero : len.toNat = 0
    · have empty : len = 0#32 := BitVec.eq_of_toNat_eq zero
      subst empty
      simp [reverseGroups, pushGroups, storedLen, lenSize]
    rw [(reverseGroups_len zero).2]
    have bounds := lenSize_bounds zero
    by_cases few : len.toNat < 2 ^ 28
    · have few' : lenSize len.toNat ≤ 4 := (lenSize_le_iff (by decide)).mpr (by omega)
      rw [storedLen, if_pos few]
      exact storedLen_few bounds.1 few'
    · have atMost : lenSize len.toNat ≤ 5 := (lenSize_le_iff (by decide)).mpr (by omega)
      have atLeast : ¬lenSize len.toNat ≤ 4 := fun le => few ((lenSize_le_iff (by decide)).mp le)
      have five : lenSize len.toNat = 5 := by omega
      rw [storedLen, if_neg few, five]
      exact storedLen_five small

theorem encodeLen_eq {len : BitVec 32} (small : len.toNat < 2 ^ 31) (maxLen : Nat) :
    encodeLen len maxLen =
      if lenSize len.toNat ≤ maxLen then .ok (lenBytes len)
      else if len = 0#32 then .error .outside else .error .errOverflow := by
  have nonneg : ¬len.toInt < 0 := by rw [BitVec.toInt_eq_toNat_of_lt (by omega)]; omega
  rw [encodeLen, if_neg nonneg]
  by_cases zero : len = 0#32
  · subst zero
    have groups : reverseGroups 0#32 0#32 0 = (0#32, 0) := by rw [reverseGroups, if_pos rfl]
    by_cases room : 1 ≤ maxLen
    · simp [groups, lenBytes, lenSize, Nat.not_lt.mpr room]
    · simp [groups, lenSize, show maxLen = 0 by omega]
  · have positive : len.toNat ≠ 0 := fun h => zero (BitVec.eq_of_toNat_eq h)
    have groups := (reverseGroups_len positive).1
    have size := lenSize_pos len.toNat
    by_cases room : lenSize len.toNat ≤ maxLen
    · simp only [groups, if_pos room, if_neg (show ¬lenSize len.toNat > maxLen by omega),
        if_neg (show ¬lenSize len.toNat = 0 by omega), lenBytes]
    · simp only [groups, if_neg room, if_pos (show lenSize len.toNat > maxLen by omega), if_neg zero]

end Upmem.VpdDb
