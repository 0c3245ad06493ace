import Mathlib.Data.List.TakeWhile
import Upmem.VpdDb

namespace Upmem.VpdDb
open Codec

theorem bind_ne_ok {α β : Type} {x : Except Fault α} {f : α → Except Fault β} {b : β} (result : x >>= f = .ok b) :
    ∃ a, x = .ok a ∧ f a = .ok b := by
  cases x with
  | error fault => cases result
  | ok a => exact ⟨a, rfl, result⟩

/-- The bytes of a length and of what has it. -/
def fieldSize (n : Nat) : Nat := lenSize n + n

/-- What keeps the encoder in the buffer: it is not exactly full before the byte of the length 0, and the sum that
is compared with its size is an `int`. -/
def FieldRoom (maxBufferLen offset n : Nat) : Prop :=
  (n = 0 → offset ≠ maxBufferLen) ∧ (offset + lenSize n ≤ maxBufferLen → offset + fieldSize n < 2 ^ 31)

section Field
variable {maxBufferLen : Nat} (bytes : List Byte) {len : BitVec 32} {output : List Byte}

theorem encodeField_negative (negative : 2 ^ 31 ≤ len.toNat) :
    encodeField maxBufferLen bytes len output = .error .err := by
  have below : len.toInt < 0 := by rw [BitVec.toInt_eq_toNat_cond, if_neg (by omega)]; omega
  simp only [encodeField, encodeLen, if_pos below]

theorem sum_gt_iff (limited : maxBufferLen < 2 ^ 31) (small : len.toNat < 2 ^ 31) {used : Nat}
    (inside : used ≤ maxBufferLen) :
    (BitVec.ofNat 32 used + len).toInt > maxBufferLen ↔
      maxBufferLen < used + len.toNat ∧ used + len.toNat < 2 ^ 31 := by
  have sum : (BitVec.ofNat 32 used + len).toNat = used + len.toNat := by
    rw [BitVec.toNat_add, BitVec.toNat_ofNat]
    omega
  rw [BitVec.toInt_eq_toNat_cond, sum]
  split <;> omega

theorem encodeField_eq (limited : maxBufferLen < 2 ^ 31) (small : len.toNat < 2 ^ 31)
    (inside : output.length ≤ maxBufferLen) :
    encodeField maxBufferLen bytes len output =
      if output.length + lenSize len.toNat ≤ maxBufferLen then
        if output.length + fieldSize len.toNat ≤ maxBufferLen then
          .ok (output ++ lenBytes len ++ bytes.take len.toNat)
        else if output.length + fieldSize len.toNat < 2 ^ 31 then .error .errOverflow else .error .outside
      else if len.toNat = 0 then .error .outside else .error .err := by
  have zero : len = 0#32 ↔ len.toNat = 0 := ⟨fun h => by rw [h]; rfl, fun h => BitVec.eq_of_toNat_eq h⟩
  rw [encodeField, encodeLen_eq small]
  by_cases room : output.length + lenSize len.toNat ≤ maxBufferLen
  · have sum := sum_gt_iff limited small room
    rw [if_pos (show lenSize len.toNat ≤ maxBufferLen - output.length by omega), if_pos room]
    simp only [List.length_append, length_lenBytes, sum, fieldSize, ← Nat.add_assoc]
    by_cases fits : output.length + lenSize len.toNat + len.toNat ≤ maxBufferLen
    · rw [if_neg (by omega), if_neg (by omega), if_pos fits]
    by_cases int : output.length + lenSize len.toNat + len.toNat < 2 ^ 31
    · rw [if_pos (by omega), if_neg fits, if_pos int]
    · rw [if_neg (by omega), if_pos (by omega), if_neg fits, if_neg int]
  · rw [if_neg (show ¬lenSize len.toNat ≤ maxBufferLen - output.length by omega), if_neg room]
    by_cases empty : len.toNat = 0
    · rw [if_pos (zero.mpr empty), if_pos empty]
    · rw [if_neg (mt zero.mp empty), if_neg empty]

variable (len output)

theorem encodeField_outside_iff (limited : maxBufferLen < 2 ^ 31) (inside : output.length ≤ maxBufferLen) :
    encodeField maxBufferLen bytes len output = .error .outside ↔
      len.toNat < 2 ^ 31 ∧ ¬FieldRoom maxBufferLen output.length len.toNat := by
  by_cases small : len.toNat < 2 ^ 31
  · have size : len.toNat = 0 → lenSize len.toNat = 1 := fun zero => by rw [zero, lenSize_zero]
    rw [encodeField_eq bytes limited small inside, FieldRoom]
    simp only [small, true_and]
    split
    · split
      · simp; omega
      · split <;> simp <;> omega
    · split <;> simp <;> omega
  · rw [encodeField_negative bytes (by omega)]
    exact ⟨fun err => (by cases err), fun failing => absurd failing.1 small⟩

theorem encodeField_ok_iff (limited : maxBufferLen < 2 ^ 31) (inside : output.length ≤ maxBufferLen)
    (output' : List Byte) :
    encodeField maxBufferLen bytes len output = .ok output' ↔
      len.toNat < 2 ^ 31 ∧ output.length + fieldSize len.toNat ≤ maxBufferLen ∧
        output' = output ++ lenBytes len ++ bytes.take len.toNat := by
  by_cases small : len.toNat < 2 ^ 31
  · rw [encodeField_eq bytes limited small inside]
    have part : fieldSize len.toNat = lenSize len.toNat + len.toNat := rfl
    by_cases fits : output.length + fieldSize len.toNat ≤ maxBufferLen
    · rw [if_pos (by omega), if_pos fits]
      exact ⟨fun written => ⟨small, fits, (Except.ok.inj written).symm⟩, fun written => by rw [written.2.2]⟩
    · refine ⟨fun written => ?_, fun written => absurd written.2.1 fits⟩
      rw [if_neg fits] at written
      split at written
      · split at written <;> cases written
      · split at written <;> cases written
  · rw [encodeField_negative bytes (by omega)]
    exact ⟨fun err => (by cases err), fun written => absurd written.1 small⟩

end Field

/-- `strlen` of a key, as the `int` that keeps it. -/
def StringPair.keyLen (pair : StringPair) : BitVec 32 := BitVec.ofNat 32 pair.key.length

/-- The bytes of a pair with the lengths that the encoder takes for it. -/
def StringPair.storedSize (pair : StringPair) : Nat :=
  1 + fieldSize pair.keyLen.toNat + fieldSize pair.value.length

/-- The encoding of a pair: the type byte, the key length, the key, the value length and the value. -/
def StringPair.size (pair : StringPair) : Nat := 1 + fieldSize pair.key.length + fieldSize pair.value.length

def PairRoom (maxBufferLen offset : Nat) (pair : StringPair) : Prop :=
  offset < maxBufferLen → pair.keyLen.toNat < 2 ^ 31 →
    FieldRoom maxBufferLen (offset + 1) pair.keyLen.toNat ∧
      (offset + 1 + fieldSize pair.keyLen.toNat ≤ maxBufferLen →
        FieldRoom maxBufferLen (offset + 1 + fieldSize pair.keyLen.toNat) pair.value.length)

/-- No field of a database takes the encoder out of the buffer. -/
def Room (maxBufferLen : Nat) : Nat → Database → Prop
  | _, [] => True
  | offset, pair :: db =>
    PairRoom maxBufferLen offset pair ∧
      (pair.keyLen.toNat < 2 ^ 31 → offset + pair.storedSize ≤ maxBufferLen →
        Room maxBufferLen (offset + pair.storedSize) db)

/-- What the encoder writes for a pair. -/
def StringPair.bytes (pair : StringPair) : List Byte :=
  pair.valueType.code :: (lenBytes pair.keyLen ++ pair.key.take pair.keyLen.toNat ++
    lenBytes (BitVec.ofNat 32 pair.value.length) ++ pair.value)

theorem StringPair.length_bytes (pair : StringPair) (short : pair.value.length < 2 ^ 31) :
    pair.bytes.length = pair.storedSize := by
  have kept : pair.keyLen.toNat ≤ pair.key.length := by
    rw [StringPair.keyLen, BitVec.toNat_ofNat]
    exact Nat.mod_le _ _
  simp only [StringPair.bytes, List.length_cons, List.length_append, length_lenBytes, List.length_take,
    Nat.min_eq_left kept, BitVec.toNat_ofNat, Nat.mod_eq_of_lt (show pair.value.length < 2 ^ 32 by omega),
    StringPair.storedSize, fieldSize]
  omega

section Pair
variable {maxBufferLen : Nat} {output : List Byte} {pair : StringPair}

theorem toNat_valueLen (short : pair.value.length < 2 ^ 31) :
    (BitVec.ofNat 32 pair.value.length).toNat = pair.value.length := by
  rw [BitVec.toNat_ofNat, Nat.mod_eq_of_lt (by omega)]

theorem length_keyWritten (output : List Byte) (pair : StringPair) :
    (output ++ [pair.valueType.code] ++ lenBytes pair.keyLen ++
    pair.key.take pair.keyLen.toNat).length = output.length + 1 + fieldSize pair.keyLen.toNat := by
  have kept : pair.keyLen.toNat ≤ pair.key.length := by
    rw [StringPair.keyLen, BitVec.toNat_ofNat]
    exact Nat.mod_le _ _
  simp only [List.length_append, List.length_cons, List.length_nil, length_lenBytes, List.length_take,
    Nat.min_eq_left kept, fieldSize]
  omega

theorem encodeString_ok_iff (limited : maxBufferLen < 2 ^ 31) (short : pair.value.length < 2 ^ 31)
    (output' : List Byte) :
    encodeString maxBufferLen output pair = .ok output' ↔
      pair.keyLen.toNat < 2 ^ 31 ∧ output.length + pair.storedSize ≤ maxBufferLen ∧
      output' = output ++ pair.bytes := by
  have size : pair.storedSize = 1 + fieldSize pair.keyLen.toNat + fieldSize pair.value.length := rfl
  have whole : output ++ [pair.valueType.code] ++ lenBytes pair.keyLen ++ pair.key.take pair.keyLen.toNat ++
      lenBytes (BitVec.ofNat 32 pair.value.length) ++ pair.value = output ++ pair.bytes := by
    simp [StringPair.bytes]
  have value := toNat_valueLen short
  have typed : (output ++ [pair.valueType.code]).length = output.length + 1 := by simp
  rw [encodeString]
  by_cases full : output.length ≥ maxBufferLen
  · rw [if_pos full]
    exact ⟨fun err => (by cases err), fun written => absurd written.2.1 (by omega)⟩
  rw [if_neg full]
  constructor
  · intro written
    obtain ⟨keyed, keyWritten, valueWritten⟩ := bind_ne_ok written
    obtain ⟨keySmall, keyFits, rfl⟩ :=
      (encodeField_ok_iff pair.key pair.keyLen _ limited (by omega) keyed).mp keyWritten
    have keyedSize := length_keyWritten output pair
    rw [typed] at keyFits
    obtain ⟨_, valueFits, rfl⟩ :=
      (encodeField_ok_iff _ _ _ limited (by rw [keyedSize]; exact keyFits) _).mp valueWritten
    rw [value, keyedSize] at valueFits
    refine ⟨keySmall, by omega, ?_⟩
    rw [value, List.take_length]
    exact whole
  · rintro ⟨keySmall, fits, rfl⟩
    have keyWritten := (encodeField_ok_iff pair.key pair.keyLen (output ++ [pair.valueType.code]) limited
      (by omega) _).mpr ⟨keySmall, by omega, rfl⟩
    have keyedSize := length_keyWritten output pair
    have valueWritten := (encodeField_ok_iff pair.value (BitVec.ofNat 32 pair.value.length) _ limited
      (by rw [keyedSize]; omega) _).mpr ⟨by omega, by rw [keyedSize, value]; omega, rfl⟩
    rw [value, List.take_length, whole] at valueWritten
    show encodeField maxBufferLen pair.key pair.keyLen _ >>= _ = _
    rw [keyWritten]
    exact valueWritten

theorem encodeString_outside_iff (output : List Byte) (limited : maxBufferLen < 2 ^ 31)
    (short : pair.value.length < 2 ^ 31) :
    encodeString maxBufferLen output pair = .error .outside ↔ ¬PairRoom maxBufferLen output.length pair := by
  have value := toNat_valueLen short
  have typed : (output ++ [pair.valueType.code]).length = output.length + 1 := by simp
  rw [encodeString, PairRoom]
  by_cases full : output.length ≥ maxBufferLen
  · rw [if_pos full]
    exact ⟨fun err => (by cases err), fun failing => absurd (fun room => absurd room (by omega)) failing⟩
  rw [if_neg full]
  have keyOutside :=
    encodeField_outside_iff pair.key pair.keyLen (output ++ [pair.valueType.code]) limited (by omega)
  have keyOk := encodeField_ok_iff pair.key pair.keyLen (output ++ [pair.valueType.code]) limited (by omega)
  show (encodeField maxBufferLen pair.key pair.keyLen (output ++ [pair.valueType.code]) >>= _) = _ ↔ _
  rw [typed] at keyOutside keyOk
  cases keyWritten : encodeField maxBufferLen pair.key pair.keyLen (output ++ [pair.valueType.code]) with
  | error fault =>
    rw [keyWritten] at keyOutside keyOk
    constructor
    · intro failing room
      obtain ⟨keySmall, failing⟩ := keyOutside.mp (by cases failing; rfl)
      exact failing (room (by omega) keySmall).1
    · intro failing
      by_contra other
      refine failing fun _ keySmall => ⟨?_, fun fits => ?_⟩
      · by_contra failing
        have fault := keyOutside.mpr ⟨keySmall, failing⟩
        exact other (by cases fault; rfl)
      · exact absurd ((keyOk _).mpr ⟨keySmall, fits, rfl⟩) (by intro ok; cases ok)
  | ok keyed =>
    obtain ⟨keySmall, keyFits, rfl⟩ := (keyOk keyed).mp keyWritten
    have keyedSize := length_keyWritten output pair
    have keyRoom : FieldRoom maxBufferLen (output.length + 1) pair.keyLen.toNat := by
      by_contra failing
      have fault := keyOutside.mpr ⟨keySmall, failing⟩
      rw [keyWritten] at fault
      cases fault
    have valueOutside := encodeField_outside_iff pair.value (BitVec.ofNat 32 pair.value.length) _ limited
      (by rw [keyedSize]; exact keyFits)
    rw [keyedSize, value] at valueOutside
    exact valueOutside.trans
      ⟨fun failing room => failing.2 ((room (by omega) keySmall).2 keyFits),
        fun failing => ⟨short, fun room => failing fun _ _ => ⟨keyRoom, fun _ => room⟩⟩⟩

end Pair

/-- What the encoder writes for a database, and its length. -/
def dbBytes (db : Database) : List Byte := db.flatMap StringPair.bytes

def storedSize (db : Database) : Nat := (db.map StringPair.storedSize).sum

def dbSize (db : Database) : Nat := (db.map StringPair.size).sum

/-- Values have lengths that are an `int`. -/
def Short (db : Database) : Prop := ∀ pair ∈ db, pair.value.length < 2 ^ 31

theorem length_dbBytes {db : Database} (short : Short db) : (dbBytes db).length = storedSize db := by
  induction db with
  | nil => rfl
  | cons pair db ih =>
    rw [dbBytes, List.flatMap_cons, List.length_append, pair.length_bytes (short pair (List.mem_cons_self ..)),
      ← dbBytes, ih fun other member => short other (List.mem_cons_of_mem _ member)]
    rfl

theorem encodePairs_ok_iff {maxBufferLen : Nat} (limited : maxBufferLen < 2 ^ 31) {db : Database} (short : Short db)
    (output : List Byte) (inside : output.length ≤ maxBufferLen) (output' : List Byte) :
    encodePairs maxBufferLen db output = .ok output' ↔
      (∀ pair ∈ db, pair.keyLen.toNat < 2 ^ 31) ∧ output.length + storedSize db ≤ maxBufferLen ∧
        output' = output ++ dbBytes db := by
  induction db generalizing output with
  | nil => simp [encodePairs, storedSize, dbBytes, inside, eq_comm]
  | cons pair db ih =>
    have shortHead := short pair (List.mem_cons_self ..)
    have shortTail : Short db := fun other member => short other (List.mem_cons_of_mem _ member)
    have sizes : storedSize (pair :: db) = pair.storedSize + storedSize db := rfl
    have bytes : dbBytes (pair :: db) = pair.bytes ++ dbBytes db := rfl
    rw [encodePairs, List.forall_mem_cons, sizes, bytes]
    constructor
    · intro written
      obtain ⟨first, firstWritten, rest⟩ := bind_ne_ok written
      obtain ⟨keySmall, fits, rfl⟩ := (encodeString_ok_iff limited shortHead first).mp firstWritten
      have firstSize : (output ++ pair.bytes).length = output.length + pair.storedSize := by
        rw [List.length_append, pair.length_bytes shortHead]
      obtain ⟨keys, restFits, rfl⟩ := (ih shortTail _ (by rw [firstSize]; exact fits)).mp rest
      exact ⟨⟨keySmall, keys⟩, by rw [firstSize] at restFits; omega, List.append_assoc ..⟩
    · rintro ⟨⟨keySmall, keys⟩, fits, rfl⟩
      have firstSize : (output ++ pair.bytes).length = output.length + pair.storedSize := by
        rw [List.length_append, pair.length_bytes shortHead]
      have firstWritten := (encodeString_ok_iff limited shortHead (output ++ pair.bytes)).mpr
        ⟨keySmall, by omega, rfl⟩
      have rest := (ih shortTail (output ++ pair.bytes) (by rw [firstSize]; omega)).mpr
        ⟨keys, by rw [firstSize]; omega, (List.append_assoc ..).symm⟩
      rw [firstWritten]
      exact rest

theorem encodePairs_outside_iff {maxBufferLen : Nat} (limited : maxBufferLen < 2 ^ 31) {db : Database}
    (short : Short db) (output : List Byte) :
    encodePairs maxBufferLen db output = .error .outside ↔ ¬Room maxBufferLen output.length db := by
  induction db generalizing output with
  | nil => exact ⟨fun err => (by cases err), fun failing => absurd trivial failing⟩
  | cons pair db ih =>
    have shortHead := short pair (List.mem_cons_self ..)
    have shortTail : Short db := fun other member => short other (List.mem_cons_of_mem _ member)
    have headOutside := encodeString_outside_iff output limited shortHead
    rw [encodePairs, Room]
    cases firstWritten : encodeString maxBufferLen output pair with
    | error fault =>
      rw [firstWritten] at headOutside
      constructor
      · intro failing room
        exact headOutside.mp (by cases failing; rfl) room.1
      · intro failing
        by_contra other
        refine failing ⟨?_, fun keySmall fits => ?_⟩
        · by_contra noRoom
          have fault := headOutside.mpr noRoom
          exact other (by cases fault; rfl)
        · have ok := (encodeString_ok_iff limited shortHead _).mpr ⟨keySmall, fits, rfl⟩
          rw [firstWritten] at ok
          cases ok
    | ok first =>
      obtain ⟨keySmall, fits, rfl⟩ := (encodeString_ok_iff limited shortHead first).mp firstWritten
      have room : PairRoom maxBufferLen output.length pair := by
        by_contra noRoom
        have fault := headOutside.mpr noRoom
        rw [firstWritten] at fault
        cases fault
      have rest := ih shortTail (output ++ pair.bytes)
      rw [List.length_append, pair.length_bytes shortHead] at rest
      exact rest.trans
        ⟨fun failing whole => failing (whole.2 keySmall fits), fun failing rest => failing ⟨room, fun _ _ => rest⟩⟩

/-- The groups that give a length bound it. -/
theorem decodeLen_lt {bytes : List Byte} {length decoded : BitVec 32} {i count : Nat}
    (decodes : decodeLen bytes length i = some (decoded, count)) (below : length.toNat < 128 ^ i) :
    decoded.toNat < 128 ^ count ∧ i < count := by
  induction bytes generalizing length i with
  | nil => cases decodes
  | cons byte bytes ih =>
    have pushed : (length <<< 7 ||| (byte &&& 0x7f#8).setWidth 32).toNat < 128 ^ (i + 1) := by
      have group : ((byte &&& 0x7f#8).setWidth 32).toNat < 128 := by
        rw [BitVec.toNat_setWidth, BitVec.toNat_and]
        have low := Nat.and_two_pow_sub_one_eq_mod byte.toNat 7
        rw [show (0x7f#8).toNat = 2 ^ 7 - 1 from rfl, low]
        omega
      rw [toNat_push length group, Nat.pow_succ]
      exact lt_of_le_of_lt (Nat.mod_le _ _) (by omega)
    rw [decodeLen] at decodes
    split at decodes
    · have rest := ih decodes pushed
      exact ⟨rest.1, by omega⟩
    · cases decodes
      exact ⟨pushed, Nat.lt_succ_self i⟩

theorem lenSize_le_decoded {bytes : List Byte} {decoded : BitVec 32} {count : Nat}
    (decodes : decodeLen bytes 0#32 0 = some (decoded, count)) : lenSize decoded.toNat ≤ count := by
  have bound := decodeLen_lt decodes (by decide)
  exact (lenSize_le_iff bound.2).mpr bound.1

/-- What a string that is decoded was read from. -/
structure Decoded (input : List Byte) (consumed consumed' : Nat) (pair : StringPair) where
  rest : List Byte
  keyLen : BitVec 32
  keyCount : Nat
  valueLen : BitVec 32
  valueCount : Nat
  typed : input.drop consumed = pair.valueType.code :: rest
  keyDecodes : decodeLen rest 0#32 0 = some (keyLen, keyCount)
  valueDecodes : decodeLen (input.drop (consumed + 1 + keyCount + keyLen.toNat)) 0#32 0 = some
    (valueLen, valueCount)
  key : pair.key = stringOf ((input.drop (consumed + 1 + keyCount)).take keyLen.toNat)
  value : pair.value = (input.drop (consumed + 1 + keyCount + keyLen.toNat + valueCount)).take valueLen.toNat
  next : consumed' = consumed + 1 + keyCount + keyLen.toNat + valueCount + valueLen.toNat
  inside : consumed' ≤ input.length

theorem ValueType.code_of_ofCode {code : Byte} {valueType : ValueType} (found : ofCode code = some valueType) :
    code = valueType.code := by
  have holds := List.find?_some found
  exact (beq_iff_eq.mp holds).symm

theorem toInt_nonneg {len : BitVec 32} (nonneg : ¬len.toInt < 0) : len.toInt = len.toNat ∧ len.toNat < 2 ^ 31 := by
  rw [BitVec.toInt_eq_toNat_cond] at nonneg ⊢
  split at nonneg <;> split <;> omega

theorem decodeString_ok {input : List Byte} {consumed consumed' : Nat} {db db' : Database}
    (decodes : decodeString input consumed db = .ok (consumed', db')) :
    ∃ pair, db' = setString db pair ∧ Nonempty (Decoded input consumed consumed' pair) := by
  unfold decodeString at decodes
  split at decodes
  · cases decodes
  rename_i code rest first
  split at decodes
  · cases decodes
  rename_i valueType typed
  split at decodes
  · cases decodes
  rename_i keyLen keyCount keyDecodes
  split at decodes
  · cases decodes
  dsimp only at decodes
  split at decodes
  · cases decodes
  rename_i cursor
  split at decodes
  · cases decodes
  rename_i valueLen valueCount valueDecodes
  split at decodes
  · cases decodes
  obtain ⟨filled, called, result⟩ := bind_ne_ok decodes
  cases result
  rw [decodeCb] at called
  split at called
  · cases called
  rename_i keyInside
  split at called
  · cases called
  rename_i valueInside
  cases called
  obtain ⟨keyNonneg, keyInside⟩ := not_or.mp keyInside
  obtain ⟨valueNonneg, valueInside⟩ := not_or.mp valueInside
  have keyInt := toInt_nonneg keyNonneg
  have position : (((consumed + 1 + keyCount : Nat) : Int) + keyLen.toInt).toNat =
      consumed + 1 + keyCount + keyLen.toNat := by omega
  rw [position] at valueDecodes valueInside
  refine ⟨_, rfl, ⟨⟨rest, keyLen, keyCount, valueLen, valueCount, ?_, keyDecodes, valueDecodes, rfl, ?_, ?_, ?_⟩⟩⟩
  · rw [first, ← ValueType.code_of_ofCode typed]
  · simp only [position]
  · simp only [position]
  · rw [position]
    omega

theorem fieldSize_mono {m n : Nat} (le : m ≤ n) : fieldSize m ≤ fieldSize n :=
  Nat.add_le_add (lenSize_mono le) le

/-- A pair that is decoded has an encoding that is no longer than what it was read from. -/
theorem Decoded.size_le {input : List Byte} {consumed consumed' : Nat} {pair : StringPair}
    (decoded : Decoded input consumed consumed' pair) : consumed + pair.size ≤ consumed' := by
  have keySize := lenSize_le_decoded decoded.keyDecodes
  have valueSize := lenSize_le_decoded decoded.valueDecodes
  have keyShort : pair.key.length ≤ decoded.keyLen.toNat := by
    rw [decoded.key, stringOf]
    exact (List.takeWhile_sublist _).length_le.trans (List.length_take_le _ _)
  have valueShort : pair.value.length ≤ decoded.valueLen.toNat := by
    rw [decoded.value]
    exact List.length_take_le _ _
  have key := fieldSize_mono keyShort
  have value := fieldSize_mono valueShort
  have next := decoded.next
  have keyPart : fieldSize decoded.keyLen.toNat = lenSize decoded.keyLen.toNat + decoded.keyLen.toNat := rfl
  have valuePart : fieldSize decoded.valueLen.toNat = lenSize decoded.valueLen.toNat + decoded.valueLen.toNat := rfl
  have whole : pair.size = 1 + fieldSize pair.key.length + fieldSize pair.value.length := rfl
  omega

theorem StringPair.size_pos (pair : StringPair) : 0 < pair.size := by
  rw [StringPair.size]
  omega

theorem setString_new {db : Database} {pair : StringPair} (new : ∀ other ∈ db, other.key ≠ pair.key) :
    setString db pair = db ++ [pair] := by
  induction db with
  | nil => rfl
  | cons current next ih =>
    rw [List.forall_mem_cons] at new
    rw [setString, if_neg new.1, ih new.2]
    rfl

/-- A pair that is filled again is no longer counted. -/
theorem setString_cases (db : Database) (pair : StringPair) :
    setString db pair = db ++ [pair] ∨ dbSize (setString db pair) < dbSize db + pair.size := by
  induction db with
  | nil => exact Or.inl rfl
  | cons current next ih =>
    rw [setString]
    split
    · right
      have positive := current.size_pos
      simp only [dbSize, List.map_cons, List.sum_cons]
      omega
    · rcases ih with appended | smaller
      · exact Or.inl (by rw [appended]; rfl)
      · right
        simp only [dbSize, List.map_cons, List.sum_cons] at smaller ⊢
        omega

@[simp] theorem dbSize_append (db db' : Database) : dbSize (db ++ db') = dbSize db + dbSize db' := by
  simp [dbSize]

/-- Either every string that is decoded is a new pair, or the database is smaller than the buffer. -/
theorem decodeLoop_size {input : List Byte} {fuel consumed : Nat} {db db' : Database}
    (decodes : decodeLoop input fuel consumed db = .ok db') (inside : consumed ≤ input.length) :
    (db <+: db' ∧ dbSize db' + consumed ≤ dbSize db + input.length) ∨
      dbSize db' + consumed < dbSize db + input.length := by
  induction fuel generalizing consumed db with
  | zero =>
    cases decodes
    exact Or.inl ⟨List.prefix_rfl, by omega⟩
  | succ fuel ih =>
    rw [decodeLoop] at decodes
    split at decodes
    · cases decodes
    · cases decodes
      exact Or.inl ⟨List.prefix_rfl, by omega⟩
    · rename_i consumed' filled step
      obtain ⟨pair, rfl, ⟨decoded⟩⟩ := decodeString_ok step
      have size := decoded.size_le
      have rest := ih decodes decoded.inside
      rcases setString_cases db pair with appended | smaller
      · have grown : dbSize (setString db pair) = dbSize db + pair.size := by
          rw [appended, dbSize_append]
          simp [dbSize]
        rcases rest with ⟨extends_, bound⟩ | bound
        · refine Or.inl ⟨List.IsPrefix.trans ?_ extends_, by omega⟩
          rw [appended]
          exact List.prefix_append db [pair]
        · exact Or.inr (by omega)
      · exact Or.inr (by rcases rest with ⟨_, bound⟩ | bound <;> omega)

/-- The rounds that `decodeToContainer` gives the loop are enough: one more changes nothing. -/
theorem decodeLoop_enough {input : List Byte} {fuel consumed : Nat} (enough : input.length < consumed + fuel)
    (db : Database) : decodeLoop input (fuel + 1) consumed db = decodeLoop input fuel consumed db := by
  induction fuel generalizing consumed db with
  | zero =>
    have ended : input.drop consumed = [] := List.drop_eq_nil_of_le (by omega)
    simp [decodeLoop, decodeString, ended]
  | succ fuel ih =>
    rw [decodeLoop, decodeLoop]
    cases step : decodeString input consumed db with
    | error fault => cases fault <;> rfl
    | ok next =>
      have decodes : decodeString input consumed db = .ok (next.1, next.2) := step
      obtain ⟨pair, _, ⟨decoded⟩⟩ := decodeString_ok decodes
      have size := decoded.size_le
      have positive := pair.size_pos
      exact ih (by omega) next.2

/-- What `dpu_vpd_db_update` is called with: a C string that is not empty, and a value whose length is an `int`. -/
structure StringPair.Legal (pair : StringPair) : Prop where
  nonempty : pair.key ≠ []
  string : ∀ byte ∈ pair.key, byte ≠ 0#8
  value : pair.value.length < 2 ^ 31

/-- The length is read back as it was. -/
def LengthKept (n : Nat) : Prop := n < 2 ^ 28 ∨ n / 16 % 8 = 0

instance (n : Nat) : Decidable (LengthKept n) := by unfold LengthKept; infer_instance

theorem storedLen_eq_iff (n : Nat) : storedLen n = n ↔ LengthKept n := by
  rw [storedLen, LengthKept]
  split <;> omega

theorem storedLen_le (n : Nat) : storedLen n ≤ n := by
  rw [storedLen]
  split <;> omega

def StringPair.Kept (pair : StringPair) : Prop := LengthKept pair.key.length ∧ LengthKept pair.value.length

section Written
variable {pair : StringPair} (legal : pair.Legal) (keySmall : pair.key.length < 2 ^ 31) (before rest : List Byte)
include keySmall

theorem toNat_keyLen : pair.keyLen.toNat = pair.key.length := by
  rw [StringPair.keyLen, BitVec.toNat_ofNat, Nat.mod_eq_of_lt (by omega)]

theorem drop_key : (before ++ pair.bytes ++ rest).drop (before.length + 1 + lenSize pair.key.length) =
    pair.key ++ (lenBytes (BitVec.ofNat 32 pair.value.length) ++ (pair.value ++ rest)) := by
  have keyLen := toNat_keyLen keySmall
  have split : before ++ pair.bytes ++ rest = (before ++ pair.valueType.code :: lenBytes pair.keyLen) ++
      (pair.key ++ (lenBytes (BitVec.ofNat 32 pair.value.length) ++ (pair.value ++ rest))) := by
    simp [StringPair.bytes, keyLen]
  rw [split]
  refine List.drop_left' ?_
  rw [List.length_append, List.length_cons, length_lenBytes, keyLen]
  omega

theorem drop_valueLen :
    (before ++ pair.bytes ++ rest).drop (before.length + 1 + lenSize pair.key.length + pair.key.length) =
      lenBytes (BitVec.ofNat 32 pair.value.length) ++ (pair.value ++ rest) := by
  rw [← List.drop_drop, drop_key keySmall, List.drop_left]

include legal

theorem drop_value :
    (before ++ pair.bytes ++ rest).drop
      (before.length + 1 + lenSize pair.key.length + pair.key.length + lenSize pair.value.length) =
        pair.value ++ rest := by
  rw [← List.drop_drop, drop_valueLen keySmall]
  refine List.drop_left' ?_
  rw [length_lenBytes, toNat_valueLen legal.value]

theorem length_written : (before ++ pair.bytes).length =
    before.length + 1 + lenSize pair.key.length + pair.key.length + lenSize pair.value.length +
      pair.value.length := by
  rw [List.length_append, pair.length_bytes legal.value, StringPair.storedSize, fieldSize, fieldSize,
    toNat_keyLen keySmall]
  omega

omit legal in
theorem keyLen_decodes : ∃ decoded : BitVec 32,
    (before ++ pair.bytes ++ rest).drop before.length = pair.valueType.code ::
      (lenBytes pair.keyLen ++
        (pair.key ++ (lenBytes (BitVec.ofNat 32 pair.value.length) ++ (pair.value ++ rest)))) ∧
    decodeLen (lenBytes pair.keyLen ++ (pair.key ++ (lenBytes (BitVec.ofNat 32 pair.value.length) ++
      (pair.value ++ rest)))) 0#32 0 = some (decoded, lenSize pair.key.length) ∧
    decoded.toNat = storedLen pair.key.length := by
  have keyLen := toNat_keyLen keySmall
  obtain ⟨decoded, decodes, value⟩ := decodeLen_lenBytes pair.keyLen (by omega)
    (pair.key ++ (lenBytes (BitVec.ofNat 32 pair.value.length) ++ (pair.value ++ rest)))
  rw [keyLen] at decodes value
  refine ⟨decoded, ?_, decodes, value⟩
  rw [List.append_assoc, List.drop_left]
  simp [StringPair.bytes, keyLen]

omit keySmall in
theorem valueLen_decodes : ∃ decoded : BitVec 32,
    decodeLen (lenBytes (BitVec.ofNat 32 pair.value.length) ++ (pair.value ++ rest)) 0#32 0 =
      some (decoded, lenSize pair.value.length) ∧ decoded.toNat = storedLen pair.value.length := by
  have valueLen := toNat_valueLen legal.value
  obtain ⟨decoded, decodes, value⟩ :=
    decodeLen_lenBytes (BitVec.ofNat 32 pair.value.length) (by rw [valueLen]; exact legal.value)
      (pair.value ++ rest)
  rw [valueLen] at decodes value
  exact ⟨decoded, decodes, value⟩

omit keySmall in
theorem stringOf_key : stringOf pair.key = pair.key := by
  refine List.takeWhile_eq_self_iff.mpr fun byte member => ?_
  simpa using legal.string byte member

/-- A pair is read back from its bytes when its lengths are kept. -/
theorem decodeString_bytes (kept : pair.Kept) (limited : (before ++ pair.bytes ++ rest).length < 2 ^ 31)
    (db : Database) :
    decodeString (before ++ pair.bytes ++ rest) before.length db =
      .ok ((before ++ pair.bytes).length, setString db pair) := by
  obtain ⟨keyLen, typed, keyDecodes, keyValue⟩ := keyLen_decodes keySmall before rest
  obtain ⟨valueLen, valueDecodes, valueValue⟩ := valueLen_decodes legal rest
  rw [(storedLen_eq_iff _).mpr kept.1] at keyValue
  rw [(storedLen_eq_iff _).mpr kept.2] at valueValue
  have keyInt : keyLen.toInt = pair.key.length := by rw [BitVec.toInt_eq_toNat_of_lt (by omega), keyValue]
  have valueInt : valueLen.toInt = pair.value.length := by
    have short := legal.value
    rw [BitVec.toInt_eq_toNat_of_lt (by omega), valueValue]
  have written := length_written legal keySmall before
  have whole : (before ++ pair.bytes ++ rest).length = (before ++ pair.bytes).length + rest.length :=
    List.length_append
  have positive := lenSize_pos pair.value.length
  have position : ((before.length + 1 + lenSize pair.key.length : Nat) + (pair.key.length : Int)).toNat =
      before.length + 1 + lenSize pair.key.length + pair.key.length := by omega
  have keyBytes : ((before ++ pair.bytes ++ rest).drop (before.length + 1 + lenSize pair.key.length)).take
      pair.key.length = pair.key := by
    rw [drop_key keySmall]
    exact List.take_left
  have valueBytes : ((before ++ pair.bytes ++ rest).drop (before.length + 1 + lenSize pair.key.length +
      pair.key.length + lenSize pair.value.length)).take pair.value.length = pair.value := by
    rw [drop_value legal keySmall]
    exact List.take_left
  have called : decodeCb (before ++ pair.bytes ++ rest) (before.length + 1 + lenSize pair.key.length) keyLen
      (before.length + 1 + lenSize pair.key.length + pair.key.length + lenSize pair.value.length) valueLen
      pair.valueType db = .ok (setString db pair) := by
    rw [decodeCb, keyInt, valueInt, keyValue, valueValue, if_neg (by omega), if_neg (by omega),
      keyBytes, valueBytes,
      stringOf_key legal]
  rw [decodeString, typed]
  simp only [ValueType.ofCode_code, keyDecodes, keyInt, position, drop_valueLen keySmall, valueDecodes]
  rw [if_neg (by omega), if_neg (by omega), if_neg (by omega), called, valueValue, written]
  rfl

/-- What is read from the bytes of a pair one of whose lengths is not kept is another pair. -/
theorem Decoded.ne_written {consumed' : Nat} {found : StringPair}
    (decoded : Decoded (before ++ pair.bytes ++ rest) before.length consumed' found) (lost : ¬pair.Kept) :
    found ≠ pair := by
  rintro rfl
  obtain ⟨keyLen, typed, keyDecodes, keyValue⟩ := keyLen_decodes keySmall before rest
  obtain ⟨valueLen, valueDecodes, valueValue⟩ := valueLen_decodes legal rest
  have sameRest := (List.cons.inj (decoded.typed.symm.trans typed)).2
  have sameKey := Option.some.inj ((sameRest ▸ decoded.keyDecodes).symm.trans keyDecodes)
  have keyLen_eq : decoded.keyLen = keyLen := congrArg Prod.fst sameKey
  have keyCount_eq : decoded.keyCount = lenSize found.key.length := congrArg Prod.snd sameKey
  have keyShort : found.key.length ≤ storedLen found.key.length := by
    conv_lhs => rw [decoded.key, stringOf]
    rw [← keyValue, ← keyLen_eq]
    exact (List.takeWhile_sublist _).length_le.trans (List.length_take_le _ _)
  have keyKept := le_antisymm (storedLen_le found.key.length) keyShort
  have valueRead := decoded.valueDecodes
  rw [keyLen_eq, keyCount_eq, keyValue, keyKept, drop_valueLen keySmall] at valueRead
  have valueLen_eq : decoded.valueLen = valueLen :=
    congrArg Prod.fst (Option.some.inj (valueRead.symm.trans valueDecodes))
  have valueShort : found.value.length ≤ storedLen found.value.length := by
    conv_lhs => rw [decoded.value]
    rw [← valueValue, ← valueLen_eq]
    exact List.length_take_le _ _
  have valueKept := le_antisymm (storedLen_le found.value.length) valueShort
  exact lost ⟨(storedLen_eq_iff _).mp keyKept, (storedLen_eq_iff _).mp valueKept⟩

end Written

/-- No two pairs of a database have the same key. -/
def Distinct (db : Database) : Prop := (db.map StringPair.key).Nodup

theorem Distinct.new {db : Database} {pair : StringPair} {next : Database}
    (distinct : Distinct (db ++ pair :: next)) :
    ∀ other ∈ db, other.key ≠ pair.key := by
  rw [Distinct, List.map_append, List.nodup_append] at distinct
  exact fun other member =>
    distinct.2.2 other.key (List.mem_map_of_mem member) pair.key (List.mem_map_of_mem (List.mem_cons_self ..))

theorem dbBytes_append (db db' : Database) : dbBytes (db ++ db') = dbBytes db ++ dbBytes db' := List.flatMap_append

/-- The loop restores one pair after the other. -/
theorem decodeLoop_written (done : Database) {db : Database} (rest : List Byte) {input : List Byte}
    (distinct : Distinct (done ++ db))
    (legal : ∀ pair ∈ db, pair.Legal) (keys : ∀ pair ∈ db, pair.key.length < 2 ^ 31) (kept : ∀ pair ∈ db, pair.Kept)
    (whole : input = dbBytes (done ++ db) ++ rest) (limited : input.length < 2 ^ 31) (fuel : Nat) :
    decodeLoop input (fuel + db.length) (dbBytes done).length done =
      decodeLoop input fuel (dbBytes (done ++ db)).length (done ++ db) := by
  induction db generalizing done with
  | nil => rw [List.append_nil]; rfl
  | cons pair next ih =>
    have apart : input = dbBytes done ++ pair.bytes ++ (dbBytes next ++ rest) := by
      rw [whole, dbBytes_append]
      simp [dbBytes]
    have step := decodeString_bytes (legal pair (List.mem_cons_self ..)) (keys pair (List.mem_cons_self ..))
      (dbBytes done) (dbBytes next ++ rest) (kept pair (List.mem_cons_self ..))
        (by rw [← apart]; exact limited) done
    rw [← apart, setString_new distinct.new] at step
    have grown : dbBytes done ++ pair.bytes = dbBytes (done ++ [pair]) := by
      rw [dbBytes_append]
      simp [dbBytes]
    have moved : done ++ pair :: next = done ++ [pair] ++ next := by simp
    rw [List.length_cons, ← Nat.add_assoc, decodeLoop, step, grown, moved]
    rw [moved] at distinct whole
    exact ih _ distinct (fun other member => legal other (List.mem_cons_of_mem _ member))
      (fun other member => keys other (List.mem_cons_of_mem _ member))
      (fun other member => kept other (List.mem_cons_of_mem _ member)) whole

theorem storedSize_eq {db : Database} (keys : ∀ pair ∈ db, pair.key.length < 2 ^ 31) :
    storedSize db = dbSize db := by
  refine congrArg List.sum (List.map_congr_left fun pair member => ?_)
  rw [StringPair.storedSize, StringPair.size, toNat_keyLen (keys pair member)]

theorem length_le_dbSize (db : Database) : db.length ≤ dbSize db := by
  induction db with
  | nil => exact Nat.le_refl 0
  | cons pair db ih =>
    have positive := pair.size_pos
    simp only [dbSize, List.map_cons, List.sum_cons, List.length_cons] at ih ⊢
    omega

theorem exists_first_lost {db : Database} (lost : ¬∀ pair ∈ db, pair.Kept) :
    ∃ before pair after, db = before ++ pair :: after ∧ (∀ other ∈ before, other.Kept) ∧ ¬pair.Kept := by
  induction db with
  | nil => exact absurd (fun pair member => by cases member) lost
  | cons pair db ih =>
    by_cases kept : pair.Kept
    · obtain ⟨before, found, after, rfl, others, foundLost⟩ :=
        ih fun all => lost (List.forall_mem_cons.mpr ⟨kept, all⟩)
      exact ⟨pair :: before, found, after, rfl, List.forall_mem_cons.mpr ⟨kept, others⟩, foundLost⟩
    · exact ⟨[], pair, db, rfl, fun other member => (by cases member), kept⟩

section Restored
variable {db : Database} (distinct : Distinct db) (legal : ∀ pair ∈ db, pair.Legal)
  (keys : ∀ pair ∈ db, pair.key.length < 2 ^ 31) (limited : (dbBytes db).length < 2 ^ 31)
include distinct legal keys limited

theorem decodeToContainer_kept (kept : ∀ pair ∈ db, pair.Kept) : decodeToContainer (dbBytes db) [] = .ok db := by
  have size : (dbBytes db).length = dbSize db := by
    rw [length_dbBytes fun pair member => (legal pair member).value, storedSize_eq keys]
  have few := length_le_dbSize db
  have fuel : (dbBytes db).length + 1 = (dbBytes db).length - db.length + 1 + db.length := by omega
  have ended : (dbBytes db).drop (dbBytes db).length = [] := List.drop_length
  have restored := decodeLoop_written [] [] distinct legal keys kept (List.append_nil _).symm
    limited ((dbBytes db).length - db.length + 1)
  rw [decodeToContainer, fuel]
  refine restored.trans ?_
  rw [List.nil_append, decodeLoop, decodeString, ended]

/-- The first pair that is not kept is read as another one, which is either still in the result or was filled
again, and then the result is smaller than the buffer. -/
theorem kept_of_decodeToContainer (restored : decodeToContainer (dbBytes db) [] = .ok db) :
    ∀ pair ∈ db, pair.Kept := by
  have size : (dbBytes db).length = dbSize db := by
    rw [length_dbBytes fun pair member => (legal pair member).value, storedSize_eq keys]
  by_contra lost
  obtain ⟨before, pair, after, rfl, kept, pairLost⟩ := exists_first_lost lost
  have pairMember : pair ∈ before ++ pair :: after := List.mem_append_right _ (List.mem_cons_self ..)
  have few := length_le_dbSize (before ++ pair :: after)
  have split : dbBytes (before ++ pair :: after) = dbBytes before ++ pair.bytes ++ dbBytes after := by
    rw [dbBytes_append]
    simp [dbBytes]
  have fuel : (dbBytes (before ++ pair :: after)).length + 1 =
      (dbBytes (before ++ pair :: after)).length - before.length + 1 + before.length := by
    rw [List.length_append] at few
    omega
  have distinctBefore : Distinct before := by
    rw [Distinct, List.map_append, List.nodup_append] at distinct
    exact distinct.1
  have reached := decodeLoop_written [] (pair.bytes ++ dbBytes after) distinctBefore
    (fun other member => legal other (List.mem_append_left _ member))
    (fun other member => keys other (List.mem_append_left _ member)) kept (by rw [split]; simp) limited
    ((dbBytes (before ++ pair :: after)).length - before.length + 1)
  rw [decodeToContainer, fuel] at restored
  have ends := reached.symm.trans restored
  rw [List.nil_append, decodeLoop] at ends
  have beforeSize : (dbBytes before).length = dbSize before := by
    rw [length_dbBytes fun other member => (legal other (List.mem_append_left _ member)).value,
      storedSize_eq fun other member => keys other (List.mem_append_left _ member)]
  split at ends
  · cases ends
  · have stopped := congrArg List.length (Except.ok.inj ends)
    rw [List.length_append, List.length_cons] at stopped
    omega
  · rename_i consumed' filled step
    obtain ⟨found, rfl, ⟨decoded⟩⟩ := decodeString_ok step
    have foundSize := decoded.size_le
    have rest := decodeLoop_size ends decoded.inside
    rcases setString_cases before found with appended | smaller
    · rw [appended, dbSize_append before [found]] at rest
      have foundOnly : dbSize [found] = found.size := by simp [dbSize]
      rcases rest with ⟨prefix_, _⟩ | bound
      · have same : before ++ [found] <+: before ++ ([pair] ++ after) := prefix_
        rw [List.prefix_append_right_inj] at same
        rw [split] at decoded
        exact decoded.ne_written (legal pair pairMember) (keys pair pairMember) (dbBytes before) (dbBytes after)
          pairLost (List.cons_prefix_cons.mp same).1
      · omega
    · rcases rest with ⟨_, bound⟩ | bound <;> omega

end Restored

/-- A database and a size of the buffer: nothing is written outside it, the database is encoded exactly if it fits,
and decoding the encoding gives it back. -/
structure RoundTrips (maxBufLen : Nat) (db : Database) : Prop where
  inside : encodeContainer db maxBufLen ≠ .error .outside
  fits : (∃ generated, encodeContainer db maxBufLen = .ok generated) ↔ dbSize db ≤ maxBufLen
  restored : ∀ generated, encodeContainer db maxBufLen = .ok generated → decodeToContainer generated [] = .ok db

/-- The condition on a database and a size of the buffer under which it is encoded and restored: no field leaves
the buffer, and when the encoding fits with the lengths as `int`, each of them is kept. -/
structure Sound (maxBufLen : Nat) (db : Database) : Prop where
  room : Room maxBufLen 0 db
  kept : (∀ pair ∈ db, pair.keyLen.toNat < 2 ^ 31) → storedSize db ≤ maxBufLen →
    ∀ pair ∈ db, pair.key.length < 2 ^ 32 ∧ pair.Kept

theorem encodeContainer_ok_iff {maxBufLen : Nat} (limited : maxBufLen < 2 ^ 31) {db : Database} (short : Short db)
    (generated : List Byte) :
    encodeContainer db maxBufLen = .ok generated ↔
      (∀ pair ∈ db, pair.keyLen.toNat < 2 ^ 31) ∧ storedSize db ≤ maxBufLen ∧ generated = dbBytes db := by
  have pairs := encodePairs_ok_iff limited short [] (Nat.zero_le _) generated
  rw [List.length_nil, Nat.zero_add, List.nil_append] at pairs
  rw [← pairs]
  unfold encodeContainer
  cases encodePairs maxBufLen db [] with
  | error fault => cases fault <;> exact ⟨fun err => (by cases err), fun err => (by cases err)⟩
  | ok output => exact Iff.rfl

theorem encodeContainer_outside_iff {maxBufLen : Nat} (limited : maxBufLen < 2 ^ 31) {db : Database}
    (short : Short db) : encodeContainer db maxBufLen = .error .outside ↔ ¬Room maxBufLen 0 db := by
  have pairs := encodePairs_outside_iff limited short []
  rw [List.length_nil] at pairs
  rw [← pairs]
  unfold encodeContainer
  cases encodePairs maxBufLen db [] with
  | error fault => cases fault <;> exact ⟨fun err => (by cases err <;> rfl), fun err => (by cases err <;> rfl)⟩
  | ok output => exact ⟨fun err => (by cases err), fun err => (by cases err)⟩

theorem size_le_dbSize {db : Database} {pair : StringPair} (member : pair ∈ db) : pair.size ≤ dbSize db := by
  induction db with
  | nil => cases member
  | cons current next ih =>
    simp only [dbSize, List.map_cons, List.sum_cons] at ih ⊢
    rcases List.mem_cons.mp member with rfl | member
    · omega
    · have le := ih member
      omega

theorem keys_of_dbSize {maxBufLen : Nat} (limited : maxBufLen < 2 ^ 31) {db : Database}
    (fits : dbSize db ≤ maxBufLen) :
    ∀ pair ∈ db, pair.key.length < 2 ^ 31 := by
  intro pair member
  have le := size_le_dbSize member
  rw [StringPair.size, fieldSize] at le
  omega

theorem roundTrips_iff {maxBufLen : Nat} (limited : maxBufLen < 2 ^ 31) {db : Database} (distinct : Distinct db)
    (legal : ∀ pair ∈ db, pair.Legal) : RoundTrips maxBufLen db ↔ Sound maxBufLen db := by
  have short : Short db := fun pair member => (legal pair member).value
  have ok_iff := encodeContainer_ok_iff limited short
  constructor
  · intro trip
    refine ⟨?_, fun ints stored pair member => ?_⟩
    · by_contra noRoom
      exact trip.inside ((encodeContainer_outside_iff limited short).mpr noRoom)
    · have written := (ok_iff (dbBytes db)).mpr ⟨ints, stored, rfl⟩
      have keys := keys_of_dbSize limited (trip.fits.mp ⟨_, written⟩)
      have buffer : (dbBytes db).length < 2 ^ 31 := by rw [length_dbBytes short]; omega
      have below := keys pair member
      exact ⟨by omega, kept_of_decodeToContainer distinct legal keys buffer (trip.restored _ written) pair member⟩
  · intro sound
    have keysOf : (∀ pair ∈ db, pair.keyLen.toNat < 2 ^ 31) → storedSize db ≤ maxBufLen →
        ∀ pair ∈ db, pair.key.length < 2 ^ 31 := by
      intro ints stored pair member
      have int := ints pair member
      rwa [StringPair.keyLen, BitVec.toNat_ofNat, Nat.mod_eq_of_lt (sound.kept ints stored pair member).1] at int
    refine ⟨fun outside =>
      (encodeContainer_outside_iff limited short).mp outside sound.room, ?_, fun generated written => ?_⟩
    · constructor
      · rintro ⟨generated, written⟩
        obtain ⟨ints, stored, _⟩ := (ok_iff generated).mp written
        rwa [storedSize_eq (keysOf ints stored)] at stored
      · intro fits
        have keys := keys_of_dbSize limited fits
        refine ⟨dbBytes db, (ok_iff _).mpr ⟨fun pair member => ?_, ?_, rfl⟩⟩
        · rw [toNat_keyLen (keys pair member)]
          exact keys pair member
        · rwa [storedSize_eq keys]
    · obtain ⟨ints, stored, rfl⟩ := (ok_iff generated).mp written
      have buffer : (dbBytes db).length < 2 ^ 31 := by rw [length_dbBytes short]; omega
      exact decodeToContainer_kept distinct legal (keysOf ints stored) buffer
        fun pair member => (sound.kept ints stored pair member).2

theorem setString_keys (db : Database) (pair : StringPair) :
    (setString db pair).map StringPair.key = if pair.key ∈ db.map StringPair.key then db.map StringPair.key
      else db.map StringPair.key ++ [pair.key] := by
  induction db with
  | nil => rfl
  | cons current next ih =>
    rw [setString]
    by_cases same : current.key = pair.key
    · simp [same]
    · rw [if_neg same, List.map_cons, List.map_cons, ih]
      have apart : pair.key ≠ current.key := fun equal => same equal.symm
      by_cases known : pair.key ∈ next.map StringPair.key
      · rw [if_pos known, if_pos (List.mem_cons_of_mem _ known)]
      · rw [if_neg known, if_neg (List.not_mem_cons_of_ne_of_not_mem apart known), List.cons_append]

theorem Distinct.setString {db : Database} (distinct : Distinct db) (pair : StringPair) :
    Distinct (setString db pair) := by
  rw [Distinct, setString_keys]
  split
  · exact distinct
  · rename_i new
    exact List.nodup_append.mpr ⟨distinct, List.nodup_singleton _, fun key member other same => by
      rw [List.mem_singleton.mp same]
      exact fun equal => new (equal ▸ member)⟩

theorem mem_setString {db : Database} {pair other : StringPair} (member : other ∈ setString db pair) :
    other ∈ db ∨ other = pair := by
  induction db with
  | nil => exact Or.inr (List.mem_singleton.mp member)
  | cons current next ih =>
    rw [setString] at member
    split at member
    · rcases List.mem_cons.mp member with rfl | member
      · exact Or.inr rfl
      · exact Or.inl (List.mem_cons_of_mem _ member)
    · rcases List.mem_cons.mp member with rfl | member
      · exact Or.inl (List.mem_cons_self ..)
      · exact (ih member).imp_left (List.mem_cons_of_mem _)

/-- What holds of a database after any updates. -/
theorem updates_invariant {updates : List StringPair} (legal : ∀ update ∈ updates, update.Legal) (db : Database)
    (distinct : Distinct db) (before : ∀ pair ∈ db, pair.Legal) :
    Distinct (updates.foldl dbUpdate db) ∧ ∀ pair ∈ updates.foldl dbUpdate db, pair.Legal := by
  induction updates generalizing db with
  | nil => exact ⟨distinct, before⟩
  | cons update updates ih =>
    rw [List.forall_mem_cons] at legal
    refine ih legal.2 _ (distinct.setString update) fun pair member => ?_
    rcases mem_setString member with member | rfl
    · exact before pair member
    · exact legal.1

theorem updates_roundTrips_iff {updates : List StringPair} (legal : ∀ update ∈ updates, update.Legal)
    {maxBufLen : Nat} (limited : maxBufLen < 2 ^ 31) :
    RoundTrips maxBufLen (updates.foldl dbUpdate []) ↔ Sound maxBufLen (updates.foldl dbUpdate []) := by
  have reached := updates_invariant legal [] List.nodup_nil fun pair member => by cases member
  exact roundTrips_iff limited reached.1 reached.2

def byteA (value : List Byte) : StringPair := ⟨[0x61#8], value, .byteArray⟩

theorem byteA_legal {value : List Byte} (short : value.length < 2 ^ 31) : (byteA value).Legal :=
  ⟨by simp [byteA], by simp [byteA], short⟩

def byteB (value : List Byte) : StringPair := ⟨[0x62#8], value, .byteArray⟩

theorem updates_roundTrip_two : RoundTrips 16 ([byteA [1#8, 2#8], byteB [3#8]].foldl dbUpdate []) := by
  have legal : ∀ update ∈ [byteA [1#8, 2#8], byteB [3#8]], update.Legal := by
    simp only [List.forall_mem_cons]
    exact ⟨byteA_legal (by decide), ⟨by decide, by decide, by decide⟩, nofun⟩
  have updated : [byteA [1#8, 2#8], byteB [3#8]].foldl dbUpdate [] = [byteA [1#8, 2#8], byteB [3#8]] := by decide
  have one : lenSize 1 = 1 := by simp [lenSize]
  have two : lenSize 2 = 1 := by simp [lenSize]
  refine (updates_roundTrips_iff legal (by decide)).mpr ⟨?_, ?_⟩
  · rw [updated]
    simp [Room, PairRoom, FieldRoom, StringPair.storedSize, StringPair.keyLen, fieldSize, byteA, byteB, one, two]
  · rw [updated]
    intro _ _
    simp only [List.forall_mem_cons]
    exact ⟨⟨by decide, .inl (by decide), .inl (by decide)⟩, ⟨by decide, .inl (by decide), .inl (by decide)⟩, nofun⟩

/-- The length 0 of the value goes to the byte after the buffer. -/
theorem emptyValue_not_roundTrips : ¬RoundTrips 3 ([byteA []].foldl dbUpdate []) := by
  intro trip
  refine trip.inside ?_
  simp [dbUpdate, setString, byteA, encodeContainer, encodePairs, encodeString, encodeField, encodeLen,
    reverseGroups,
    outputGroups, ValueType.code, BitVec.toInt, bind, Except.bind]

end Upmem.VpdDb
