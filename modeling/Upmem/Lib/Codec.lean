import Mathlib.Data.BitVec
import Mathlib.Data.List.Basic
import Mathlib.Tactic.Ring

namespace Codec
universe u

abbrev Byte := BitVec 8

/-- A representation of the values of a type by a fixed number of bytes. -/
structure Fixed (α : Type u) where
  size : Nat
  encode : α → List Byte
  decode : List Byte → α
  length_encode : ∀ a, (encode a).length = size
  decode_encode : ∀ a, decode (encode a) = a

attribute [simp] Fixed.length_encode Fixed.decode_encode

/-- The lowest `n` bytes of a number, the least significant one first. -/
def toLittleEndian : Nat → Nat → List Byte
  | 0, _ => []
  | n + 1, value => BitVec.ofNat 8 value :: toLittleEndian n (value / 256)

def ofLittleEndian : List Byte → Nat
  | [] => 0
  | byte :: bytes => byte.toNat + 256 * ofLittleEndian bytes

@[simp] theorem length_toLittleEndian (n value : Nat) : (toLittleEndian n value).length = n := by
  induction n generalizing value with
  | zero => rfl
  | succ n ih => rw [toLittleEndian, List.length_cons, ih]

theorem ofLittleEndian_toLittleEndian {n value : Nat} (fits : value < 256 ^ n) :
    ofLittleEndian (toLittleEndian n value) = value := by
  induction n generalizing value with
  | zero =>
    rw [Nat.pow_zero, Nat.lt_one_iff] at fits
    rw [fits]
    rfl
  | succ n ih =>
    have rest : value / 256 < 256 ^ n := by
      rw [Nat.div_lt_iff_lt_mul (by decide), ← Nat.pow_succ]
      exact fits
    rw [toLittleEndian, ofLittleEndian, ih rest, BitVec.toNat_ofNat]
    omega

/-- A word of `n` bytes. -/
def word (n : Nat) : Fixed (BitVec (8 * n)) where
  size := n
  encode value := toLittleEndian n value.toNat
  decode bytes := BitVec.ofNat (8 * n) (ofLittleEndian bytes)
  length_encode value := length_toLittleEndian n value.toNat
  decode_encode value := by
    have fits : value.toNat < 256 ^ n := by
      have below := value.isLt
      rwa [Nat.pow_mul] at below
    rw [ofLittleEndian_toLittleEndian fits, BitVec.ofNat_toNat, BitVec.setWidth_eq]

@[simp] theorem word_size (n : Nat) : (word n).size = n := rfl

/-- A truth value in a byte. -/
def bool : Fixed Bool where
  size := 1
  encode b := [if b then 1#8 else 0#8]
  decode bytes := decide (bytes.headD 0#8 ≠ 0#8)
  length_encode _ := rfl
  decode_encode b := by cases b <;> decide

@[simp] theorem bool_size : bool.size = 1 := rfl

section Arrays
variable {α : Type u} (c : Fixed α)

def encodeAll (as : List α) : List Byte :=
  as.flatMap c.encode

/-- The first `count` values in a sequence of bytes. -/
def decodeAll : Nat → List Byte → List α
  | 0, _ => []
  | count + 1, bytes => c.decode (bytes.take c.size) :: decodeAll count (bytes.drop c.size)

@[simp] theorem length_encodeAll (as : List α) : (encodeAll c as).length = c.size * as.length := by
  induction as with
  | nil => rfl
  | cons a as ih =>
    rw [encodeAll, List.flatMap_cons, List.length_append, c.length_encode, ← encodeAll, ih, List.length_cons]
    ring

@[simp] theorem decodeAll_encodeAll (as : List α) (rest : List Byte) :
    decodeAll c as.length (encodeAll c as ++ rest) = as := by
  induction as with
  | nil => rfl
  | cons a as ih =>
    have split : encodeAll c (a :: as) ++ rest = c.encode a ++ (encodeAll c as ++ rest) := by
      rw [encodeAll, List.flatMap_cons, List.append_assoc]
      rfl
    have first : (c.encode a ++ (encodeAll c as ++ rest)).take c.size = c.encode a :=
      List.take_left' (c.length_encode a)
    have others : (c.encode a ++ (encodeAll c as ++ rest)).drop c.size = encodeAll c as ++ rest :=
      List.drop_left' (c.length_encode a)
    rw [List.length_cons, decodeAll, split, first, others, c.decode_encode, ih]

end Arrays

@[simp] theorem length_decodeAll {α : Type u} (c : Fixed α) (count : Nat) (bytes : List Byte) :
    (decodeAll c count bytes).length = count := by
  induction count generalizing bytes with
  | zero => rfl
  | succ count ih => rw [decodeAll, List.length_cons, ih]

/-- One value after the other. -/
def pair {α β : Type u} (c : Fixed α) (d : Fixed β) : Fixed (α × β) where
  size := c.size + d.size
  encode p := c.encode p.1 ++ d.encode p.2
  decode bytes := (c.decode (bytes.take c.size), d.decode (bytes.drop c.size))
  length_encode p := by rw [List.length_append, c.length_encode, d.length_encode]
  decode_encode p := by
    rw [List.take_left' (c.length_encode p.1), List.drop_left' (c.length_encode p.1), c.decode_encode,
      d.decode_encode]

/-- The representation of a type by that of another one. -/
def Fixed.via {α β : Type u} (c : Fixed α) (into : β → α) (back : α → β) (inverse : ∀ b, back (into b) = b) :
    Fixed β where
  size := c.size
  encode b := c.encode (into b)
  decode bytes := back (c.decode bytes)
  length_encode b := c.length_encode (into b)
  decode_encode b := by rw [c.decode_encode, inverse]

/-- An array of `n` values. -/
def array {α : Type} (n : Nat) (c : Fixed α) : Fixed (Fin n → α) where
  size := c.size * n
  encode as := encodeAll c (List.ofFn as)
  decode bytes := fun i => (decodeAll c n bytes).get (i.cast (length_decodeAll c n bytes).symm)
  length_encode as := by rw [length_encodeAll, List.length_ofFn]
  decode_encode as := by
    have whole : decodeAll c n (encodeAll c (List.ofFn as)) = List.ofFn as := by
      have back := decodeAll_encodeAll c (List.ofFn as) []
      rwa [List.append_nil, List.length_ofFn] at back
    funext i
    simp [whole]

/-- The next bytes of an input. -/
def takeBytes {ε : Type} (short : ε) (size : Nat) (input : List Byte) : Except ε (List Byte × List Byte) :=
  if input.length < size then .error short else .ok (input.take size, input.drop size)

@[simp] theorem takeBytes_append {ε : Type} (short : ε) {size : Nat} {bytes : List Byte}
    (sized : bytes.length = size)
    (rest : List Byte) : takeBytes short size (bytes ++ rest) = .ok (bytes, rest) := by
  have enough : ¬(bytes ++ rest).length < size := by rw [List.length_append, sized]; omega
  rw [takeBytes, if_neg enough, List.take_left' sized, List.drop_left' sized]

end Codec
