import Mathlib.Algebra.Group.Nat.Defs
import Mathlib.Data.Fintype.EquivFin
import Mathlib.Order.Basic

namespace BitFields

/-- The field `q` of a word that is cut in fields of `d` bits. -/
def field {w : Nat} (d : Nat) (word : BitVec w) (q : Nat) : BitVec d := word.extractLsb' (d * q) d

/-- Fields or-ed into a word, each at its place. -/
def place (w : Nat) {d : Nat} (n : Nat) (at_ : Nat → Nat) (fields : Nat → BitVec d) : BitVec w :=
  (List.range n).foldl (fun word i => word ||| (fields i).setWidth w <<< (d * at_ i)) 0#w

variable {w d n : Nat} {at_ back : Nat → Nat} {fields : Nat → BitVec d}

theorem getLsbD_foldl_or (parts : Nat → BitVec w) (is : List Nat) (word : BitVec w) (k : Nat) :
    (is.foldl (fun word i => word ||| parts i) word).getLsbD k =
      (word.getLsbD k || is.any fun i => (parts i).getLsbD k) := by
  induction is generalizing word with
  | nil => simp
  | cons i is ih => simp [ih, Bool.or_assoc]

@[simp] theorem field_getLsbD (word : BitVec w) (q b : Nat) :
    (field d word q).getLsbD b = (decide (b < d) && word.getLsbD (d * q + b)) :=
  BitVec.getLsbD_extractLsb' _ _ _ _

/-- What a shift and a mask read is a field. -/
theorem toNat_masked (word mask : BitVec w) (q : Nat) (full : mask.toNat = 2 ^ d - 1) :
    (word >>> (d * q) &&& mask).toNat = (field d word q).toNat := by
  rw [BitVec.toNat_and, full, BitVec.toNat_ushiftRight, Nat.and_two_pow_sub_one_eq_mod, field,
    BitVec.extractLsb'_toNat]

theorem masked_eq (word mask : BitVec w) (q : Nat) (full : mask.toNat = 2 ^ d - 1) (narrow : d ≤ w) :
    word >>> (d * q) &&& mask = (field d word q).setWidth w := by
  refine BitVec.eq_of_toNat_eq ?_
  have bound := (field d word q).isLt.trans_le (Nat.pow_le_pow_right Nat.two_pos narrow)
  rw [toNat_masked word mask q full, BitVec.toNat_setWidth, Nat.mod_eq_of_lt bound]

theorem field_setWidth {v : Nat} (word : BitVec v) {q : Nat} (inside : d * (q + 1) ≤ v) (wider : v ≤ w) :
    field d (word.setWidth w) q = field d word q := by
  refine BitVec.eq_of_getLsbD_eq fun b bound => ?_
  have below : d * q + b < w := by rw [Nat.mul_succ] at inside; omega
  simp [below]

/-- Words whose fields agree are equal. -/
theorem eq_of_fields {word other : BitVec w} (whole : w ≤ d * n)
    (same : ∀ q < n, field d word q = field d other q) :
    word = other := by
  refine BitVec.eq_of_getLsbD_eq fun k inside => ?_
  have positive : 0 < d := Nat.pos_of_ne_zero fun zero => by simp [zero] at whole; omega
  have slot : k / d < n := Nat.div_lt_of_lt_mul (by omega)
  have bit := congrArg (BitVec.getLsbD · (k % d)) (same (k / d) slot)
  simpa only [field_getLsbD, decide_eq_true (Nat.mod_lt k positive), Bool.true_and, Nat.div_add_mod] using bit

/-- A field that is shifted to a place fills that place and no other. -/
theorem shifted_getLsbD (value : BitVec d) {q p b : Nat} (inside : b < d) (fits : d * (q + 1) ≤ w) :
    (value.setWidth w <<< (d * p)).getLsbD (d * q + b) = (decide (p = q) && value.getLsbD b) := by
  have below : d * q + b < w := by rw [Nat.mul_succ] at fits; omega
  rw [BitVec.getLsbD_shiftLeft, BitVec.getLsbD_setWidth]
  rcases Nat.lt_trichotomy p q with less | rfl | more
  · have far : d * (p + 1) ≤ d * q := Nat.mul_le_mul_left d less
    rw [Nat.mul_succ] at far
    simp [less.ne, BitVec.getLsbD_of_ge value (d * q + b - d * p) (by omega)]
  · simp [below, show d * p + b - d * p = b by omega, show b < w by omega]
  · have far : d * (q + 1) ≤ d * p := Nat.mul_le_mul_left d more
    rw [Nat.mul_succ] at far
    simp [more.ne', show d * q + b < d * p by omega]

theorem place_getLsbD {q b : Nat} (inside : b < d) (fits : d * (q + 1) ≤ w) :
    (place w n at_ fields).getLsbD (d * q + b) =
      (List.range n).any fun i => decide (at_ i = q) && (fields i).getLsbD b := by
  rw [place, getLsbD_foldl_or, BitVec.getLsbD_zero, Bool.false_or]
  simp only [shifted_getLsbD _ inside fits]

/-- A field is found where it has been put. -/
theorem field_place {i : Nat} (inside : i < n) (fits : d * (at_ i + 1) ≤ w)
    (alone : ∀ j < n, at_ j = at_ i → j = i) :
    field d (place w n at_ fields) (at_ i) = fields i := by
  refine BitVec.eq_of_getLsbD_eq fun b bound => ?_
  rw [field_getLsbD, decide_eq_true bound, Bool.true_and, place_getLsbD bound fits, Bool.eq_iff_iff]
  simp only [List.any_eq_true, List.mem_range, Bool.and_eq_true, decide_eq_true_eq]
  constructor
  · rintro ⟨j, small, same, bit⟩
    exact alone j small same ▸ bit
  · exact fun bit => ⟨i, inside, rfl, bit⟩

/-- Fields whose places are low leave the rest of a wider word clear. -/
theorem place_widen {v : Nat} (low : ∀ i < n, d * (at_ i + 1) ≤ v) :
    place w n at_ fields = (place v n at_ fields).setWidth w := by
  refine BitVec.eq_of_getLsbD_eq fun k inside => ?_
  rw [BitVec.getLsbD_setWidth, decide_eq_true inside, Bool.true_and, place, place, getLsbD_foldl_or,
    getLsbD_foldl_or,
    BitVec.getLsbD_zero, BitVec.getLsbD_zero, Bool.false_or, Bool.false_or, Bool.eq_iff_iff, List.any_eq_true,
    List.any_eq_true]
  refine exists_congr fun i => and_congr_right fun member => ?_
  have room := low i (List.mem_range.mp member)
  rw [Nat.mul_succ] at room
  simp only [BitVec.getLsbD_shiftLeft, BitVec.getLsbD_setWidth, Bool.and_eq_true, decide_eq_true_eq,
    Bool.not_eq_true',
    decide_eq_false_iff_not]
  constructor
  · rintro ⟨⟨-, above⟩, -, bit⟩
    have short : k - d * at_ i < d := BitVec.lt_of_getLsbD bit
    exact ⟨⟨by omega, above⟩, by omega, bit⟩
  · rintro ⟨⟨-, above⟩, -, bit⟩
    exact ⟨⟨inside, above⟩, by omega, bit⟩

/-- The places of `n` fields are a permutation, with the one that undoes it. -/
structure Inverse (n : Nat) (at_ back : Nat → Nat) : Prop where
  lt : ∀ i < n, at_ i < n
  back_lt : ∀ q < n, back q < n
  left : ∀ i < n, back (at_ i) = i
  right : ∀ q < n, at_ (back q) = q

theorem Inverse.symm (inverse : Inverse n at_ back) : Inverse n back at_ :=
  ⟨inverse.back_lt, inverse.lt, inverse.right, inverse.left⟩

theorem Inverse.alone (inverse : Inverse n at_ back) {i j : Nat} (small : i < n) (inside : j < n)
    (same : at_ j = at_ i) :
    j = i := by
  rw [← inverse.left j inside, same, inverse.left i small]

/-- Among `n` places a left inverse is enough. -/
theorem inverse_of_left (lt : ∀ i < n, at_ i < n) (left : ∀ i < n, back (at_ i) = i) : Inverse n at_ back := by
  have injective : Function.Injective fun i : Fin n => (⟨at_ i, lt i i.isLt⟩ : Fin n) := by
    intro i j same
    have equal : at_ i = at_ j := congrArg Fin.val same
    exact Fin.ext (by rw [← left i i.isLt, equal, left j j.isLt])
  have reached : ∀ q < n, ∃ i < n, at_ i = q := by
    intro q inside
    obtain ⟨i, same⟩ := Finite.surjective_of_injective injective ⟨q, inside⟩
    exact ⟨i, i.isLt, congrArg Fin.val same⟩
  refine ⟨lt, fun q inside => ?_, left, fun q inside => ?_⟩
  all_goals
    obtain ⟨i, small, rfl⟩ := reached q inside
    rw [left i small]
  · exact small

/-- The fields that are found once they have been moved. -/
theorem Inverse.field_place (inverse : Inverse n at_ back) (fits : d * n ≤ w) {q : Nat} (inside : q < n) :
    field d (place w n at_ fields) q = fields (back q) := by
  have small := inverse.back_lt q inside
  have room : d * (at_ (back q) + 1) ≤ w := by
    rw [inverse.right q inside]
    exact (Nat.mul_le_mul_left d inside).trans fits
  have found : field d (place w n at_ fields) (at_ (back q)) = fields (back q) :=
    BitFields.field_place small room fun j bound => inverse.alone small bound
  rwa [inverse.right q inside] at found

/-- The fields of a word moved to other places. -/
def permute (d n : Nat) (at_ : Nat → Nat) (word : BitVec w) : BitVec w := place w n at_ (field d word)

/-- Moving the fields back gives the word. -/
theorem Inverse.permute_permute (inverse : Inverse n at_ back) (whole : d * n = w) (word : BitVec w) :
    permute d n back (permute d n at_ word) = word := by
  refine eq_of_fields whole.ge fun q inside => ?_
  rw [permute, inverse.symm.field_place whole.le inside, permute,
    inverse.field_place whole.le (inverse.lt q inside),
    inverse.left q inside]

end BitFields
