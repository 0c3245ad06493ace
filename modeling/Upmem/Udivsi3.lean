import Upmem.Lib.LongDivision
import Upmem.Lib.SignMasks

namespace Upmem.Udivsi3
open LongDivision SignMasks

/-- What the loop keeps. -/
structure DivState where
  q : BitVec 32
  r : BitVec 32
  carry : BitVec 32

/-- A turn of the loop. The shift of the signed difference makes a mask out of its sign. -/
def divStep (d : BitVec 32) (s : DivState) : DivState :=
  let r := s.r <<< 1 ||| s.q >>> 31
  let q := s.q <<< 1 ||| s.carry
  let mask := (d - r - 1#32).sshiftRight 31
  ⟨q, r - (d &&& mask), mask &&& 1#32⟩

def divLoop (d : BitVec 32) : Nat → DivState → DivState
  | 0, s => s
  | sr + 1, s => divLoop d sr (divStep d s)

/-- `__udivsi3`. The difference of the leading zeros is unsigned, so it is large when `d` has fewer of them. -/
def udivsi3 (n d : BitVec 32) : BitVec 32 :=
  if d = 0#32 then 0#32
  else if n = 0#32 then 0#32
  else
    let sr := d.clz - n.clz
    if 31#32 < sr then 0#32
    else if sr = 31#32 then n
    else
      let sr := (sr + 1#32).toNat
      let s := divLoop d sr ⟨n <<< (32 - sr), n >>> sr, 0#32⟩
      s.q <<< 1 ||| s.carry

/-- `__divsi3`. -/
def divsi3 (a b : BitVec 32) : BitVec 32 :=
  let s_a := a.sshiftRight 31
  let s_b := b.sshiftRight 31
  let a := (a ^^^ s_a) - s_a
  let b := (b ^^^ s_b) - s_b
  let s_a := s_a ^^^ s_b
  (udivsi3 a b ^^^ s_a) - s_a

variable {n d : BitVec 32}

/-- Before the last `k` turns: the bits of `n` above them are divided, and the last bit
of the quotient is in `carry`. -/
structure Divided (n d : BitVec 32) (k : Nat) (s : DivState) : Prop where
  r : s.r.toNat = n.toNat / 2 ^ k % d.toNat
  q : s.q.toNat = n.toNat % 2 ^ k * 2 ^ (32 - k) + n.toNat / 2 ^ k / d.toNat / 2
  carry : s.carry.toNat = n.toNat / 2 ^ k / d.toNat % 2

/-- The sign of the difference tells whether the divider fits, as the two are not too far apart. -/
theorem msb_difference {r d : BitVec 32} (below : d.toNat ≤ 2 ^ 31 + r.toNat) (above : r.toNat < 2 ^ 31 + d.toNat) :
    (d - r - 1#32).msb = decide (d.toNat ≤ r.toNat) := by
  rw [BitVec.msb_eq_decide]
  simp only [BitVec.toNat_sub, BitVec.toNat_ofNat, decide_eq_decide]
  have := r.isLt
  have := d.isLt
  omega

/-- What the bit at `k` does to the numbers above and below it. -/
theorem at_bit (n k : Nat) : n / 2 ^ k = 2 * (n / 2 ^ (k + 1)) + n / 2 ^ k % 2 ∧
    n % 2 ^ (k + 1) = n / 2 ^ k % 2 * 2 ^ k + n % 2 ^ k := by
  constructor
  · rw [Nat.pow_succ, ← Nat.div_div_eq_div_mul]
    omega
  · rw [Nat.mod_pow_succ]
    ring

/-- The dividend's bits and the quotient's share the word `q`. -/
theorem shared_word {n k quotient : Nat} (few : k < 32) (word : n < 2 ^ 32) (small : quotient ≤ n / 2 ^ (k + 1)) :
    n % 2 ^ (k + 1) * 2 ^ (32 - (k + 1)) + quotient / 2 =
        n / 2 ^ k % 2 * 2 ^ 31 + (n % 2 ^ k * 2 ^ (31 - k) + quotient / 2) ∧
      n % 2 ^ k * 2 ^ (31 - k) + quotient / 2 < 2 ^ 31 ∧ 2 * (n % 2 ^ k * 2 ^ (31 - k)) + quotient < 2 ^ 32 ∧
      n / 2 ^ (k + 1) < 2 ^ 31 := by
  have whole : 2 ^ k * 2 ^ (31 - k) = 2 ^ 31 := by rw [← Nat.pow_add, Nat.add_sub_cancel' (by omega)]
  have above : n / 2 ^ (k + 1) < 2 ^ (31 - k) := by
    have bits : 2 ^ (k + 1) * 2 ^ (31 - k) = 2 ^ 32 := by rw [Nat.pow_succ', Nat.mul_assoc, whole]; rfl
    exact Nat.div_lt_of_lt_mul (bits ▸ word)
  have below : n % 2 ^ k * 2 ^ (31 - k) + 2 ^ (31 - k) ≤ 2 ^ 31 := by
    rw [← Nat.succ_mul, ← whole]
    exact Nat.mul_le_mul_right _ (Nat.mod_lt _ (Nat.two_pow_pos k))
  refine ⟨?_, by omega, by omega, by omega⟩
  rw [(at_bit n k).2, Nat.add_mul, Nat.mul_assoc, Nat.add_sub_add_right 31 1 k, whole, Nat.add_assoc]

theorem divStep_divided {k : Nat} {s : DivState} (few : k < 32) (positive : 0 < d.toNat)
    (near : d.toNat ≤ 2 ^ 31 + n.toNat / 2 ^ k) (divided : Divided n d (k + 1) s) :
    Divided n d k (divStep d s) := by
  obtain ⟨r, q, carry⟩ := divided
  have digit : n.toNat / 2 ^ k % 2 < 2 := Nat.mod_lt _ Nat.two_pos
  have rest := Nat.mod_lt (n.toNat / 2 ^ (k + 1)) positive
  have atMost : n.toNat / 2 ^ (k + 1) % d.toNat ≤ n.toNat / 2 ^ (k + 1) := Nat.mod_le ..
  obtain ⟨above, below⟩ := at_bit n.toNat k
  obtain ⟨quotient, remainder⟩ := bring_down (n.toNat / 2 ^ (k + 1)) positive digit
  obtain ⟨word, apart, shifted, short⟩ := shared_word few n.isLt (Nat.div_le_self (n.toNat / 2 ^ (k + 1)) d.toNat)
  rw [← above] at quotient remainder
  have double : 2 ^ (32 - k) = 2 * 2 ^ (31 - k) := by rw [← Nat.pow_succ', Nat.succ_sub (by omega)]
  -- the remainder with the bit that comes down
  have top : (s.q >>> 31).toNat = n.toNat / 2 ^ k % 2 := by
    rw [BitVec.toNat_ushiftRight, Nat.shiftRight_eq_div_pow, q, word]
    omega
  have down : (s.r <<< 1 ||| s.q >>> 31).toNat = 2 * (n.toNat / 2 ^ (k + 1) % d.toNat) + n.toNat / 2 ^ k % 2 := by
    rw [toNat_shiftLeft_or (by rw [top]; exact digit), top, r]
    omega
  have bits : (s.q <<< 1 ||| s.carry).toNat =
      n.toNat % 2 ^ k * 2 ^ (32 - k) + n.toNat / 2 ^ (k + 1) / d.toNat := by
    rw [toNat_shiftLeft_or (by rw [carry]; omega), q, word, carry, double, Nat.mul_left_comm]
    omega
  have mask : (d - (s.r <<< 1 ||| s.q >>> 31) - 1#32).sshiftRight 31 =
      if d.toNat ≤ 2 * (n.toNat / 2 ^ (k + 1) % d.toNat) + n.toNat / 2 ^ k % 2 then BitVec.allOnes 32
      else 0#32 := by
    have close : d.toNat ≤ 2 ^ 31 + (s.r <<< 1 ||| s.q >>> 31).toNat ∧
        (s.r <<< 1 ||| s.q >>> 31).toNat < 2 ^ 31 + d.toNat := by
      rw [down]
      -- a divider this large takes nothing from the bits above
      by_cases large : d.toNat ≤ 2 ^ 31
      · omega
      · have all : n.toNat / 2 ^ (k + 1) % d.toNat = n.toNat / 2 ^ (k + 1) := Nat.mod_eq_of_lt (by omega)
        omega
    have sign_ := sign_eq (d - (s.r <<< 1 ||| s.q >>> 31) - 1#32)
    rw [msb_difference close.1 close.2, down, sign] at sign_
    simpa using sign_
  unfold divStep
  dsimp only
  rw [mask]
  split_ifs at quotient remainder ⊢ with fits
  · have taken : d ≤ s.r <<< 1 ||| s.q >>> 31 := by rw [BitVec.le_def, down]; exact fits
    refine ⟨?_, ?_, ?_⟩
    · rw [BitVec.and_allOnes, BitVec.toNat_sub_of_le taken, down, remainder]
    · rw [bits, quotient]
      omega
    · rw [BitVec.allOnes_and, quotient]
      change 1 = _
      omega
  · refine ⟨?_, ?_, ?_⟩
    · rw [BitVec.and_zero, BitVec.sub_zero, down, remainder]
    · rw [bits, quotient]
      omega
    · rw [BitVec.zero_and, quotient]
      change 0 = _
      omega

theorem divLoop_divided {k : Nat} {s : DivState} (few : k ≤ 32) (positive : 0 < d.toNat)
    (near : ∀ i < k, d.toNat ≤ 2 ^ 31 + n.toNat / 2 ^ i) (divided : Divided n d k s) :
    Divided n d 0 (divLoop d k s) := by
  induction k generalizing s with
  | zero => exact divided
  | succ k ih =>
    exact ih (by omega) (fun i below => near i (by omega))
      (divStep_divided (by omega) positive (near k (by omega)) divided)

/-- The last bit of the quotient is shifted in after the loop. -/
theorem Divided.quotient {s : DivState} (divided : Divided n d 0 s) : s.q <<< 1 ||| s.carry = n / d := by
  obtain ⟨-, q, carry⟩ := divided
  rw [Nat.pow_zero, Nat.div_one] at carry
  rw [Nat.pow_zero, Nat.mod_one, Nat.zero_mul, Nat.div_one, Nat.zero_add] at q
  refine BitVec.eq_of_toNat_eq ?_
  rw [toNat_shiftLeft_or (by omega), q, carry, BitVec.toNat_udiv, Nat.div_add_mod, Nat.mod_eq_of_lt]
  exact (Nat.div_le_self ..).trans_lt n.isLt

/-- A dividend with more leading zeros is the smaller one. -/
theorem less_of_clz (nonzero : d ≠ 0#32) (fewer : d.clz.toNat < n.clz.toNat) : n.toNat < d.toNat := by
  obtain ⟨few, least, -⟩ := clz_bounds nonzero
  have most : n.toNat < 2 ^ (32 - n.clz.toNat) := BitVec.toNat_lt_two_pow_sub_clz
  calc n.toNat < 2 ^ (32 - n.clz.toNat) := most
    _ ≤ 2 ^ (31 - d.clz.toNat) := Nat.pow_le_pow_right Nat.two_pos (by omega)
    _ ≤ d.toNat := least

/-- Where the loop starts no bit of the quotient is decided, and it never meets a divider
too far from the remainder. -/
theorem first_turn {sr : Nat} (divider : d ≠ 0#32) (dividend : n ≠ 0#32)
    (start : sr = d.clz.toNat - n.clz.toNat + 1)
    (ordered : n.clz.toNat ≤ d.clz.toNat) (short : sr < 32) :
    Divided n d sr ⟨n <<< (32 - sr), n >>> sr, 0#32⟩ ∧ ∀ i < sr, d.toNat ≤ 2 ^ 31 + n.toNat / 2 ^ i := by
  obtain ⟨few, least, most⟩ := clz_bounds divider
  obtain ⟨-, least', most'⟩ := clz_bounds dividend
  generalize d.clz.toNat = zeros at *
  generalize n.clz.toNat = zeros' at *
  have small : n.toNat / 2 ^ sr < d.toNat := by
    refine Nat.div_lt_of_lt_mul ?_
    calc n.toNat < 2 ^ (32 - zeros') := most'
      _ = 2 ^ sr * 2 ^ (31 - zeros) := by rw [← Nat.pow_add]; congr 1; omega
      _ ≤ 2 ^ sr * d.toNat := Nat.mul_le_mul_left _ least
  have none_ : n.toNat / 2 ^ sr / d.toNat = 0 := Nat.div_eq_of_lt small
  refine ⟨⟨?_, ?_, ?_⟩, ?_⟩
  · rw [BitVec.toNat_ushiftRight, Nat.shiftRight_eq_div_pow, Nat.mod_eq_of_lt small]
  · have whole : 2 ^ 32 = 2 ^ sr * 2 ^ (32 - sr) := by rw [← Nat.pow_add, Nat.add_sub_cancel' short.le]
    rw [BitVec.toNat_shiftLeft, Nat.shiftLeft_eq, none_, whole, Nat.mul_mod_mul_right, Nat.zero_div, Nat.add_zero]
  · rw [none_]
    rfl
  · intro i inside
    by_cases first : zeros = 0
    · have last : i = 0 := by omega
      have full : zeros' = 0 := by omega
      subst last full
      have word := d.isLt
      rw [Nat.pow_zero, Nat.div_one]
      omega
    · have half : 2 ^ (32 - zeros) ≤ 2 ^ 31 := Nat.pow_le_pow_right Nat.two_pos (by omega)
      exact (most.trans_le half).le.trans (Nat.le_add_right ..)

theorem udivsi3_eq (n d : BitVec 32) : udivsi3 n d = n / d := by
  unfold udivsi3
  split_ifs with divider dividend
  · rw [divider, BitVec.udiv_zero]
  · rw [dividend, BitVec.zero_udiv]
  obtain ⟨few, least, most⟩ := clz_bounds divider
  obtain ⟨few', least', most'⟩ := clz_bounds dividend
  dsimp only
  by_cases ordered : n.clz.toNat ≤ d.clz.toNat
  · have difference : (d.clz - n.clz).toNat = d.clz.toNat - n.clz.toNat :=
      BitVec.toNat_sub_of_le (BitVec.le_def.mpr ordered)
    rw [if_neg (by rw [BitVec.lt_def, difference]; exact (show ¬ 31 < _ by omega))]
    split_ifs with one
    · have full := congrArg BitVec.toNat one
      rw [difference] at full
      have single : d = 1#32 := by
        change _ = 31 at full
        have zeros : d.clz.toNat = 31 := by omega
        rw [zeros] at least most
        exact BitVec.eq_of_toNat_eq (by change _ = 1; omega)
      rw [single, BitVec.udiv_one]
    · have short : d.clz.toNat - n.clz.toNat ≠ 31 := by
        intro full
        exact one (BitVec.eq_of_toNat_eq (difference.trans full))
      have start : (d.clz - n.clz + 1#32).toNat = d.clz.toNat - n.clz.toNat + 1 := by
        rw [BitVec.toNat_add, difference]
        exact Nat.mod_eq_of_lt (by change _ + 1 < _; omega)
      obtain ⟨divided, near⟩ := first_turn divider dividend start ordered (by omega)
      exact (divLoop_divided (by omega) ((Nat.two_pow_pos _).trans_le least) near divided).quotient
  · have large : 31#32 < d.clz - n.clz := by
      rw [BitVec.lt_def, BitVec.toNat_sub]
      change 31 < _
      omega
    rw [if_pos large]
    refine BitVec.eq_of_toNat_eq ?_
    rw [BitVec.toNat_udiv, Nat.div_eq_of_lt (less_of_clz divider (by omega))]
    rfl

/-- The signs are put aside and given back to the quotient. -/
theorem divsi3_eq (a b : BitVec 32) : divsi3 a b = a.sdiv b := by
  have magnitude : ∀ x : BitVec 32, (x ^^^ x.sshiftRight 31) - x.sshiftRight 31 = if x.msb then -x else x :=
    fun x => negateBy_sign x x
  have signs : ∀ x : BitVec 32,
      (x ^^^ (a.sshiftRight 31 ^^^ b.sshiftRight 31)) - (a.sshiftRight 31 ^^^ b.sshiftRight 31) =
        if a.msb = b.msb then x else -x :=
    fun x => negateBy_sign_xor x a b
  unfold divsi3
  dsimp only
  rw [signs, magnitude, magnitude, udivsi3_eq, BitVec.sdiv_eq]
  cases a.msb <;> cases b.msb <;> rfl

/-- The results are those of exact division, rounded to zero; a division by zero gives zero. -/
theorem quotients (a b : BitVec 32) : (udivsi3 a b).toNat = a.toNat / b.toNat ∧
    (divsi3 a b).toInt = (a.toInt.tdiv b.toInt).bmod (2 ^ 32) := by
  rw [udivsi3_eq, divsi3_eq]
  exact ⟨BitVec.toNat_udiv, BitVec.toInt_sdiv a b⟩

end Upmem.Udivsi3
