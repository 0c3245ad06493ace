import Upmem.Lib.LongDivision

namespace Upmem.Udiv64
open LongDivision

/-- `__clz__`: a `long` has 64 bits. -/
def clz (x : BitVec 64) : Int := x.clz.toNat

/-- What the loop keeps in `dxo` and `dxe`. -/
structure DivState where
  dxo : BitVec 64
  dxe : BitVec 64

def divStep (divider : BitVec 64) (i : Nat) (s : DivState) : DivState :=
  let pivot := divider <<< i
  if pivot ≤ s.dxo then ⟨s.dxo - pivot, s.dxe <<< 1 ||| 1#64⟩ else ⟨s.dxo, s.dxe <<< 1⟩

/-- The turns that are left when the counter is one less than their number. -/
def divLoop (divider : BitVec 64) : Nat → DivState → DivState
  | 0, s => s
  | i + 1, s => divLoop divider i (divStep divider i s)

/-- `__udiv64`, which faults when it divides by zero. -/
def udiv64 (dividend divider : BitVec 64) (askRemainder : Int) : Option (BitVec 64) :=
  if divider = 0#64 then none
  else if dividend < divider then some (if askRemainder = 0 then 0#64 else dividend)
  else
    let i := clz divider - clz dividend
    let s := divLoop divider (i + 1).toNat ⟨dividend, 0#64⟩
    some (if askRemainder = 1 then s.dxo else s.dxe)

/-- A signed word that is not negative. -/
def nonneg (x : BitVec 64) : Prop := 0 ≤ x.toInt

instance (x : BitVec 64) : Decidable (nonneg x) := inferInstanceAs (Decidable (0 ≤ x.toInt))

/-- `__divdi3`. A negation wraps around. -/
def divdi3 (dividend divider : BitVec 64) : Option (BitVec 64) :=
  if nonneg dividend then
    if nonneg divider then udiv64 dividend divider 0 else (udiv64 dividend (-divider) 0).map (- ·)
  else if nonneg divider then (udiv64 (-dividend) divider 0).map (- ·)
  else udiv64 (-dividend) (-divider) 0

/-- `__moddi3`. -/
def moddi3 (dividend divider : BitVec 64) : Option (BitVec 64) :=
  if nonneg dividend then
    if nonneg divider then udiv64 dividend divider 1 else udiv64 dividend (-divider) 1
  else if nonneg divider then (udiv64 (-dividend) divider 1).map (- ·)
  else (udiv64 (-dividend) (-divider) 1).map (- ·)

variable {dividend divider : BitVec 64}

/-- The words are the numbers of the division. -/
def Shows (s : DivState) (numbers : Nat × Nat) : Prop := s.dxo.toNat = numbers.1 ∧ s.dxe.toNat = numbers.2

/-- No shift of the divider overflows, and no bit of the quotient is lost. -/
theorem divStep_shows {i : Nat} {s : DivState} {numbers : Nat × Nat} (fits : divider.toNat * 2 ^ i < 2 ^ 64)
    (shows_ : Shows s numbers) (divides : Divides dividend.toNat divider.toNat (i + 1) numbers) :
    Shows (divStep divider i s) (turn divider.toNat i numbers) := by
  obtain ⟨dxo, dxe⟩ := shows_
  have pivot : (divider <<< i).toNat = divider.toNat * 2 ^ i := by
    rw [BitVec.toNat_shiftLeft, Nat.shiftLeft_eq, Nat.mod_eq_of_lt fits]
  have bound := divides.turn.quotient_le.trans_lt dividend.isLt
  have test : divider <<< i ≤ s.dxo ↔ divider.toNat * 2 ^ i ≤ numbers.1 := by rw [BitVec.le_def, pivot, dxo]
  unfold turn at bound ⊢
  by_cases subtracts : divider.toNat * 2 ^ i ≤ numbers.1
  · rw [if_pos subtracts] at bound ⊢
    rw [divStep, if_pos (test.mpr subtracts)]
    refine ⟨?_, ?_⟩
    · rw [BitVec.toNat_sub_of_le (test.mpr subtracts), pivot, dxo]
    · rw [toNat_shiftLeft_or (by decide), dxe]
      exact Nat.mod_eq_of_lt bound
  · rw [if_neg subtracts] at bound ⊢
    rw [divStep, if_neg (mt test.mp subtracts)]
    refine ⟨dxo, ?_⟩
    rw [BitVec.toNat_shiftLeft, Nat.shiftLeft_eq, dxe, Nat.pow_one, Nat.mul_comm, Nat.mod_eq_of_lt bound]

theorem divLoop_shows {n : Nat} {s : DivState} {numbers : Nat × Nat}
    (fits : ∀ i < n, divider.toNat * 2 ^ i < 2 ^ 64)
    (shows_ : Shows s numbers) (divides : Divides dividend.toNat divider.toNat n numbers) :
    Shows (divLoop divider n s) (turns divider.toNat n numbers) := by
  induction n generalizing s numbers with
  | zero => exact shows_
  | succ i ih =>
    exact ih (fun j below => fits j (by omega)) (divStep_shows (fits i (by omega)) shows_ divides) divides.turn

/-- The loop starts at a shift that makes the divider larger than the dividend, and no shift drops a bit of it. -/
theorem first_turn (nonzero : divider ≠ 0#64) (larger : divider ≤ dividend) {n : Nat}
    (start : n = (clz divider - clz dividend + 1).toNat) :
    dividend.toNat < divider.toNat * 2 ^ n ∧ ∀ i < n, divider.toNat * 2 ^ i < 2 ^ 64 := by
  have positive : dividend ≠ 0#64 := fun zero => nonzero (BitVec.le_zero_iff.mp (zero ▸ larger))
  obtain ⟨few, least, most⟩ := clz_bounds nonzero
  obtain ⟨few', least', most'⟩ := clz_bounds positive
  rw [clz, clz] at start
  generalize divider.clz.toNat = dividerl0 at *
  generalize dividend.clz.toNat = dividendl0 at *
  have ordered : 2 ^ (63 - dividerl0) < 2 ^ (64 - dividendl0) :=
    (least.trans (BitVec.le_def.mp larger)).trans_lt most'
  have fewer := (Nat.pow_lt_pow_iff_right Nat.one_lt_two).mp ordered
  constructor
  · have exponent : 64 - dividendl0 = 63 - dividerl0 + n := by omega
    rw [exponent, Nat.pow_add] at most'
    exact most'.trans_le (Nat.mul_le_mul_right _ least)
  · intro i inside
    calc divider.toNat * 2 ^ i < 2 ^ (64 - dividerl0) * 2 ^ i :=
      Nat.mul_lt_mul_of_pos_right most (Nat.two_pow_pos i)
      _ = 2 ^ (64 - dividerl0 + i) := (Nat.pow_add ..).symm
      _ ≤ 2 ^ 64 := Nat.pow_le_pow_right Nat.two_pos (by omega)

/-- The unsigned division. -/
theorem udiv64_eq (nonzero : divider ≠ 0#64) :
    udiv64 dividend divider 0 = some (dividend / divider) ∧
      udiv64 dividend divider 1 = some (dividend % divider) := by
  unfold udiv64
  rw [if_neg nonzero, if_neg nonzero]
  by_cases less : dividend < divider
  · have small := BitVec.lt_def.mp less
    rw [if_pos less, if_pos less, if_pos rfl, if_neg (by decide)]
    refine ⟨congrArg some (BitVec.eq_of_toNat_eq ?_), congrArg some (BitVec.eq_of_toNat_eq ?_)⟩
    · rw [BitVec.toNat_udiv, Nat.div_eq_of_lt small, BitVec.toNat_zero]
    · rw [BitVec.toNat_umod, Nat.mod_eq_of_lt small]
  · rw [if_neg less, if_neg less]
    obtain ⟨bounded, fits⟩ := first_turn nonzero (BitVec.not_lt.mp less) rfl
    have divides := divides_zero bounded
    obtain ⟨dxo, dxe⟩ := divLoop_shows (s := ⟨dividend, 0#64⟩) fits ⟨rfl, rfl⟩ divides
    dsimp only
    rw [if_neg (by decide), if_pos rfl]
    refine ⟨congrArg some (BitVec.eq_of_toNat_eq ?_), congrArg some (BitVec.eq_of_toNat_eq ?_)⟩
    · rw [dxe, divides.turns.2, BitVec.toNat_udiv]
    · rw [dxo, divides.turns.1, BitVec.toNat_umod]

theorem nonneg_iff (x : BitVec 64) : nonneg x ↔ x.msb = false := by
  rw [nonneg, BitVec.msb_eq_toInt, decide_eq_false_iff_not, Int.not_lt]

/-- The signed division and remainder go through the magnitudes. -/
theorem divdi3_eq (nonzero : divider ≠ 0#64) : divdi3 dividend divider = some (dividend.sdiv divider) := by
  have negated : -divider ≠ 0#64 := mt BitVec.neg_eq_zero_iff.mp nonzero
  rw [divdi3, BitVec.sdiv_eq]
  simp only [nonneg_iff, (udiv64_eq nonzero).1, (udiv64_eq negated).1, Option.map_some]
  cases dividend.msb <;> cases divider.msb <;> rfl

theorem moddi3_eq (nonzero : divider ≠ 0#64) : moddi3 dividend divider = some (dividend.srem divider) := by
  have negated : -divider ≠ 0#64 := mt BitVec.neg_eq_zero_iff.mp nonzero
  rw [moddi3, BitVec.srem_eq]
  simp only [nonneg_iff, (udiv64_eq nonzero).2, (udiv64_eq negated).2, Option.map_some]
  cases dividend.msb <;> cases divider.msb <;> rfl

/-- The dividend is put together again, also when the quotient has wrapped around. -/
theorem mul_sdiv_add_srem (dividend divider : BitVec 64) :
    divider * dividend.sdiv divider + dividend.srem divider = dividend := by
  refine BitVec.eq_of_toInt_eq ?_
  rw [BitVec.toInt_add, BitVec.toInt_mul, BitVec.toInt_sdiv, BitVec.toInt_srem, Int.mul_bmod_bmod,
    Int.bmod_add_bmod,
    Int.mul_tdiv_add_tmod, BitVec.toInt_bmod_cancel]

/-- The results of an unsigned division. -/
structure Unsigned (dividend divider quotient remainder : BitVec 64) : Prop where
  rounded : quotient.toNat = dividend.toNat / divider.toNat
  rest : remainder.toNat = dividend.toNat % divider.toNat
  whole : dividend = divider * quotient + remainder

/-- The results of a signed division: it rounds to zero, and the remainder has the sign of the dividend. -/
structure Signed (dividend divider quotient remainder : BitVec 64) : Prop where
  rounded : quotient.toInt = (dividend.toInt.tdiv divider.toInt).bmod (2 ^ 64)
  rest : remainder.toInt = dividend.toInt.tmod divider.toInt
  whole : dividend = divider * quotient + remainder

theorem unsigned (dividend divider : BitVec 64) :
    Unsigned dividend divider (dividend / divider) (dividend % divider) where
  rounded := BitVec.toNat_udiv
  rest := BitVec.toNat_umod
  whole := by
    refine BitVec.eq_of_toNat_eq ?_
    rw [BitVec.toNat_add, BitVec.toNat_mul, BitVec.toNat_udiv, BitVec.toNat_umod, Nat.mod_add_mod, Nat.div_add_mod,
      Nat.mod_eq_of_lt dividend.isLt]

theorem signed (dividend divider : BitVec 64) :
    Signed dividend divider (dividend.sdiv divider) (dividend.srem divider) where
  rounded := BitVec.toInt_sdiv dividend divider
  rest := BitVec.toInt_srem dividend divider
  whole := (mul_sdiv_add_srem dividend divider).symm

/-- A division by anything but zero returns its results. -/
theorem division_returns (dividend divider : BitVec 64) (nonzero : divider ≠ 0#64) :
    (∃ quotient remainder, udiv64 dividend divider 0 = some quotient ∧ udiv64 dividend divider 1 = some remainder ∧
      Unsigned dividend divider quotient remainder) ∧
    ∃ quotient remainder, divdi3 dividend divider = some quotient ∧ moddi3 dividend divider = some remainder ∧
      Signed dividend divider quotient remainder :=
  ⟨⟨_, _, (udiv64_eq nonzero).1, (udiv64_eq nonzero).2, unsigned dividend divider⟩,
    ⟨_, _, divdi3_eq nonzero, moddi3_eq nonzero, signed dividend divider⟩⟩

/-- The most negative dividend, whose magnitude is no signed word. -/
theorem division_returns_intMin :
    (∃ quotient remainder, udiv64 (BitVec.intMin 64) (-1#64) 0 = some quotient ∧
      udiv64 (BitVec.intMin 64) (-1#64) 1 = some remainder ∧
        Unsigned (BitVec.intMin 64) (-1#64) quotient remainder) ∧
    ∃ quotient remainder, divdi3 (BitVec.intMin 64) (-1#64) = some quotient ∧
      moddi3 (BitVec.intMin 64) (-1#64) = some remainder ∧ Signed (BitVec.intMin 64) (-1#64) quotient remainder :=
  division_returns (BitVec.intMin 64) (-1#64) (by decide)

end Upmem.Udiv64
