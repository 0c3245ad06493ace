import Mathlib
import Upmem.Lib.SignMasks

namespace Upmem.CheckedArith
open SignMasks

section Functions

variable {w : Nat}

/-- `(di_int)1 << (N - 1)`, and the same of `si_int`. -/
def MIN (w : Nat) : BitVec w := 1#w <<< (w - 1)

/-- `none` stands for `compilerrt_abort`. -/
def addv (a b : BitVec w) : Option (BitVec w) :=
  let s := a + b
  if 0 ≤ b.toInt then if s.toInt < a.toInt then none else some s
  else if a.toInt ≤ s.toInt then none else some s

def subv (a b : BitVec w) : Option (BitVec w) :=
  let s := a - b
  if 0 ≤ b.toInt then if a.toInt < s.toInt then none else some s
  else if s.toInt ≤ a.toInt then none else some s

def negv (a : BitVec w) : Option (BitVec w) :=
  if a = MIN w then none else some (-a)

def absv (a : BitVec w) : Option (BitVec w) :=
  if a = MIN w then none
  else
    let t := a.sshiftRight (w - 1)
    some ((a ^^^ t) - t)

/-- The test that `__mulv` and `__mulo` make before they multiply, with the quotients of signed words. -/
def mulOverflows (a b : BitVec w) : Bool :=
  if a = MIN w then b ≠ 0#w ∧ b ≠ 1#w
  else if b = MIN w then a ≠ 0#w ∧ a ≠ 1#w
  else
    let sa := a.sshiftRight (w - 1)
    let abs_a := (a ^^^ sa) - sa
    let sb := b.sshiftRight (w - 1)
    let abs_b := (b ^^^ sb) - sb
    if abs_a.toInt < 2 ∨ abs_b.toInt < 2 then false
    else if sa = sb then ((~~~MIN w).sdiv abs_b).toInt < abs_a.toInt
    else ((MIN w).sdiv (-abs_b)).toInt < abs_a.toInt

def mulv (a b : BitVec w) : Option (BitVec w) := if mulOverflows a b then none else some (a * b)

/-- The result and `*overflow`. -/
def mulo (a b : BitVec w) : BitVec w × Int := (a * b, if mulOverflows a b then 1 else 0)

end Functions

def addvsi3 (a b : BitVec 32) : Option (BitVec 32) := addv a b
def addvdi3 (a b : BitVec 64) : Option (BitVec 64) := addv a b
def subvsi3 (a b : BitVec 32) : Option (BitVec 32) := subv a b
def subvdi3 (a b : BitVec 64) : Option (BitVec 64) := subv a b
def negvsi2 (a : BitVec 32) : Option (BitVec 32) := negv a
def negvdi2 (a : BitVec 64) : Option (BitVec 64) := negv a
def absvsi2 (a : BitVec 32) : Option (BitVec 32) := absv a
def absvdi2 (a : BitVec 64) : Option (BitVec 64) := absv a
def mulvsi3 (a b : BitVec 32) : Option (BitVec 32) := mulv a b
def mulvdi3 (a b : BitVec 64) : Option (BitVec 64) := mulv a b
def mulosi4 (a b : BitVec 32) : BitVec 32 × Int := mulo a b
def mulodi4 (a b : BitVec 64) : BitVec 64 × Int := mulo a b

variable {w : Nat}

/-- A number that a signed word shows. -/
def Fits (w : Nat) (z : Int) : Prop := -2 ^ (w - 1) ≤ z ∧ z < 2 ^ (w - 1)

/-- A checked operation returns the exact number, and it aborts only where there is none to return. -/
structure Exact (z : Int) (result : Option (BitVec w)) : Prop where
  exact : ∀ s, result = some s → s.toInt = z
  aborts : result = none ↔ ¬ Fits w z

theorem toInt_fits (x : BitVec w) : Fits w x.toInt := ⟨x.le_toInt, x.toInt_lt⟩

/-- The range of a word is half of what the word wraps around at. -/
theorem two_mul_range (wide : 0 < w) : 2 * (2 : Int) ^ (w - 1) = ((2 ^ w : Nat) : Int) := by
  obtain ⟨n, rfl⟩ : ∃ n, w = n + 1 := ⟨w - 1, by omega⟩
  push_cast
  rw [Int.pow_succ, Int.mul_comm]

theorem bmod_of_fits (wide : 0 < w) {z : Int} (fits : Fits w z) : z.bmod (2 ^ w) = z := by
  have range := two_mul_range wide
  obtain ⟨least, most⟩ := fits
  exact Int.bmod_eq_of_le_mul_two (by omega) (by omega)

/-- A word that has wrapped around once is off by the whole range. -/
theorem bmod_of_near (wide : 0 < w) {z : Int} (low : -2 * 2 ^ (w - 1) ≤ z) (high : z < 2 * 2 ^ (w - 1)) :
    z.bmod (2 ^ w) =
      if z < -2 ^ (w - 1) then z + 2 * 2 ^ (w - 1) else if z < 2 ^ (w - 1) then z else z - 2 * 2 ^ (w - 1) := by
  split_ifs with under inside
  · rw [← Int.add_bmod_right z, ← two_mul_range wide, bmod_of_fits wide ⟨by omega, by omega⟩]
  · exact bmod_of_fits wide ⟨by omega, inside⟩
  · rw [← Int.sub_bmod_right z, ← two_mul_range wide, bmod_of_fits wide ⟨by omega, by omega⟩]

/-- A test before the return makes an operation exact when it finds what does not fit. -/
theorem exact_of_test {test : Prop} [Decidable test] {s : BitVec w} {z : Int} (shown : Fits w z → s.toInt = z)
    (overflow : test ↔ ¬ Fits w z) : Exact z (if test then none else some s) := by
  split_ifs with found
  · refine ⟨?_, iff_of_true rfl (overflow.mp found)⟩
    intro s returned
    exact absurd returned.symm (Option.some_ne_none s)
  · have fits := of_not_not (mt overflow.mpr found)
    refine ⟨?_, iff_of_false (Option.some_ne_none s) (not_not.mpr fits)⟩
    intro s' returned
    rw [← Option.some.inj returned, shown fits]

/-- A word that wraps around shows the number that fits. -/
theorem shown_of_wraps (wide : 0 < w) {s : BitVec w} {z : Int} (wraps : s.toInt = z.bmod (2 ^ w))
    (fits : Fits w z) :
    s.toInt = z :=
  wraps.trans (bmod_of_fits wide fits)

theorem addv_exact (wide : 0 < w) (a b : BitVec w) : Exact (a.toInt + b.toInt) (addv a b) := by
  have wraps := BitVec.toInt_add a b
  obtain ⟨leastA, mostA⟩ := toInt_fits a
  obtain ⟨leastB, mostB⟩ := toInt_fits b
  have near := bmod_of_near wide (z := a.toInt + b.toInt) (by omega) (by omega)
  rw [← wraps] at near
  unfold addv
  dsimp only
  by_cases up : 0 ≤ b.toInt
  · rw [if_pos up]
    refine exact_of_test (shown_of_wraps wide wraps) ?_
    rw [near, Fits]
    split_ifs <;> omega
  · rw [if_neg up]
    refine exact_of_test (shown_of_wraps wide wraps) ?_
    rw [near, Fits]
    split_ifs <;> omega

theorem subv_exact (wide : 0 < w) (a b : BitVec w) : Exact (a.toInt - b.toInt) (subv a b) := by
  have wraps := @BitVec.toInt_sub w a b
  obtain ⟨leastA, mostA⟩ := toInt_fits a
  obtain ⟨leastB, mostB⟩ := toInt_fits b
  have near := bmod_of_near wide (z := a.toInt - b.toInt) (by omega) (by omega)
  rw [← wraps] at near
  unfold subv
  dsimp only
  by_cases up : 0 ≤ b.toInt
  · rw [if_pos up]
    refine exact_of_test (shown_of_wraps wide wraps) ?_
    rw [near, Fits]
    split_ifs <;> omega
  · rw [if_neg up]
    refine exact_of_test (shown_of_wraps wide wraps) ?_
    rw [near, Fits]
    split_ifs <;> omega

theorem MIN_eq (w : Nat) : MIN w = BitVec.intMin w := (BitVec.twoPow_eq w (w - 1)).symm

theorem toInt_MIN (wide : 0 < w) : (MIN w).toInt = -2 ^ (w - 1) := by
  rw [MIN_eq, BitVec.toInt_intMin_of_pos wide]

theorem eq_MIN_iff (wide : 0 < w) (a : BitVec w) : a = MIN w ↔ a.toInt = -2 ^ (w - 1) := by
  rw [← toInt_MIN wide, BitVec.toInt_inj]

theorem negv_exact (wide : 0 < w) (a : BitVec w) : Exact (-a.toInt) (negv a) := by
  obtain ⟨least, most⟩ := toInt_fits a
  refine exact_of_test (shown_of_wraps wide BitVec.toInt_neg) ?_
  rw [eq_MIN_iff wide, Fits]
  omega

/-- The magnitude of a word that has one. -/
theorem toInt_abs {a : BitVec w} (proper : a ≠ MIN w) :
    ((a ^^^ a.sshiftRight (w - 1)) - a.sshiftRight (w - 1)).toInt = |a.toInt| := by
  have magnitude : (a ^^^ a.sshiftRight (w - 1)) - a.sshiftRight (w - 1) = if a.msb then -a else a :=
    negateBy_sign a a
  rw [magnitude, BitVec.msb_eq_toInt]
  simp only [decide_eq_true_eq]
  split_ifs with negative
  · rw [BitVec.toInt_neg_of_ne_intMin (MIN_eq w ▸ proper), abs_of_neg negative]
  · rw [abs_of_nonneg (not_lt.mp negative)]

theorem absv_exact (wide : 0 < w) (a : BitVec w) : Exact |a.toInt| (absv a) := by
  obtain ⟨least, most⟩ := toInt_fits a
  refine exact_of_test (fun fits => toInt_abs ?_) ?_
  · rintro rfl
    rw [toInt_MIN wide, abs_neg, abs_of_nonneg (by positivity)] at fits
    exact absurd fits.2 (lt_irrefl _)
  · rw [eq_MIN_iff wide, Fits, abs_lt]
    by_cases negative : a.toInt < 0
    · rw [abs_of_neg negative]
      omega
    · rw [abs_of_nonneg (not_lt.mp negative)]
      omega

/-- The multiples of the least number that are no larger than the rest. -/
theorem not_fits_least_mul (wide : 1 < w) (z : Int) : ¬ Fits w (-2 ^ (w - 1) * z) ↔ z ≠ 0 ∧ z ≠ 1 := by
  have large : (1 : Int) < 2 ^ (w - 1) := one_lt_pow₀ one_lt_two (by omega)
  unfold Fits
  constructor
  · intro outside
    refine ⟨?_, ?_⟩
    · rintro rfl
      exact outside (by omega)
    · rintro rfl
      exact outside (by omega)
  · rintro ⟨zero, one⟩ ⟨least, most⟩
    rw [neg_mul] at least most
    obtain below | above : z ≤ -1 ∨ 2 ≤ z := by omega
    · have := mul_le_mul_of_nonneg_left below (zero_lt_one.trans large).le
      omega
    · have := mul_le_mul_of_nonneg_left above (zero_lt_one.trans large).le
      omega

/-- The product of numbers of one sign is bounded by the quotient of the largest number. -/
theorem not_fits_mul_iff {x y : Int} (positive : 0 < |y|) (same : x * y = |x| * |y|) :
    ¬ Fits w (x * y) ↔ (2 ^ (w - 1) - 1) / |y| < |x| := by
  have product : 0 ≤ |x| * |y| := by positivity
  have power : (0 : Int) < 2 ^ (w - 1) := by positivity
  rw [Int.ediv_lt_iff_lt_mul positive, same, Fits]
  omega

/-- The product of numbers of two signs is bounded by the quotient of the least number. -/
theorem not_fits_mul_neg_iff {x y : Int} (positive : 0 < |y|) (differ : x * y = -(|x| * |y|)) :
    ¬ Fits w (x * y) ↔ 2 ^ (w - 1) / |y| < |x| := by
  have product : 0 ≤ |x| * |y| := by positivity
  have power : (0 : Int) < 2 ^ (w - 1) := by positivity
  rw [Int.ediv_lt_iff_lt_mul positive, differ, Fits]
  omega

theorem mul_of_same {x y : Int} (same : x < 0 ↔ y < 0) : x * y = |x| * |y| := by
  by_cases negative : x < 0
  · rw [abs_of_neg negative, abs_of_neg (same.mp negative), neg_mul_neg]
  · rw [abs_of_nonneg (not_lt.mp negative), abs_of_nonneg (not_lt.mp (mt same.mpr negative))]

theorem mul_of_differ {x y : Int} (differ : ¬ (x < 0 ↔ y < 0)) : x * y = -(|x| * |y|) := by
  by_cases negative : x < 0
  · have other : 0 ≤ y := by omega
    rw [abs_of_neg negative, abs_of_nonneg other, neg_mul, neg_neg]
  · have other : y < 0 := by omega
    rw [abs_of_nonneg (not_lt.mp negative), abs_of_neg other, mul_neg, neg_neg]

/-- A factor below two keeps the product in the range. -/
theorem fits_mul_of_small {x y : Int} (bounded : |y| < 2 ^ (w - 1)) (small : |x| < 2) : Fits w (x * y) := by
  have product : |x * y| < 2 ^ (w - 1) := by
    rw [abs_mul]
    exact (mul_le_of_le_one_left (abs_nonneg y) (by omega)).trans_lt bounded
  exact ⟨(abs_lt.mp product).1.le, (abs_lt.mp product).2⟩

/-- The shifted signs of two words agree when their signs do. -/
theorem signs_eq_iff (wide : 0 < w) (a b : BitVec w) :
    a.sshiftRight (w - 1) = b.sshiftRight (w - 1) ↔ (a.toInt < 0 ↔ b.toInt < 0) := by
  have zero_ne : BitVec.allOnes w ≠ 0#w := by
    intro same
    have shown := congrArg BitVec.toInt same
    rw [BitVec.toInt_allOnes, if_pos wide, BitVec.toInt_zero] at shown
    omega
  have signA : a.sshiftRight (w - 1) = if a.msb then BitVec.allOnes w else 0#w := sign_eq a
  have signB : b.sshiftRight (w - 1) = if b.msb then BitVec.allOnes w else 0#w := sign_eq b
  rw [signA, signB, BitVec.msb_eq_toInt, BitVec.msb_eq_toInt]
  by_cases negA : a.toInt < 0 <;> by_cases negB : b.toInt < 0 <;> simp [negA, negB, zero_ne, zero_ne.symm]

/-- The quotients of the two bounds. -/
theorem toInt_max_sdiv (wide : 0 < w) (x : BitVec w) :
    ((~~~MIN w).sdiv x).toInt = (2 ^ (w - 1) - 1) / x.toInt := by
  have range := two_mul_range wide
  have power : (0 : Int) < 2 ^ (w - 1) := by positivity
  have largest : (~~~MIN w).toInt = 2 ^ (w - 1) - 1 := by
    have complement : (2 : Int) ^ w - 1 - ((MIN w).toNat : Int) = 2 ^ (w - 1) - 1 := by
      rw [MIN_eq, BitVec.toNat_intMin_of_pos wide]
      push_cast at range ⊢
      omega
    rw [BitVec.toInt_not, complement, bmod_of_fits wide ⟨by omega, by omega⟩]
  have proper : ~~~MIN w ≠ BitVec.intMin w := by
    intro same
    rw [same, BitVec.toInt_intMin_of_pos wide] at largest
    omega
  rw [BitVec.toInt_sdiv_of_ne_or_ne _ _ (.inl proper), largest, Int.tdiv_eq_ediv_of_nonneg (by omega)]

theorem toInt_min_sdiv_neg (wide : 1 < w) {x : BitVec w} (positive : 2 ≤ x.toInt) :
    ((MIN w).sdiv (-x)).toInt = 2 ^ (w - 1) / x.toInt := by
  have power : (0 : Int) < 2 ^ (w - 1) := by positivity
  have proper : x ≠ BitVec.intMin w := by
    rintro rfl
    rw [BitVec.toInt_intMin_of_pos (by omega)] at positive
    omega
  have negated := BitVec.toInt_neg_of_ne_intMin proper
  have notOne : -x ≠ -1#w := by
    intro same
    rw [neg_inj.mp same, BitVec.toInt_one wide] at positive
    omega
  rw [BitVec.toInt_sdiv_of_ne_or_ne _ _ (.inr notOne), negated, toInt_MIN (by omega), Int.neg_tdiv_neg,
    Int.tdiv_eq_ediv_of_nonneg power.le]

theorem mulOverflows_iff (wide : 1 < w) (a b : BitVec w) :
    mulOverflows a b = true ↔ ¬ Fits w (a.toInt * b.toInt) := by
  have positive : 0 < w := by omega
  have least : ∀ x : BitVec w, (x ≠ 0#w ∧ x ≠ 1#w) ↔ ¬ Fits w (-2 ^ (w - 1) * x.toInt) := by
    intro x
    rw [not_fits_least_mul wide, ← BitVec.toInt_one wide, ← @BitVec.toInt_zero w]
    simp only [ne_eq, BitVec.toInt_inj]
  unfold mulOverflows
  split_ifs with minA minB
  · rw [decide_eq_true_iff, least, (eq_MIN_iff positive a).mp minA]
  · rw [decide_eq_true_iff, least, (eq_MIN_iff positive b).mp minB, mul_comm]
  have absA := toInt_abs minA
  have absB := toInt_abs minB
  have inside : ∀ x : BitVec w, x ≠ MIN w → |x.toInt| < 2 ^ (w - 1) := by
    intro x proper
    have notLeast := mt (eq_MIN_iff positive x).mpr proper
    obtain ⟨least, most⟩ := toInt_fits x
    exact abs_lt.mpr ⟨by omega, most⟩
  dsimp only
  rw [absA, absB]
  split_ifs with small signs
  · refine iff_of_false not_false (not_not.mpr ?_)
    obtain smallA | smallB := small
    · exact fits_mul_of_small (inside b minB) smallA
    · rw [mul_comm]
      exact fits_mul_of_small (inside a minA) smallB
  · rw [decide_eq_true_iff, toInt_max_sdiv positive, absB]
    exact (not_fits_mul_iff (by omega) (mul_of_same ((signs_eq_iff positive a b).mp signs))).symm
  · rw [decide_eq_true_iff, toInt_min_sdiv_neg wide (by omega), absB]
    exact (not_fits_mul_neg_iff (by omega) (mul_of_differ (mt (signs_eq_iff positive a b).mpr signs))).symm

theorem mulv_exact (wide : 1 < w) (a b : BitVec w) : Exact (a.toInt * b.toInt) (mulv a b) :=
  exact_of_test (shown_of_wraps (by omega) (BitVec.toInt_mul a b)) (mulOverflows_iff wide a b)

/-- The checked operations of one width. -/
structure Family (w : Nat) where
  addv : BitVec w → BitVec w → Option (BitVec w)
  subv : BitVec w → BitVec w → Option (BitVec w)
  mulv : BitVec w → BitVec w → Option (BitVec w)
  negv : BitVec w → Option (BitVec w)
  absv : BitVec w → Option (BitVec w)
  mulo : BitVec w → BitVec w → BitVec w × Int

/-- Every operation is exact, and `*overflow` says whether the product is. -/
structure Family.Correct (family : Family w) : Prop where
  addv : ∀ a b, Exact (a.toInt + b.toInt) (family.addv a b)
  subv : ∀ a b, Exact (a.toInt - b.toInt) (family.subv a b)
  mulv : ∀ a b, Exact (a.toInt * b.toInt) (family.mulv a b)
  negv : ∀ a, Exact (-a.toInt) (family.negv a)
  absv : ∀ a, Exact |a.toInt| (family.absv a)
  mulo : ∀ a b, (family.mulo a b).1 = a * b ∧
    ((family.mulo a b).2 = 0 ∧ (family.mulo a b).1.toInt = a.toInt * b.toInt ∨
      (family.mulo a b).2 = 1 ∧ ¬ Fits w (a.toInt * b.toInt))

def siFamily : Family 32 := ⟨addvsi3, subvsi3, mulvsi3, negvsi2, absvsi2, mulosi4⟩

def diFamily : Family 64 := ⟨addvdi3, subvdi3, mulvdi3, negvdi2, absvdi2, mulodi4⟩

theorem mulo_returns (wide : 1 < w) (a b : BitVec w) : (mulo a b).2 = 0 ∧ (mulo a b).1.toInt = a.toInt * b.toInt ∨
    (mulo a b).2 = 1 ∧ ¬ Fits w (a.toInt * b.toInt) := by
  unfold mulo
  split_ifs with overflow
  · exact .inr ⟨rfl, (mulOverflows_iff wide a b).mp overflow⟩
  · have fits := of_not_not (mt (mulOverflows_iff wide a b).mpr overflow)
    exact .inl ⟨rfl, shown_of_wraps (by omega) (BitVec.toInt_mul a b) fits⟩

/-- The checked arithmetic of both widths. -/
theorem families_correct : siFamily.Correct ∧ diFamily.Correct := by
  constructor
  · exact ⟨addv_exact (by decide), subv_exact (by decide), mulv_exact (by decide), negv_exact (by decide),
      absv_exact (by decide), fun a b => ⟨rfl, mulo_returns (by decide) a b⟩⟩
  · exact ⟨addv_exact (by decide), subv_exact (by decide), mulv_exact (by decide), negv_exact (by decide),
      absv_exact (by decide), fun a b => ⟨rfl, mulo_returns (by decide) a b⟩⟩

end Upmem.CheckedArith
