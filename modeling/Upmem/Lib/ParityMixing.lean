import Mathlib

namespace ParityMixing
variable {G : Type} [AddCommGroup G]

/-- Every bit with the bits at two distances behind it. -/
def mix (a b : G) (c : G → Bool) : G → Bool := fun g => c g ^^ c (g - a) ^^ c (g - b)

variable {a b : G}

/-- Twice is the same with the distances doubled: the other bits meet themselves. -/
theorem mix_mix (c : G → Bool) : mix a b (mix a b c) = mix (a + a) (b + b) c := by
  funext g
  have cross : g - a - b = g - b - a := sub_right_comm ..
  simp only [mix, ← sub_sub, cross]
  cases c g <;> cases c (g - a) <;> cases c (g - b) <;> cases c (g - b - a) <;> cases c (g - a - a) <;>
    cases c (g - b - b) <;> rfl

theorem iterate_mix (n : Nat) : (mix a b)^[2 ^ n] = mix (2 ^ n • a) (2 ^ n • b) := by
  induction n with
  | zero => simp
  | succ n ih =>
    funext c
    have double : 2 ^ (n + 1) = 2 ^ n + 2 ^ n := by rw [pow_succ, Nat.mul_two]
    rw [double, Function.iterate_add, Function.comp_apply, ih, mix_mix, add_nsmul, add_nsmul]

/-- The mixing loses nothing if it loses nothing after some doublings of the distances. -/
theorem mix_injective (n : Nat) (later : Function.Injective (mix (2 ^ n • a) (2 ^ n • b))) :
    Function.Injective (mix a b) := by
  rw [← iterate_mix] at later
  exact Function.Injective.of_comp (f := (mix a b)^[2 ^ n - 1]) (by
    rwa [← Function.iterate_succ, Nat.succ_eq_add_one, Nat.sub_add_cancel Nat.one_le_two_pow])

end ParityMixing
