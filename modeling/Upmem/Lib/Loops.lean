import Mathlib.Algebra.BigOperators.Intervals
import Mathlib.Tactic.Ring

namespace Loops
open Finset

/-- The values of a loop counter that starts at `i`, goes up by `step` and
stays below `bound`. -/
def counted (step bound i : Nat) : List Nat :=
  if i < bound ∧ 0 < step then i :: counted step bound (i + step) else []
termination_by bound - i

/-- The value of the counter that ends the loop. -/
def exitValue (step bound i : Nat) : Nat :=
  i + step * (counted step bound i).length

/-- A counter that starts inside the first of `m` strides visits one value in
each of the strides that are left. -/
theorem counted_eq_map {step a : Nat} (inside : a < step) (m k : Nat) :
    counted step (m * step) (a + k * step) = (List.range (m - k)).map fun d => a + (k + d) * step := by
  induction left : m - k generalizing k with
  | zero =>
    have past : ¬ a + k * step < m * step := by
      have := Nat.mul_le_mul_right step (show m ≤ k by omega)
      omega
    rw [counted, if_neg fun both => past both.1]
    rfl
  | succ left' ih =>
    have below : a + k * step < m * step := by
      have := Nat.mul_le_mul_right step (show k + 1 ≤ m by omega)
      rw [Nat.add_mul, Nat.one_mul] at this
      omega
    have next : a + k * step + step = a + (k + 1) * step := by ring
    rw [counted, if_pos ⟨below, by omega⟩, next, ih (k + 1) (by omega), List.range_succ_eq_map, List.map_cons,
      List.map_map]
    congr 1
    refine List.map_congr_left fun d _ => ?_
    simp only [Function.comp, Nat.succ_eq_add_one]
    ring

theorem counted_one (bound i : Nat) : counted 1 bound i = (List.range (bound - i)).map (i + ·) := by
  simpa only [Nat.mul_one, Nat.zero_add] using counted_eq_map Nat.zero_lt_one bound i

theorem exitValue_eq {step a m k : Nat} (inside : a < step) (left : k ≤ m) :
    exitValue step (m * step) (a + k * step) = a + m * step := by
  rw [exitValue, counted_eq_map inside, List.length_map, List.length_range]
  obtain ⟨d, rfl⟩ := Nat.exists_eq_add_of_le left
  rw [Nat.add_sub_cancel_left]
  ring

/-- A loop that settles one index after the other: what a turn keeps holds at
the end, of every index visited and of every index settled before. -/
theorem foldl_settles {σ κ : Type} (f : σ → κ → σ) (kept : σ → Prop) (settled : σ → κ → Prop) (xs : List κ)
    (turn : ∀ s, ∀ x ∈ xs, kept s → kept (f s x) ∧ settled (f s x) x ∧ ∀ y, settled s y → settled (f s x) y)
    {s : σ} (start : kept s) :
    kept (xs.foldl f s) ∧ (∀ x ∈ xs, settled (xs.foldl f s) x) ∧ ∀ y, settled s y → settled (xs.foldl f s) y := by
  induction xs generalizing s with
  | nil => exact ⟨start, by simp, fun _ => id⟩
  | cons x xs ih =>
    obtain ⟨now, here, others⟩ := turn s x List.mem_cons_self start
    obtain ⟨after, visited, earlier⟩ := ih (fun s y member => turn s y (List.mem_cons_of_mem _ member)) now
    refine ⟨after, ?_, fun y old => earlier y (others y old)⟩
    rw [List.forall_mem_cons]
    exact ⟨earlier x here, visited⟩

/-- A step on functions that writes one value wherever a condition holds and changes nothing elsewhere. -/
def Writes {κ β : Type} (f : (κ → β) → κ → β) (written : κ → Prop) (value : β) : Prop :=
  ∀ s k, (written k → f s k = value) ∧ (¬written k → f s k = s k)

theorem Writes.congr {κ β : Type} {f : (κ → β) → κ → β} {written other : κ → Prop} {value : β}
    (same : ∀ k, written k ↔ other k) (writes : Writes f written value) : Writes f other value :=
  funext (fun k => propext (same k)) ▸ writes

/-- A loop of such steps writes the value wherever one of its turns does. -/
theorem Writes.foldl {κ β ι : Type} {f : (κ → β) → ι → κ → β} {written : ι → κ → Prop} {value : β} {turns : List ι}
    (turn : ∀ i ∈ turns, Writes (f · i) (written i) value) :
    Writes (fun s => turns.foldl f s) (fun k => ∃ i ∈ turns, written i k) value := by
  induction turns with
  | nil => exact fun s k => ⟨by simp, fun _ => rfl⟩
  | cons i rest ih =>
    obtain ⟨now, later⟩ := List.forall_mem_cons.mp turn
    intro s k
    obtain ⟨hit, miss⟩ := ih later (f s i) k
    dsimp only at hit miss
    simp only [List.exists_mem_cons_iff, List.foldl_cons]
    by_cases again : ∃ j ∈ rest, written j k
    · exact ⟨fun _ => hit again, fun never => absurd (.inr again) never⟩
    · rw [miss again]
      exact ⟨fun some => (now s k).1 (some.resolve_right again), fun never => (now s k).2 fun here =>
        never (.inl here)⟩

theorem Writes.update {κ β : Type} [DecidableEq κ] (place : κ) (value : β) :
    Writes (fun s => Function.update s place value) (· = place) value :=
  fun s k => ⟨fun here => by simp [here], fun other => by simp [other]⟩

variable {M ι : Type} [AddCommMonoid M]

/-- An accumulator that adds a term at every turn. -/
theorem foldl_add (f : ι → M) (xs : List ι) (start : M) :
    xs.foldl (fun total i => total + f i) start = start + (xs.map f).sum := by
  induction xs generalizing start with
  | nil => simp
  | cons i xs ih => rw [List.foldl_cons, ih, List.map_cons, List.sum_cons, add_assoc]

theorem foldl_add_range (f : Nat → M) (n : Nat) (start : M) :
    (List.range n).foldl (fun total i => total + f i) start = start + ∑ i ∈ range n, f i :=
  foldl_add f (List.range n) start

/-- The exclusive or of the first `n` values of a function. -/
def xorRange {w : Nat} (f : Nat → BitVec w) : Nat → BitVec w
  | 0 => 0
  | n + 1 => xorRange f n ^^^ f n

variable {w : Nat}

theorem foldl_xor (f : ι → BitVec w) (xs : List ι) (start : BitVec w) :
    xs.foldl (fun sum i => sum ^^^ f i) start = start ^^^ xs.foldl (fun sum i => sum ^^^ f i) 0 := by
  induction xs generalizing start with
  | nil => simp
  | cons i xs ih =>
    rw [List.foldl_cons, List.foldl_cons, ih, ih (0 ^^^ f i), BitVec.xor_assoc]
    simp

theorem foldl_xor_range (f : Nat → BitVec w) (n : Nat) :
    (List.range n).foldl (fun sum i => sum ^^^ f i) 0 = xorRange f n := by
  induction n with
  | zero => rfl
  | succ n ih => rw [List.range_succ, List.foldl_append, ih, xorRange, List.foldl_cons, List.foldl_nil]

theorem xorRange_add (f : Nat → BitVec w) (m n : Nat) :
    xorRange f (m + n) = xorRange f m ^^^ xorRange (fun i => f (m + i)) n := by
  induction n with
  | zero => simp [xorRange]
  | succ n ih => rw [← Nat.add_assoc, xorRange, ih, xorRange, BitVec.xor_assoc]

/-- A value met an even number of times cancels out. -/
theorem xorRange_const (v : BitVec w) (n : Nat) : xorRange (fun _ => v) n = if n % 2 = 1 then v else 0 := by
  induction n with
  | zero => rfl
  | succ n ih =>
    rw [xorRange, ih]
    by_cases odd : n % 2 = 1
    · rw [if_pos odd, if_neg (by omega), BitVec.xor_self]
      rfl
    · rw [if_neg odd, if_pos (by omega)]
      simp

end Loops
