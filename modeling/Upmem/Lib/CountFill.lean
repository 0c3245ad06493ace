import Mathlib.Data.List.Basic
import Mathlib.Tactic.SplitIfs

namespace CountFill
universe u v
variable {α : Type u}

/-- A block after `realloc`: what fits stays, and the cells behind it were never written. -/
def resize (cells : List (Option α)) (n : Nat) : List (Option α) :=
  cells.take n ++ List.replicate (n - cells.length) none

theorem resize_grown {cells : List (Option α)} {n : Nat} (grows : cells.length ≤ n) :
    resize cells n = cells ++ List.replicate (n - cells.length) none := by
  rw [resize, List.take_of_length_le grows]

/-- The next cell of a block that is filled from its front. -/
theorem set_next {filled room : List α} {a : α} (fits : 0 < room.length) :
    (filled ++ room).set filled.length a = filled ++ [a] ++ room.drop 1 := by
  cases room with
  | nil => exact absurd fits (Nat.lt_irrefl 0)
  | cons first rest =>
    rw [List.set_append_right filled.length a (Nat.le_refl _), Nat.sub_self, List.append_assoc]
    rfl

/-- What a pass finds in the first positions. -/
def found (site : Nat → Option α) (n : Nat) : List α := (List.range n).filterMap site

theorem found_succ (site : Nat → Option α) (n : Nat) : found site (n + 1) = found site n ++ (site n).toList := by
  rw [found, List.range_succ, List.filterMap_append, found]
  cases atSite : site n <;> simp [atSite]

theorem found_mono (site : Nat → Option α) {m n : Nat} (fewer : m ≤ n) :
    (found site m).length ≤ (found site n).length := by
  induction fewer with
  | refl => exact Nat.le_refl _
  | step _ ih =>
    rw [found_succ, List.length_append]
    exact Nat.le_trans ih (Nat.le_add_right _ _)

/-- What another pass counts. -/
def tally (hit : Nat → Bool) (n : Nat) : Nat := (List.range n).countP hit

theorem tally_succ (hit : Nat → Bool) (n : Nat) : tally hit (n + 1) = tally hit n + (hit n).toNat := by
  rw [tally, List.range_succ, List.countP_append, tally]
  cases found : hit n <;> simp [found]

section Passes
variable {site : Nat → Option α} {hit : Nat → Bool} {n : Nat}

/-- A pass that writes only where the other counts writes at most as much. -/
theorem found_le_tally (sound : ∀ k < n, (site k).isSome → hit k) : (found site n).length ≤ tally hit n := by
  induction n with
  | zero => exact Nat.le_refl 0
  | succ n ih =>
    have before := ih fun k small => sound k (Nat.lt_succ_of_lt small)
    have here := sound n (Nat.lt_succ_self n)
    rw [found_succ, tally_succ, List.length_append]
    cases atSite : site n with
    | none => exact Nat.le_trans before (Nat.le_add_right _ _)
    | some a =>
      rw [atSite] at here
      rw [here rfl]
      exact Nat.succ_le_succ before

/-- A pass that writes exactly where the other counts fills what was counted. -/
theorem found_eq_tally (exact_ : ∀ k < n, (site k).isSome = hit k) : (found site n).length = tally hit n := by
  induction n with
  | zero => rfl
  | succ n ih =>
    have before := ih fun k small => exact_ k (Nat.lt_succ_of_lt small)
    rw [found_succ, tally_succ, List.length_append, before, ← exact_ n (Nat.lt_succ_self n)]
    cases site n <;> rfl

theorem tally_le (hit : Nat → Bool) (n : Nat) : tally hit n ≤ n := by
  have bound := List.countP_le_length (p := hit) (l := List.range n)
  rwa [List.length_range] at bound

end Passes

/-- The first positions that a pass of single steps has gone over. -/
theorem foldl_range_inv {σ : Type v} {P : Nat → σ → Prop} {step : σ → Nat → σ} {s : σ} {n : Nat} (initial : P 0 s)
    (kept : ∀ k < n, ∀ s, P k s → P (k + 1) (step s k)) : P n ((List.range n).foldl step s) := by
  induction n with
  | zero => exact initial
  | succ n ih =>
    rw [List.range_succ, List.foldl_append]
    exact kept n (Nat.lt_succ_self n) _ (ih fun k small => kept k (Nat.lt_succ_of_lt small))

end CountFill
