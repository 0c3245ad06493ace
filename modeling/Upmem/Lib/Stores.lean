import Mathlib.Data.List.Basic
import Mathlib.Tactic.Ring

namespace Stores
variable {σ α β ι ℓ : Type}

/-- The record once its stores have been executed in order. -/
def perform (stores : List (σ → σ)) (s : σ) : σ :=
  stores.foldl (fun s store => store s) s

/-- The record that a program leaves when it is stopped after `n` of its stores. -/
def stoppedAfter (n : Nat) (stores : List (σ → σ)) (s : σ) : σ :=
  perform (stores.take n) s

/-- What a program computes, with the stores it executes on the way. -/
structure Traced (σ α : Type) where
  value : α
  stores : List (σ → σ)

/-- A single store. -/
def store (f : σ → σ) : Traced σ Unit :=
  ⟨(), [f]⟩

instance : Monad (Traced σ) where
  pure a := ⟨a, []⟩
  bind x f := ⟨(f x.value).value, x.stores ++ (f x.value).stores⟩

@[simp] theorem pure_value (a : α) : (pure a : Traced σ α).value = a := rfl
@[simp] theorem pure_stores (a : α) : (pure a : Traced σ α).stores = [] := rfl
@[simp] theorem bind_value (x : Traced σ α) (f : α → Traced σ β) : (x >>= f).value = (f x.value).value := rfl
@[simp] theorem bind_stores (x : Traced σ α) (f : α → Traced σ β) :
    (x >>= f).stores = x.stores ++ (f x.value).stores := rfl
@[simp] theorem store_stores (f : σ → σ) : (store f).stores = [f] := rfl

instance : LawfulMonad (Traced σ) :=
  LawfulMonad.mk' (Traced σ)
    (fun x => by simp [Functor.map])
    (fun a f => by simp [bind, pure])
    (fun x f g => by simp [bind])

/-- A loop whose local variables are known at every turn: it ends with the last
of them and executes the stores of its turns one after the other. -/
theorem foldlM_range {body : ℓ → Nat → Traced σ ℓ} {locals : Nat → ℓ} {turn : Nat → List (σ → σ)} {N : Nat}
    (turns : ∀ k < N, body (locals k) k = ⟨locals (k + 1), turn k⟩) :
    (List.range N).foldlM body (locals 0) = (⟨locals N, (List.range N).flatMap turn⟩ : Traced σ ℓ) := by
  induction N with
  | zero => rfl
  | succ N ih =>
    have earlier := ih fun k below => turns k (by omega)
    rw [List.range_succ, List.foldlM_append, earlier, List.flatMap_append]
    simp only [List.foldlM_cons, List.foldlM_nil, List.flatMap_cons, List.flatMap_nil, List.append_nil]
    change Traced.mk _ _ = _
    simp [turns N (by omega)]

theorem forM_store (f : ι → σ → σ) (xs : List ι) :
    (xs.forM fun i => store (f i)) = (⟨(), xs.map f⟩ : Traced σ Unit) := by
  induction xs with
  | nil => rfl
  | cons i xs ih => exact congrArg (store (f i) >>= fun _ => ·) ih

@[simp] theorem perform_nil (s : σ) : perform [] s = s := rfl
@[simp] theorem perform_cons (f : σ → σ) (stores : List (σ → σ)) (s : σ) :
    perform (f :: stores) s = perform stores (f s) := rfl

theorem perform_append (first second : List (σ → σ)) (s : σ) :
    perform (first ++ second) s = perform second (perform first s) :=
  List.foldl_append

@[simp] theorem stoppedAfter_zero (stores : List (σ → σ)) (s : σ) : stoppedAfter 0 stores s = s := rfl
@[simp] theorem stoppedAfter_succ (n : Nat) (f : σ → σ) (stores : List (σ → σ)) (s : σ) :
    stoppedAfter (n + 1) (f :: stores) s = stoppedAfter n stores (f s) := rfl

/-- One more store executed. -/
theorem stoppedAfter_next {n : Nat} {stores : List (σ → σ)} (inside : n < stores.length) (s : σ) :
    stoppedAfter (n + 1) stores s = stores[n] (stoppedAfter n stores s) := by
  rw [stoppedAfter, List.take_succ_eq_append_getElem inside, perform_append]
  rfl

theorem stoppedAfter_of_le {n : Nat} {stores : List (σ → σ)} (all : stores.length ≤ n) (s : σ) :
    stoppedAfter n stores s = perform stores s := by
  rw [stoppedAfter, List.take_of_length_le all]

/-- A program stopped in its second part has executed its first. -/
theorem stoppedAfter_append (n : Nat) (first second : List (σ → σ)) (s : σ) :
    stoppedAfter n (first ++ second) s =
      stoppedAfter (n - first.length) second (stoppedAfter n first s) := by
  rw [stoppedAfter, List.take_append, perform_append]
  rfl

theorem length_turns {turn : Nat → List (σ → σ)} {L N : Nat} (uniform : ∀ k < N, (turn k).length = L) :
    ((List.range N).flatMap turn).length = N * L := by
  induction N with
  | zero => simp
  | succ N ih =>
    rw [List.range_succ, List.flatMap_append, List.length_append, ih fun k below => uniform k (by omega)]
    simp only [List.flatMap_cons, List.flatMap_nil, List.append_nil, uniform N (by omega)]
    ring

/-- The record after all turns of a loop, from what each turn makes of it. -/
theorem perform_turns {turn : Nat → List (σ → σ)} {reached : Nat → σ} {N : Nat}
    (chain : ∀ k < N, perform (turn k) (reached k) = reached (k + 1)) :
    perform ((List.range N).flatMap turn) (reached 0) = reached N := by
  induction N with
  | zero => rfl
  | succ N ih =>
    rw [List.range_succ, List.flatMap_append, perform_append, ih fun k below => chain k (by omega)]
    simpa using chain N (by omega)

/-- A loop whose turns have the same number of stores, stopped somewhere: the
turns before are complete, and the turn it is in has begun. -/
theorem stoppedAfter_turns {turn : Nat → List (σ → σ)} {reached : Nat → σ} {L N n : Nat}
    (uniform : ∀ k < N, (turn k).length = L) (chain : ∀ k < N, perform (turn k) (reached k) = reached (k + 1))
    (inside : n < N * L) :
    stoppedAfter n ((List.range N).flatMap turn) (reached 0) =
      stoppedAfter (n % L) (turn (n / L)) (reached (n / L)) := by
  have positive : 0 < L := Nat.pos_of_ne_zero fun zero => by simp [zero] at inside
  have at_turn : n / L < N := (Nat.div_lt_iff_lt_mul positive).mpr inside
  obtain ⟨rest, total⟩ := Nat.exists_eq_add_of_lt at_turn
  have split : (List.range N).flatMap turn = (List.range (n / L)).flatMap turn ++ (turn (n / L) ++
      ((List.range rest).flatMap fun k => turn (n / L + (k + 1)))) := by
    rw [total, Nat.add_assoc, List.range_add, List.flatMap_append, List.range_succ_eq_map]
    simp [List.flatMap_map]
  have before := length_turns fun k below => uniform k (below.trans at_turn)
  have here := uniform _ at_turn
  have divided := Nat.div_add_mod n L
  have small := Nat.mod_lt n positive
  have past : stoppedAfter n ((List.range (n / L)).flatMap turn) (reached 0) = reached (n / L) := by
    rw [stoppedAfter_of_le (by rw [before, Nat.mul_comm]; omega)]
    exact perform_turns fun k below => chain k (below.trans at_turn)
  have offset : n - n / L * L = n % L := by
    rw [Nat.mul_comm]
    omega
  rw [split, stoppedAfter_append, stoppedAfter_append, before, here, past, offset, Nat.sub_eq_zero_of_le small.le,
    stoppedAfter_zero]

end Stores
