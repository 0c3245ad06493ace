import Mathlib.Data.List.Basic

namespace Views
variable {σ β ι : Type} {step : σ → ι → σ} (view : σ → β) {turns : List ι} {i : ι} {value : β}

/-- What no turn of a loop changes is as it was. -/
theorem foldl_keeps (keeps : ∀ s, ∀ j ∈ turns, view (step s j) = view s) (s : σ) :
    view (turns.foldl step s) = view s := by
  induction turns generalizing s with
  | nil => rfl
  | cons j rest ih =>
    have later : ∀ s, ∀ k ∈ rest, view (step s k) = view s :=
      fun s k member => keeps s k (List.mem_cons_of_mem j member)
    rw [List.foldl_cons, ih later, keeps s j List.mem_cons_self]

/-- What one turn writes and no other changes is there once the loop has ended. -/
theorem foldl_writes (member : i ∈ turns) (writes : ∀ s, view (step s i) = value)
    (keeps : ∀ s, ∀ j ∈ turns, j ≠ i → view (step s j) = view s) (s : σ) : view (turns.foldl step s) = value := by
  induction turns generalizing s with
  | nil => simp at member
  | cons j rest ih =>
    have later : ∀ s, ∀ k ∈ rest, k ≠ i → view (step s k) = view s :=
      fun s k inside => keeps s k (List.mem_cons_of_mem j inside)
    rw [List.foldl_cons]
    by_cases again : i ∈ rest
    · exact ih again later (step s j)
    · have here : i = j := (List.mem_cons.mp member).resolve_right again
      have untouched : ∀ s, ∀ k ∈ rest, view (step s k) = view s :=
        fun s k inside => later s k inside fun same => again (same ▸ inside)
      rw [foldl_keeps view untouched, ← here, writes]

end Views
