import Mathlib.Data.Nat.Basic

namespace Tokens

variable {α : Type} (delimits : α → Bool)

/-- The runs between delimiters that are not empty. -/
def tokens (text : List α) : List (List α) := (text.splitOnP delimits).filter fun piece => !piece.isEmpty

variable {delimits}

theorem tokens_cons {c : α} (delimiter : delimits c) (text : List α) :
    tokens delimits (c :: text) = tokens delimits text := by
  rw [tokens, List.splitOnP_cons_eq_if_modifyHead, if_pos delimiter]
  rfl

/-- Delimiters before a run are skipped. -/
theorem tokens_dropWhile (text : List α) : tokens delimits (text.dropWhile delimits) = tokens delimits text := by
  induction text with
  | nil => rfl
  | cons c text ih =>
    by_cases delimiter : delimits c
    · rw [List.dropWhile_cons_of_pos delimiter, ih, tokens_cons delimiter]
    · rw [List.dropWhile_cons_of_neg delimiter]

variable {word : List α} (plain : ∀ c ∈ word, delimits c = false) (nonempty : word ≠ [])
include plain nonempty

theorem tokens_word {c : α} (delimiter : delimits c) (text : List α) :
    tokens delimits (word ++ c :: text) = word :: tokens delimits text := by
  rw [tokens, List.splitOnP_append_cons_of_forall_mem plain c delimiter, List.filter_cons_of_pos]
  · rfl
  · simpa using nonempty

theorem tokens_last : tokens delimits word = [word] := by
  rw [tokens, List.splitOnP_eq_singleton plain, List.filter_cons_of_pos]
  · rfl
  · simpa using nonempty

end Tokens
