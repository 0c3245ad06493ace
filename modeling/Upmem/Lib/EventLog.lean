import Mathlib.Data.List.Basic

namespace EventLog

/-- Something of a kind that an agent does, or that is done to it, at an object. -/
structure Event (κ τ ι : Type) where
  kind : κ
  agent : τ
  object : ι

variable {κ τ ι : Type} [DecidableEq κ] [DecidableEq ι]

/-- The agents of the events of a kind at an object, in order. -/
def logged (log : List (Event κ τ ι)) (kind : κ) (object : ι) : List τ :=
  (log.filter fun event => event.kind = kind ∧ event.object = object).map Event.agent

variable {log : List (Event κ τ ι)} {kind kind' : κ} {agent : τ} {object object' : ι}

@[simp] theorem logged_nil : logged ([] : List (Event κ τ ι)) kind object = [] := rfl

theorem logged_concat : logged (log ++ [⟨kind', agent, object'⟩]) kind object =
    logged log kind object ++ if kind' = kind ∧ object' = object then [agent] else [] := by
  rw [logged, List.filter_append, List.map_append, ← logged]
  by_cases same : kind' = kind ∧ object' = object <;> simp [same]

@[simp] theorem logged_concat_self :
    logged (log ++ [⟨kind, agent, object⟩]) kind object = logged log kind object ++ [agent] := by
  rw [logged_concat, if_pos ⟨rfl, rfl⟩]

theorem logged_concat_of_kind (ne : kind' ≠ kind) :
    logged (log ++ [⟨kind', agent, object'⟩]) kind object = logged log kind object := by
  rw [logged_concat, if_neg fun same => ne same.1, List.append_nil]

theorem logged_concat_of_object (ne : object' ≠ object) :
    logged (log ++ [⟨kind', agent, object'⟩]) kind object = logged log kind object := by
  rw [logged_concat, if_neg fun same => ne same.2, List.append_nil]

theorem logged_length_concat : (logged (log ++ [⟨kind', agent, object'⟩]) kind object).length =
    (logged log kind object).length + if kind' = kind ∧ object' = object then 1 else 0 := by
  rw [logged_concat, List.length_append]
  split <;> rfl

end EventLog
