import Mathlib.Data.List.Count
import Mathlib.Data.List.Perm.Basic

namespace Ledger
universe u

/-- What a program does with a resource. -/
inductive Event (ρ : Type u)
  | acquire (resource : ρ)
  | release (resource : ρ)
  deriving DecidableEq

variable {ρ : Type u} [DecidableEq ρ]

/-- How often each resource of a list is held. -/
def holding (resources : List ρ) : ρ → Nat := fun resource => resources.count resource

/-- The resources that are held after some events. There is no result when one is released that is not held. -/
def replay : (ρ → Nat) → List (Event ρ) → Option (ρ → Nat)
  | held, [] => some held
  | held, .acquire resource :: events => replay (Function.update held resource (held resource + 1)) events
  | held, .release resource :: events =>
    if held resource = 0 then none else replay (Function.update held resource (held resource - 1)) events

variable {resources resources' : List ρ} {resource : ρ} (events events' : List (Event ρ))

theorem holding_perm (same : resources.Perm resources') : holding resources = holding resources' :=
  funext fun resource => same.count_eq resource

@[simp] theorem replay_nil (held : ρ → Nat) : replay held [] = some held := rfl

@[simp] theorem replay_acquire :
    replay (holding resources) (.acquire resource :: events) = replay (holding (resource :: resources)) events := by
  rw [replay]
  congr 1
  funext other
  by_cases same : other = resource
  · subst same
    simp [holding]
  · simp [holding, same, List.count_cons_of_ne (Ne.symm same)]

@[simp] theorem replay_release :
    replay (holding (resource :: resources)) (.release resource :: events) = replay (holding resources) events := by
  rw [replay, if_neg (by simp [holding])]
  congr 1
  funext other
  by_cases same : other = resource
  · subst same
    simp [holding]
  · simp [holding, same, List.count_cons_of_ne (Ne.symm same)]

theorem replay_release_none (absent : resource ∉ resources) :
    replay (holding resources) (.release resource :: events) = none := by
  have none_held : holding resources resource = 0 := List.count_eq_zero_of_not_mem absent
  rw [replay, if_pos none_held]

theorem replay_append (held : ρ → Nat) :
    replay held (events ++ events') = (replay held events).bind (replay · events') := by
  induction events generalizing held with
  | nil => rfl
  | cons event events ih =>
    cases event with
    | acquire resource => exact ih _
    | release resource =>
      rw [List.cons_append, replay, replay]
      split
      · rfl
      · exact ih _

theorem holding_inj_nil (empty : holding resources = holding []) : resources = [] := by
  refine List.eq_nil_iff_forall_not_mem.mpr fun resource member => ?_
  have count := congrFun empty resource
  have positive := List.count_pos_iff.mpr member
  simp only [holding, List.count_nil] at count
  omega

end Ledger
