import Mathlib.Logic.Basic
import Mathlib.Data.List.Basic

namespace Transitions
universe u v
variable {σ : Type u} {α : Type v}

/-- One step of a run: the state it starts from, the action taken and the state it leads to. -/
structure Transition (σ : Type u) (α : Type v) where
  before : σ
  action : α
  after : σ

/-- A finite run of a labelled step relation. The history lists its
transitions with the latest first. -/
inductive Run (step : σ → α → σ → Prop) (start : σ) : List (Transition σ α) → σ → Prop
  | start : Run step start [] start
  | next {history s a t} : Run step start history s → step s a t → Run step start (⟨s, a, t⟩ :: history) t

/-- The states reached by some run. -/
def Reachable (step : σ → α → σ → Prop) (start s : σ) : Prop :=
  ∃ history, Run step start history s

variable {step : σ → α → σ → Prop} {start s : σ} {history : List (Transition σ α)}

theorem Run.next_eq {a : α} {t u : σ} (run : Run step start history s) (taken : step s a t) (same : t = u) :
    Run step start (⟨s, a, u⟩ :: history) u :=
  same ▸ run.next taken

theorem Run.reachable (run : Run step start history s) : Reachable step start s :=
  ⟨history, run⟩

/-- Every transition of a run is a step between states the run reaches. -/
theorem Run.transition_step (run : Run step start history s) {τ : Transition σ α} (member : τ ∈ history) :
    Reachable step start τ.before ∧ step τ.before τ.action τ.after := by
  induction run with
  | start => simp at member
  | next previous taken ih =>
    rcases List.mem_cons.mp member with rfl | earlier
    · exact ⟨previous.reachable, taken⟩
    · exact ih earlier

theorem Reachable.next {a : α} {t : σ} (reach : Reachable step start s) (taken : step s a t) :
    Reachable step start t :=
  let ⟨_, run⟩ := reach
  (run.next taken).reachable

theorem Reachable.invariant {P : σ → Prop} (initial : P start)
    (preserved : ∀ s a t, P s → step s a t → P t) (reach : Reachable step start s) : P s := by
  obtain ⟨history, run⟩ := reach
  induction run with
  | start => exact initial
  | next _ taken ih => exact preserved _ _ _ ih taken

/-- A property kept by every step that meets a condition holds all along a
run whose steps all meet it. The side invariant holds unconditionally. -/
theorem Run.guarded {I P : σ → Prop} {Good : Transition σ α → Prop}
    (sideInitial : I start) (side : ∀ s a t, I s → step s a t → I t) (initial : P start)
    (preserved : ∀ s a t, I s → P s → step s a t → Good ⟨s, a, t⟩ → P t)
    (run : Run step start history s) (good : ∀ τ ∈ history, Good τ) :
    P s ∧ ∀ τ ∈ history, P τ.after := by
  induction run with
  | start => exact ⟨initial, by simp⟩
  | @next earlier before a after previous taken ih =>
    obtain ⟨atBefore, along⟩ := ih (fun τ member => good τ (List.mem_cons_of_mem _ member))
    have sideBefore : I before := previous.reachable.invariant sideInitial side
    have atAfter : P after := preserved _ _ _ sideBefore atBefore taken (good _ List.mem_cons_self)
    refine ⟨atAfter, ?_⟩
    intro τ member
    rcases List.mem_cons.mp member with rfl | old
    · exact atAfter
    · exact along τ old

/-- When a step from a state with the property keeps it exactly if the step
meets the condition, the property holds all along a run exactly if every
step of the run meets the condition. Another property that such steps keep
may be used for it. -/
theorem Run.guarded_iff_of {I P Q : σ → Prop} {Good : Transition σ α → Prop}
    (sideInitial : I start) (side : ∀ s a t, I s → step s a t → I t) (initial : P start) (otherInitial : Q start)
    (exact_step : ∀ s a t, I s → Q s → P s → step s a t → (P t ↔ Good ⟨s, a, t⟩))
    (other : ∀ s a t, I s → Q s → step s a t → Good ⟨s, a, t⟩ → Q t) (run : Run step start history s) :
    (∀ τ ∈ history, P τ.after) ↔ ∀ τ ∈ history, Good τ := by
  constructor
  · intro along
    suffices both : Q s ∧ ∀ τ ∈ history, Good τ from both.2
    induction run with
    | start => exact ⟨otherInitial, by simp⟩
    | @next earlier before a after previous taken ih =>
      have sideBefore : I before := previous.reachable.invariant sideInitial side
      obtain ⟨atAfter, rest⟩ := List.forall_mem_cons.mp along
      obtain ⟨otherBefore, good⟩ := ih rest
      have atBefore : P before := by
        cases previous with
        | start => exact initial
        | next _ _ => exact rest _ List.mem_cons_self
      have now := (exact_step _ _ _ sideBefore otherBefore atBefore taken).mp atAfter
      exact ⟨other _ _ _ sideBefore otherBefore taken now, List.forall_mem_cons.mpr ⟨now, good⟩⟩
  · intro good τ member
    refine ((run.guarded (P := fun s => P s ∧ Q s) sideInitial side ⟨initial, otherInitial⟩ ?_ good).2 τ member).1
    intro u b v sideBefore both taken now
    exact ⟨(exact_step _ _ _ sideBefore both.2 both.1 taken).mpr now, other _ _ _ sideBefore both.2 taken now⟩

theorem Run.guarded_iff {I P : σ → Prop} {Good : Transition σ α → Prop}
    (sideInitial : I start) (side : ∀ s a t, I s → step s a t → I t) (initial : P start)
    (exact_step : ∀ s a t, I s → P s → step s a t → (P t ↔ Good ⟨s, a, t⟩))
    (run : Run step start history s) :
    (∀ τ ∈ history, P τ.after) ↔ ∀ τ ∈ history, Good τ :=
  run.guarded_iff_of (Q := fun _ => True) sideInitial side initial trivial
    (fun _ _ _ sideBefore _ => exact_step _ _ _ sideBefore) fun _ _ _ _ _ _ _ => trivial

/-- A property of transitions that leaves every state good: from a good state
a step has it exactly if it meets the condition, so all steps of a run have it
exactly if all meet the condition. -/
theorem Run.guarded_transition_iff {I Q : σ → Prop} {P Good : Transition σ α → Prop}
    (sideInitial : I start) (side : ∀ s a t, I s → step s a t → I t) (initial : Q start)
    (keeps : ∀ τ, P τ → Q τ.after)
    (exact_step : ∀ s a t, I s → Q s → step s a t → (P ⟨s, a, t⟩ ↔ Good ⟨s, a, t⟩))
    (run : Run step start history s) : (∀ τ ∈ history, P τ) ↔ ∀ τ ∈ history, Good τ := by
  have last {past : List (Transition σ α)} {u : σ} (before : Run step start past u) (along : ∀ τ ∈ past,
      P τ) : Q u := by
    cases before with
    | start => exact initial
    | next _ _ => exact keeps _ (along _ List.mem_cons_self)
  induction run with
  | start => simp
  | @next earlier before a after previous taken ih =>
    have sideBefore : I before := previous.reachable.invariant sideInitial side
    simp only [List.forall_mem_cons]
    constructor
    · rintro ⟨now, along⟩
      exact ⟨(exact_step _ _ _ sideBefore (last previous along) taken).mp now, ih.mp along⟩
    · rintro ⟨now, good⟩
      have along := ih.mpr good
      exact ⟨(exact_step _ _ _ sideBefore (last previous along) taken).mpr now, along⟩

/-- A property of single transitions that a side invariant decides step by
step is decided for the whole run. -/
theorem Run.forall_transition_iff {I : σ → Prop} {P Good : Transition σ α → Prop}
    (sideInitial : I start) (side : ∀ s a t, I s → step s a t → I t)
    (exact_step : ∀ s a t, I s → step s a t → (P ⟨s, a, t⟩ ↔ Good ⟨s, a, t⟩))
    (run : Run step start history s) : (∀ τ ∈ history, P τ) ↔ ∀ τ ∈ history, Good τ := by
  refine forall₂_congr fun τ member => ?_
  obtain ⟨reach, taken⟩ := run.transition_step member
  exact exact_step _ _ _ (reach.invariant sideInitial side) taken

/-- When every step that meets a condition leads from a good state to a good
one and has a property, all steps of a run that meets the condition have it. -/
theorem Run.guarded_transitions {Q : σ → Prop} {P Good : Transition σ α → Prop} (initial : Q start)
    (kept : ∀ s a t, Q s → step s a t → Good ⟨s, a, t⟩ → Q t ∧ P ⟨s, a, t⟩)
    (run : Run step start history s) (good : ∀ τ ∈ history, Good τ) : Q s ∧ ∀ τ ∈ history, P τ := by
  induction run with
  | start => exact ⟨initial, by simp⟩
  | @next earlier before a after previous taken ih =>
    obtain ⟨now, earlierGood⟩ := List.forall_mem_cons.mp good
    obtain ⟨atBefore, along⟩ := ih earlierGood
    obtain ⟨atAfter, property⟩ := kept _ _ _ atBefore taken now
    exact ⟨atAfter, List.forall_mem_cons.mpr ⟨property, along⟩⟩

/-- Executing a list of actions with a step function, the first action first. -/
def execute (f : σ → α → Option σ) : List α → σ → Option σ
  | [], s => some s
  | a :: actions, s => (f s a).bind (execute f actions)

/-- The actions an execution takes form a run. -/
theorem execute_run {f : σ → α → Option σ} {actions : List α} {t : σ} (executed : execute f actions s = some t) :
    ∃ history, Run (fun s a t => f s a = some t) s history t := by
  have extend (actions : List α) (u : σ) (past : List (Transition σ α))
      (previous : Run (fun s a t => f s a = some t) s past u) (executed : execute f actions u = some t) :
      ∃ history, Run (fun s a t => f s a = some t) s history t := by
    induction actions generalizing u past with
    | nil =>
      obtain rfl := Option.some.inj executed
      exact ⟨past, previous⟩
    | cons a actions ih =>
      obtain ⟨next, taken, rest⟩ := Option.bind_eq_some_iff.mp executed
      exact ih next _ (previous.next taken) rest
  exact extend actions s [] .start executed

end Transitions
