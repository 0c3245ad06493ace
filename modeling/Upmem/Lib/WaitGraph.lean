import Mathlib.Logic.Relation
import Mathlib.Order.Basic

namespace WaitGraph
variable {θ Λ : Type}

/-- The locks that threads hold and the locks that they wait to get. -/
structure Locks (θ Λ : Type) where
  Holds : θ → Λ → Prop
  Wants : θ → Λ → Prop

/-- A thread waits for a lock that another one holds. -/
def Locks.WaitsFor (s : Locks θ Λ) (a b : θ) : Prop := ∃ l, s.Wants a l ∧ s.Holds b l

/-- Threads wait for one another in a circle. -/
def Locks.Deadlock (s : Locks θ Λ) : Prop := ∃ a, Relation.TransGen s.WaitsFor a a

/-- Threads each of which waits for one of them and is waited for by one of them. -/
structure Locks.Ring (s : Locks θ Λ) (members : Set θ) : Prop where
  waits : ∀ a ∈ members, ∃ b ∈ members, s.WaitsFor a b
  waited : ∀ b ∈ members, ∃ a ∈ members, s.WaitsFor a b

variable {s : Locks θ Λ}

/-- The threads between which a circle leads are a ring. -/
theorem Locks.ring_of_circle {a : θ} (circle : Relation.TransGen s.WaitsFor a a) :
    s.Ring {b | Relation.TransGen s.WaitsFor a b ∧ Relation.TransGen s.WaitsFor b a} where
  waits := by
    rintro b ⟨here, back⟩
    obtain ⟨c, edge, rest⟩ := Relation.TransGen.head'_iff.mp back
    exact ⟨c, ⟨here.tail edge, Relation.TransGen.trans_right rest circle⟩, edge⟩
  waited := by
    rintro b ⟨here, back⟩
    obtain ⟨c, rest, edge⟩ := Relation.TransGen.tail'_iff.mp here
    exact ⟨c, ⟨circle.trans_left rest, .head edge back⟩, edge⟩

/-- Threads do not wait for one another in a circle where every wait within a ring climbs. -/
theorem Locks.safe_of_level {α : Type*} [Preorder α] (level : θ → α)
    (climbs : ∀ members, s.Ring members → ∀ a ∈ members, ∀ b ∈ members, s.WaitsFor a b → level a < level b) :
    ¬ s.Deadlock := by
  rintro ⟨a, circle⟩
  have step := climbs _ (Locks.ring_of_circle circle)
  have along {b : θ} (path : Relation.TransGen s.WaitsFor a b) (back : Relation.TransGen s.WaitsFor b a) :
      level a < level b := by
    induction path with
    | single edge => exact step _ ⟨circle, circle⟩ _ ⟨.single edge, back⟩ edge
    | @tail b c path edge ih =>
      exact (ih (.head edge back)).trans (step _ ⟨path, .head edge back⟩ _ ⟨path.tail edge, back⟩ edge)
  exact lt_irrefl _ (along circle circle)

/-- Two threads that wait for each other. -/
theorem Locks.deadlock_of_pair {a b : θ} (there : s.WaitsFor a b) (back : s.WaitsFor b a) : s.Deadlock :=
  ⟨a, .tail (.single there) back⟩

end WaitGraph
