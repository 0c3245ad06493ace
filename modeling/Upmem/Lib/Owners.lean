import Mathlib.Logic.Basic

namespace Owners
variable {κ τ : Type}

/-- Keys with a flag each: the flag of a key is set while some thread owns it, and no two threads own one key. -/
structure Owned (Key : κ → Prop) (flag : κ → Bool) (owns : τ → κ → Prop) : Prop where
  flag_iff : ∀ key, Key key → (flag key = true ↔ ∃ thread, owns thread key)
  alone : ∀ key thread other, owns thread key → owns other key → thread = other

variable {Key : κ → Prop} {flag flag' : κ → Bool} {owns owns' : τ → κ → Prop}

theorem Owned.of_free (free : ∀ key, Key key → flag key = false) (nobody : ∀ thread key, ¬owns thread key) :
    Owned Key flag owns where
  flag_iff key known := by
    have none : ¬∃ thread, owns thread key := fun ⟨thread, owner⟩ => nobody thread key owner
    simp only [free key known, none, Bool.false_eq_true]
  alone key thread _ owner _ := absurd owner (nobody thread key)

theorem Owned.congr (owned : Owned Key flag owns) (flags : ∀ key, Key key → flag' key = flag key)
    (same : ∀ thread key, owns' thread key ↔ owns thread key) : Owned Key flag' owns' where
  flag_iff key known := by simp only [flags key known, same, owned.flag_iff key known]
  alone key thread other owner owner' :=
    owned.alone key thread other ((same thread key).mp owner) ((same other key).mp owner')

theorem Owned.nobody {key : κ} (owned : Owned Key flag owns) (known : Key key) (free : flag key = false)
    (thread : τ) :
    ¬owns thread key := by
  intro owner
  have set := (owned.flag_iff key known).mpr ⟨thread, owner⟩
  rw [free] at set
  cases set

/-- A thread takes a key that is free. -/
theorem Owned.take (owned : Owned Key flag owns) (thread : τ) {key : κ} (known : Key key) (free : flag key = false)
    (set : flag' key = true) (flags : ∀ other, Key other → other ≠ key → flag' other = flag other)
    (same : ∀ t k, owns' t k ↔ owns t k ∨ t = thread ∧ k = key) : Owned Key flag' owns' where
  flag_iff other here := by
    by_cases eq : other = key
    · subst eq
      exact ⟨fun _ => ⟨thread, (same thread other).mpr (Or.inr ⟨rfl, rfl⟩)⟩, fun _ => set⟩
    · simp only [flags other here eq, owned.flag_iff other here, same, eq, and_false, or_false]
  alone other t t' owner owner' := by
    rcases (same t other).mp owner with before | ⟨rfl, rfl⟩
    · rcases (same t' other).mp owner' with before' | ⟨-, rfl⟩
      · exact owned.alone other t t' before before'
      · exact absurd before (owned.nobody known free t)
    · rcases (same t' other).mp owner' with before' | ⟨rfl, -⟩
      · exact absurd before' (owned.nobody known free t')
      · rfl

/-- The owner of a key lets it go. -/
theorem Owned.drop (owned : Owned Key flag owns) (thread : τ) (key : κ) (owner : owns thread key)
    (clear : flag' key = false) (flags : ∀ other, Key other → other ≠ key → flag' other = flag other)
    (same : ∀ t k, owns' t k ↔ owns t k ∧ ¬(t = thread ∧ k = key)) : Owned Key flag' owns' where
  flag_iff other here := by
    by_cases eq : other = key
    · subst eq
      have none : ¬∃ t, owns' t other := by
        rintro ⟨t, owner'⟩
        obtain ⟨before, elsewhere⟩ := (same t other).mp owner'
        exact elsewhere ⟨owned.alone other t thread before owner, rfl⟩
      simp only [clear, none, Bool.false_eq_true]
    · simp only [flags other here eq, owned.flag_iff other here, same, eq, and_false, not_false_eq_true, and_true]
  alone other t t' here here' := owned.alone other t t' ((same t other).mp here).1 ((same t' other).mp here').1

end Owners
