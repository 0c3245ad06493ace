import Mathlib.Logic.Basic

namespace Commands
universe u
variable {ε σ α β : Type u}

/-- A sequence of commands on a state that the first error ends. The state is kept at an error. -/
abbrev CommandM (ε σ : Type u) := ExceptT ε (StateM σ)

/-- The result and the state that commands end with. -/
def exec (x : CommandM ε σ α) (s : σ) : Except ε α × σ := x.run.run s

/-- The commands succeed. -/
def Returns (x : CommandM ε σ α) (s : σ) (a : α) (t : σ) : Prop := exec x s = (.ok a, t)

variable {x : CommandM ε σ α} {f : α → CommandM ε σ β} {s t u : σ} {a : α} {b : β}

theorem exec_bind (x : CommandM ε σ α) (f : α → CommandM ε σ β) (s : σ) :
    exec (x >>= f) s = match exec x s with
      | (.ok a, t) => exec (f a) t
      | (.error e, t) => (.error e, t) := by
  simp only [exec, ExceptT.run_bind]
  cases result : x.run.run s with
  | mk value t => cases value <;> simp only [StateT.run_bind, result] <;> rfl

@[simp] theorem exec_pure (a : α) (s : σ) : exec (pure a : CommandM ε σ α) s = (.ok a, s) := rfl

@[simp] theorem exec_throw (e : ε) (s : σ) : exec (throw e : CommandM ε σ α) s = (.error e, s) := rfl

@[simp] theorem exec_get (s : σ) : exec (get : CommandM ε σ σ) s = (.ok s, s) := rfl

@[simp] theorem exec_modify (g : σ → σ) (s : σ) : exec (modify g : CommandM ε σ PUnit) s = (.ok ⟨⟩, g s) := rfl

theorem returns_bind : Returns (x >>= f) s b u ↔ ∃ a t, Returns x s a t ∧ Returns (f a) t b u := by
  unfold Returns
  rw [exec_bind]
  constructor
  · intro result
    cases first : exec x s with
    | mk value t =>
      cases value with
      | error e => rw [first] at result; cases result
      | ok a => rw [first] at result; exact ⟨a, t, rfl, result⟩
  · rintro ⟨a, t, first, rest⟩
    rw [first]
    exact rest

theorem returns_pure {a' : α} : Returns (pure a : CommandM ε σ α) s a' t ↔ a = a' ∧ s = t := by
  simp [Returns]

theorem not_returns_throw {e : ε} : ¬Returns (throw e : CommandM ε σ α) s a t := by
  simp [Returns]

theorem returns_get : Returns (get : CommandM ε σ σ) s u t ↔ s = u ∧ s = t := by
  simp [Returns]

theorem returns_modify {g : σ → σ} {r : PUnit} : Returns (modify g : CommandM ε σ PUnit) s r t ↔ g s = t := by
  simp [Returns]

theorem returns_get_bind {f : σ → CommandM ε σ β} : Returns (get >>= f) s b t ↔ Returns (f s) s b t := by
  simp [Returns, exec_bind]

theorem returns_modify_bind {g : σ → σ} {f : PUnit → CommandM ε σ β} :
    Returns (modify g >>= f) s b t ↔ Returns (f ⟨⟩) (g s) b t := by
  simp [Returns, exec_bind]

/-- Commands that keep a property of the state, whether they succeed or not. -/
def Keeps (P : σ → Prop) (x : CommandM ε σ α) : Prop := ∀ s, P s → P (exec x s).2

section Keeps
variable {P : σ → Prop}

theorem keeps_bind (first : Keeps P x) (rest : ∀ a, Keeps P (f a)) : Keeps P (x >>= f) := by
  intro s holds
  have kept := first s holds
  rw [exec_bind]
  cases result : exec x s with
  | mk value t =>
    rw [result] at kept
    cases value with
    | error e => exact kept
    | ok a => exact rest a t kept

theorem keeps_pure : Keeps P (pure a : CommandM ε σ α) := fun _ holds => holds

theorem keeps_throw {e : ε} : Keeps P (throw e : CommandM ε σ α) := fun _ holds => holds

theorem keeps_get : Keeps P (get : CommandM ε σ σ) := fun _ holds => holds

theorem keeps_modify {g : σ → σ} (step : ∀ s, P s → P (g s)) : Keeps P (modify g : CommandM ε σ PUnit) := step

/-- Commands that keep a property of the state when they fail. -/
def KeepsOnError (P : σ → Prop) (x : CommandM ε σ α) : Prop := ∀ s e t, P s → exec x s = (.error e, t) → P t

theorem Keeps.onError (keeps : Keeps P x) : KeepsOnError P x := by
  intro s e t holds failed
  have kept := keeps s holds
  rwa [failed] at kept

theorem keepsOnError_bind (first : Keeps P x) (rest : ∀ a, KeepsOnError P (f a)) : KeepsOnError P (x >>= f) := by
  intro s e u holds failed
  have kept := first s holds
  rw [exec_bind] at failed
  cases result : exec x s with
  | mk value t =>
    rw [result] at kept failed
    cases value with
    | error e' =>
      cases failed
      exact kept
    | ok a => exact rest a t e u kept failed

theorem keepsOnError_modify {g : σ → σ} : KeepsOnError P (modify g : CommandM ε σ PUnit) := by
  intro s e t _ failed
  cases failed

end Keeps

/-- Commands that succeed from every state. -/
def Succeeds (x : CommandM ε σ α) : Prop := ∀ s, ∃ a t, Returns x s a t

section Succeeds

theorem succeeds_bind (first : Succeeds x) (rest : ∀ a, Succeeds (f a)) : Succeeds (x >>= f) := by
  intro s
  obtain ⟨a, t, returns⟩ := first s
  obtain ⟨b, u, later⟩ := rest a t
  exact ⟨b, u, returns_bind.mpr ⟨a, t, returns, later⟩⟩

theorem succeeds_pure : Succeeds (pure a : CommandM ε σ α) := fun s => ⟨a, s, returns_pure.mpr ⟨rfl, rfl⟩⟩

theorem succeeds_get : Succeeds (get : CommandM ε σ σ) := fun s => ⟨s, s, returns_get.mpr ⟨rfl, rfl⟩⟩

theorem succeeds_modify {g : σ → σ} : Succeeds (modify g : CommandM ε σ PUnit) := fun s => ⟨⟨⟩, g s, rfl⟩

theorem succeeds_ite {c : Prop} [Decidable c] {y : CommandM ε σ α} (yes : Succeeds x) (no : Succeeds y) :
    Succeeds (if c then x else y) := by
  split
  · exact yes
  · exact no

end Succeeds

end Commands
