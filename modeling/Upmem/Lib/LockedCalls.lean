import Mathlib.Logic.Function.Basic
import Upmem.Lib.Transitions

namespace LockedCalls
open Transitions

/-- Calls on a memory: what a call loads, and the memory that it stores after it. -/
structure Calls (σ κ : Type) (Value : κ → Type) where
  load : (call : κ) → σ → Value call
  store : (call : κ) → Value call → σ → σ

section Threads
variable {σ κ τ : Type} {Value : κ → Type}

/-- How far a thread is with its call. -/
inductive Place (Value : κ → Type)
  | idle
  | called (call : κ)
  | acquired (call : κ)
  | loaded (call : κ) (value : Value call)
  | stored (call : κ) (value : Value call)

/-- The thread holds the lock. -/
def Place.Inside : Place Value → Prop
  | .idle | .called _ => False
  | .acquired _ | .loaded _ _ | .stored _ _ => True

/-- Threads that share a memory and a lock, and what their calls have returned, in order. -/
structure Shared (σ τ : Type) (Value : κ → Type) where
  memory : σ
  owner : Option τ
  place : τ → Place Value
  returned : τ → List (Sigma Value)

inductive Action (τ κ : Type)
  | call (thread : τ) (call : κ)
  | acquire (thread : τ)
  | load (thread : τ)
  | store (thread : τ)
  | release (thread : τ)

variable [DecidableEq τ]

def Shared.move (s : Shared σ τ Value) (thread : τ) (place : Place Value) : Shared σ τ Value :=
  { s with place := Function.update s.place thread place }

/-- One step of one thread. A thread waits for the lock until nobody has it. -/
inductive Step (calls : Calls σ κ Value) : Shared σ τ Value → Action τ κ → Shared σ τ Value → Prop
  | call {s thread} (call : κ) : s.place thread = .idle →
      Step calls s (.call thread call) (s.move thread (.called call))
  | acquire {s thread call} : s.place thread = .called call → s.owner = none →
      Step calls s (.acquire thread) { s.move thread (.acquired call) with owner := some thread }
  | load {s thread call} : s.place thread = .acquired call →
      Step calls s (.load thread) (s.move thread (.loaded call (calls.load call s.memory)))
  | store {s thread call value} : s.place thread = .loaded call value →
      Step calls s (.store thread)
      { s.move thread (.stored call value) with memory := calls.store call value s.memory }
  | release {s thread call value} : s.place thread = .stored call value →
      Step calls s (.release thread) { s.move thread .idle with
        owner := none
        returned := Function.update s.returned thread (s.returned thread ++ [⟨call, value⟩]) }

/-- Nobody is in a call. -/
structure Shared.Quiet (s : Shared σ τ Value) : Prop where
  owner : s.owner = none
  place : ∀ thread, s.place thread = .idle
  returned : ∀ thread, s.returned thread = []

/-- The calls of a thread that have taken effect: those that have returned, and the one that has stored. -/
def Shared.taken (s : Shared σ τ Value) (thread : τ) : List (Sigma Value) :=
  s.returned thread ++
    match s.place thread with
    | .stored call value => [⟨call, value⟩]
    | _ => []

/-- Calls one after the other, each of which returns what it finds and has its effect. -/
def Explains (calls : Calls σ κ Value) (effect : κ → σ → σ) : σ → List (τ × Sigma Value) → σ → Prop
  | start, [], last => start = last
  | start, ⟨_, call, value⟩ :: order, last =>
    value = calls.load call start ∧ Explains calls effect (effect call start) order last

/-- The calls in one order that keeps the order of each thread. -/
def Linearizes (calls : Calls σ κ Value) (effect : κ → σ → σ) (start : σ) (s : Shared σ τ Value) : Prop :=
  ∃ order : List (τ × Sigma Value),
    (∀ thread, (order.filter (·.1 = thread)).map Prod.snd = s.taken thread) ∧
      Explains calls effect start order s.memory

/-- A store that is the effect of its call. -/
def Stores (calls : Calls σ κ Value) (effect : κ → σ → σ)
    (τ' : Transition (Shared σ τ Value) (Action τ κ)) : Prop :=
  ∀ thread, τ'.action = .store thread → ∀ call value, τ'.before.place thread = .loaded call value →
    calls.store call value τ'.before.memory = effect call τ'.before.memory

/-- The lock is held by the thread inside, whose load is up to date. -/
structure Shared.Locked (calls : Calls σ κ Value) (s : Shared σ τ Value) : Prop where
  owner : ∀ thread, (s.place thread).Inside → s.owner = some thread
  loaded : ∀ thread call value, s.place thread = .loaded call value → value = calls.load call s.memory

end Threads

section Rules
variable {σ κ τ : Type} {Value : κ → Type} [DecidableEq τ] {calls : Calls σ κ Value} {effect : κ → σ → σ}
  {s t : Shared σ τ Value} {action : Action τ κ}

omit [DecidableEq τ] in
theorem Explains.append {start middle last : σ} {order rest : List (τ × Sigma Value)}
    (first : Explains calls effect start order middle) (second : Explains calls effect middle rest last) :
    Explains calls effect start (order ++ rest) last := by
  induction order generalizing start with
  | nil => exact (show start = middle from first) ▸ second
  | cons entry order ih => exact ⟨first.1, ih first.2⟩

@[simp] theorem move_place_self (thread : τ) (place : Place Value) : (s.move thread place).place thread = place :=
  Function.update_self _ _ _

@[simp] theorem move_owner (thread : τ) (place : Place Value) : (s.move thread place).owner = s.owner := rfl

@[simp] theorem move_memory (thread : τ) (place : Place Value) : (s.move thread place).memory = s.memory := rfl

@[simp] theorem move_returned (thread : τ) (place : Place Value) :
    (s.move thread place).returned = s.returned := rfl

omit [DecidableEq τ] in
theorem Shared.Quiet.locked (quiet : s.Quiet) : s.Locked calls where
  owner thread inside := by
    rw [quiet.place thread] at inside
    exact inside.elim
  loaded thread call value loaded := by
    rw [quiet.place thread] at loaded
    cases loaded

theorem Shared.Quiet.linearizes (quiet : s.Quiet) : Linearizes calls effect s.memory s := by
  refine ⟨[], fun thread => ?_, rfl⟩
  rw [Shared.taken, quiet.returned, quiet.place]
  rfl

/-- A thread has moved, and no other one that is inside has been disturbed. -/
theorem Shared.Locked.of_move (locked : s.Locked calls) {thread : τ} {place : Place Value}
    (moved : t.place = Function.update s.place thread place) (owner : place.Inside → t.owner = some thread)
    (loads : ∀ call value, place = .loaded call value → value = calls.load call t.memory)
    (others : ∀ other, other ≠ thread → (s.place other).Inside → t.owner = s.owner ∧ t.memory = s.memory) :
    t.Locked calls := by
  refine ⟨fun other inside => ?_, fun other call value loaded => ?_⟩
  · by_cases same : other = thread
    · rw [moved, same, Function.update_self] at inside
      rw [same]
      exact owner inside
    · rw [moved, Function.update_of_ne same] at inside
      rw [(others other same inside).1]
      exact locked.owner other inside
  · by_cases same : other = thread
    · rw [moved, same, Function.update_self] at loaded
      exact loads call value loaded
    · rw [moved, Function.update_of_ne same] at loaded
      have inside : (s.place other).Inside := by rw [loaded]; trivial
      rw [(others other same inside).2]
      exact locked.loaded other call value loaded

theorem Shared.Locked.step (locked : s.Locked calls) (step : Step calls s action t) : t.Locked calls := by
  -- While a thread is inside, no other one is.
  have alone {thread other : τ} (inside : (s.place thread).Inside) (ne : other ≠ thread) :
      ¬(s.place other).Inside :=
    fun inside' => ne (Option.some.inj ((locked.owner other inside').symm.trans (locked.owner thread inside)))
  cases step with
  | call call idle => exact locked.of_move rfl False.elim (fun _ _ same => nomatch same) fun _ _ _ => ⟨rfl, rfl⟩
  | acquire called free =>
    refine locked.of_move rfl (fun _ => rfl) (fun _ _ same => nomatch same) fun other _ inside => ?_
    rw [locked.owner other inside] at free
    cases free
  | @load thread call acquired =>
    have here : (s.place thread).Inside := by rw [acquired]; trivial
    refine locked.of_move rfl (fun _ => locked.owner thread here) (fun c value same => ?_) fun _ _ _ => ⟨rfl, rfl⟩
    cases same
    rfl
  | @store thread call value loaded =>
    have here : (s.place thread).Inside := by rw [loaded]; trivial
    exact locked.of_move rfl (fun _ => locked.owner thread here) (fun _ _ same => nomatch same)
      fun other ne inside => absurd inside (alone here ne)
  | @release thread call value stored =>
    have here : (s.place thread).Inside := by rw [stored]; trivial
    exact locked.of_move rfl False.elim (fun _ _ same => nomatch same)
      fun other ne inside => absurd inside (alone here ne)

/-- A step that is no store does not change what has taken effect. -/
theorem taken_of_move {thread : τ} {place : Place Value} (moved : t.place = Function.update s.place thread place)
    (returned : ∀ other, other ≠ thread → t.returned other = s.returned other)
    (same : t.taken thread = s.taken thread) : t.taken = s.taken := by
  funext other
  by_cases here : other = thread
  · rw [here, same]
  · rw [Shared.taken, Shared.taken, moved, Function.update_of_ne here, returned other here]

theorem Linearizes.step {start : σ} (locked : s.Locked calls) (before : Linearizes calls effect start s)
    (step : Step calls s action t) (stores : Stores calls effect ⟨s, action, t⟩) :
    Linearizes calls effect start t := by
  obtain ⟨order, threads, explains⟩ := before
  -- All steps but a store leave the order as it is.
  have keep (taken : t.taken = s.taken) (memory : t.memory = s.memory) : Linearizes calls effect start t :=
    ⟨order, fun thread => (threads thread).trans (congrFun taken thread).symm, memory ▸ explains⟩
  cases step with
  | @call thread call idle =>
    refine keep (taken_of_move rfl (fun _ _ => rfl) ?_) rfl
    simp [Shared.taken, idle]
  | @acquire thread call called free =>
    refine keep (taken_of_move rfl (fun _ _ => rfl) ?_) rfl
    simp [Shared.taken, called, Shared.move]
  | @load thread call acquired =>
    refine keep (taken_of_move rfl (fun _ _ => rfl) ?_) rfl
    simp [Shared.taken, acquired]
  | @store thread call value loaded =>
    refine ⟨order ++ [(thread, ⟨call, value⟩)], fun other => ?_, explains.append ?_⟩
    · rw [List.filter_append, List.map_append, threads other]
      by_cases same : other = thread
      · subst same
        simp [Shared.taken, loaded, Shared.move]
      · have different : thread ≠ other := fun eq => same eq.symm
        simp [Shared.taken, Shared.move, same, different]
    · exact ⟨locked.loaded thread call value loaded, (stores thread rfl call value loaded).symm⟩
  | @release thread call value stored =>
    refine keep (taken_of_move rfl (fun other ne => Function.update_of_ne ne _ _) ?_) rfl
    simp [Shared.taken, stored, Shared.move]

/-- The run rule: calls whose stores are their effects are linearized. -/
theorem Run.linearizes {history : List (Transition (Shared σ τ Value) (Action τ κ))} {start : Shared σ τ Value}
    (quiet : start.Quiet) (run : Run (Step calls) start history s)
    (stores : ∀ τ' ∈ history, Stores calls effect τ') :
    Linearizes calls effect start.memory s :=
  (run.guarded (I := fun s => s.Locked calls) quiet.locked
    (fun _ _ _ locked step => locked.step step) quiet.linearizes
    (fun _ _ _ locked before step good => before.step locked step good) stores).1

/-- The state after a whole call of a thread. -/
def Shared.completed (calls : Calls σ κ Value) (s : Shared σ τ Value) (thread : τ) (call : κ) :
    Shared σ τ Value where
  memory := calls.store call (calls.load call s.memory) s.memory
  owner := none
  place := s.place
  returned := Function.update s.returned thread (s.returned thread ++ [⟨call, calls.load call s.memory⟩])

/-- A call that nobody disturbs completes; its store is the only one. -/
theorem Run.complete {history : List (Transition (Shared σ τ Value) (Action τ κ))} {start : Shared σ τ Value}
    (run : Run (Step calls) start history s) {thread : τ} (call : κ) (idle : s.place thread = .idle)
    (free : s.owner = none) : ∃ steps, Run (Step calls) start (steps ++ history) (s.completed calls thread call) ∧
      ∀ τ' ∈ steps, ∀ other, τ'.action = .store other →
        τ'.before.memory = s.memory ∧ τ'.before.place other = .loaded call (calls.load call s.memory) := by
  let value := calls.load call s.memory
  let inCall (place : Place Value) (owner : Option τ) (memory : σ) : Shared σ τ Value :=
    ⟨memory, owner, Function.update s.place thread place, s.returned⟩
  have here (place : Place Value) (owner : Option τ) (memory : σ) :
      (inCall place owner memory).place thread = place :=
    Function.update_self _ _ _
  have moves (place next : Place Value) (owner : Option τ) (memory : σ) :
      (inCall place owner memory).move thread next = inCall next owner memory := by
    simp [inCall, Shared.move]
  have called := run.next_eq (u := inCall (.called call) none s.memory) (Step.call call idle) (by rw [← free]; rfl)
  have acquired := called.next_eq (u := inCall (.acquired call) (some thread) s.memory)
    (Step.acquire (here _ _ _) rfl) (by rw [moves])
  have loaded := acquired.next_eq (u := inCall (.loaded call value) (some thread) s.memory)
    (Step.load (here _ _ _)) (by rw [moves])
  have stored := loaded.next_eq (u := inCall (.stored call value) (some thread) (calls.store call value s.memory))
    (Step.store (here _ _ _)) (by rw [moves])
  have released := stored.next_eq (u := s.completed calls thread call) (Step.release (here _ _ _)) (by
    rw [moves, Shared.completed]
    simp [inCall, ← idle, value])
  refine ⟨[_, _, _, _, _], released, fun τ' member other isStore => ?_⟩
  simp only [List.mem_cons, List.not_mem_nil, or_false] at member
  rcases member with rfl | rfl | rfl | rfl | rfl <;> cases isStore
  exact ⟨rfl, here _ _ _⟩

end Rules

end LockedCalls
