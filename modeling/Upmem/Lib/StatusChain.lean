import Mathlib.Data.List.Basic
import Mathlib.Logic.Basic
import Mathlib.Tactic.SplitIfs

namespace StatusChain
universe u v w
variable {ε : Type u} [DecidableEq ε] {σ : Type v} {ι : Type w} (ok : ε)

/-- The status of calls made in order until one of them fails. -/
def firstFailure : List ε → ε
  | [] => ok
  | status :: rest => if status = ok then firstFailure rest else status

/-- A loop that leaves at the first iteration whose status is a failure. What
an iteration does to the state is kept even then. -/
def loop (body : ι → σ → ε × σ) : List ι → σ → ε × σ
  | [], s => (ok, s)
  | i :: rest, s => if (body i s).1 = ok then loop body rest (body i s).2 else body i s

/-- A second call after a first one that succeeds. -/
def andThen (first second : σ → ε × σ) (s : σ) : ε × σ :=
  if (first s).1 = ok then second (first s).2 else first s

/-- The iterations that such a loop begins. -/
def begun (status : ι → ε) : List ι → List ι
  | [] => []
  | i :: rest => i :: if status i = ok then begun status rest else []

variable {ok}

theorem firstFailure_eq_ok {calls : List ε} : firstFailure ok calls = ok ↔ ∀ status ∈ calls, status = ok := by
  induction calls with
  | nil => simp [firstFailure]
  | cons status rest ih =>
    by_cases passed : status = ok <;> simp [firstFailure, passed, ih]

/-- A loop whose statuses do not depend on the state fails as its statuses do
and applies the effects of the iterations it begins. -/
theorem loop_eq {status : ι → ε} {effect : σ → ι → σ} {body : ι → σ → ε × σ}
    (acts : ∀ i s, body i s = (status i, effect s i)) (items : List ι) (s : σ) :
    loop ok body items s = (firstFailure ok (items.map status), (begun ok status items).foldl effect s) := by
  induction items generalizing s with
  | nil => rfl
  | cons i rest ih =>
    by_cases passed : status i = ok <;> simp [loop, acts, firstFailure, begun, passed, ih]

/-- What every iteration keeps, the loop keeps. -/
theorem loop_invariant {P : σ → Prop} {body : ι → σ → ε × σ} (kept : ∀ i s, P s → P (body i s).2)
    (items : List ι) {s : σ} (holds : P s) : P (loop ok body items s).2 := by
  induction items generalizing s with
  | nil => exact holds
  | cons i rest ih =>
    by_cases passed : (body i s).1 = ok
    · simpa [loop, passed] using ih (kept i s holds)
    · simpa [loop, passed] using kept i s holds

/-- A loop succeeds when all its iterations do. -/
theorem loop_passes {body : ι → σ → ε × σ} (passes : ∀ i s, (body i s).1 = ok) (items : List ι) (s : σ) :
    (loop ok body items s).1 = ok := by
  induction items generalizing s with
  | nil => rfl
  | cons i rest ih => rw [loop, if_pos (passes i s), ih]

/-- What both calls keep, the two in order keep. -/
theorem andThen_invariant {P : σ → Prop} {first second : σ → ε × σ} (keptFirst : ∀ s, P s → P (first s).2)
    (keptSecond : ∀ s, P s → P (second s).2) {s : σ} (holds : P s) : P (andThen ok first second s).2 := by
  by_cases passed : (first s).1 = ok
  · simpa [andThen, passed] using keptSecond _ (keptFirst s holds)
  · simpa [andThen, passed] using keptFirst s holds

/-- Two calls in order succeed when both do. -/
theorem andThen_passes {first second : σ → ε × σ} {s : σ} (passes : (first s).1 = ok)
    (after : ∀ t, (second t).1 = ok) :
    (andThen ok first second s).1 = ok := by
  rw [andThen, if_pos passes]
  exact after _

/-- A second call that only has a status leaves the state of the first one. -/
theorem andThen_snd {first : σ → ε × σ} (status : ε) (s : σ) :
    (andThen ok first (fun s => (status, s)) s).2 = (first s).2 := by
  unfold andThen
  split <;> rfl

theorem andThen_ok {first second : σ → ε × σ} {s : σ} (passed : (first s).1 = ok) :
    andThen ok first second s = second (first s).2 := by
  simp [andThen, passed]

theorem andThen_failed {first second : σ → ε × σ} {s : σ} (failed : (first s).1 ≠ ok) :
    andThen ok first second s = first s := by
  simp [andThen, failed]

/-- Two calls in order that succeed both do. -/
theorem andThen_inv {first second : σ → ε × σ} {s t : σ} (passed : andThen ok first second s = (ok, t)) :
    ∃ u, first s = (ok, u) ∧ second u = (ok, t) := by
  rw [andThen] at passed
  split_ifs at passed with fine
  · exact ⟨(first s).2, Prod.ext fine rfl, passed⟩
  · exact absurd (congrArg Prod.fst passed) fine

theorem loop_append {body : ι → σ → ε × σ} (front back : List ι) (s : σ) :
    loop ok body (front ++ back) s = andThen ok (loop ok body front) (loop ok body back) s := by
  induction front generalizing s with
  | nil => simp [loop, andThen]
  | cons i rest ih =>
    by_cases passed : (body i s).1 = ok
    · simpa [loop, andThen, passed] using ih _
    · simp [loop, andThen, passed]

theorem loop_singleton {body : ι → σ → ε × σ} (i : ι) (s : σ) : loop ok body [i] s = body i s := by
  rw [loop]
  split_ifs with passed
  · exact Prod.ext passed.symm rfl
  · rfl

/-- What the iterations of a loop that succeeds establish one after another. -/
theorem loop_range_inv {P : Nat → σ → Prop} {body : Nat → σ → ε × σ} {n : Nat} {s t : σ} (initial : P 0 s)
    (step : ∀ i < n, ∀ s t, P i s → body i s = (ok, t) → P (i + 1) t)
    (passed : loop ok body (List.range n) s = (ok, t)) : P n t := by
  induction n generalizing t with
  | zero =>
    obtain rfl : s = t := congrArg Prod.snd passed
    exact initial
  | succ n ih =>
    rw [List.range_succ, loop_append] at passed
    obtain ⟨u, before, last⟩ := andThen_inv passed
    rw [loop_singleton] at last
    exact step n (Nat.lt_succ_self n) u t (ih (fun i below => step i (Nat.lt_succ_of_lt below)) before) last

theorem begun_subset {status : ι → ε} {items : List ι} {i : ι} (member : i ∈ begun ok status items) :
    i ∈ items := by
  induction items with
  | nil => exact member
  | cons j rest ih =>
    rcases List.mem_cons.mp member with rfl | later
    · exact List.mem_cons_self
    · by_cases passed : status j = ok
      · exact List.mem_cons_of_mem _ (ih (by simpa [passed] using later))
      · simp [passed] at later

/-- A loop without a failure begins all of its iterations. -/
theorem begun_eq_self {status : ι → ε} {items : List ι} (passed : firstFailure ok (items.map status) = ok) :
    begun ok status items = items := by
  induction items with
  | nil => rfl
  | cons j rest ih =>
    have all := firstFailure_eq_ok.mp passed
    have first : status j = ok := all _ (by simp)
    rw [begun, if_pos first, ih (firstFailure_eq_ok.mpr fun status member => all _ (by simp_all))]

end StatusChain
