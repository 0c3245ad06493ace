import Mathlib.Logic.Function.Basic
import Mathlib.Data.Fin.Basic
import Upmem.Lib.Transitions

namespace Upmem.Handshake
open Transitions

/-- `__EMPTY_WAIT_QUEUE`. -/
def EMPTY_WAIT_QUEUE : BitVec 8 := 0xFF#8

def EALREADY : Nat := 7

section Handshakes
variable {n : Nat}

/-- A call of one of the functions. -/
inductive Call (n : Nat)
  | notify
  | waitFor (notifier : Fin n)
  deriving DecidableEq

/-- A call that has returned. -/
inductive Return (n : Nat)
  | notify
  | waitFor (notifier : Fin n) (result : Nat)
  deriving DecidableEq

/-- What a call returns after its `__stop`. -/
def Call.resumed : Call n → Return n
  | .notify => .notify
  | .waitFor notifier => .waitFor notifier 0

/-- The entry that a call of a tasklet is about. -/
def Call.entry (tid : Fin n) : Call n → Fin n
  | .notify => tid
  | .waitFor notifier => notifier

/-- `__handshake_array`, `__errno`, the calls in which tasklets are stopped,
and for each tasklet its calls that have returned, in order. -/
structure Shared (n : Nat) where
  array : Fin n → BitVec 8
  errno : Fin n → Nat
  stopped : Fin n → Option (Call n)
  returned : Fin n → List (Return n)

def Shared.initial : Shared n where
  array _ := EMPTY_WAIT_QUEUE
  errno _ := 0
  stopped _ := none
  returned _ := []

/-- `me()` as it is kept in the array. -/
def byte (tid : Fin n) : BitVec 8 := BitVec.ofNat 8 tid

def Shared.setEntry (s : Shared n) (entry : Fin n) (info : BitVec 8) : Shared n :=
  { s with array := Function.update s.array entry info }

def Shared.stop (s : Shared n) (tid : Fin n) (call : Call n) : Shared n :=
  { s with stopped := Function.update s.stopped tid (some call) }

/-- A call returns. -/
def Shared.finish (s : Shared n) (tid : Fin n) (result : Return n) : Shared n :=
  { s with
    stopped := Function.update s.stopped tid none
    returned := Function.update s.returned tid (s.returned tid ++ [result]) }

/-- `__resume`, that waits until the tasklet is stopped. -/
def Shared.resume (s : Shared n) (info : BitVec 8) : Option (Shared n) :=
  if valid : info.toNat < n then
    (s.stopped ⟨info.toNat, valid⟩).map fun call => s.finish ⟨info.toNat, valid⟩ call.resumed
  else none

/-- `handshake_notify`. -/
def handshakeNotify (s : Shared n) (tid : Fin n) : Option (Shared n) :=
  let info := s.array tid
  if info = EMPTY_WAIT_QUEUE then
    some ((s.setEntry tid (byte tid)).stop tid .notify)
  else
    (s.resume info).map fun s => (s.setEntry tid EMPTY_WAIT_QUEUE).finish tid .notify

/-- `handshake_wait_for`. -/
def handshakeWaitFor (s : Shared n) (tid notifier : Fin n) : Option (Shared n) :=
  let info := s.array notifier
  if info = EMPTY_WAIT_QUEUE then
    some ((s.setEntry notifier (byte tid)).stop tid (.waitFor notifier))
  else if info ≠ byte notifier then
    some ({ s with errno := Function.update s.errno tid EALREADY }.finish tid (.waitFor notifier EALREADY))
  else
    (s.resume info).map fun s => (s.setEntry notifier EMPTY_WAIT_QUEUE).finish tid (.waitFor notifier 0)

def Call.run (call : Call n) (s : Shared n) (tid : Fin n) : Option (Shared n) :=
  match call with
  | .notify => handshakeNotify s tid
  | .waitFor notifier => handshakeWaitFor s tid notifier

/-- A tasklet that is not stopped does a call; it never waits for itself. -/
def Step (s : Shared n) (a : Fin n × Call n) (t : Shared n) : Prop :=
  s.stopped a.1 = none ∧ a.2 ≠ .waitFor a.1 ∧ a.2.run s a.1 = some t

abbrev History (n : Nat) := List (Transition (Shared n) (Fin n × Call n))

/-- A tasklet is resumed in a step. -/
def Resumes (τ : Transition (Shared n) (Fin n × Call n)) (tid : Fin n) : Prop :=
  τ.before.stopped tid ≠ none ∧ τ.after.stopped tid = none

/-- In a step one of a notifier and a waiter resumes the other one. -/
def Meets (τ : Transition (Shared n) (Fin n × Call n)) (notifier waiter : Fin n) : Prop :=
  τ.action = (notifier, .notify) ∧ Resumes τ waiter ∨ τ.action = (waiter, .waitFor notifier) ∧ Resumes τ notifier

/-- Calls, given by their tasklet and their number, that are paired in a run. -/
def Paired (history : History n) (notify waitFor : Fin n × Nat) : Prop :=
  ∃ τ ∈ history, Meets τ notify.1 waitFor.1 ∧
    notify.2 = (τ.before.returned notify.1).length ∧ waitFor.2 = (τ.before.returned waitFor.1).length

/-- What holds after a run. -/
structure Handshaken (history : History n) (s : Shared n) : Prop where
  /-- A notification that has returned is paired with exactly one call of `handshake_wait_for`. -/
  notify : ∀ tid i, (s.returned tid)[i]? = some .notify → ∃! call, Paired history (tid, i) call
  /-- A call of `handshake_wait_for` that has returned 0 is paired with exactly one notification of its notifier. -/
  waitFor : ∀ tid i notifier, (s.returned tid)[i]? = some (.waitFor notifier 0) →
    ∃! call, Paired history call (tid, i) ∧ call.1 = notifier
  /-- Paired calls are a notification and a call that has waited for it. -/
  paired : ∀ notifier i waiter j, Paired history (notifier, i) (waiter, j) →
    (s.returned notifier)[i]? = some .notify ∧ (s.returned waiter)[j]? = some (.waitFor notifier 0)
  /-- A call that returns `EALREADY` changes nothing but `errno` of its tasklet. -/
  already : ∀ τ ∈ history, ∀ tid notifier,
    τ.after.returned tid = τ.before.returned tid ++ [.waitFor notifier EALREADY] →
      τ.after.array = τ.before.array ∧ τ.after.stopped = τ.before.stopped ∧
        ∀ other, other ≠ tid → τ.after.returned other = τ.before.returned other ∧
        τ.after.errno other = τ.before.errno other
  /-- A stopped tasklet is in exactly one entry. -/
  recorded : ∀ tid, s.stopped tid ≠ none → ∃! entry, s.array entry = byte tid
  /-- No tasklet that is not stopped is kept from its call. -/
  free : ∀ tid call, s.stopped tid = none → call ≠ .waitFor tid → ∃ t, Step s (tid, call) t

/-- The entries are those of the stopped tasklets. -/
structure Recorded (s : Shared n) : Prop where
  stopped : ∀ tid call, s.stopped tid = some call → call ≠ .waitFor tid ∧ s.array (call.entry tid) = byte tid
  array : ∀ entry, s.array entry = EMPTY_WAIT_QUEUE ∨
    ∃ tid call, s.stopped tid = some call ∧ call.entry tid = entry

section Bytes
variable {entry tid other : Fin n}

theorem byte_toNat (bound : n ≤ 255) (tid : Fin n) : (byte tid).toNat = tid := by
  rw [byte, BitVec.toNat_ofNat]
  have below := tid.isLt
  omega

theorem byte_injective (bound : n ≤ 255) (same : byte tid = byte other) : tid = other := by
  have values := congrArg BitVec.toNat same
  rw [byte_toNat bound, byte_toNat bound] at values
  exact Fin.ext values

theorem byte_ne_empty (bound : n ≤ 255) (tid : Fin n) : byte tid ≠ EMPTY_WAIT_QUEUE := by
  intro same
  have value := congrArg BitVec.toNat same
  rw [byte_toNat bound] at value
  have below := tid.isLt
  have empty : EMPTY_WAIT_QUEUE.toNat = 255 := rfl
  omega

end Bytes

section Invariant
variable {s t : Shared n} {entry tid notifier waiter : Fin n}

theorem resume_eq (bound : n ≤ 255) {call : Call n} (stopped : s.stopped tid = some call) :
    s.resume (byte tid) = some (s.finish tid call.resumed) := by
  have valid : (byte tid).toNat < n := by
    rw [byte_toNat bound]
    exact tid.isLt
  have same : (⟨(byte tid).toNat, valid⟩ : Fin n) = tid := Fin.ext (byte_toNat bound tid)
  rw [Shared.resume, dif_pos valid, same, stopped]
  rfl

/-- What an entry says: nobody, its notifier, or another tasklet that waits for it. -/
theorem Recorded.cases (recorded : Recorded s) (entry : Fin n) :
    s.array entry = EMPTY_WAIT_QUEUE ∨
      (s.array entry = byte entry ∧ s.stopped entry = some .notify) ∨
      ∃ waiter, waiter ≠ entry ∧ s.array entry = byte waiter ∧ s.stopped waiter = some (.waitFor entry) := by
  rcases recorded.array entry with empty | ⟨tid, call, stopped, here⟩
  · exact Or.inl empty
  · obtain ⟨legal, stored⟩ := recorded.stopped tid call stopped
    rw [here] at stored
    cases call with
    | notify =>
      obtain rfl : tid = entry := here
      exact Or.inr (Or.inl ⟨stored, stopped⟩)
    | waitFor notifier =>
      obtain rfl : notifier = entry := here
      exact Or.inr (Or.inr ⟨tid, fun same => legal (same ▸ rfl), stored, stopped⟩)

/-- The state after the two calls that meet. -/
def Shared.meet (s : Shared n) (notifier waiter : Fin n) : Shared n where
  array := Function.update s.array notifier EMPTY_WAIT_QUEUE
  errno := s.errno
  stopped tid := if tid = notifier ∨ tid = waiter then none else s.stopped tid
  returned tid := if tid = notifier then s.returned tid ++ [.notify]
    else if tid = waiter then s.returned tid ++ [.waitFor notifier 0] else s.returned tid

theorem meet_returned_notifier : (s.meet notifier waiter).returned notifier = s.returned notifier ++ [.notify] :=
  if_pos rfl

theorem meet_returned_waiter (ne : waiter ≠ notifier) :
    (s.meet notifier waiter).returned waiter = s.returned waiter ++ [.waitFor notifier 0] :=
  (if_neg ne).trans (if_pos rfl)

theorem meet_returned_of_ne (first : tid ≠ notifier) (second : tid ≠ waiter) :
    (s.meet notifier waiter).returned tid = s.returned tid :=
  (if_neg first).trans (if_neg second)

theorem meet_notify (ne : waiter ≠ notifier) :
    ((s.finish waiter (.waitFor notifier 0)).setEntry notifier EMPTY_WAIT_QUEUE).finish notifier .notify =
      s.meet notifier waiter := by
  simp only [Shared.finish, Shared.setEntry, Shared.meet, Shared.mk.injEq, true_and]
  refine ⟨funext fun tid => ?_, funext fun tid => ?_⟩
  · by_cases first : tid = notifier <;> by_cases second : tid = waiter <;> simp_all
  · by_cases first : tid = notifier
    · subst first
      simp [Ne.symm ne]
    · by_cases second : tid = waiter <;> simp_all

theorem meet_waitFor (ne : waiter ≠ notifier) :
    ((s.finish notifier .notify).setEntry notifier EMPTY_WAIT_QUEUE).finish waiter (.waitFor notifier 0) =
      s.meet notifier waiter := by
  simp only [Shared.finish, Shared.setEntry, Shared.meet, Shared.mk.injEq, true_and]
  refine ⟨funext fun tid => ?_, funext fun tid => ?_⟩
  · by_cases first : tid = notifier <;> by_cases second : tid = waiter <;> simp_all
  · by_cases second : tid = waiter
    · subst second
      simp [ne]
    · by_cases first : tid = notifier <;> simp_all

theorem handshakeNotify_meet (bound : n ≤ 255) (ne : waiter ≠ notifier) (same : s.array notifier = byte waiter)
    (stopped : s.stopped waiter = some (.waitFor notifier)) :
    handshakeNotify s notifier = some (s.meet notifier waiter) := by
  rw [handshakeNotify, same, if_neg (byte_ne_empty bound _), resume_eq bound stopped]
  exact congrArg some (meet_notify ne)

theorem handshakeWaitFor_meet (bound : n ≤ 255) (ne : waiter ≠ notifier) (same : s.array notifier = byte notifier)
    (stopped : s.stopped notifier = some .notify) :
    handshakeWaitFor s waiter notifier = some (s.meet notifier waiter) := by
  rw [handshakeWaitFor, same, if_neg (byte_ne_empty bound _), if_neg (not_not.mpr rfl), resume_eq bound stopped]
  exact congrArg some (meet_waitFor ne)

/-- The state after a refused call. -/
def Shared.refuse (s : Shared n) (tid notifier : Fin n) : Shared n :=
  { s with errno := Function.update s.errno tid EALREADY }.finish tid (.waitFor notifier EALREADY)

theorem handshakeWaitFor_refuse {other : Fin n} (bound : n ≤ 255) (ne : other ≠ notifier)
    (same : s.array notifier = byte other) : handshakeWaitFor s tid notifier = some (s.refuse tid notifier) := by
  rw [handshakeWaitFor, same, if_neg (byte_ne_empty bound _), if_pos fun eq => ne (byte_injective bound eq)]
  rfl

/-- The two calls that meet in a step. -/
structure Met (s : Shared n) (tid : Fin n) (call : Call n) (notifier waiter : Fin n) : Prop where
  ne : waiter ≠ notifier
  calls : tid = notifier ∧ call = .notify ∧ s.stopped waiter = some (.waitFor notifier) ∨
    tid = waiter ∧ call = .waitFor notifier ∧ s.stopped notifier = some .notify
  entry : ∃ other, (other = notifier ∨ other = waiter) ∧ s.array notifier = byte other

/-- What a call does: it stops, it is refused, or it meets the one in the entry. -/
theorem Recorded.run_eq (recorded : Recorded s) (bound : n ≤ 255) {call : Call n} (legal : call ≠ .waitFor tid)
    (running : s.stopped tid = none) :
    (s.array (call.entry tid) = EMPTY_WAIT_QUEUE ∧
        call.run s tid = some ((s.setEntry (call.entry tid) (byte tid)).stop tid call)) ∨
      (∃ notifier, call = .waitFor notifier ∧ call.run s tid = some (s.refuse tid notifier)) ∨
      ∃ notifier waiter, Met s tid call notifier waiter ∧ call.run s tid = some (s.meet notifier waiter) := by
  rcases recorded.cases (call.entry tid) with empty | ⟨same, stopped⟩ | ⟨other, ne, same, stopped⟩
  · refine Or.inl ⟨empty, ?_⟩
    cases call with
    | notify => exact if_pos empty
    | waitFor notifier => exact if_pos empty
  · cases call with
    | notify =>
      rw [Call.entry, running] at stopped
      cases stopped
    | waitFor notifier =>
      have ne : tid ≠ notifier := fun same => legal (same ▸ rfl)
      exact Or.inr (Or.inr ⟨notifier, tid, ⟨ne, Or.inr ⟨rfl, rfl, stopped⟩, notifier, Or.inl rfl, same⟩,
        handshakeWaitFor_meet bound ne same stopped⟩)
  · cases call with
    | notify =>
      exact Or.inr (Or.inr ⟨tid, other, ⟨ne, Or.inl ⟨rfl, rfl, stopped⟩, other, Or.inr rfl, same⟩,
        handshakeNotify_meet bound ne same stopped⟩)
    | waitFor notifier => exact Or.inr (Or.inl ⟨notifier, rfl, handshakeWaitFor_refuse bound ne same⟩)

/-- What a step does. -/
theorem Recorded.step_cases (recorded : Recorded s) (bound : n ≤ 255) {a : Fin n × Call n} (step : Step s a t) :
    (s.array (a.2.entry a.1) = EMPTY_WAIT_QUEUE ∧ t = (s.setEntry (a.2.entry a.1) (byte a.1)).stop a.1 a.2) ∨
      (∃ notifier, a.2 = .waitFor notifier ∧ t = s.refuse a.1 notifier) ∨
      ∃ notifier waiter, Met s a.1 a.2 notifier waiter ∧ t = s.meet notifier waiter := by
  obtain ⟨running, legal, result⟩ := step
  rcases recorded.run_eq bound legal running with ⟨empty, eq⟩ | ⟨notifier, same, eq⟩ | ⟨notifier, waiter, met, eq⟩
  · exact Or.inl ⟨empty, Option.some.inj (result.symm.trans eq)⟩
  · exact Or.inr (Or.inl ⟨notifier, same, Option.some.inj (result.symm.trans eq)⟩)
  · exact Or.inr (Or.inr ⟨notifier, waiter, met, Option.some.inj (result.symm.trans eq)⟩)

theorem Met.stopped {call : Call n} (met : Met s tid call notifier waiter) (running : s.stopped tid = none) :
    ∀ other, (other = notifier ∨ other = waiter) → ∀ call', s.stopped other = some call' →
      call'.entry other = notifier := by
  rintro other among call' stopped
  rcases met.calls with ⟨rfl, _, waits⟩ | ⟨rfl, _, notifies⟩
  · rcases among with rfl | rfl
    · rw [running] at stopped
      cases stopped
    · cases waits.symm.trans stopped
      rfl
  · rcases among with rfl | rfl
    · cases notifies.symm.trans stopped
      rfl
    · rw [running] at stopped
      cases stopped

theorem Met.alone (bound : n ≤ 255) {call : Call n} {other : Fin n} (met : Met s tid call notifier waiter)
    (stored : s.array notifier = byte other) : other = notifier ∨ other = waiter := by
  obtain ⟨there, among, entry⟩ := met.entry
  exact byte_injective bound (stored.symm.trans entry) ▸ among

theorem Recorded.step (recorded : Recorded s) (bound : n ≤ 255) {a : Fin n × Call n} (step : Step s a t) :
    Recorded t := by
  obtain ⟨running, legal, -⟩ := id step
  rcases recorded.step_cases bound step with ⟨empty, rfl⟩ | ⟨notifier, call, rfl⟩ | ⟨notifier, waiter, met, rfl⟩
  · -- The entry was nobody's, so that it is the entry of the stopping tasklet alone.
    refine ⟨fun tid call stopped => ?_, fun entry => ?_⟩
    · by_cases same : tid = a.1
      · subst same
        simp only [Shared.stop, Shared.setEntry, Function.update_self, Option.some.injEq] at stopped ⊢
        subst stopped
        exact ⟨legal, Function.update_self _ _ _⟩
      · simp only [Shared.stop, Shared.setEntry, Function.update_of_ne same] at stopped ⊢
        obtain ⟨legal', stored⟩ := recorded.stopped tid call stopped
        have other : call.entry tid ≠ a.2.entry a.1 := by
          intro eq
          rw [eq, empty] at stored
          exact byte_ne_empty bound tid stored.symm
        exact ⟨legal', (Function.update_of_ne other _ _).trans stored⟩
    · by_cases same : entry = a.2.entry a.1
      · exact Or.inr ⟨a.1, a.2, Function.update_self _ _ _, same.symm⟩
      · simp only [Shared.stop, Shared.setEntry, Function.update_of_ne same]
        rcases recorded.array entry with empty' | ⟨tid, call, stopped, here⟩
        · exact Or.inl empty'
        · refine Or.inr ⟨tid, call, ?_, here⟩
          have other : tid ≠ a.1 := fun eq => by rw [eq, running] at stopped; cases stopped
          rw [Function.update_of_ne other, stopped]
  · have kept : (s.refuse a.1 notifier).stopped = s.stopped := Function.update_eq_self_iff.mpr running.symm
    refine ⟨fun tid call stopped => ?_, fun entry => ?_⟩
    · rw [kept] at stopped
      exact recorded.stopped tid call stopped
    · rw [kept]
      exact recorded.array entry
  · refine ⟨fun tid call stopped => ?_, fun entry => ?_⟩
    · by_cases among : tid = notifier ∨ tid = waiter
      · cases (if_pos among).symm.trans stopped
      have still : s.stopped tid = some call := (if_neg among).symm.trans stopped
      obtain ⟨legal', stored⟩ := recorded.stopped tid call still
      have other : call.entry tid ≠ notifier := fun same => among (met.alone bound (same ▸ stored))
      exact ⟨legal', (Function.update_of_ne other _ _).trans stored⟩
    · by_cases same : entry = notifier
      · subst same
        exact Or.inl (Function.update_self _ _ _)
      · rcases recorded.array entry with empty | ⟨tid, call, stopped, here⟩
        · exact Or.inl ((Function.update_of_ne same _ _).trans empty)
        · have among : ¬(tid = notifier ∨ tid = waiter) := fun among =>
            same (here.symm.trans (met.stopped running tid among call stopped))
          exact Or.inr ⟨tid, call, (if_neg among).trans stopped, here⟩

end Invariant

section Pairs
variable {s t : Shared n} {a : Fin n × Call n} {history : History n}

/-- What the calls that meet in a step have to do with those that return in it. -/
structure Pairing (τ : Transition (Shared n) (Fin n × Call n)) : Prop where
  unique : ∀ notifier waiter notifier' waiter', Meets τ notifier waiter → Meets τ notifier' waiter' →
    notifier' = notifier ∧ waiter' = waiter
  notify : ∀ tid i, (τ.after.returned tid)[i]? = some .notify ↔ (τ.before.returned tid)[i]? = some .notify ∨
    i = (τ.before.returned tid).length ∧ ∃ waiter, Meets τ tid waiter
  waitFor : ∀ tid i notifier, (τ.after.returned tid)[i]? = some (.waitFor notifier 0) ↔
    (τ.before.returned tid)[i]? = some (.waitFor notifier 0) ∨
      i = (τ.before.returned tid).length ∧ Meets τ notifier tid

theorem getElem?_concat_iff {α : Type} {l : List α} {x y : α} {i : Nat} :
    (l ++ [x])[i]? = some y ↔ l[i]? = some y ∨ i = l.length ∧ x = y := by
  rcases Nat.lt_trichotomy i l.length with below | rfl | above
  · rw [List.getElem?_append_left below]
    exact ⟨Or.inl, fun either => either.resolve_right fun last => below.ne last.1⟩
  · simp
  · rw [List.getElem?_eq_none (by simp; omega), List.getElem?_eq_none (by omega)]
    simp [above.ne']

/-- No calls meet in a step that resumes nobody. -/
theorem Pairing.of_alone {τ : Transition (Shared n) (Fin n × Call n)} (alone : ∀ tid, ¬Resumes τ tid)
    (returned : ∀ tid, τ.after.returned tid = τ.before.returned tid ∨
      ∃ notifier, τ.after.returned tid = τ.before.returned tid ++ [.waitFor notifier EALREADY]) : Pairing τ := by
  have nobody (notifier waiter : Fin n) : ¬Meets τ notifier waiter :=
    fun meets => meets.elim (fun meets => alone _ meets.2) fun meets => alone _ meets.2
  refine ⟨fun _ _ _ _ meets => absurd meets (nobody _ _), fun tid i => ?_, fun tid i notifier => ?_⟩
  · rcases returned tid with same | ⟨other, more⟩
    · simp [same, nobody]
    · simp [more, nobody, getElem?_concat_iff]
  · rcases returned tid with same | ⟨other, more⟩
    · simp [same, nobody]
    · simp [more, nobody, getElem?_concat_iff, EALREADY]

theorem Met.meets_iff {notifier waiter : Fin n} (met : Met s a.1 a.2 notifier waiter)
    (running : s.stopped a.1 = none)
    (notifier' waiter' : Fin n) :
    Meets ⟨s, a, s.meet notifier waiter⟩ notifier' waiter' ↔ notifier' = notifier ∧ waiter' = waiter := by
  have resumes (tid : Fin n) : Resumes ⟨s, a, s.meet notifier waiter⟩ tid ↔
      s.stopped tid ≠ none ∧ (tid = notifier ∨ tid = waiter) := by
    refine and_congr_right fun stopped => ?_
    simp only [Shared.meet]
    split
    · simp_all
    · simp_all
  obtain ⟨tid, call⟩ := a
  simp only [Meets, resumes, Prod.mk.injEq]
  rcases met.calls with ⟨rfl, rfl, waits⟩ | ⟨rfl, rfl, notifies⟩
  · constructor
    · rintro (⟨⟨rfl, _⟩, stopped, rfl | rfl⟩ | ⟨⟨_, call⟩, _⟩)
      · exact absurd running stopped
      · exact ⟨rfl, rfl⟩
      · cases call
    · rintro ⟨rfl, rfl⟩
      exact Or.inl ⟨⟨rfl, rfl⟩, by rw [waits]; simp, Or.inr rfl⟩
  · constructor
    · rintro (⟨⟨_, call⟩, _⟩ | ⟨⟨rfl, call⟩, stopped, _⟩)
      · cases call
      · cases call
        exact ⟨rfl, rfl⟩
    · rintro ⟨rfl, rfl⟩
      exact Or.inr ⟨⟨rfl, rfl⟩, by rw [notifies]; simp, Or.inl rfl⟩

theorem Recorded.pairing (recorded : Recorded s) (bound : n ≤ 255) (step : Step s a t) : Pairing ⟨s, a, t⟩ := by
  have running := step.1
  rcases recorded.step_cases bound step with ⟨empty, rfl⟩ | ⟨notifier, call, rfl⟩ | ⟨notifier, waiter, met, rfl⟩
  · refine Pairing.of_alone (fun tid resumes => ?_) fun tid => Or.inl rfl
    obtain ⟨before, after⟩ := resumes
    by_cases same : tid = a.1
    · exact before (same ▸ running)
    · exact before ((Function.update_of_ne same _ _).symm.trans after)
  · refine Pairing.of_alone (fun tid resumes => ?_) fun tid => ?_
    · obtain ⟨before, after⟩ := resumes
      have kept : (s.refuse a.1 notifier).stopped = s.stopped := Function.update_eq_self_iff.mpr running.symm
      exact before (by rw [← kept]; exact after)
    · by_cases same : tid = a.1
      · subst same
        exact Or.inr ⟨notifier, Function.update_self _ _ _⟩
      · exact Or.inl (Function.update_of_ne same _ _)
  · have meets := met.meets_iff running
    refine ⟨fun m w m' w' first second => ?_, fun tid i => ?_, fun tid i notifier' => ?_⟩
    · rw [meets] at first second
      exact ⟨second.1.trans first.1.symm, second.2.trans first.2.symm⟩
    · simp only [meets]
      by_cases first : tid = notifier
      · subst first
        simp [meet_returned_notifier, getElem?_concat_iff]
      · by_cases second : tid = waiter
        · subst second
          simp [meet_returned_waiter met.ne, getElem?_concat_iff, first]
        · simp [meet_returned_of_ne first second, first]
    · simp only [meets]
      by_cases first : tid = notifier
      · subst first
        simp [meet_returned_notifier, getElem?_concat_iff, met.ne.symm]
      · by_cases second : tid = waiter
        · subst second
          simp only [meet_returned_waiter met.ne, getElem?_concat_iff, Return.waitFor.injEq, and_true,
            @eq_comm _ notifier]
        · simp [meet_returned_of_ne first second, second]

theorem paired_cons {τ : Transition (Shared n) (Fin n × Call n)} {notify waitFor : Fin n × Nat} :
    Paired (τ :: history) notify waitFor ↔
      (Meets τ notify.1 waitFor.1 ∧ notify.2 = (τ.before.returned notify.1).length ∧
        waitFor.2 = (τ.before.returned waitFor.1).length) ∨ Paired history notify waitFor := by
  simp [Paired]

theorem Recorded.initial : Recorded (Shared.initial : Shared n) where
  stopped _ _ stopped := nomatch stopped
  array _ := Or.inl rfl

theorem Run.recorded (bound : n ≤ 255) (run : Run Step Shared.initial history s) : Recorded s :=
  run.reachable.invariant Recorded.initial fun _ _ _ recorded step => recorded.step bound step

/-- The calls that are paired are those that have returned. -/
structure Matched (history : History n) (s : Shared n) : Prop where
  notify : ∀ tid i, (s.returned tid)[i]? = some .notify → ∃! call, Paired history (tid, i) call
  waitFor : ∀ tid i notifier, (s.returned tid)[i]? = some (.waitFor notifier 0) →
    ∃! call, Paired history call (tid, i) ∧ call.1 = notifier
  paired : ∀ notifier i waiter j, Paired history (notifier, i) (waiter, j) →
    (s.returned notifier)[i]? = some .notify ∧ (s.returned waiter)[j]? = some (.waitFor notifier 0)

theorem Matched.next (matched : Matched history s) (pairing : Pairing ⟨s, a, t⟩) :
    Matched (⟨s, a, t⟩ :: history) t := by
  -- The calls that meet now have numbers that no earlier pair has.
  have old {notifier i waiter j} (pair : Paired history (notifier, i) (waiter, j)) :
      i < (s.returned notifier).length ∧ j < (s.returned waiter).length := by
    obtain ⟨notify, waitFor⟩ := matched.paired _ _ _ _ pair
    exact ⟨(List.getElem?_eq_some_iff.mp notify).1, (List.getElem?_eq_some_iff.mp waitFor).1⟩
  refine ⟨fun tid i notify => ?_, fun tid i notifier waitFor => ?_, fun notifier i waiter j pair => ?_⟩
  · rcases (pairing.notify tid i).mp notify with before | ⟨rfl, waiter, meets⟩
    · obtain ⟨call, pair, unique⟩ := matched.notify tid i before
      refine ⟨call, paired_cons.mpr (Or.inr pair), fun call' pair' => ?_⟩
      rcases paired_cons.mp pair' with ⟨_, now, _⟩ | earlier
      · exact absurd now (List.getElem?_eq_some_iff.mp before).1.ne
      · exact unique call' earlier
    · refine ⟨(waiter, (s.returned waiter).length), paired_cons.mpr (Or.inl ⟨meets, rfl, rfl⟩), ?_⟩
      rintro ⟨waiter', j⟩ pair'
      rcases paired_cons.mp pair' with ⟨meets', _, number⟩ | earlier
      · obtain ⟨-, rfl⟩ := pairing.unique _ _ _ _ meets meets'
        exact Prod.ext rfl number
      · exact absurd rfl (old earlier).1.ne
  · rcases (pairing.waitFor tid i notifier).mp waitFor with before | ⟨rfl, meets⟩
    · obtain ⟨call, ⟨pair, of⟩, unique⟩ := matched.waitFor tid i notifier before
      refine ⟨call, ⟨paired_cons.mpr (Or.inr pair), of⟩, fun call' pair' => ?_⟩
      rcases paired_cons.mp pair'.1 with ⟨_, _, now⟩ | earlier
      · exact absurd now (List.getElem?_eq_some_iff.mp before).1.ne
      · exact unique call' ⟨earlier, pair'.2⟩
    · refine ⟨(notifier, (s.returned notifier).length), ⟨paired_cons.mpr (Or.inl ⟨meets, rfl, rfl⟩), rfl⟩, ?_⟩
      rintro ⟨notifier', j⟩ ⟨pair', _⟩
      rcases paired_cons.mp pair' with ⟨meets', number, _⟩ | earlier
      · obtain ⟨rfl, -⟩ := pairing.unique _ _ _ _ meets meets'
        exact Prod.ext rfl number
      · exact absurd rfl (old earlier).2.ne
  · rcases paired_cons.mp pair with ⟨meets, first, second⟩ | earlier
    · exact ⟨(pairing.notify _ _).mpr (Or.inr ⟨first, waiter, meets⟩),
        (pairing.waitFor _ _ _).mpr (Or.inr ⟨second, meets⟩)⟩
    · obtain ⟨notify, waitFor⟩ := matched.paired _ _ _ _ earlier
      exact ⟨(pairing.notify _ _).mpr (Or.inl notify), (pairing.waitFor _ _ _).mpr (Or.inl waitFor)⟩

theorem Run.matched (bound : n ≤ 255) (run : Run Step Shared.initial history s) : Matched history s := by
  induction run with
  | start =>
    refine ⟨fun _ _ returned => ?_, fun _ _ _ returned => ?_, ?_⟩
    · cases returned
    · cases returned
    · rintro _ _ _ _ ⟨_, member, _⟩
      cases member
  | next previous step ih => exact ih.next ((Run.recorded bound previous).pairing bound step)

theorem Recorded.entry_unique (recorded : Recorded s) (bound : n ≤ 255) {tid : Fin n}
    (stopped : s.stopped tid ≠ none) :
    ∃! entry, s.array entry = byte tid := by
  obtain ⟨call, stopped⟩ := Option.ne_none_iff_exists'.mp stopped
  refine ⟨call.entry tid, (recorded.stopped tid call stopped).2, fun entry stored => ?_⟩
  rcases recorded.array entry with empty | ⟨other, call', stopped', here⟩
  · exact absurd (stored.symm.trans empty) (byte_ne_empty bound tid)
  · have stored' := (recorded.stopped other call' stopped').2
    rw [here, stored] at stored'
    obtain rfl := byte_injective bound stored'
    cases stopped.symm.trans stopped'
    exact here.symm

theorem Recorded.already (recorded : Recorded s) (bound : n ≤ 255) (step : Step s a t) {tid notifier : Fin n}
    (refused : t.returned tid = s.returned tid ++ [.waitFor notifier EALREADY]) :
    t.array = s.array ∧ t.stopped = s.stopped ∧
      ∀ other, other ≠ tid → t.returned other = s.returned other ∧ t.errno other = s.errno other := by
  rcases recorded.step_cases bound step with ⟨empty, rfl⟩ | ⟨m, call, rfl⟩ | ⟨m, waiter, met, rfl⟩
  · simp [Shared.stop, Shared.setEntry] at refused
  · have caller : tid = a.1 := by
      by_contra ne
      simp [Shared.refuse, Shared.finish, ne] at refused
    subst caller
    refine ⟨rfl, Function.update_eq_self_iff.mpr step.1.symm, fun other ne => ?_⟩
    exact ⟨Function.update_of_ne ne _ _, Function.update_of_ne ne _ _⟩
  · simp only [Shared.meet] at refused
    split at refused
    · simp at refused
    · split at refused <;> simp [EALREADY] at refused

/-- Notifications and calls that wait for them are paired in every run. -/
theorem handshakes_paired (bound : n ≤ 255) (run : Run Step Shared.initial history s) : Handshaken history s where
  notify := (Run.matched bound run).notify
  waitFor := (Run.matched bound run).waitFor
  paired := (Run.matched bound run).paired
  already τ member tid notifier refused := by
    obtain ⟨⟨_, before⟩, step⟩ := run.transition_step member
    exact (Run.recorded bound before).already bound step refused
  recorded _ stopped := (Run.recorded bound run).entry_unique bound stopped
  free tid call running legal := by
    rcases (Run.recorded bound run).run_eq bound legal running with ⟨_, eq⟩ | ⟨_, _, eq⟩ | ⟨_, _, _, eq⟩ <;>
      exact ⟨_, running, legal, eq⟩

/-- The tasklet 1 waits for the tasklet 0, which then notifies. -/
theorem handshakes_paired_two : ∃ (history : History 2) (s : Shared 2), Handshaken history s ∧
    s.returned 0 = [.notify] ∧ s.returned 1 = [.waitFor 0 0] := by
  have run := ((.start : Run (@Step 2) Shared.initial [] _).next
    (a := (1, .waitFor 0)) ⟨rfl, by decide, rfl⟩).next (a := (0, .notify)) ⟨rfl, by decide, rfl⟩
  exact ⟨_, _, handshakes_paired (by decide) run, rfl, rfl⟩

end Pairs
end Handshakes
end Upmem.Handshake
