import Upmem.Handshake
import Upmem.Lib.EventLog
import Upmem.Lib.WaitQueue

namespace Upmem.Semaphore
open Handshake (EMPTY_WAIT_QUEUE)
open Transitions WaitQueue EventLog

/-- `sem_t`, whose `lock` is held during a whole step. -/
structure Sem where
  waitQueue : BitVec 8
  count : BitVec 8

/-- What a call does: a take goes on, stops, or is resumed, and a give is done. -/
inductive Kind
  | taken | stopped | resumed | given
  deriving DecidableEq

/-- The semaphores, `__WAIT_QUEUE_TABLE`, the semaphores on which tasklets are stopped, and
what has been done, in order. -/
structure Shared (ι : Type) where
  sem : ι → Sem
  table : BitVec 8 → BitVec 8
  stopped : BitVec 8 → Option ι
  log : List (Event Kind (BitVec 8) ι)

inductive Call (ι : Type)
  | take (sem : ι)
  | give (sem : ι)

section Semaphores
variable {ι : Type}

/-- `SEMAPHORE_INIT` of each semaphore. -/
def Shared.initial (counter : ι → Int) : Shared ι where
  sem i := ⟨EMPTY_WAIT_QUEUE, BitVec.ofInt 8 (counter i)⟩
  table _ := EMPTY_WAIT_QUEUE
  stopped _ := none
  log := []

def Shared.note (s : Shared ι) (kind : Kind) (tid : BitVec 8) (i : ι) : Shared ι :=
  { s with log := s.log ++ [⟨kind, tid, i⟩] }

/-- `__resume`, that waits until the tasklet is stopped. -/
def Shared.resume (s : Shared ι) (tid : BitVec 8) : Option (Shared ι) :=
  (s.stopped tid).map fun i => { s with stopped := Function.update s.stopped tid none }.note .resumed tid i

variable [DecidableEq ι]

def Shared.setSem (s : Shared ι) (i : ι) (sem : Sem) : Shared ι :=
  { s with sem := Function.update s.sem i sem }

/-- The table with a tasklet behind the last one of a queue. -/
def enqueue (table : BitVec 8 → BitVec 8) (last tid : BitVec 8) : BitVec 8 → BitVec 8 :=
  if last ≠ EMPTY_WAIT_QUEUE then
    let first := table last
    Function.update (Function.update table tid first) last tid
  else
    Function.update table tid tid

/-- `sem_take`. -/
def semTake (s : Shared ι) (tid : BitVec 8) (i : ι) : Shared ι :=
  let sem := s.sem i
  let count := sem.count - 1
  if count.slt 0 then
    { s.setSem i ⟨tid, count⟩ with
      table := enqueue s.table sem.waitQueue tid
      stopped := Function.update s.stopped tid (some i) }.note .stopped tid i
  else
    (s.setSem i { sem with count := count }).note .taken tid i

/-- `sem_give`. -/
def semGive (s : Shared ι) (tid : BitVec 8) (i : ι) : Option (Shared ι) :=
  let count := (s.sem i).count + 1
  let last := (s.sem i).waitQueue
  let resumed :=
    if last ≠ EMPTY_WAIT_QUEUE then
      let first := s.table last
      let s :=
        if first = last then s.setSem i { s.sem i with waitQueue := EMPTY_WAIT_QUEUE }
        else { s with table := Function.update s.table last (s.table first) }
      s.resume first
    else some s
  resumed.map fun s => (s.setSem i { s.sem i with count := count }).note .given tid i

def Call.run (call : Call ι) (s : Shared ι) (tid : BitVec 8) : Option (Shared ι) :=
  match call with
  | .take i => some (semTake s tid i)
  | .give i => semGive s tid i

/-- A tasklet that is not stopped does a call. -/
def Step (s : Shared ι) (a : BitVec 8 × Call ι) (t : Shared ι) : Prop :=
  a.1 ≠ EMPTY_WAIT_QUEUE ∧ s.stopped a.1 = none ∧ a.2.run s a.1 = some t

/-- The takes of a semaphore that have completed. -/
def completed (log : List (Event Kind (BitVec 8) ι)) (i : ι) : Nat :=
  (logged log .taken i).length + (logged log .resumed i).length

def gives (log : List (Event Kind (BitVec 8) ι)) (i : ι) : Nat :=
  (logged log .given i).length

/-- The law of a semaphore. -/
structure Counted (counter : ι → Int) (s : Shared ι) : Prop where
  bounded : ∀ i, (completed s.log i : Int) ≤ counter i + gives s.log i
  waiting : ∀ tid i, s.stopped tid = some i → ¬0 < counter i + gives s.log i - completed s.log i
  order : ∀ i, logged s.log .resumed i <+: logged s.log .stopped i

/-- The counter without the bound of its byte: the initial count and the gives, less all takes. -/
def units (counter : ι → Int) (log : List (Event Kind (BitVec 8) ι)) (i : ι) : Int :=
  counter i + gives log i - ((logged log .taken i).length + (logged log .stopped i).length)

/-- The condition: when a take decrements the counter, bit 7 of its byte is its sign. -/
def SignKept (counter : ι → Int) (τ : Transition (Shared ι) (BitVec 8 × Call ι)) : Prop :=
  ∀ i, τ.action.2 = .take i →
    (128 ≤ (units counter τ.before.log i - 1) % 256 ↔ units counter τ.before.log i - 1 < 0)

/-- What the code keeps, whatever the counters: the queues of the semaphores in the table,
and the counters modulo 256. -/
structure Kept (counter : ι → Int) (s : Shared ι) (queue : ι → List (BitVec 8)) : Prop where
  ring : ∀ i, Ring s.table (queue i)
  last : ∀ i, (s.sem i).waitQueue = (queue i).getLast?.getD EMPTY_WAIT_QUEUE
  members : ∀ tid i, tid ∈ queue i ↔ s.stopped tid = some i
  tasklets : ∀ i, EMPTY_WAIT_QUEUE ∉ queue i
  order : ∀ i, logged s.log .stopped i = logged s.log .resumed i ++ queue i
  count : ∀ i, (s.sem i).count = BitVec.ofInt 8 (units counter s.log i)

section Logs
variable {log : List (Event Kind (BitVec 8) ι)} {kind kind' : Kind} {tid : BitVec 8} {i j : ι} {counter : ι → Int}

/-- What an event changes of the units. -/
def Kind.change : Kind → Int
  | .taken | .stopped => -1
  | .resumed => 0
  | .given => 1

theorem units_concat : units counter (log ++ [⟨kind, tid, j⟩]) i =
    units counter log i + if j = i then kind.change else 0 := by
  simp only [units, gives, logged_length_concat]
  by_cases same : j = i
  · cases kind <;> simp [same, Kind.change] <;> omega
  · simp [same]

theorem gives_concat : gives (log ++ [⟨kind, tid, j⟩]) i = gives log i + if kind = .given ∧ j = i then 1 else 0 :=
  logged_length_concat

theorem completed_concat : completed (log ++ [⟨kind, tid, j⟩]) i =
    completed log i + if (kind = .taken ∨ kind = .resumed) ∧ j = i then 1 else 0 := by
  simp only [completed, logged_length_concat]
  by_cases same : j = i
  · cases kind <;> simp [same] <;> omega
  · simp [same]

end Logs

theorem ofInt_pred (x : Int) : BitVec.ofInt 8 (x + -1) = BitVec.ofInt 8 x - 1 := by
  rw [BitVec.ofInt_add, BitVec.sub_eq_add_neg]
  rfl

theorem ofInt_succ (x : Int) : BitVec.ofInt 8 (x + 1) = BitVec.ofInt 8 x + 1 :=
  BitVec.ofInt_add x 1

section Queues
variable {s : Shared ι} {counter : ι → Int} {queue : ι → List (BitVec 8)} {i : ι} {tid : BitVec 8}

theorem Kept.last_of_nil (kept : Kept counter s queue) (empty : queue i = []) :
    (s.sem i).waitQueue = EMPTY_WAIT_QUEUE := by
  rw [kept.last, empty]
  rfl

theorem Kept.last_of_concat {front : List (BitVec 8)} {last : BitVec 8} (kept : Kept counter s queue)
    (members : queue i = front ++ [last]) : (s.sem i).waitQueue = last ∧ last ≠ EMPTY_WAIT_QUEUE := by
  refine ⟨by rw [kept.last, members, List.getLast?_concat]; rfl, fun same => kept.tasklets i ?_⟩
  rw [members, ← same]
  exact List.mem_append_right _ (List.mem_singleton_self _)

theorem Kept.disjoint {j : ι} {member : BitVec 8} (kept : Kept counter s queue) (ne : j ≠ i)
    (inside : member ∈ queue j) :
    member ∉ queue i := by
  intro other
  have same := ((kept.members member j).mp inside).symm.trans ((kept.members member i).mp other)
  exact ne (Option.some.inj same)

theorem Kept.outside (kept : Kept counter s queue) (running : s.stopped tid = none) (j : ι) : tid ∉ queue j := by
  intro inside
  rw [kept.members, running] at inside
  cases inside

theorem Kept.enqueue_of_ne (kept : Kept counter s queue) (running : s.stopped tid = none) {j : ι} (ne : j ≠ i) :
    ∀ member ∈ queue j, enqueue s.table (s.sem i).waitQueue tid member = s.table member := by
  intro member inside
  have caller : member ≠ tid := fun same => kept.outside running j (same ▸ inside)
  rcases List.eq_nil_or_concat' (queue i) with empty | ⟨front, last, members⟩
  · rw [kept.last_of_nil empty, enqueue, if_neg (not_not.mpr rfl), Function.update_of_ne caller]
  · obtain ⟨same, valid⟩ := kept.last_of_concat members
    have other : member ≠ last := by
      rintro rfl
      exact kept.disjoint ne inside (members ▸ List.mem_append_right _ (List.mem_singleton_self _))
    rw [same, enqueue, if_pos valid, Function.update_of_ne other, Function.update_of_ne caller]

theorem Kept.enqueue_self (kept : Kept counter s queue) (running : s.stopped tid = none) :
    Ring (enqueue s.table (s.sem i).waitQueue tid) (queue i ++ [tid]) := by
  rcases List.eq_nil_or_concat' (queue i) with empty | ⟨front, last, members⟩
  · rw [kept.last_of_nil empty, enqueue, if_neg (not_not.mpr rfl), empty]
    exact Ring.single (Function.update_self _ _ _)
  · obtain ⟨same, valid⟩ := kept.last_of_concat members
    have ring := kept.ring i
    have fresh := kept.outside running i
    rw [members] at ring fresh ⊢
    obtain ⟨first, head⟩ : ∃ first, (front ++ [last]).head? = some first := by
      cases front <;> exact ⟨_, rfl⟩
    rw [same, enqueue, if_pos valid, ring.table_last head]
    exact ring.insert head fresh

/-- A tasklet stops in `sem_take`. -/
theorem Kept.take_stopped (kept : Kept counter s queue) (valid : tid ≠ EMPTY_WAIT_QUEUE)
    (running : s.stopped tid = none)
    (negative : ((s.sem i).count - 1).slt 0) :
    Kept counter (semTake s tid i) (Function.update queue i (queue i ++ [tid])) := by
  have result : semTake s tid i = { s.setSem i ⟨tid, (s.sem i).count - 1⟩ with
      table := enqueue s.table (s.sem i).waitQueue tid
      stopped := Function.update s.stopped tid (some i) }.note .stopped tid i := if_pos negative
  rw [result]
  refine ⟨fun j => ?_, fun j => ?_, fun member j => ?_, fun j => ?_, fun j => ?_, fun j => ?_⟩
  · by_cases same : j = i
    · subst same
      rw [Function.update_self]
      exact kept.enqueue_self running
    · rw [Function.update_of_ne same]
      exact (kept.ring j).congr (kept.enqueue_of_ne running same)
  · by_cases same : j = i
    · subst same
      simp [Shared.note, Shared.setSem]
    · simpa [Shared.note, Shared.setSem, same] using kept.last j
  · simp only [Shared.note]
    by_cases caller : member = tid
    · subst caller
      by_cases same : j = i
      · simp [same]
      · simp [same, kept.outside running j, Ne.symm same]
    · by_cases same : j = i
      · subst same
        simp [caller, kept.members]
      · simp [same, caller, kept.members]
  · by_cases same : j = i
    · subst same
      simp [kept.tasklets, valid.symm]
    · simpa [same] using kept.tasklets j
  · simp only [Shared.note, Shared.setSem, logged_concat]
    by_cases same : j = i
    · subst same
      simp [kept.order]
    · simp [same, Ne.symm same, kept.order]
  · simp only [Shared.note, Shared.setSem, units_concat]
    by_cases same : j = i
    · subst same
      rw [Function.update_self, kept.count, if_pos rfl, Kind.change, ofInt_pred]
    · simpa [same, Ne.symm same] using kept.count j

/-- A take goes on. -/
theorem Kept.take_taken (kept : Kept counter s queue) (positive : ¬((s.sem i).count - 1).slt 0) :
    Kept counter (semTake s tid i) queue := by
  have result : semTake s tid i = (s.setSem i { s.sem i with count := (s.sem i).count - 1 }).note .taken tid i :=
    if_neg positive
  rw [result]
  refine ⟨kept.ring, fun j => ?_, kept.members, kept.tasklets, fun j => ?_, fun j => ?_⟩
  · by_cases same : j = i
    · subst same
      simpa [Shared.note, Shared.setSem] using kept.last j
    · simpa [Shared.note, Shared.setSem, same] using kept.last j
  · simpa [Shared.note, Shared.setSem, logged_concat] using kept.order j
  · simp only [Shared.note, Shared.setSem, units_concat]
    by_cases same : j = i
    · subst same
      rw [Function.update_self, kept.count, if_pos rfl, Kind.change, ofInt_pred]
    · simpa [same, Ne.symm same] using kept.count j

/-- The state after a unit has been added. -/
def Shared.given (s : Shared ι) (tid : BitVec 8) (i : ι) (count : BitVec 8) : Shared ι :=
  (s.setSem i { s.sem i with count := count }).note .given tid i

theorem Kept.given (kept : Kept counter s queue) : Kept counter (s.given tid i ((s.sem i).count + 1)) queue := by
  refine ⟨kept.ring, fun j => ?_, kept.members, kept.tasklets, fun j => ?_, fun j => ?_⟩
  · by_cases same : j = i
    · subst same
      simpa [Shared.given, Shared.note, Shared.setSem] using kept.last j
    · simpa [Shared.given, Shared.note, Shared.setSem, same] using kept.last j
  · simpa [Shared.given, Shared.note, Shared.setSem, logged_concat] using kept.order j
  · simp only [Shared.given, Shared.note, Shared.setSem, units_concat]
    by_cases same : j = i
    · subst same
      rw [Function.update_self, kept.count, if_pos rfl, Kind.change, ofInt_succ]
    · simpa [same, Ne.symm same] using kept.count j

/-- The state after the first one of a queue has been taken out and resumed. -/
def Shared.dequeued (s : Shared ι) (i : ι) (first : BitVec 8) : Shared ι :=
  let s' :=
    if first = (s.sem i).waitQueue then s.setSem i { s.sem i with waitQueue := EMPTY_WAIT_QUEUE }
    else { s with table := Function.update s.table (s.sem i).waitQueue (s.table first) }
  { s' with stopped := Function.update s.stopped first none }.note .resumed first i

theorem dequeued_sem (first : BitVec 8) (j : ι) : ((s.dequeued i first).sem j).count = (s.sem j).count := by
  simp only [Shared.dequeued, Shared.note]
  split
  · by_cases same : j = i
    · subst same
      simp [Shared.setSem]
    · simp [Shared.setSem, same]
  · rfl

theorem dequeued_log (first : BitVec 8) : (s.dequeued i first).log = s.log ++ [⟨.resumed, first, i⟩] := by
  simp only [Shared.dequeued, Shared.note]
  split <;> rfl

theorem dequeued_stopped (first : BitVec 8) :
    (s.dequeued i first).stopped = Function.update s.stopped first none := by
  simp only [Shared.dequeued, Shared.note, Shared.setSem]

theorem dequeued_table (first : BitVec 8) : (s.dequeued i first).table =
    if first = (s.sem i).waitQueue then s.table
      else Function.update s.table (s.sem i).waitQueue (s.table first) := by
  simp only [Shared.dequeued, Shared.note]
  split <;> rfl

theorem dequeued_waitQueue (first : BitVec 8) (j : ι) : ((s.dequeued i first).sem j).waitQueue =
    if first = (s.sem i).waitQueue ∧ j = i then EMPTY_WAIT_QUEUE else (s.sem j).waitQueue := by
  simp only [Shared.dequeued, Shared.note]
  by_cases only : first = (s.sem i).waitQueue
  · by_cases same : j = i
    · subst same
      simp [only, Shared.setSem]
    · simp [only, same, Shared.setSem]
  · simp [only]

/-- The last one of a queue is the first one just when it is the only one. -/
theorem Kept.first_eq_last_iff {first : BitVec 8} {rest : List (BitVec 8)} (kept : Kept counter s queue)
    (members : queue i = first :: rest) : first = (s.sem i).waitQueue ↔ rest = [] := by
  rcases List.eq_nil_or_concat' rest with rfl | ⟨front, last, rfl⟩
  · simp [kept.last, members]
  · have distinct : first ∉ front ++ [last] := (List.nodup_cons.mp (members ▸ (kept.ring i).nodup)).1
    rw [(kept.last_of_concat (show queue i = (first :: front) ++ [last] from members)).1]
    refine iff_of_false (fun same => distinct ?_) (by simp)
    exact same ▸ List.mem_append_right _ (List.mem_singleton_self _)

theorem Kept.dequeued {first : BitVec 8} {rest : List (BitVec 8)} (kept : Kept counter s queue)
    (members : queue i = first :: rest) :
    Kept counter (s.dequeued i first) (Function.update queue i rest) := by
  have distinct := List.nodup_cons.mp (members ▸ (kept.ring i).nodup)
  have only := kept.first_eq_last_iff members
  refine ⟨fun j => ?_, fun j => ?_, fun member j => ?_, fun j => ?_, fun j => ?_, fun j => ?_⟩
  · rw [dequeued_table]
    by_cases same : j = i
    · subst same
      rw [Function.update_self]
      rcases List.eq_nil_or_concat' rest with rfl | ⟨front, last, rfl⟩
      · exact Ring.nil
      · obtain ⟨second, head⟩ : ∃ second, (front ++ [last]).head? = some second := by
          cases front <;> exact ⟨_, rfl⟩
        have ring := kept.ring j
        rw [members] at ring
        have next : s.table first = second := by
          obtain ⟨tail, split⟩ := List.head?_eq_some_iff.mp head
          rw [split] at ring
          exact ring.table_first
        rw [if_neg (mt only.mp (by simp)),
          (kept.last_of_concat (show queue j = (first :: front) ++ [last] from members)).1, next]
        exact ring.remove head
    · rw [Function.update_of_ne same]
      refine (kept.ring j).congr fun member inside => ?_
      split
      · rfl
      · refine Function.update_of_ne (fun eq => ?_) _ _
        obtain ⟨front, last, concat⟩ : ∃ front last, queue i = front ++ [last] :=
          (List.eq_nil_or_concat' _).resolve_left (by simp [members])
        have outside := kept.disjoint same inside
        rw [eq, (kept.last_of_concat concat).1, concat] at outside
        exact outside (List.mem_append_right _ (List.mem_singleton_self _))
  · rw [dequeued_waitQueue]
    by_cases same : j = i
    · subst same
      simp only [only, and_true, Function.update_self]
      cases rest with
      | nil => simp
      | cons second tail => simp [kept.last, members]
    · rw [if_neg fun both => same both.2, Function.update_of_ne same, kept.last]
  · rw [dequeued_stopped]
    by_cases resumed : member = first
    · subst resumed
      rw [Function.update_self]
      refine iff_of_false (fun inside => ?_) (by simp)
      by_cases same : j = i
      · subst same
        rw [Function.update_self] at inside
        exact distinct.1 inside
      · rw [Function.update_of_ne same] at inside
        exact kept.disjoint same inside (members ▸ List.mem_cons_self)
    · rw [Function.update_of_ne resumed, ← kept.members]
      by_cases same : j = i
      · subst same
        simp [members, resumed]
      · simp [same]
  · by_cases same : j = i
    · subst same
      rw [Function.update_self]
      exact fun inside => kept.tasklets j (members ▸ List.mem_cons_of_mem _ inside)
    · rw [Function.update_of_ne same]
      exact kept.tasklets j
  · rw [dequeued_log, logged_concat_of_kind (by simp)]
    by_cases same : j = i
    · subst same
      rw [logged_concat_self, Function.update_self, kept.order, members, List.append_assoc]
      rfl
    · rw [logged_concat_of_object (Ne.symm same), Function.update_of_ne same]
      exact kept.order j
  · rw [dequeued_sem, dequeued_log, units_concat, kept.count]
    split <;> simp [Kind.change]

theorem Kept.semGive_of_nil (kept : Kept counter s queue) (members : queue i = []) :
    semGive s tid i = some (s.given tid i ((s.sem i).count + 1)) := by
  simp only [semGive, kept.last_of_nil members]
  rfl

theorem Kept.semGive_of_cons {first : BitVec 8} {rest : List (BitVec 8)} (kept : Kept counter s queue)
    (members : queue i = first :: rest) :
    semGive s tid i = some ((s.dequeued i first).given tid i ((s.sem i).count + 1)) := by
  obtain ⟨front, last, concat⟩ : ∃ front last, queue i = front ++ [last] :=
    (List.eq_nil_or_concat' _).resolve_left (by simp [members])
  obtain ⟨same, valid⟩ := kept.last_of_concat concat
  have ring := kept.ring i
  rw [concat] at ring
  have head : s.table last = first := ring.table_last (by rw [← concat, members]; rfl)
  have stopped : s.stopped first = some i := (kept.members first i).mp (members ▸ List.mem_cons_self)
  rw [semGive]
  simp only [same, if_pos valid, head]
  by_cases only : first = last
  · simp only [if_pos only, Shared.resume]
    simp only [Shared.setSem, stopped]
    simp [Shared.given, Shared.dequeued, same, only, Shared.setSem]
  · simp only [if_neg only, Shared.resume, stopped]
    simp [Shared.given, Shared.dequeued, same, only]

end Queues

section Runs
variable {s t start : Shared ι} {counter : ι → Int} {queue : ι → List (BitVec 8)} {i : ι}
  {a : BitVec 8 × Call ι} {history : List (Transition (Shared ι) (BitVec 8 × Call ι))}

theorem Kept.initial (counter : ι → Int) : Kept counter (.initial counter) fun _ => [] where
  ring _ := Ring.nil
  last _ := rfl
  members _ _ := by simp [Shared.initial]
  tasklets _ := List.not_mem_nil
  order _ := rfl
  count i := by simp [Shared.initial, units, gives, logged]

/-- What a step does, with the queues after it. -/
inductive Does (counter : ι → Int) (s : Shared ι) (queue : ι → List (BitVec 8)) (tid : BitVec 8) :
    Call ι → Shared ι → (ι → List (BitVec 8)) → Prop
  | stopped {i : ι} : ((s.sem i).count - 1).slt 0 →
      Does counter s queue tid (.take i) (semTake s tid i) (Function.update queue i (queue i ++ [tid]))
  | taken {i : ι} : ¬((s.sem i).count - 1).slt 0 → Does counter s queue tid (.take i) (semTake s tid i) queue
  | given {i : ι} : queue i = [] → Does counter s queue tid (.give i) (s.given tid i ((s.sem i).count + 1)) queue
  | resumed {i : ι} {first : BitVec 8} {rest : List (BitVec 8)} : queue i = first :: rest →
      Does counter s queue tid (.give i) ((s.dequeued i first).given tid i ((s.sem i).count + 1))
        (Function.update queue i rest)

theorem Kept.step (kept : Kept counter s queue) (step : Step s a t) :
    ∃ queue', Does counter s queue a.1 a.2 t queue' ∧ Kept counter t queue' := by
  obtain ⟨tid, call⟩ := a
  obtain ⟨valid, running, run⟩ := step
  cases call with
  | take i =>
    obtain rfl : semTake s tid i = t := Option.some.inj run
    by_cases negative : ((s.sem i).count - 1).slt 0
    · exact ⟨_, .stopped negative, kept.take_stopped valid running negative⟩
    · exact ⟨_, .taken negative, kept.take_taken negative⟩
  | give i =>
    cases members : queue i with
    | nil =>
      obtain rfl : s.given tid i _ = t := Option.some.inj ((kept.semGive_of_nil members).symm.trans run)
      exact ⟨_, .given members, kept.given⟩
    | cons first rest =>
      obtain rfl : (s.dequeued i first).given tid i _ = t :=
        Option.some.inj ((kept.semGive_of_cons members).symm.trans run)
      refine ⟨_, .resumed members, ?_⟩
      have after : Kept counter ((s.dequeued i first).given tid i _) _ := (kept.dequeued members).given
      rwa [dequeued_sem] at after

theorem ofInt_slt_zero (x : Int) : (BitVec.ofInt 8 x).slt 0 ↔ 128 ≤ x % 256 := by
  have zero : (0 : BitVec 8).toInt = 0 := rfl
  rw [BitVec.slt, decide_eq_true_iff, BitVec.toInt_ofInt, Int.bmod_def, zero]
  omega

/-- The initial count and the gives, less the completed takes. -/
def spare (counter : ι → Int) (log : List (Event Kind (BitVec 8) ι)) (i : ι) : Int :=
  counter i + gives log i - completed log i

theorem spare_concat {log : List (Event Kind (BitVec 8) ι)} {kind : Kind} {tid : BitVec 8} {j : ι} :
    spare counter (log ++ [⟨kind, tid, j⟩]) i = spare counter log i +
      ((if kind = .given ∧ j = i then 1 else 0) - if (kind = .taken ∨ kind = .resumed) ∧ j = i then 1 else 0) := by
  simp only [spare, gives_concat, completed_concat]
  split <;> split <;> omega

theorem Kept.units_eq (kept : Kept counter s queue) (i : ι) :
    units counter s.log i = spare counter s.log i - (queue i).length := by
  have order := congrArg List.length (kept.order i)
  rw [List.length_append] at order
  rw [units, spare, completed]
  omega

theorem Kept.counted_iff (kept : Kept counter s queue) :
    Counted counter s ↔ ∀ i, 0 ≤ spare counter s.log i ∧ (queue i ≠ [] → spare counter s.log i ≤ 0) := by
  constructor
  · intro counted i
    have bounded := counted.bounded i
    refine ⟨by rw [spare]; omega, fun waiting => ?_⟩
    obtain ⟨tid, inside⟩ := List.exists_mem_of_ne_nil _ waiting
    exact not_lt.mp (counted.waiting tid i ((kept.members tid i).mp inside))
  · intro spares
    refine ⟨fun i => ?_, fun tid i stopped => ?_, fun i => ⟨queue i, (kept.order i).symm⟩⟩
    · have bounded := (spares i).1
      rw [spare] at bounded
      omega
    · exact not_lt.mpr ((spares i).2 (List.ne_nil_of_mem ((kept.members tid i).mpr stopped)))

theorem Kept.sign (kept : Kept counter s queue) (i : ι) :
    ((s.sem i).count - 1).slt 0 ↔ 128 ≤ (units counter s.log i - 1) % 256 := by
  rw [kept.count, ← ofInt_pred, ofInt_slt_zero, Int.sub_eq_add_neg]

theorem signKept_take {tid : BitVec 8} : SignKept counter ⟨s, (tid, .take i), t⟩ ↔
    (128 ≤ (units counter s.log i - 1) % 256 ↔ units counter s.log i - 1 < 0) := by
  simp [SignKept]

theorem signKept_give {tid : BitVec 8} : SignKept counter ⟨s, (tid, .give i), t⟩ := by
  intro j take
  cases take

omit [DecidableEq ι] in
theorem forall_iff_of_ne {p : ι → Prop} (others : ∀ j, j ≠ i → p j) : (∀ j, p j) ↔ p i :=
  ⟨fun all => all i, fun here j => (em (j = i)).elim (fun same => same ▸ here) (others j)⟩

/-- The law holds after a step just when a take has seen the sign of the counter. -/
theorem Kept.counted_step_iff (kept : Kept counter s queue) (counted : Counted counter s) (step : Step s a t) :
    Counted counter t ↔ SignKept counter ⟨s, a, t⟩ := by
  obtain ⟨queue', does, kept'⟩ := kept.step step
  have before := kept.counted_iff.mp counted
  rw [kept'.counted_iff]
  obtain ⟨tid, call⟩ := a
  cases does with
  | @stopped i negative =>
    have log : (semTake s tid i).log = s.log ++ [⟨.stopped, tid, i⟩] := by
      rw [semTake, if_pos negative]
      rfl
    have sign := (kept.sign i).mp negative
    have units := kept.units_eq i
    obtain ⟨enough, waits⟩ := before i
    rw [signKept_take, iff_true_left sign,
      forall_iff_of_ne (i := i) fun j ne => by simpa [log, spare_concat, ne, Ne.symm ne] using before j]
    simp only [log, spare_concat, Function.update_self]
    by_cases members : queue i = []
    · simp [members] at units ⊢
      omega
    · have full := waits members
      have some : 0 < (queue i).length := List.length_pos_iff.mpr members
      simp
      omega
  | @taken i positive =>
    have log : (semTake s tid i).log = s.log ++ [⟨.taken, tid, i⟩] := by
      rw [semTake, if_neg positive]
      rfl
    have sign := mt (kept.sign i).mpr positive
    have units := kept.units_eq i
    obtain ⟨enough, waits⟩ := before i
    rw [signKept_take, iff_false_left sign,
      forall_iff_of_ne (i := i) fun j ne => by simpa [log, spare_concat, Ne.symm ne] using before j]
    simp only [log, spare_concat]
    by_cases members : queue i = []
    · simp [members] at units ⊢
      omega
    · have full := waits members
      have some : 0 < (queue i).length := List.length_pos_iff.mpr members
      simp [members]
      omega
  | @given i members =>
    refine iff_of_true (fun j => ?_) signKept_give
    have log : (s.given tid i ((s.sem i).count + 1)).log = s.log ++ [⟨.given, tid, i⟩] := rfl
    obtain ⟨enough, waits⟩ := before j
    rw [log, spare_concat]
    by_cases same : i = j
    · subst same
      simp [members]
      omega
    · simpa [same] using before j
  | @resumed i first rest members =>
    refine iff_of_true (fun j => ?_) signKept_give
    have log : ((s.dequeued i first).given tid i ((s.sem i).count + 1)).log =
        s.log ++ [⟨.resumed, first, i⟩] ++ [⟨.given, tid, i⟩] := by
      rw [← dequeued_log]
      rfl
    obtain ⟨enough, waits⟩ := before j
    rw [log, spare_concat, spare_concat]
    by_cases same : i = j
    · subst same
      have full := waits (by simp [members])
      simp
      omega
    · simpa [same, Ne.symm same] using before j

/-- The law holds in all states of a run just when every take has seen the sign of its counter. -/
theorem semaphores_counted_iff (counters : ∀ i, 0 ≤ counter i ∧ counter i < 128)
    (run : Run Step (Shared.initial counter) history s) :
    (∀ τ ∈ history, Counted counter τ.after) ↔ ∀ τ ∈ history, SignKept counter τ := by
  refine run.guarded_iff (I := fun s => ∃ queue, Kept counter s queue) ⟨_, Kept.initial counter⟩ ?_ ?_ ?_
  · rintro s a t ⟨queue, kept⟩ step
    obtain ⟨queue', _, kept'⟩ := kept.step step
    exact ⟨queue', kept'⟩
  · refine (Kept.initial counter).counted_iff.mpr fun i => ⟨?_, fun some => absurd rfl some⟩
    have enough := (counters i).1
    simpa [spare, Shared.initial, gives, completed, logged] using enough
  · rintro s a t ⟨queue, kept⟩ counted step
    exact kept.counted_step_iff counted step

end Runs

section Example

/-- The second of two tasklets waits for the first one to give back the unit. -/
theorem semaphores_counted_iff_one :
    ∃ (history : List (Transition (Shared Unit) (BitVec 8 × Call Unit))) (s : Shared Unit),
    Run Step (.initial fun _ => 1) history s ∧ (∀ τ ∈ history, Counted (fun _ => 1) τ.after) ∧
    logged s.log .resumed () = [1] ∧ completed s.log () = 2 := by
  have run := (((.start : Run Step (Shared.initial fun _ : Unit => 1) [] _).next
    (a := (0, .take ())) ⟨by decide, rfl, rfl⟩).next
    (a := (1, .take ())) ⟨by decide, rfl, rfl⟩).next
    (a := (0, .give ())) ⟨by decide, rfl, rfl⟩
  have law := (semaphores_counted_iff (fun _ => by decide) run).mpr (by
    intro τ member
    simp only [List.mem_cons, List.not_mem_nil, or_false] at member
    rcases member with rfl | rfl | rfl
    · exact signKept_give
    · exact signKept_take.mpr (by decide)
    · exact signKept_take.mpr (by decide))
  exact ⟨_, _, run, law, rfl, by decide⟩

/-- With 129 units a take stops. -/
theorem fullSemaphore_not_counted :
    ∃ (history : List (Transition (Shared Unit) (BitVec 8 × Call Unit))) (s : Shared Unit),
    Run Step (.initial fun _ => 127) history s ∧ ¬Counted (fun _ => 127) s := by
  have run := (((.start : Run Step (Shared.initial fun _ : Unit => 127) [] _).next
    (a := (0, .give ())) ⟨by decide, rfl, rfl⟩).next
    (a := (0, .give ())) ⟨by decide, rfl, rfl⟩).next
    (a := (0, .take ())) ⟨by decide, rfl, rfl⟩
  refine ⟨_, _, run, fun counted => counted.waiting 0 () rfl (by decide)⟩

end Example

end Semaphores
end Upmem.Semaphore
