import Upmem.Handshake
import Upmem.Lib.EventLog
import Upmem.Lib.WaitQueue

namespace Upmem.Barrier
open Handshake (EMPTY_WAIT_QUEUE)
open Transitions WaitQueue EventLog

/-- `barrier_t` and `sem_t`. A lock that is held records its holder. -/
structure Object where
  waitQueue : BitVec 8
  count : BitVec 8
  initialCount : BitVec 8
  lock : Option (BitVec 8)

inductive Routine
  | barrierWait | semTake | semGive
  deriving DecidableEq

/-- The next load, store, acquire, release or resume of a call. -/
inductive Stage
  | acquire | loadCount | loadLast
  /-- The caller is put behind the last one of the queue, and stops. -/
  | loadFirst | storeSelf | storeLast | storeQueue | storeCount | stop
  /-- The last arrival at a barrier resumes all others. -/
  | releaseFirst | resume | advance | resumeLast | clearQueue | resetCount
  /-- `sem_give` takes out the first one of the queue, and resumes it. -/
  | giveFirst | giveClear | giveNext | giveStore | giveResume
  | setCount | release
  deriving DecidableEq

/-- A call with its local variables. -/
structure Frame (ι : Type) where
  routine : Routine
  object : ι
  count : BitVec 8
  last : BitVec 8
  first : BitVec 8
  next : BitVec 8

/-- What a tasklet does. -/
inductive Pc (ι : Type)
  | running
  | at (stage : Stage) (f : Frame ι)
  | stopped (object : ι)

/-- What is recorded: a tasklet stops at an object or is resumed by a call on it;
the last arrival at a barrier, and the end of its call. -/
inductive Kind
  | stopped | resumed | opened | closed
  deriving DecidableEq

abbrev Log (ι : Type) := List (Event Kind (BitVec 8) ι)

/-- The barriers and semaphores, `__WAIT_QUEUE_TABLE`, the tasklets, and what has been done, in order. -/
structure State (ι : Type) where
  object : ι → Object
  table : BitVec 8 → BitVec 8
  pc : BitVec 8 → Pc ι
  log : Log ι

/-- Which objects are barriers, and the counts they are declared with. -/
structure Shape (ι : Type) where
  barrier : ι → Bool
  initialCount : ι → BitVec 8

section Barriers
variable {ι : Type}

/-- `BARRIER_INIT` and `SEMAPHORE_INIT`. -/
def Shape.object (shape : Shape ι) (i : ι) : Object :=
  ⟨EMPTY_WAIT_QUEUE, shape.initialCount i, shape.initialCount i, none⟩

def State.initial (shape : Shape ι) : State ι where
  object := shape.object
  table _ := EMPTY_WAIT_QUEUE
  pc _ := .running
  log := []

def State.note (s : State ι) (kind : Kind) (tid : BitVec 8) (i : ι) : State ι :=
  { s with log := s.log ++ [⟨kind, tid, i⟩] }

def State.setPc (s : State ι) (tid : BitVec 8) (pc : Pc ι) : State ι :=
  { s with pc := Function.update s.pc tid pc }

def State.store (s : State ι) (entry value : BitVec 8) : State ι :=
  { s with table := Function.update s.table entry value }

/-- `__resume`, that waits until the tasklet is stopped. -/
def State.resume (s : State ι) (target : BitVec 8) (i : ι) : Option (State ι) :=
  match s.pc target with
  | .stopped _ => some ((s.setPc target .running).note .resumed target i)
  | _ => none

variable [DecidableEq ι]

def State.setObject (s : State ι) (i : ι) (o : Object) : State ι :=
  { s with object := Function.update s.object i o }

/-- A single step of a call. -/
def State.go (s : State ι) (tid : BitVec 8) : Option (State ι) :=
  match s.pc tid with
  | .running | .stopped _ => none
  | .at stage f =>
    let o := s.object f.object
    match stage with
    | .acquire =>
      if o.lock.isNone then
        some ((s.setObject f.object { o with lock := some tid }).setPc tid (.at .loadCount f))
      else none
    | .loadCount =>
      match f.routine with
      | .barrierWait => some (s.setPc tid (.at .loadLast { f with count := o.count }))
      | .semTake =>
        let count := o.count - 1
        some (s.setPc tid (.at (if count.slt 0 then .loadLast else .setCount) { f with count := count }))
      | .semGive => some (s.setPc tid (.at .loadLast { f with count := o.count + 1 }))
    | .loadLast =>
      let f := { f with last := o.waitQueue }
      match f.routine with
      | .barrierWait =>
        -- a count of 1 means that this is the last one to enter the barrier
        if f.count = 1 then
          some ((s.note .opened tid f.object).setPc tid
            (.at (if f.last ≠ EMPTY_WAIT_QUEUE then .releaseFirst else .release) f))
        else some (s.setPc tid (.at (if f.last = EMPTY_WAIT_QUEUE then .storeSelf else .loadFirst) f))
      | .semTake => some (s.setPc tid (.at (if f.last ≠ EMPTY_WAIT_QUEUE then .loadFirst else .storeSelf) f))
      | .semGive => some (s.setPc tid (.at (if f.last ≠ EMPTY_WAIT_QUEUE then .giveFirst else .setCount) f))
    | .loadFirst => some (s.setPc tid (.at .storeSelf { f with first := s.table f.last }))
    | .storeSelf =>
      if f.last = EMPTY_WAIT_QUEUE then some ((s.store tid tid).setPc tid (.at .storeQueue f))
      else some ((s.store tid f.first).setPc tid (.at .storeLast f))
    | .storeLast => some ((s.store f.last tid).setPc tid (.at .storeQueue f))
    | .storeQueue => some ((s.setObject f.object { o with waitQueue := tid }).setPc tid (.at .storeCount f))
    | .storeCount =>
      let count := if f.routine = .barrierWait then f.count - 1 else f.count
      some ((s.setObject f.object { o with count := count }).setPc tid (.at .stop f))
    | .stop =>
      some
        (((s.setObject f.object { o with lock := none }).setPc tid (.stopped f.object)).note .stopped tid f.object)
    | .releaseFirst =>
      let f := { f with first := s.table f.last }
      some (s.setPc tid (.at (if f.first ≠ f.last then .resume else .resumeLast) f))
    | .resume => (s.resume f.first f.object).map fun s => s.setPc tid (.at .advance f)
    | .advance =>
      let f := { f with first := s.table f.first }
      some (s.setPc tid (.at (if f.first ≠ f.last then .resume else .resumeLast) f))
    | .resumeLast => (s.resume f.first f.object).map fun s => s.setPc tid (.at .clearQueue f)
    | .clearQueue =>
      some ((s.setObject f.object { o with waitQueue := EMPTY_WAIT_QUEUE }).setPc tid (.at .resetCount f))
    | .resetCount => some ((s.setObject f.object { o with count := o.initialCount }).setPc tid (.at .release f))
    | .giveFirst =>
      let f := { f with first := s.table f.last }
      some (s.setPc tid (.at (if f.first = f.last then .giveClear else .giveNext) f))
    | .giveClear =>
      some ((s.setObject f.object { o with waitQueue := EMPTY_WAIT_QUEUE }).setPc tid (.at .giveResume f))
    | .giveNext => some (s.setPc tid (.at .giveStore { f with next := s.table f.first }))
    | .giveStore => some ((s.store f.last f.next).setPc tid (.at .giveResume f))
    | .giveResume => (s.resume f.first f.object).map fun s => s.setPc tid (.at .setCount f)
    | .setCount => some ((s.setObject f.object { o with count := f.count }).setPc tid (.at .release f))
    | .release =>
      let s := (s.setObject f.object { o with lock := none }).setPc tid .running
      some (if f.routine = .barrierWait then s.note .closed tid f.object else s)

/-- A tasklet that runs calls a routine, or one that is in a call does a step of it. -/
inductive Action (ι : Type)
  | call (routine : Routine) (object : ι)
  | go

def State.act (shape : Shape ι) (s : State ι) (a : BitVec 8 × Action ι) : Option (State ι) :=
  if a.1 = EMPTY_WAIT_QUEUE then none
  else
    match a.2 with
    | .call routine i =>
      match s.pc a.1 with
      | .running =>
        if decide (routine = .barrierWait) = shape.barrier i then
          some (s.setPc a.1 (.at .acquire ⟨routine, i, 0, 0, 0, 0⟩))
        else none
      | _ => none
    | .go => s.go a.1

def Step (shape : Shape ι) (s : State ι) (a : BitVec 8 × Action ι) (t : State ι) : Prop :=
  s.act shape a = some t

/-- How often something has been done at an object. -/
def times (log : Log ι) (kind : Kind) (i : ι) : Nat :=
  (logged log kind i).length

section Queues
variable (table : BitVec 8 → BitVec 8) (head : BitVec 8) (queue : List (BitVec 8))

/-- The queue is circular in the table, and the head names its last member. -/
def Linked : Prop :=
  Ring table queue ∧ head = queue.getLast?.getD EMPTY_WAIT_QUEUE

/-- The queue is linked in the table from its first member to its last one. -/
def Rest (first last : BitVec 8) : Prop :=
  queue.Nodup ∧ queue.head? = some first ∧ queue.getLast? = some last ∧
    List.IsChain (fun member next => table member = next) queue

/-- How the queue of an object is kept while a tasklet holds its lock: in the
middle of a call by the local variables of the holder too. -/
def CircularAt (tid : BitVec 8) (f : Frame ι) : Stage → Prop
  | .storeQueue => Ring table (queue ++ [tid]) ∧ head = queue.getLast?.getD EMPTY_WAIT_QUEUE
  | .storeCount | .stop => Linked table head (queue ++ [tid])
  | .resume | .resumeLast => Rest table queue f.first f.last
  | .advance => Rest table queue (table f.first) f.last
  | .clearQueue => queue = []
  | .giveResume => ∃ rest, queue = f.first :: rest ∧ f.first ∉ rest ∧ Linked table head rest
  | _ => Linked table head queue

end Queues

/-- The circular queue of an object. -/
def Circular (s : State ι) (i : ι) (queue : List (BitVec 8)) : Prop :=
  match (s.object i).lock with
  | none => Linked s.table (s.object i).waitQueue queue
  | some tid => ∃ stage f, s.pc tid = .at stage f ∧ f.object = i ∧
      CircularAt s.table (s.object i).waitQueue queue tid f stage

/-- The barriers work. -/
structure Works (shape : Shape ι) (s : State ι) : Prop where
  /-- Every stopped tasklet is in exactly one of the circular queues, that of the object it has stopped at. -/
  queues : ∃ queue : ι → List (BitVec 8), (∀ i, Circular s i (queue i)) ∧ (∀ i, (queue i).Nodup) ∧
    ∀ tid i, s.pc tid = .stopped i ↔ tid ∈ queue i
  /-- A barrier is about to resume a tasklet that waits on it, so that its loop is never held up. -/
  waiting : ∀ tid f, s.pc tid = .at .resume f ∨ s.pc tid = .at .resumeLast f → s.pc f.first = .stopped f.object
  /-- The tasklets resumed are those that have stopped, each once and in that order. -/
  order : ∀ i, logged s.log .resumed i <+: logged s.log .stopped i
  /-- A generation of a barrier is opened by its last arrival and then closed. -/
  generations : ∀ i, shape.barrier i = true →
    times s.log .closed i ≤ times s.log .opened i ∧ times s.log .opened i ≤ times s.log .closed i + 1
  /-- The waiters of an opened generation have stopped, and only they are resumed. -/
  released : ∀ i, shape.barrier i = true →
    ((shape.initialCount i).toNat - 1) * times s.log .closed i ≤ times s.log .resumed i ∧
      times s.log .resumed i ≤ ((shape.initialCount i).toNat - 1) * times s.log .opened i ∧
      ((shape.initialCount i).toNat - 1) * times s.log .opened i ≤ times s.log .stopped i ∧
      times s.log .stopped i ≤ ((shape.initialCount i).toNat - 1) * (times s.log .closed i + 1)
  /-- Before each resume of the loop there is a waiter left, so that it ends after as many as wait. -/
  ends : ∀ tid f, s.pc tid = .at .resume f ∨ s.pc tid = .at .resumeLast f →
    times s.log .resumed f.object < ((shape.initialCount f.object).toNat - 1) * times s.log .opened f.object
  /-- When the last arrival releases the lock, all waiters are resumed and the barrier is as it was declared. -/
  back : ∀ tid f, s.pc tid = .at .release f → f.routine = .barrierWait →
    times s.log .resumed f.object = ((shape.initialCount f.object).toNat - 1) * times s.log .opened f.object ∧
      s.object f.object = { shape.object f.object with lock := some tid }

/-- The condition: when a tasklet stores its entry of the table, no releasing
loop is between resuming this tasklet and reading the entry. -/
def ReadBefore (τ : Transition (State ι) (BitVec 8 × Action ι)) : Prop :=
  ∀ f, τ.before.pc τ.action.1 = .at .storeSelf f →
    ∀ other g, τ.before.pc other = .at .advance g → g.first ≠ τ.action.1

end Barriers

end Upmem.Barrier
