import Upmem.Jobs
import Upmem.Lib.WaitGraph

set_option linter.unusedSectionVars false

namespace Upmem.JobLocks
open Transitions Jobs

/-- The mutexes of the job threads: `jobs_mutex` of a rank, that of a queue, and that of
the SYNC object of a caller. -/
inductive Lock (ρ κ : Type)
  | jobs (rank : ρ)
  | queue (idx : Nat)
  | sync (caller : κ)
  deriving DecidableEq

inductive Thread (κ ω : Type)
  | client (c : κ)
  | worker (w : ω)
  deriving DecidableEq

/-- A client in `dpu_thread_job_add_jobs` and `dpu_thread_job_wait_sync_job`:
before a mutex or behind it. It keeps the mutexes of the queues that it is to signal. -/
inductive ClientPc (ρ : Type)
  | idle
  | starts (call : Jobs.Call ρ)
  | atJobs (call : Jobs.Call ρ) (rank : ρ) (rest : List ρ) (signalQueue : List Nat)
  | inJobs (call : Jobs.Call ρ) (rank : ρ) (rest : List ρ) (signalQueue : List Nat)
  | atQueue (call : Jobs.Call ρ) (rank : ρ) (rest : List ρ) (signalQueue : List Nat)
  | appends (call : Jobs.Call ρ) (rank : ρ) (rest : List ρ) (signalQueue : List Nat)
  | unlocks (call : Jobs.Call ρ) (signalQueue : List Nat)
  | sleeps (call : Jobs.Call ρ)
  | atSync (call : Jobs.Call ρ)
  | inSync (call : Jobs.Call ρ)

/-- A worker in `dpu_thread_handle_global_block`, with the queues that it has
locked, in `dpu_thread_update_status` or in `do_sync_job`. -/
inductive WorkerPc (ρ κ : Type)
  | idle
  | blocks (others : List ρ) (queueIsUsed : List Nat)
  | atQueue (other : ρ) (others : List ρ) (queueIsUsed : List Nat)
  | atOther (other : ρ) (others : List ρ) (queueIsUsed : List Nat)
  | inOther (other : ρ) (others : List ρ) (queueIsUsed : List Nat)
  | unlocks (queueIsUsed : List Nat)
  | atJobs (rank : ρ)
  | inJobs (rank : ρ)
  | atSync (rank : ρ) (caller : κ)
  | inSync (rank : ρ) (caller : κ)
  | atSignal (rank : ρ) (caller : κ)
  | inSignal (rank : ρ) (caller : κ)
  | atDone (caller : κ)
  | inDone (caller : κ)

/-- The threads, the FIFOs of the ranks and the counters of the SYNC objects. A mutex is
held by the threads whose place says so. -/
structure State (ρ κ ω : Type) where
  queueIdx : ρ → Nat
  jobs : ρ → List (JobType κ)
  nrRanks : κ → Nat
  clients : κ → ClientPc ρ
  workers : ω → WorkerPc ρ κ

section
variable {ρ κ ω : Type} [DecidableEq ρ] [DecidableEq κ] [DecidableEq ω]

/-- A synchronous call holds the mutex of its SYNC object from `dpu_thread_job_init_sync_job` until it sleeps. -/
def syncLock (c : κ) (call : Jobs.Call ρ) : List (Lock ρ κ) := if call.isSynchronous then [.sync c] else []

def ClientPc.held (c : κ) : ClientPc ρ → List (Lock ρ κ)
  | .starts call => syncLock c call
  | .atJobs call _ _ queues => queues.map .queue ++ syncLock c call
  | .inJobs call r _ queues => .jobs r :: (queues.map .queue ++ syncLock c call)
  | .atQueue call r _ queues => .jobs r :: (queues.map .queue ++ syncLock c call)
  | .appends call r _ queues => .jobs r :: (queues.map .queue ++ syncLock c call)
  | .unlocks call queues => queues.map .queue ++ syncLock c call
  | .inSync _ => [.sync c]
  | _ => []

def ClientPc.wants (queueIdx : ρ → Nat) (c : κ) : ClientPc ρ → Option (Lock ρ κ)
  | .atJobs _ r _ _ => some (.jobs r)
  | .atQueue _ r _ _ => some (.queue (queueIdx r))
  | .atSync _ => some (.sync c)
  | _ => none

def WorkerPc.held : WorkerPc ρ κ → List (Lock ρ κ)
  | .blocks _ queues => queues.map .queue
  | .atQueue _ _ queues => queues.map .queue
  | .atOther _ _ queues => queues.map .queue
  | .inOther other _ queues => .jobs other :: queues.map .queue
  | .unlocks queues => queues.map .queue
  | .inJobs r => [.jobs r]
  | .atSync r _ => [.jobs r]
  | .inSync r c => [.jobs r, .sync c]
  | .atSignal r _ => [.jobs r]
  | .inSignal r c => [.jobs r, .sync c]
  | .inDone c => [.sync c]
  | _ => []

def WorkerPc.wants (queueIdx : ρ → Nat) : WorkerPc ρ κ → Option (Lock ρ κ)
  | .atQueue other _ _ => some (.queue (queueIdx other))
  | .atOther other _ _ => some (.jobs other)
  | .atJobs r => some (.jobs r)
  | .atSync _ c => some (.sync c)
  | .atSignal _ c => some (.sync c)
  | .atDone c => some (.sync c)
  | _ => none

def State.held (s : State ρ κ ω) : Thread κ ω → List (Lock ρ κ)
  | .client c => (s.clients c).held c
  | .worker w => (s.workers w).held

def State.wants (s : State ρ κ ω) : Thread κ ω → Option (Lock ρ κ)
  | .client c => (s.clients c).wants s.queueIdx c
  | .worker w => (s.workers w).wants s.queueIdx

def State.locks (s : State ρ κ ω) : WaitGraph.Locks (Thread κ ω) (Lock ρ κ) where
  Holds thread l := l ∈ s.held thread
  Wants thread l := s.wants thread = some l

def State.Free (s : State ρ κ ω) (l : Lock ρ κ) : Prop := ∀ thread, l ∉ s.held thread

def State.setClient (s : State ρ κ ω) (c : κ) (pc : ClientPc ρ) : State ρ κ ω :=
  { s with clients := Function.update s.clients c pc }

def State.setWorker (s : State ρ κ ω) (w : ω) (pc : WorkerPc ρ κ) : State ρ κ ω :=
  { s with workers := Function.update s.workers w pc }

def State.setJobs (s : State ρ κ ω) (r : ρ) (jobs : List (JobType κ)) : State ρ κ ω :=
  { s with jobs := Function.update s.jobs r jobs }

def State.setNrRanks (s : State ρ κ ω) (c : κ) (nrRanks : Nat) : State ρ κ ω :=
  { s with nrRanks := Function.update s.nrRanks c nrRanks }

/-- What the jobs of a call for one rank ask for. -/
def jobsToAdd (call : Jobs.Call ρ) (c : κ) : List (JobType κ) :=
  (call.jobsOf c none (List.range call.nrJobsPerRank)).map ThreadJob.type

/-- The steps of a thread: to a mutex, into its critical section when no one
holds it, and out of it. -/
inductive Move : State ρ κ ω → Thread κ ω → State ρ κ ω → Prop
  | begin {s : State ρ κ ω} {c} (call : Jobs.Call ρ) : s.clients c = .idle →
      Move s (.client c)
        ((if call.isSynchronous then s.setNrRanks c call.usedRanks.length else s).setClient c (.starts call))
  | starts {s : State ρ κ ω} {c call r rest} : s.clients c = .starts call → call.usedRanks = r :: rest →
      Move s (.client c) (s.setClient c (.atJobs call r rest []))
  | locksJobs {s : State ρ κ ω} {c call r rest queues} : s.clients c = .atJobs call r rest queues →
      s.Free (.jobs r) →
      Move s (.client c) (s.setClient c (.inJobs call r rest queues))
  | comesToQueue {s : State ρ κ ω} {c call r rest queues} : s.clients c = .inJobs call r rest queues →
      s.jobs r = [] →
      s.queueIdx r ∉ queues → Move s (.client c) (s.setClient c (.atQueue call r rest queues))
  | skipsQueue {s : State ρ κ ω} {c call r rest queues} : s.clients c = .inJobs call r rest queues →
      (s.jobs r = [] → s.queueIdx r ∈ queues) → Move s (.client c) (s.setClient c (.appends call r rest queues))
  | locksQueue {s : State ρ κ ω} {c call r rest queues} : s.clients c = .atQueue call r rest queues →
      s.Free (.queue (s.queueIdx r)) →
      Move s (.client c) (s.setClient c (.appends call r rest (s.queueIdx r :: queues)))
  | appends {s : State ρ κ ω} {c call r rest queues} : s.clients c = .appends call r rest queues →
      Move s (.client c)
        ((s.setJobs r (s.jobs r ++ jobsToAdd call c)).setClient c
          (match rest with
            | [] => .unlocks call queues
            | next :: others => .atJobs call next others queues))
  | unlocksQueue {s : State ρ κ ω} {c call q queues} : s.clients c = .unlocks call queues → q ∈ queues →
      Move s (.client c) (s.setClient c (.unlocks call (queues.erase q)))
  | added {s : State ρ κ ω} {c call} : s.clients c = .unlocks call [] →
      Move s (.client c) (s.setClient c (if call.isSynchronous then .sleeps call else .idle))
  | wakes {s : State ρ κ ω} {c call} : s.clients c = .sleeps call →
      Move s (.client c) (s.setClient c (.atSync call))
  | locksSync {s : State ρ κ ω} {c call} : s.clients c = .atSync call → s.Free (.sync c) →
      Move s (.client c) (s.setClient c (.inSync call))
  | returns {s : State ρ κ ω} {c call} : s.clients c = .inSync call →
      Move s (.client c) (s.setClient c (if s.nrRanks c = 0 then .idle else .sleeps call))
  | beginsBlock {s : State ρ κ ω} {w} (others : List ρ) : s.workers w = .idle →
      Move s (.worker w) (s.setWorker w (.blocks others []))
  | comesToOther {s : State ρ κ ω} {w other others queues} : s.workers w = .blocks (other :: others) queues →
      Move s (.worker w)
        (s.setWorker w
          (if s.queueIdx other ∈ queues then .atOther other others queues else .atQueue other others queues))
  | locksOtherQueue {s : State ρ κ ω} {w other others queues} : s.workers w = .atQueue other others queues →
      s.Free (.queue (s.queueIdx other)) →
      Move s (.worker w) (s.setWorker w (.blocks (other :: others) (s.queueIdx other :: queues)))
  | locksOther {s : State ρ κ ω} {w other others queues} : s.workers w = .atOther other others queues →
      s.Free (.jobs other) → Move s (.worker w) (s.setWorker w (.inOther other others queues))
  | advances {s : State ρ κ ω} {w other others queues} : s.workers w = .inOther other others queues →
      Move s (.worker w) ((s.setJobs other (s.jobs other).tail).setWorker w (.blocks others queues))
  | blocked {s : State ρ κ ω} {w queues} : s.workers w = .blocks [] queues →
      Move s (.worker w) (s.setWorker w (.unlocks queues))
  | unlocksOther {s : State ρ κ ω} {w q queues} : s.workers w = .unlocks queues → q ∈ queues →
      Move s (.worker w) (s.setWorker w (.unlocks (queues.erase q)))
  | unlocked {s : State ρ κ ω} {w} : s.workers w = .unlocks [] → Move s (.worker w) (s.setWorker w .idle)
  | beginsUpdate {s : State ρ κ ω} {w} (r : ρ) : s.workers w = .idle →
      Move s (.worker w) (s.setWorker w (.atJobs r))
  | locksRank {s : State ρ κ ω} {w r} : s.workers w = .atJobs r → s.Free (.jobs r) →
      Move s (.worker w) (s.setWorker w (.inJobs r))
  | drops {s : State ρ κ ω} {w r type rest} : s.workers w = .inJobs r → s.jobs r = type :: rest →
      Move s (.worker w)
        ((s.setJobs r rest).setWorker w
          (match type with
            | .sync c => .atSync r c
            | _ => .inJobs r))
  | locksSyncOf {s : State ρ κ ω} {w r c} : s.workers w = .atSync r c → s.Free (.sync c) →
      Move s (.worker w) (s.setWorker w (.inSync r c))
  | arrives {s : State ρ κ ω} {w r c} : s.workers w = .inSync r c →
      Move s (.worker w)
        ((s.setNrRanks c (s.nrRanks c - 1)).setWorker w (if s.nrRanks c - 1 = 0 then .atSignal r c else .inJobs r))
  | locksSignal {s : State ρ κ ω} {w r c} : s.workers w = .atSignal r c → s.Free (.sync c) →
      Move s (.worker w) (s.setWorker w (.inSignal r c))
  | signals {s : State ρ κ ω} {w r c} : s.workers w = .inSignal r c → Move s (.worker w) (s.setWorker w (.inJobs r))
  | updated {s : State ρ κ ω} {w r} : s.workers w = .inJobs r → s.jobs r = [] →
      Move s (.worker w) (s.setWorker w .idle)
  | beginsAdvance {s : State ρ κ ω} {w} (r : ρ) : s.workers w = .idle →
      Move s (.worker w) (s.setWorker w (.atOther r [] []))
  | computesSync {s : State ρ κ ω} {w r c rest} : s.workers w = .idle → s.jobs r = .sync c :: rest →
      Move s (.worker w)
        ((s.setNrRanks c (s.nrRanks c - 1)).setWorker w (if s.nrRanks c - 1 = 0 then .atDone c else .idle))
  | locksDone {s : State ρ κ ω} {w c} : s.workers w = .atDone c → s.Free (.sync c) →
      Move s (.worker w) (s.setWorker w (.inDone c))
  | signalsDone {s : State ρ κ ω} {w c} : s.workers w = .inDone c → Move s (.worker w) (s.setWorker w .idle)

/-- No thread is at work and no job is queued. -/
structure State.Created (s : State ρ κ ω) : Prop where
  clients : ∀ c, s.clients c = .idle
  workers : ∀ w, s.workers w = .idle
  jobs : ∀ r, s.jobs r = []

abbrev LockRun (start : State ρ κ ω) (history : List (Transition (State ρ κ ω) (Thread κ ω)))
    (s : State ρ κ ω) : Prop :=
  Run Move start history s

/-- The queue that a mutex belongs to. -/
def Lock.queueOf (queueIdx : ρ → Nat) : Lock ρ κ → Option Nat
  | .jobs r => some (queueIdx r)
  | .queue idx => some idx
  | .sync _ => none

def State.Keeps (s : State ρ κ ω) (x : Thread κ ω) (idx : Nat) : Prop := .queue idx ∈ s.held x

/-- A thread is before a mutex of a lower queue than one whose mutex it keeps. -/
def State.Descends (s : State ρ κ ω) (x : Thread κ ω) : Prop :=
  ∃ l idx kept, s.wants x = some l ∧ l.queueOf s.queueIdx = some idx ∧ s.Keeps x kept ∧ idx < kept

/-- A thread that keeps the mutex of the queue of a rank is before the `jobs_mutex` of this rank. -/
def State.ComesBack (s : State ρ κ ω) (x : Thread κ ω) (r : ρ) : Prop :=
  s.wants x = some (.jobs r) ∧ s.Keeps x (s.queueIdx r)

/-- A client behind the `jobs_mutex` of a rank, which has not locked the mutex of the queue. -/
def State.Enters (s : State ρ κ ω) (c : κ) (r : ρ) : Prop :=
  ∃ call rest queues, (s.clients c = .inJobs call r rest queues ∨ s.clients c = .atQueue call r rest queues) ∧
    s.queueIdx r ∉ queues

/-- A synchronous call that still adds its jobs. -/
def ClientPc.adding : ClientPc ρ → Bool
  | .starts call => call.isSynchronous
  | .atJobs call _ _ _ => call.isSynchronous
  | .inJobs call _ _ _ => call.isSynchronous
  | .atQueue call _ _ _ => call.isSynchronous
  | .appends call _ _ _ => call.isSynchronous
  | .unlocks call _ => call.isSynchronous
  | _ => false

/-- A worker in `dpu_thread_update_status` with a SYNC job of the caller. -/
def WorkerPc.Drops (c : κ) : WorkerPc ρ κ → Prop
  | .atSync _ caller => caller = c
  | .inSync _ caller => caller = c
  | .atSignal _ caller => caller = c
  | _ => False

/-- A step by the order of the mutexes. A thread that keeps the mutex of a queue comes to a mutex of a lower queue
only while no other thread keeps one of a queue, and no other thread locks one meanwhile. No thread that keeps the
mutex of the queue of a rank comes to its `jobs_mutex` while a client without that mutex is behind it and the FIFO
is empty, and no client gets there while such a thread is before it. The SYNC jobs of a call are not dropped
before all of its jobs are added, and no call begins while a worker has one of its caller's last SYNC object. -/
structure InOrder (τ : Transition (State ρ κ ω) (Thread κ ω)) : Prop where
  descends : τ.after.Descends τ.action → ∀ other ≠ τ.action, ∀ idx, ¬ τ.before.Keeps other idx
  alone : ∀ other ≠ τ.action, τ.before.Descends other → ∀ idx, ¬ τ.after.Keeps τ.action idx
  comesBack : ∀ r, τ.after.ComesBack τ.action r → ∀ c, .client c ≠ τ.action → τ.before.Enters c r →
    τ.before.jobs r ≠ []
  enters : ∀ c r, τ.action = .client c → τ.after.Enters c r → τ.before.jobs r = [] →
    ∀ other ≠ τ.action, ¬ τ.before.ComesBack other r
  drops : ∀ w c, τ.action = .worker w → (τ.after.workers w).Drops c → (τ.before.clients c).adding = false
  begins : ∀ c, τ.action = .client c → (τ.after.clients c).adding = true → ∀ w, ¬ (τ.before.workers w).Drops c

section
variable {s t : State ρ κ ω} {x : Thread κ ω}

/-- What the step of a thread leaves: the places of the others, and the FIFOs whose mutex it does not hold. -/
structure Frame (s t : State ρ κ ω) (x : Thread κ ω) : Prop where
  queueIdx : t.queueIdx = s.queueIdx
  clients : ∀ c, .client c ≠ x → t.clients c = s.clients c
  workers : ∀ w, .worker w ≠ x → t.workers w = s.workers w
  jobs : ∀ r, .jobs r ∉ s.held x → t.jobs r = s.jobs r

theorem Frame.client {u : State ρ κ ω} {c : κ} {pc : ClientPc ρ} (queueIdx : u.queueIdx = s.queueIdx)
    (clients : u.clients = s.clients) (workers : u.workers = s.workers)
    (jobs : ∀ r, .jobs r ∉ s.held (.client c) → u.jobs r = s.jobs r) : Frame s (u.setClient c pc) (.client c) where
  queueIdx := queueIdx
  clients other different := by
    rw [State.setClient, clients]
    exact Function.update_of_ne (fun same => different (congrArg Thread.client same)) _ _
  workers _ _ := congrFun workers _
  jobs := jobs

theorem Frame.worker {u : State ρ κ ω} {w : ω} {pc : WorkerPc ρ κ} (queueIdx : u.queueIdx = s.queueIdx)
    (clients : u.clients = s.clients) (workers : u.workers = s.workers)
    (jobs : ∀ r, .jobs r ∉ s.held (.worker w) → u.jobs r = s.jobs r) : Frame s (u.setWorker w pc) (.worker w) where
  queueIdx := queueIdx
  clients _ _ := congrFun clients _
  workers other different := by
    rw [State.setWorker, workers]
    exact Function.update_of_ne (fun same => different (congrArg Thread.worker same)) _ _
  jobs := jobs

theorem Move.frame (move : Move s x t) : Frame s t x := by
  cases move with
  | begin => split_ifs <;> exact .client rfl rfl rfl fun _ _ => rfl
  | @appends c call r rest queues here =>
    refine .client rfl rfl rfl fun other free => Function.update_of_ne (fun same => free ?_) _ _
    simp [State.held, here, ClientPc.held, same]
  | starts | locksJobs | comesToQueue | skipsQueue | locksQueue | unlocksQueue | added | wakes | locksSync
    | returns => exact .client rfl rfl rfl fun _ _ => rfl
  | @advances w other others queues here =>
    refine .worker rfl rfl rfl fun r free => Function.update_of_ne (fun same => free ?_) _ _
    simp [State.held, here, WorkerPc.held, same]
  | @drops w r type rest here =>
    refine .worker rfl rfl rfl fun other free => Function.update_of_ne (fun same => free ?_) _ _
    simp [State.held, here, WorkerPc.held, same]
  | beginsBlock | comesToOther | locksOtherQueue | locksOther | blocked | unlocksOther | unlocked | beginsUpdate
    | locksRank | locksSyncOf | arrives | locksSignal | signals | updated | beginsAdvance | computesSync | locksDone
    | signalsDone => exact .worker rfl rfl rfl fun _ _ => rfl

theorem Frame.held (frame : Frame s t x) {a : Thread κ ω} (other : a ≠ x) : t.held a = s.held a := by
  cases a with
  | client c => rw [State.held, State.held, frame.clients c other]
  | worker w => rw [State.held, State.held, frame.workers w other]

theorem Frame.wants (frame : Frame s t x) {a : Thread κ ω} (other : a ≠ x) : t.wants a = s.wants a := by
  cases a with
  | client c => rw [State.wants, State.wants, frame.clients c other, frame.queueIdx]
  | worker w => rw [State.wants, State.wants, frame.workers w other, frame.queueIdx]

theorem Frame.keeps (frame : Frame s t x) {a : Thread κ ω} (other : a ≠ x) {idx : Nat} :
    t.Keeps a idx ↔ s.Keeps a idx := by
  rw [State.Keeps, State.Keeps, frame.held other]

theorem Frame.descends (frame : Frame s t x) {a : Thread κ ω} (other : a ≠ x) : t.Descends a ↔ s.Descends a := by
  simp only [State.Descends, frame.wants other, frame.queueIdx, frame.keeps other]

theorem Frame.comesBack (frame : Frame s t x) {a : Thread κ ω} (other : a ≠ x) {r : ρ} :
    t.ComesBack a r ↔ s.ComesBack a r := by
  rw [State.ComesBack, State.ComesBack, frame.wants other, frame.queueIdx, frame.keeps other]

theorem Frame.enters (frame : Frame s t x) {c : κ} (other : .client c ≠ x) {r : ρ} :
    t.Enters c r ↔ s.Enters c r := by
  simp only [State.Enters, frame.clients c other, frame.queueIdx]

theorem mem_syncLock {c : κ} {call : Jobs.Call ρ} {l : Lock ρ κ} :
    l ∈ syncLock c call ↔ call.isSynchronous = true ∧ l = .sync c := by
  unfold syncLock
  split_ifs with synchronous <;> simp [synchronous]

theorem held_setClient {u : State ρ κ ω} {c : κ} {pc : ClientPc ρ} :
    (u.setClient c pc).held (.client c) = pc.held c := by
  simp [State.held, State.setClient]

theorem held_setWorker {u : State ρ κ ω} {w : ω} {pc : WorkerPc ρ κ} :
    (u.setWorker w pc).held (.worker w) = pc.held := by
  simp [State.held, State.setWorker]

/-- A thread gets a `jobs_mutex` that nobody holds. -/
theorem Move.gets (move : Move s x t) {r : ρ} (gets : .jobs r ∈ t.held x) :
    .jobs r ∈ s.held x ∨ s.Free (.jobs r) := by
  cases move with
  | locksJobs here free | locksOther here free | locksRank here free =>
    simp only [held_setClient, held_setWorker, ClientPc.held, WorkerPc.held, List.mem_cons, Lock.jobs.injEq] at gets
    rcases gets with rfl | before
    · exact .inr free
    · simp_all [mem_syncLock]
  | begin =>
    rw [held_setClient] at gets
    simp [ClientPc.held, mem_syncLock] at gets
  | added | returns | comesToOther | arrives | computesSync =>
    simp only [held_setClient, held_setWorker] at gets
    split_ifs at gets <;> simp_all [State.held, ClientPc.held, WorkerPc.held]
  | @appends c call r rest queues here =>
    rw [held_setClient] at gets
    cases rest <;> simp_all [ClientPc.held, mem_syncLock]
  | @drops w r type rest here =>
    rw [held_setWorker] at gets
    cases type <;> simp_all [State.held, WorkerPc.held]
  | starts here | comesToQueue here | skipsQueue here | locksQueue here | unlocksQueue here | wakes here
    | locksSync here | beginsBlock others here | locksOtherQueue here | advances here | blocked here
    | unlocksOther here | unlocked here | beginsUpdate r here | locksSyncOf here | locksSignal here | signals here
    | updated here | beginsAdvance r here | locksDone here | signalsDone here =>
    rw [State.held, here]
    simp_all [held_setClient, held_setWorker, ClientPc.held, WorkerPc.held, mem_syncLock]

/-- What holds in every run: a `jobs_mutex` has one holder, a client that comes from it to the mutex of its queue
has found the FIFO empty, which stays so, and no thread is before a mutex that it has. -/
structure State.Sound (s : State ρ κ ω) : Prop where
  exclusive : ∀ r a b, .jobs r ∈ s.held a → .jobs r ∈ s.held b → a = b
  empty : ∀ c call r rest queues, s.clients c = .atQueue call r rest queues → s.jobs r = [] ∧ s.queueIdx r ∉ queues
  fresh : ∀ w other others queues, s.workers w = .atQueue other others queues → s.queueIdx other ∉ queues

theorem State.Created.sound (created : s.Created) : s.Sound where
  exclusive r a _ held := by
    cases a with
    | client c => simp [State.held, created.clients c, ClientPc.held] at held
    | worker w => simp [State.held, created.workers w, WorkerPc.held] at held
  empty c call r rest queues here := by
    rw [created.clients c] at here
    cases here
  fresh w other others queues here := by
    rw [created.workers w] at here
    cases here

/-- A client comes to the mutex of a queue where it finds the FIFO empty. -/
theorem Move.toQueue {c : κ} (move : Move s (.client c) t) {call : Jobs.Call ρ} {r : ρ} {rest : List ρ}
    {queues : List Nat} (here : t.clients c = .atQueue call r rest queues) :
    s.clients c = .inJobs call r rest queues ∧ s.jobs r = [] ∧ s.queueIdx r ∉ queues ∧ t.jobs r = s.jobs r := by
  cases move with
  | comesToQueue before empty free =>
    simp only [State.setClient, Function.update_self, ClientPc.atQueue.injEq] at here
    obtain ⟨rfl, rfl, rfl, rfl⟩ := here
    exact ⟨before, empty, free, rfl⟩
  | added | returns =>
    simp only [State.setClient, Function.update_self] at here
    split_ifs at here
  | @appends _ _ _ rest =>
    simp only [State.setClient, Function.update_self] at here
    cases rest <;> cases here
  | begin | starts | locksJobs | skipsQueue | locksQueue | unlocksQueue | wakes | locksSync =>
    simp [State.setClient] at here

/-- A worker comes to the mutex of a queue that it has not locked. -/
theorem Move.toOtherQueue {w : ω} (move : Move s (.worker w) t) {other : ρ} {others : List ρ} {queues : List Nat}
    (here : t.workers w = .atQueue other others queues) : t.queueIdx other ∉ queues := by
  cases move with
  | comesToOther =>
    simp only [State.setWorker, Function.update_self] at here
    split_ifs at here with used
    cases here
    exact used
  | arrives | computesSync =>
    simp only [State.setWorker, Function.update_self] at here
    split_ifs at here
  | @drops _ _ type =>
    simp only [State.setWorker, Function.update_self] at here
    cases type <;> cases here
  | beginsBlock | locksOtherQueue | locksOther | advances | blocked | unlocksOther | unlocked | beginsUpdate
    | locksRank | locksSyncOf | locksSignal | signals | updated | beginsAdvance | locksDone | signalsDone =>
    simp [State.setWorker] at here

theorem State.Sound.next (sound : s.Sound) (move : Move s x t) : t.Sound := by
  have frame := move.frame
  have own (r : ρ) (b : Thread κ ω) (other : b ≠ x) (mine : .jobs r ∈ t.held x) (theirs : .jobs r ∈ t.held b) :
      False := by
    rw [frame.held other] at theirs
    rcases move.gets mine with before | free
    · exact other (sound.exclusive r b x theirs before)
    · exact free b theirs
  refine ⟨fun r a b first second => ?_, fun c call r rest queues here => ?_, fun w other others queues here => ?_⟩
  · by_cases mine : a = x
    · by_cases theirs : b = x
      · rw [mine, theirs]
      · exact (own r b theirs (mine ▸ first) second).elim
    · by_cases theirs : b = x
      · exact (own r a mine (theirs ▸ second) first).elim
      · rw [frame.held mine] at first
        rw [frame.held theirs] at second
        exact sound.exclusive r a b first second
  · by_cases mine : .client c = x
    · subst mine
      obtain ⟨_, empty, free, same⟩ := move.toQueue here
      exact ⟨same.trans empty, frame.queueIdx ▸ free⟩
    · rw [frame.clients c mine] at here
      obtain ⟨empty, free⟩ := sound.empty c call r rest queues here
      have held : .jobs r ∈ s.held (.client c) := by simp [State.held, here, ClientPc.held]
      refine ⟨?_, frame.queueIdx ▸ free⟩
      rw [frame.jobs r fun theirs => mine (sound.exclusive r _ _ held theirs), empty]
  · by_cases mine : .worker w = x
    · subst mine
      exact move.toOtherQueue here
    · rw [frame.workers w mine] at here
      exact frame.queueIdx ▸ sound.fresh w other others queues here

/-- What the order of the steps adds: where a thread that keeps the mutex of the queue is before a `jobs_mutex`, a
client behind it does not find the FIFO empty, a thread that descends is the only one with the mutex of a queue,
and a worker has no SYNC object of a call that still adds its jobs. -/
structure State.Ordered (s : State ρ κ ω) : Prop where
  nonempty : ∀ a r c, s.ComesBack a r → .client c ≠ a → s.Enters c r → s.jobs r ≠ []
  alone : ∀ a, s.Descends a → ∀ b ≠ a, ∀ idx, ¬ s.Keeps b idx
  settled : ∀ w c, (s.workers w).Drops c → (s.clients c).adding = false

theorem State.Created.ordered (created : s.Created) : s.Ordered where
  nonempty a r c back := by
    obtain ⟨wants, _⟩ := back
    cases a with
    | client c => simp [State.wants, created.clients c, ClientPc.wants] at wants
    | worker w => simp [State.wants, created.workers w, WorkerPc.wants] at wants
  alone a descends := by
    obtain ⟨l, _, _, wants, _⟩ := descends
    cases a with
    | client c => simp [State.wants, created.clients c, ClientPc.wants] at wants
    | worker w => simp [State.wants, created.workers w, WorkerPc.wants] at wants
  settled w c drops := by
    rw [created.workers w] at drops
    cases drops

/-- A client that is behind a `jobs_mutex` has it. -/
theorem State.Enters.held {c : κ} {r : ρ} (enters : s.Enters c r) : .jobs r ∈ s.held (.client c) := by
  obtain ⟨_, _, _, here | here, _⟩ := enters <;> simp [State.held, here, ClientPc.held]

/-- The FIFO of a rank is as before when a client is behind its `jobs_mutex`, whatever another thread does. -/
theorem Frame.jobs_entered (frame : Frame s t x) (sound : s.Sound) {c : κ} {r : ρ} (enters : s.Enters c r)
    (other : .client c ≠ x) : t.jobs r = s.jobs r :=
  frame.jobs r fun theirs => other (sound.exclusive r _ _ enters.held theirs)

/-- A client drops no job. -/
theorem Move.clientJobs {c : κ} (move : Move s (.client c) t) (r : ρ) : s.jobs r <+: t.jobs r := by
  cases move with
  | begin => split_ifs <;> exact List.prefix_refl _
  | @appends _ _ changed =>
    by_cases same : r = changed
    · subst same
      simp [State.setClient, State.setJobs]
    · simp [State.setClient, State.setJobs, same]
  | starts | locksJobs | comesToQueue | skipsQueue | locksQueue | unlocksQueue | added | wakes | locksSync
    | returns => exact List.prefix_refl _

theorem State.Ordered.next (ordered : s.Ordered) (sound : s.Sound) (move : Move s x t)
    (inOrder : InOrder ⟨s, x, t⟩) :
    t.Ordered := by
  have frame := move.frame
  refine ⟨fun a r c back other enters => ?_, fun a descends b other idx keeps => ?_, fun w c drops => ?_⟩
  · by_cases mine : .client c = x
    · subst mine
      intro empty
      have before : s.jobs r = [] := List.prefix_nil.mp (empty ▸ move.clientJobs r)
      exact inOrder.enters c r rfl enters before a (Ne.symm other) ((frame.comesBack (Ne.symm other)).mp back)
    · have entered := (frame.enters mine).mp enters
      rw [frame.jobs_entered sound entered mine]
      by_cases theirs : a = x
      · subst theirs
        exact inOrder.comesBack r back c mine entered
      · exact ordered.nonempty a r c ((frame.comesBack theirs).mp back) other entered
  · by_cases mine : a = x
    · subst mine
      exact inOrder.descends descends b other idx ((frame.keeps other).mp keeps)
    · have before := (frame.descends mine).mp descends
      by_cases theirs : b = x
      · subst theirs
        exact inOrder.alone a mine before idx keeps
      · exact ordered.alone a before b other idx ((frame.keeps theirs).mp keeps)
  · by_cases mine : .worker w = x
    · subst mine
      have idle := inOrder.drops w c rfl drops
      rwa [frame.clients c nofun]
    · rw [frame.workers w mine] at drops
      by_cases theirs : .client c = x
      · subst theirs
        by_contra adding
        exact inOrder.begins c rfl (by simpa using adding) w drops
      · rw [frame.clients c theirs]
        exact ordered.settled w c drops

/-- No thread has the mutex that it is before. -/
theorem State.Sound.not_held (sound : s.Sound) {l : Lock ρ κ} (wants : s.wants x = some l) : l ∉ s.held x := by
  cases x with
  | client c =>
    simp only [State.wants] at wants
    simp only [State.held]
    cases here : s.clients c <;> rw [here] at wants <;> cases wants
    · simp [ClientPc.held, mem_syncLock]
    · simp [ClientPc.held, mem_syncLock, (sound.empty _ _ _ _ _ here).2]
    · simp [ClientPc.held]
  | worker w =>
    simp only [State.wants] at wants
    simp only [State.held]
    cases here : s.workers w <;> rw [here] at wants <;> cases wants
    · simp [WorkerPc.held, sound.fresh _ _ _ _ here]
    all_goals simp [WorkerPc.held]

section Ring
variable {members : Set (Thread κ ω)}

/-- A thread that is before a mutex and has that of a SYNC object is its caller, which adds its jobs. -/
theorem State.adding_of_held {l : Lock ρ κ} {c : κ} (wants : s.wants x = some l) (held : .sync c ∈ s.held x) :
    x = .client c ∧ (s.clients c).adding = true := by
  cases x with
  | client other =>
    simp only [State.wants] at wants
    simp only [State.held] at held
    cases here : s.clients other <;> rw [here] at wants held <;> cases wants <;>
      simp [ClientPc.held, mem_syncLock] at held
    all_goals
      obtain ⟨synchronous, rfl⟩ := held
      exact ⟨rfl, by rw [here]; exact synchronous⟩
  | worker w =>
    simp only [State.wants] at wants
    simp only [State.held] at held
    cases here : s.workers w <;> rw [here] at wants held <;> cases wants <;> simp [WorkerPc.held] at held

/-- No thread of a ring is before the mutex of a SYNC object. -/
theorem State.Ordered.no_sync (ordered : s.Ordered) (ring : s.locks.Ring members) (member : x ∈ members) (c : κ) :
    s.wants x ≠ some (.sync c) := by
  intro wants
  obtain ⟨b, inside, l, wanted, atHolder⟩ := ring.waits x member
  obtain rfl : l = .sync c := Option.some.inj (Eq.trans (Eq.symm wanted) wants)
  obtain ⟨_, _, k, next, _⟩ := ring.waits b inside
  obtain ⟨rfl, adding⟩ := State.adding_of_held next atHolder
  obtain ⟨_, _, held, _, mine⟩ := ring.waited x member
  replace mine : held ∈ s.held x := mine
  cases x with
  | client other =>
    simp only [State.wants] at wants
    simp only [State.held] at mine
    cases here : s.clients other <;> rw [here] at wants mine <;> cases wants
    simp [ClientPc.held] at mine
  | worker w =>
    have settled := ordered.settled w c
    simp only [State.wants] at wants
    simp only [State.held] at mine
    cases here : s.workers w <;> rw [here] at wants mine settled <;> cases wants
    · exact Bool.false_ne_true ((settled rfl).symm.trans adding)
    · exact Bool.false_ne_true ((settled rfl).symm.trans adding)
    · simp [WorkerPc.held] at mine

/-- The thread of a ring that has a `jobs_mutex` is a client before the mutex of the queue, with an empty FIFO. -/
theorem State.Ordered.holder (ordered : s.Ordered) (sound : s.Sound) (ring : s.locks.Ring members)
    (member : x ∈ members) {r : ρ} (held : .jobs r ∈ s.held x) :
    ∃ c, x = .client c ∧ s.wants x = some (.queue (s.queueIdx r)) ∧ s.Enters c r ∧ s.jobs r = [] := by
  have noSync := ordered.no_sync ring member
  obtain ⟨_, _, l, wants, _⟩ := ring.waits x member
  replace wants : s.wants x = some l := wants
  cases x with
  | client c =>
    simp only [State.wants] at wants
    simp only [State.held] at held
    cases here : s.clients c with
    | atQueue call other rest queues =>
      rw [here] at held
      simp only [ClientPc.held, List.mem_cons, Lock.jobs.injEq, List.mem_append, List.mem_map, mem_syncLock,
        reduceCtorEq, and_false, exists_false, or_false] at held
      subst held
      obtain ⟨empty, free⟩ := sound.empty c call r rest queues here
      exact ⟨c, rfl, by rw [State.wants, here]; rfl, ⟨call, rest, queues, .inr here, free⟩, empty⟩
    | _ =>
      rw [here] at wants held
      simp [ClientPc.held, ClientPc.wants, mem_syncLock] at wants held
  | worker w =>
    simp only [State.wants] at wants noSync
    simp only [State.held] at held
    cases here : s.workers w <;> rw [here] at wants held noSync <;> cases wants <;>
      simp [WorkerPc.held, WorkerPc.wants] at held noSync

/-- No thread of a ring comes back to a `jobs_mutex`. -/
theorem State.Ordered.not_back (ordered : s.Ordered) (sound : s.Sound) (ring : s.locks.Ring members)
    (member : x ∈ members) (r : ρ) : ¬ s.ComesBack x r := by
  intro back
  obtain ⟨b, inside, l, wanted, atHolder⟩ := ring.waits x member
  obtain rfl : l = .jobs r := Option.some.inj (Eq.trans (Eq.symm wanted) back.1)
  obtain ⟨c, rfl, _, enters, empty⟩ := ordered.holder sound ring inside atHolder
  refine ordered.nonempty x r c back ?_ enters empty
  rintro rfl
  exact sound.not_held back.1 atHolder

/-- No thread of a ring descends. -/
theorem State.Ordered.not_descends (ordered : s.Ordered) (sound : s.Sound) (ring : s.locks.Ring members)
    (member : x ∈ members) : ¬ s.Descends x := by
  intro descends
  have alone := ordered.alone x descends
  obtain ⟨b, inside, l, wanted, atHolder⟩ := ring.waits x member
  have other : b ≠ x := by
    rintro rfl
    exact sound.not_held wanted atHolder
  cases l with
  | queue idx => exact alone b other idx atHolder
  | sync c => exact ordered.no_sync ring member c wanted
  | jobs r =>
    -- The holder of the `jobs_mutex` is before the mutex of its queue, which the thread itself keeps then.
    obtain ⟨c, rfl, wants, enters, empty⟩ := ordered.holder sound ring inside atHolder
    obtain ⟨d, _, l, next, keeps⟩ := ring.waits _ inside
    obtain rfl : l = .queue (s.queueIdx r) := Option.some.inj (Eq.trans (Eq.symm next) wants)
    by_cases same : d = x
    · subst same
      exact ordered.not_back sound ring member r ⟨wanted, keeps⟩
    · exact alone d same _ keeps

/-- The height of a mutex: those of lower queues first, of one queue the `jobs_mutex` of the ranks first. -/
def Lock.level (queueIdx : ρ → Nat) : Lock ρ κ → Nat
  | .jobs r => 2 * queueIdx r
  | .queue idx => 2 * idx + 1
  | .sync _ => 0

def State.level (s : State ρ κ ω) (x : Thread κ ω) : Nat := ((s.wants x).map (Lock.level s.queueIdx)).getD 0

theorem State.Ordered.climbs (ordered : s.Ordered) (sound : s.Sound) (ring : s.locks.Ring members)
    {a b : Thread κ ω} (first : a ∈ members) (last : b ∈ members) (waits : s.locks.WaitsFor a b) :
    s.level a < s.level b := by
  obtain ⟨l, wants, held⟩ := waits
  obtain ⟨_, _, k, next, _⟩ := ring.waits b last
  replace wants : s.wants a = some l := wants
  replace next : s.wants b = some k := next
  rw [State.level, State.level, wants, next]
  cases l with
  | sync c => exact absurd wants (ordered.no_sync ring first c)
  | jobs r =>
    obtain ⟨_, _, atQueue, _⟩ := ordered.holder sound ring last held
    obtain rfl := Option.some.inj (next.symm.trans atQueue)
    exact Nat.lt_succ_self _
  | queue idx =>
    have level (other : Nat) (own : k.queueOf s.queueIdx = some other) : idx ≤ other := by
      by_contra below
      exact ordered.not_descends sound ring last ⟨k, other, idx, next, own, held, Nat.lt_of_not_le below⟩
    cases k with
    | sync c => exact absurd next (ordered.no_sync ring last c)
    | queue other =>
      have differ : idx ≠ other := by
        rintro rfl
        exact sound.not_held next held
      have above := level other rfl
      simp only [Option.map_some, Option.getD_some, Lock.level]
      omega
    | jobs r =>
      have differ : idx ≠ s.queueIdx r := by
        rintro rfl
        exact ordered.not_back sound ring last r ⟨next, held⟩
      have above := level (s.queueIdx r) rfl
      simp only [Option.map_some, Option.getD_some, Lock.level]
      omega

/-- Threads that keep the order do not wait for one another in a circle. -/
theorem State.Ordered.safe (ordered : s.Ordered) (sound : s.Sound) : ¬ s.locks.Deadlock :=
  WaitGraph.Locks.safe_of_level s.level fun _ ring _ first _ last => ordered.climbs sound ring first last

end Ring

/-- A thread that comes back to a `jobs_mutex` and a client behind it that finds the FIFO empty wait for each other,
at the latest after the next step of the client. -/
theorem State.ComesBack.circle {r : ρ} {c : κ} (back : s.ComesBack x r) (other : x ≠ .client c)
    (enters : s.Enters c r) (empty : s.jobs r = []) :
    s.locks.Deadlock ∨ ∃ t, Move s (.client c) t ∧ t.locks.Deadlock := by
  obtain ⟨call, rest, queues, inJobs | atQueue, free⟩ := enters
  · have move := Move.comesToQueue inJobs empty free
    have back := (move.frame.comesBack other).mpr back
    refine .inr ⟨_, move, WaitGraph.Locks.deadlock_of_pair (a := x) (b := .client c) ?_ ?_⟩
    · exact ⟨.jobs r, back.1, by simp [State.locks, held_setClient, ClientPc.held]⟩
    · exact ⟨.queue (s.queueIdx r), by simp [State.locks, State.wants, State.setClient, ClientPc.wants], back.2⟩
  · refine .inl (WaitGraph.Locks.deadlock_of_pair (a := x) (b := .client c) ?_ ?_)
    · exact ⟨.jobs r, back.1, by simp [State.locks, State.held, atQueue, ClientPc.held]⟩
    · exact ⟨.queue (s.queueIdx r), by simp [State.locks, State.wants, atQueue, ClientPc.wants], back.2⟩

end

end

/-- Two clients on two ranks that share a queue, and no worker. -/
def State.clientsAt (first second : ClientPc Bool) (jobs : Bool → List (JobType Bool)) : State Bool Bool Empty where
  queueIdx _ := 0
  jobs := jobs
  nrRanks _ := 0
  clients c := if c then second else first
  workers := nofun

abbrev State.twoClients : State Bool Bool Empty := .clientsAt .idle .idle fun _ => []

theorem State.twoClients_created : State.twoClients.Created where
  clients c := by cases c <;> rfl
  workers := nofun
  jobs _ := rfl

/-- An asynchronous call on both ranks, or on the second one only. -/
def twoClientsCall (both : Bool) : Jobs.Call Bool where
  ranks := if both then [false, true] else [true]
  kind := .async
  nodup := by cases both <;> decide
  some := by cases both <;> decide
  accepted := nofun

section
variable {first second pc : ClientPc Bool} {jobs : Bool → List (JobType Bool)} {history : List (Transition _ _)}
  {start s t : State Bool Bool Empty}

theorem setClient_first : (State.clientsAt first second jobs).setClient false pc = .clientsAt pc second jobs := by
  rw [State.setClient, State.clientsAt, State.clientsAt]
  congr
  funext c
  cases c <;> rfl

theorem setClient_second : (State.clientsAt first second jobs).setClient true pc = .clientsAt first pc jobs := by
  rw [State.setClient, State.clientsAt, State.clientsAt]
  congr
  funext c
  cases c <;> rfl

theorem free_clientsAt {l : Lock Bool Bool} (here : l ∉ first.held false) (there : l ∉ second.held true) :
    (State.clientsAt first second jobs).Free l
  | .client false => here
  | .client true => there

/-- A step of the first client, while the second one keeps no mutex of a queue and is behind no `jobs_mutex`. -/
theorem inOrder_first (silent : ∀ idx, ¬ s.Keeps (.client true) idx) (outside : ∀ r, ¬ s.Enters true r) :
    InOrder ⟨s, .client false, t⟩ where
  descends _
    | .client true, _ => silent
    | .client false, other => absurd rfl other
  alone
    | .client true, _, ⟨_, _, kept, _, _, keeps, _⟩ => absurd keeps (silent kept)
    | .client false, other, _ => absurd rfl other
  comesBack
    | r, _, true, _, enters => absurd enters (outside r)
    | _, _, false, other, _ => absurd rfl other
  enters
    | _, _, _, _, _, .client true, _, back => silent _ back.2
    | _, _, _, _, _, .client false, other, _ => other rfl
  drops := nofun
  begins _ _ _ := nofun

/-- A step of the second client after which it keeps no mutex of a queue and has found no FIFO empty. -/
theorem inOrder_second (silent : ∀ idx, ¬ t.Keeps (.client true) idx)
    (filled : ∀ r, t.Enters true r → s.jobs r ≠ []) :
    InOrder ⟨s, .client true, t⟩ where
  descends := fun ⟨_, _, kept, _, _, keeps, _⟩ => absurd keeps (silent kept)
  alone _ _ _ := silent
  comesBack _ back := absurd back.2 (silent _)
  enters
    | true, r, _, enters, empty => absurd empty (filled r enters)
    | false, _, same, _, _ => by cases same
  drops := nofun
  begins _ _ _ := nofun

end

/-- The FIFOs when the first client has added its jobs to the first rank. -/
def filledFirst : Bool → List (JobType Bool) :=
  Function.update (fun _ => []) false (jobsToAdd (twoClientsCall true) false)

/-- The first client comes to the second rank and keeps the mutex of the queue. -/
theorem firstClient_comes : ∃ history,
    LockRun .twoClients history (.clientsAt (.atJobs (twoClientsCall true) true [] [0]) .idle filledFirst) ∧
    ∀ τ ∈ history, InOrder τ := by
  have calm {first : ClientPc Bool} {jobs : Bool → List (JobType Bool)} {t : State Bool Bool Empty} :
      InOrder ⟨.clientsAt first .idle jobs, .client false, t⟩ := by
    refine inOrder_first (fun idx => ?_) fun r => ?_
    · simp [State.Keeps, State.held, State.clientsAt, ClientPc.held]
    · simp [State.Enters, State.clientsAt]
  have run : LockRun .twoClients [] .twoClients := .start
  have run := run.next_eq (.begin (c := false) (twoClientsCall true) rfl) setClient_first
  have run := run.next_eq (.starts (c := false) rfl (show _ = [false, true] from rfl)) setClient_first
  have run := run.next_eq (.locksJobs (c := false) rfl (free_clientsAt (by decide) (by decide))) setClient_first
  have run := run.next_eq (.comesToQueue (c := false) rfl rfl (by simp)) setClient_first
  have run := run.next_eq (.locksQueue (c := false) rfl (free_clientsAt (by decide) (by decide))) setClient_first
  have run := run.next_eq (.appends (c := false) rfl) (@setClient_first _ _ _ filledFirst)
  exact ⟨_, run, by simp only [List.forall_mem_cons]; exact ⟨calm, calm, calm, calm, calm, calm, by simp⟩⟩

section
variable {ρ κ ω : Type} [DecidableEq ρ] [DecidableEq κ] [DecidableEq ω]

/-- The threads of a run never wait for one another in a circle where its steps keep the order of the mutexes. -/
theorem LockRun.deadlockFree {start s : State ρ κ ω} {history : List (Transition (State ρ κ ω) (Thread κ ω))}
    (created : start.Created) (run : LockRun start history s) (inOrder : ∀ τ ∈ history, InOrder τ) :
    ∀ τ ∈ history, ¬ τ.after.locks.Deadlock := by
  have along := (run.guarded (I := State.Sound) (P := fun s => s.Sound ∧ s.Ordered) created.sound
    (fun _ _ _ sound move => sound.next move) ⟨created.sound, created.ordered⟩
    (fun _ _ _ sound both move good => ⟨sound.next move, both.2.next sound move good⟩) inOrder).2
  exact fun τ member => (along τ member).2.safe (along τ member).1

end

/-- The second client waits for the first one, which has come back to the `jobs_mutex`. -/
theorem deadlockFree_waits : ∃ history s, LockRun .twoClients history s ∧
    (∃ τ ∈ history, τ.before.locks.WaitsFor (.client true) (.client false)) ∧
    s.clients true = .inJobs (twoClientsCall false) true [] [] ∧ ∀ τ ∈ history, ¬ τ.after.locks.Deadlock := by
  obtain ⟨history, run, inOrder⟩ := firstClient_comes
  have run := run.next_eq (.begin (c := true) (twoClientsCall false) rfl) setClient_second
  have run := run.next_eq (.starts (c := true) rfl (show _ = [true] from rfl)) setClient_second
  have run := run.next_eq (.locksJobs (c := false) rfl (free_clientsAt (by decide) (by decide))) setClient_first
  have run := run.next_eq (.skipsQueue (c := false) rfl fun _ => List.mem_singleton_self 0) setClient_first
  have run := run.next_eq (.appends (c := false) rfl) (@setClient_first _ _ _
    (Function.update filledFirst true (jobsToAdd (twoClientsCall true) false)))
  have run := run.next_eq (.locksJobs (c := true) rfl (free_clientsAt (by decide) (by decide))) setClient_second
  refine ⟨_, _, run, ⟨_, List.mem_cons_of_mem _ List.mem_cons_self, .jobs true, rfl, List.mem_cons_self⟩, rfl, ?_⟩
  refine LockRun.deadlockFree State.twoClients_created run ?_
  have waiting {first : ClientPc Bool} {jobs : Bool → List (JobType Bool)} {t : State Bool Bool Empty} :
      InOrder ⟨.clientsAt first (.atJobs (twoClientsCall false) true [] []) jobs, .client false, t⟩ := by
    refine inOrder_first (fun idx => ?_) fun r => ?_
    · simp [State.Keeps, State.held, State.clientsAt, ClientPc.held, mem_syncLock]
    · simp [State.Enters, State.clientsAt]
  simp only [List.forall_mem_cons]
  refine ⟨?_, waiting, waiting, waiting, ?_, ?_, inOrder⟩
  · refine inOrder_second (fun idx => ?_) fun r enters => ?_
    · simp [State.Keeps, State.held, State.clientsAt, ClientPc.held, mem_syncLock]
    · obtain ⟨_, _, _, here | here, _⟩ := enters <;> cases here
      exact List.cons_ne_nil _ _
  · refine inOrder_second (fun idx => ?_) fun r enters => ?_
    · simp [State.Keeps, State.held, State.clientsAt, ClientPc.held, mem_syncLock]
    · simp [State.Enters, State.clientsAt] at enters
  · refine inOrder_second (fun idx => ?_) fun r enters => ?_
    · simp [State.Keeps, State.held, State.clientsAt, ClientPc.held, mem_syncLock]
    · simp [State.Enters, State.clientsAt] at enters

/-- With the second client at the second rank each of the two waits for the other. -/
theorem twoClients_deadlock :
    ¬ ∀ (start : State Bool Bool Empty) history s, start.Created → LockRun start history s →
      ∀ τ ∈ history, ¬ τ.after.locks.Deadlock := by
  intro always
  obtain ⟨history, run, _⟩ := firstClient_comes
  have run := run.next_eq (.begin (c := true) (twoClientsCall false) rfl) setClient_second
  have run := run.next_eq (.starts (c := true) rfl (show _ = [true] from rfl)) setClient_second
  have run := run.next_eq (.locksJobs (c := true) rfl (free_clientsAt (by decide) (by decide))) setClient_second
  have back : (State.clientsAt (.atJobs (twoClientsCall true) true [] [0])
      (.inJobs (twoClientsCall false) true [] []) filledFirst).ComesBack (.client false) true :=
    ⟨rfl, List.mem_cons_self⟩
  rcases back.circle (c := true) nofun ⟨_, _, _, .inl rfl, List.not_mem_nil⟩ rfl with dead | ⟨t, move, dead⟩
  · exact always _ _ _ State.twoClients_created run _ List.mem_cons_self dead
  · exact always _ _ _ State.twoClients_created (run.next move) _ List.mem_cons_self dead

end Upmem.JobLocks
