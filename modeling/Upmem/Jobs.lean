import Upmem.Lib.Transitions
import Upmem.Rank
import Mathlib.Data.List.Nodup

set_option linter.unusedSectionVars false

namespace Upmem.Jobs
open Transitions

/-- What a job asks for. The jobs that concern nothing but the device of their
rank are not told apart. -/
inductive JobType (κ : Type)
  | work
  | sync (caller : κ)
  | callback (isNonblocking : Bool)
  | callbackOf (master : Nat)
  deriving DecidableEq

/-- `struct dpu_thread_job`, a slot of the jobs table of its rank. -/
structure ThreadJob (κ : Type) where
  slot : Nat
  type : JobType κ
  deriving DecidableEq

/-- `struct dpu_thread_job_sync`. Beside the counter stand the ranks that it still counts. -/
structure SyncObject (ρ : Type) where
  nrRanks : Nat
  status : DpuError
  absent : List ρ

/-- The master job of a single-call callback and what becomes of it: its slot
is freed when the function has returned, and it is abandoned, for its function
will not be called, when the job of a rank is dropped. -/
structure Master (ρ : Type) where
  slotOwner : ρ
  slot : Nat
  ranks : List ρ
  isNonblocking : Bool
  sync : SyncObject ρ
  freed : Bool
  abandoned : Bool

/-- The part of `dpu_rank_t.api` that the jobs use. The waiters are the threads
asleep on `available_jobs_cond` that no signal has reached. -/
structure RankApi (κ : Type) where
  nrJobs : Nat
  queueIdx : Nat
  availableJobs : List Nat
  availableJobsLength : Nat
  jobs : List (ThreadJob κ)
  jobError : DpuError
  waiters : List κ

structure CallbackFlags where
  isSync : Bool
  isNonblocking : Bool
  isSingleCall : Bool

/-- The calls of the API that use jobs: with one job for each rank, with a job
and a SYNC job, with a SYNC job only, and `dpu_callback`. -/
inductive CallKind
  | async
  | synchronous
  | sync
  | callback (flags : CallbackFlags)

/-- A call on the ranks of a set. A callback cannot be synchronous and nonblocking. -/
structure Call (ρ : Type) where
  ranks : List ρ
  kind : CallKind
  nodup : ranks.Nodup
  some : ranks ≠ []
  accepted : ∀ flags, kind = .callback flags → (flags.isSync && flags.isNonblocking) = false

section Ranks

theorem oneRank_nodup : [()].Nodup := by decide

theorem oneRank_some : [()] ≠ [] := by decide

theorem twoRanks_nodup : [false, true].Nodup := by decide

theorem twoRanks_some : [false, true] ≠ [] := by decide

end Ranks

/-- The progress of a call through `dpu_thread_job_get_jobs` and the slot of
its master job: the slots of the ranks it is done with, what is still to be
taken, the slots taken of the current rank, and the owner of the master slot. -/
structure Getting (ρ : Type) where
  call : Call ρ
  got : List (ρ × List Nat)
  todo : List (ρ × Nat)
  hand : List Nat
  master : Option ρ

inductive ClientPc (ρ κ : Type)
  | idle
  | getting (get : Getting ρ)
  | asleep (get : Getting ρ)
  | ungetting (got : List (ρ × List Nat))
  | adding (call : Call ρ) (jobs : List (ρ × List (ThreadJob κ)))
  | waiting (call : Call ρ)
  | resetting (ranks : List ρ)

/-- Where a worker is: in its main loop, at a job, in a nonblocking callback
before and after it has advanced its rank and queued the next job, in
`dpu_thread_handle_global_block` with the ranks it has not woken, or done with
a job that it keeps. -/
inductive WorkerPc (ρ κ : Type)
  | idle
  | run (rank : ρ) (job : ThreadJob κ)
  | detaching (rank : ρ) (job : ThreadJob κ) (master : Option Nat)
  | inserting (rank : ρ) (next : Option (ThreadJob κ)) (master : Option Nat)
  | detached (master : Option Nat)
  | waking (rank : ρ) (job : ThreadJob κ) (status : DpuError) (master : Nat) (others : List ρ)
  | done (rank : ρ) (job : ThreadJob κ) (status : DpuError)

/-- The job threads. A rank is parked while its callback at the head of the
FIFO waits for the other ranks without a worker. -/
structure State (ρ κ ω : Type) where
  api : ρ → RankApi κ
  queue : Nat → List (Option (ρ × ThreadJob κ))
  clients : κ → ClientPc ρ κ
  workers : ω → WorkerPc ρ κ
  workerQueue : ω → Nat
  syncs : κ → SyncObject ρ
  masters : Nat → Master ρ
  nextMaster : Nat
  parked : ρ → Bool

section
variable {ρ κ : Type}

/-- Whether `pthread_cond_signal` may wake this thread, or none. -/
def Wakes (waiters : List κ) : Option κ → Prop
  | none => waiters = []
  | some thread => thread ∈ waiters

def SyncObject.init (ranks : List ρ) : SyncObject ρ := ⟨ranks.length, .ok, ranks⟩

def SyncObject.fail (status : DpuError) (sync : SyncObject ρ) : SyncObject ρ :=
  { sync with status := if sync.status = .ok then status else sync.status }

variable [DecidableEq ρ]

/-- `do_sync_job` for a rank. -/
def SyncObject.arrive (rank : ρ) (sync : SyncObject ρ) : SyncObject ρ :=
  { sync with nrRanks := sync.nrRanks - 1, absent := sync.absent.erase rank }

def Master.arrive (rank : ρ) (master : Master ρ) : Master ρ := { master with sync := master.sync.arrive rank }

/-- A synchronous single-call callback uses the first rank only. -/
def Call.usedRanks (call : Call ρ) : List ρ :=
  match call.kind with
  | .callback flags => if flags.isSingleCall && flags.isSync then call.ranks.take 1 else call.ranks
  | _ => call.ranks

def Call.isSynchronous (call : Call ρ) : Bool :=
  match call.kind with
  | .async => false
  | .synchronous => true
  | .sync => true
  | .callback flags => flags.isSync

def Call.nrJobsPerRank (call : Call ρ) : Nat :=
  match call.kind with
  | .async => 1
  | .synchronous => 2
  | .sync => 1
  | .callback flags => if flags.isSync then 2 else 1

def Call.isNonblocking (call : Call ρ) : Bool :=
  match call.kind with
  | .callback flags => flags.isNonblocking
  | _ => false

def Call.needsMaster (call : Call ρ) : Bool :=
  match call.kind with
  | .callback flags => flags.isSingleCall && call.usedRanks.length != 1
  | _ => false

/-- The first job of a call on each rank; the second one is a SYNC job. -/
def Call.firstType (call : Call ρ) (caller : κ) (master : Option Nat) : JobType κ :=
  match call.kind with
  | .async => .work
  | .synchronous => .work
  | .sync => .sync caller
  | .callback flags => master.elim (.callback flags.isNonblocking) .callbackOf

def Call.jobsOf (call : Call ρ) (caller : κ) (master : Option Nat) : List Nat → List (ThreadJob κ)
  | [] => []
  | slot :: slots => ⟨slot, call.firstType caller master⟩ :: slots.map fun slot => ⟨slot, .sync caller⟩

def Getting.start (call : Call ρ) : Getting ρ where
  call := call
  got := []
  todo := call.usedRanks.map fun rank => (rank, call.nrJobsPerRank)
  hand := []
  master := none

variable [DecidableEq κ]

instance (waiters : List κ) : (woken : Option κ) → Decidable (Wakes waiters woken)
  | none => inferInstanceAs (Decidable (waiters = []))
  | some thread => inferInstanceAs (Decidable (thread ∈ waiters))

def signal (woken : Option κ) (waiters : List κ) : List κ := woken.elim waiters waiters.erase

def RankApi.releaseJobSlotUnlocked (woken : Option κ) (slot : Nat) (api : RankApi κ) : RankApi κ :=
  { api with
    availableJobs := api.availableJobs ++ [slot]
    availableJobsLength := api.availableJobsLength + 1
    waiters := if api.availableJobs = [] then signal woken api.waiters else api.waiters }

def RankApi.advanceToNextJob (woken : Option κ) (api : RankApi κ) : Option (ThreadJob κ) × RankApi κ :=
  match api.jobs with
  | [] => (none, api)
  | job :: rest => (rest.head?, { api.releaseJobSlotUnlocked woken job.slot with jobs := rest })

def RankApi.ungetJobs (slots : List Nat) (api : RankApi κ) : RankApi κ :=
  slots.foldl (fun api slot =>
    { api with
      availableJobs := slot :: api.availableJobs
      availableJobsLength := api.availableJobsLength + 1 }) api

/-- How a critical section of `dpu_thread_job_get_jobs` ends. -/
inductive GetResult
  | got (hand : List Nat)
  | sleeps (need : Nat) (hand : List Nat)
  | failed

/-- `dpu_thread_job_get_job_unlocked` for each job that is still needed of a rank. -/
def RankApi.getJobs : Nat → List Nat → RankApi κ → GetResult × RankApi κ
  | 0, hand, api => (.got hand, api)
  | need + 1, hand, api =>
    if api.jobError ≠ .ok then (.failed, api)
    else
      match api.availableJobs with
      | [] => (.sleeps (need + 1) hand, api)
      | slot :: rest =>
        RankApi.getJobs need (hand ++ [slot])
          { api with availableJobs := rest, availableJobsLength := api.availableJobsLength - 1 }

variable {ω : Type} [DecidableEq ω]

def State.setApi (s : State ρ κ ω) (rank : ρ) (value : RankApi κ) : State ρ κ ω :=
  { s with api := Function.update s.api rank value }

def State.setClient (s : State ρ κ ω) (client : κ) (pc : ClientPc ρ κ) : State ρ κ ω :=
  { s with clients := Function.update s.clients client pc }

def State.setWorker (s : State ρ κ ω) (worker : ω) (pc : WorkerPc ρ κ) : State ρ κ ω :=
  { s with workers := Function.update s.workers worker pc }

def State.setQueue (s : State ρ κ ω) (queueIdx : Nat) (entries : List (Option (ρ × ThreadJob κ))) : State ρ κ ω :=
  { s with queue := Function.update s.queue queueIdx entries }

def State.setSync (s : State ρ κ ω) (caller : κ) (value : SyncObject ρ) : State ρ κ ω :=
  { s with syncs := Function.update s.syncs caller value }

def State.setMaster (s : State ρ κ ω) (master : Nat) (value : Master ρ) : State ρ κ ω :=
  { s with masters := Function.update s.masters master value }

def State.setParked (s : State ρ κ ω) (rank : ρ) (value : Bool) : State ρ κ ω :=
  { s with parked := Function.update s.parked rank value }

section
variable (s : State ρ κ ω)

@[simp] theorem State.setApi_api (r : ρ) (api : RankApi κ) :
    (s.setApi r api).api = Function.update s.api r api := rfl

@[simp] theorem State.setClient_clients (c : κ) (pc : ClientPc ρ κ) :
    (s.setClient c pc).clients = Function.update s.clients c pc := rfl

@[simp] theorem State.setWorker_workers (w : ω) (pc : WorkerPc ρ κ) :
    (s.setWorker w pc).workers = Function.update s.workers w pc := rfl

@[simp] theorem State.setQueue_queue (q : Nat) (entries : List (Option (ρ × ThreadJob κ))) :
    (s.setQueue q entries).queue = Function.update s.queue q entries := rfl

@[simp] theorem State.setSync_syncs (c : κ) (sync : SyncObject ρ) :
    (s.setSync c sync).syncs = Function.update s.syncs c sync := rfl

@[simp] theorem State.setMaster_masters (m : Nat) (master : Master ρ) :
    (s.setMaster m master).masters = Function.update s.masters m master := rfl

@[simp] theorem State.setParked_parked (r : ρ) (value : Bool) :
    (s.setParked r value).parked = Function.update s.parked r value := rfl

end

/-- `STAILQ_INSERT_TAIL` on the queue of a rank. -/
def State.insertRank (s : State ρ κ ω) (rank : ρ) (job : Option (ThreadJob κ)) : State ρ κ ω :=
  s.setQueue (s.api rank).queueIdx (s.queue (s.api rank).queueIdx ++ [job.map fun job => (rank, job)])

/-- `dpu_thread_insert_rank_list`. -/
def State.insertRankList (s : State ρ κ ω) (rank : ρ) (firstJob : Option (ThreadJob κ)) : State ρ κ ω :=
  if firstJob.isSome then s.insertRank rank firstJob else s

@[simp] theorem State.insertRank_api (s : State ρ κ ω) (rank : ρ) (job : Option (ThreadJob κ)) :
    (s.insertRank rank job).api = s.api := rfl

/-- An iteration of `dpu_thread_handle_global_block`. -/
def State.wakeRank (s : State ρ κ ω) (woken : Option κ) (other : ρ) : State ρ κ ω :=
  ((s.setApi other ((s.api other).advanceToNextJob woken).2).insertRank other
    ((s.api other).advanceToNextJob woken).1).setParked other false

/-- The critical section of `dpu_thread_job_add_jobs` for one rank. -/
def State.addJobs (s : State ρ κ ω) (rank : ρ) (jobs : List (ThreadJob κ)) : State ρ κ ω :=
  (if (s.api rank).jobs = [] then s.insertRank rank jobs.head? else s).setApi rank
    { s.api rank with jobs := (s.api rank).jobs ++ jobs }

/-- The release of the slot of a master job. -/
def State.releaseMaster (s : State ρ κ ω) (woken : Option κ) (master : Nat) : State ρ κ ω :=
  (s.setApi (s.masters master).slotOwner
    ((s.api (s.masters master).slotOwner).releaseJobSlotUnlocked woken (s.masters master).slot)).setMaster master
      { s.masters master with freed := true }

/-- What `dpu_thread_update_status` tells the object of a job that it drops. -/
def State.dropJob (s : State ρ κ ω) (rank : ρ) (status : DpuError) (job : ThreadJob κ) : State ρ κ ω :=
  match job.type with
  | .sync caller => s.setSync caller (((s.syncs caller).fail status).arrive rank)
  | .callbackOf master => s.setMaster master { s.masters master with abandoned := true }
  | _ => s

/-- The loop of `dpu_thread_update_status`. -/
def State.dropJobs (s : State ρ κ ω) (rank : ρ) (status : DpuError) (woken : Option κ) :
    List (ThreadJob κ) → State ρ κ ω
  | [] => s
  | job :: rest =>
    ((s.dropJob rank status job).setApi rank
      { (s.api rank).releaseJobSlotUnlocked woken job.slot with jobs := rest }).dropJobs rank status woken rest

def State.updateStatus (s : State ρ κ ω) (rank : ρ) (status : DpuError) (woken : Option κ) : State ρ κ ω :=
  (s.setApi rank { s.api rank with jobError := status }).dropJobs rank status woken (s.api rank).jobs

/-- A client begins a call or goes on with it, a worker goes on, or it ends a job with a status. -/
inductive Action (ρ κ ω : Type)
  | begin (client : κ) (call : Call ρ)
  | client (client : κ)
  | worker (worker : ω)
  | compute (worker : ω) (status : DpuError)

/-- One critical section of a client or a worker, or what it does outside of
them. The locks of the ranks and, between two critical sections, those of the
queues are left out, so that more interleavings are allowed than the code has;
so is a job that a callback computes by itself, which takes no slot. -/
inductive Move : State ρ κ ω → Action ρ κ ω → State ρ κ ω → Prop
  | begin {s : State ρ κ ω} {c call} : s.clients c = .idle →
      Move s (.begin c call)
        ((if call.isSynchronous then s.setSync c (.init call.usedRanks)
          else s).setClient c (.getting (.start call)))
  | gets {s : State ρ κ ω} {c g r need rest hand api} : s.clients c = .getting g → g.todo = (r, need) :: rest →
      (s.api r).getJobs need g.hand = (.got hand, api) →
      Move s (.client c)
        ((s.setApi r api).setClient c (.getting { g with got := g.got ++ [(r, hand)], todo := rest, hand := [] }))
  | sleeps {s : State ρ κ ω} {c g r need rest need' hand api} : s.clients c = .getting g →
      g.todo = (r, need) :: rest →
      (s.api r).getJobs need g.hand = (.sleeps need' hand, api) →
      Move s (.client c)
        ((s.setApi r { api with waiters := api.waiters ++ [c] }).setClient c
          (.asleep { g with todo := (r, need') :: rest, hand := hand }))
  | wakes {s : State ρ κ ω} {c g r need rest} : s.clients c = .asleep g → g.todo = (r, need) :: rest →
      Move s (.client c)
        ((s.setApi r { s.api r with waiters := (s.api r).waiters.erase c }).setClient c (.getting g))
  | fails {s : State ρ κ ω} {c g r need rest api} : s.clients c = .getting g → g.todo = (r, need) :: rest →
      (s.api r).getJobs need g.hand = (.failed, api) →
      Move s (.client c) ((s.setApi r api).setClient c (.ungetting g.got))
  | ungets {s : State ρ κ ω} {c r slots rest} : s.clients c = .ungetting ((r, slots) :: rest) →
      Move s (.client c) ((s.setApi r ((s.api r).ungetJobs slots)).setClient c (.ungetting rest))
  | unget {s : State ρ κ ω} {c} : s.clients c = .ungetting [] → Move s (.client c) (s.setClient c .idle)
  | choosesMaster {s : State ρ κ ω} {c g owner} : s.clients c = .getting g → g.todo = [] → g.master = none →
      g.call.needsMaster = true → owner ∈ g.call.usedRanks →
      (g.call.isNonblocking = false → g.call.usedRanks.head? = some owner) →
      Move s (.client c) (s.setClient c (.getting { g with todo := [(owner, 1)], master := some owner }))
  | setsJobs {s : State ρ κ ω} {c g} : s.clients c = .getting g → g.todo = [] → g.call.needsMaster = false →
      Move s (.client c)
        (s.setClient c (.adding g.call (g.got.map fun (rank, slots) => (rank, g.call.jobsOf c none slots))))
  | setsMaster {s : State ρ κ ω} {c g owner slot got} : s.clients c = .getting g → g.todo = [] →
      g.master = some owner → g.got = got ++ [(owner, [slot])] →
      Move s (.client c)
        { (s.setMaster s.nextMaster
            { slotOwner := owner, slot := slot, ranks := g.call.usedRanks, isNonblocking := g.call.isNonblocking
              sync := .init g.call.usedRanks, freed := false, abandoned := false }).setClient c
            (.adding g.call (got.map fun (rank, slots) => (rank, g.call.jobsOf c (some s.nextMaster) slots))) with
          nextMaster := s.nextMaster + 1 }
  | adds {s : State ρ κ ω} {c call r jobs rest} : s.clients c = .adding call ((r, jobs) :: rest) →
      Move s (.client c) ((s.addJobs r jobs).setClient c (.adding call rest))
  | added {s : State ρ κ ω} {c call} : s.clients c = .adding call [] →
      Move s (.client c) (s.setClient c (if call.isSynchronous then .waiting call else .idle))
  | returns {s : State ρ κ ω} {c call} : s.clients c = .waiting call → (s.syncs c).nrRanks = 0 →
      Move s (.client c)
        (s.setClient c (.resetting (if (s.syncs c).status ≠ .ok then call.usedRanks else [])))
  | resets {s : State ρ κ ω} {c r rest} : s.clients c = .resetting (r :: rest) →
      Move s (.client c) ((s.setApi r { s.api r with jobError := .ok }).setClient c (.resetting rest))
  | reset {s : State ρ κ ω} {c} : s.clients c = .resetting [] → Move s (.client c) (s.setClient c .idle)
  | takes {s : State ρ κ ω} {w r job rest} : s.workers w = .idle →
      s.queue (s.workerQueue w) = some (r, job) :: rest →
      Move s (.worker w) ((s.setQueue (s.workerQueue w) rest).setWorker w (.run r job))
  | works {s : State ρ κ ω} {w r job} (status : DpuError) : s.workers w = .run r job → job.type = .work →
      Move s (.compute w status) (s.setWorker w (.done r job status))
  | syncs {s : State ρ κ ω} {w r job c} : s.workers w = .run r job → job.type = .sync c →
      Move s (.compute w .ok) ((s.setSync c ((s.syncs c).arrive r)).setWorker w (.done r job .ok))
  | calls {s : State ρ κ ω} {w r job} (status : DpuError) : s.workers w = .run r job → job.type = .callback false →
      Move s (.compute w status) (s.setWorker w (.done r job status))
  | callsNonblocking {s : State ρ κ ω} {w r job} (status : DpuError) : s.workers w = .run r job →
      job.type = .callback true → Move s (.compute w status) (s.setWorker w (.detaching r job none))
  | arrives {s : State ρ κ ω} {w r job m} : s.workers w = .run r job → job.type = .callbackOf m →
      (s.masters m).sync.nrRanks ≠ 1 → (s.masters m).isNonblocking = true →
      Move s (.compute w .ok) ((s.setMaster m ((s.masters m).arrive r)).setWorker w (.done r job .ok))
  | parks {s : State ρ κ ω} {w r job m} : s.workers w = .run r job → job.type = .callbackOf m →
      (s.masters m).sync.nrRanks ≠ 1 → (s.masters m).isNonblocking = false →
      Move s (.compute w .ok) (((s.setMaster m ((s.masters m).arrive r)).setParked r true).setWorker w .idle)
  | callsLastNonblocking {s : State ρ κ ω} {w r job m} (status : DpuError) : s.workers w = .run r job →
      job.type = .callbackOf m → (s.masters m).sync.nrRanks = 1 → (s.masters m).isNonblocking = true →
      Move s (.compute w status) ((s.setMaster m ((s.masters m).arrive r)).setWorker w (.detaching r job (some m)))
  | callsLast {s : State ρ κ ω} {w r job m} (status : DpuError) : s.workers w = .run r job →
      job.type = .callbackOf m → (s.masters m).sync.nrRanks = 1 → (s.masters m).isNonblocking = false →
      Move s (.compute w status)
        ((s.setMaster m ((s.masters m).arrive r)).setWorker w
          (.waking r job status m ((s.masters m).ranks.filter fun other => other ≠ r)))
  | detaches {s : State ρ κ ω} {w r job m woken} : s.workers w = .detaching r job m →
      Wakes (s.api r).waiters woken →
      Move s (.worker w)
        ((s.setApi r ((s.api r).advanceToNextJob woken).2).setWorker w
          (.inserting r ((s.api r).advanceToNextJob woken).1 m))
  | inserts {s : State ρ κ ω} {w r next m} : s.workers w = .inserting r next m →
      Move s (.worker w) ((s.insertRankList r next).setWorker w (.detached m))
  | leaves {s : State ρ κ ω} {w} : s.workers w = .detached none → Move s (.worker w) (s.setWorker w .idle)
  | leavesMaster {s : State ρ κ ω} {w m woken} : s.workers w = .detached (some m) →
      Wakes (s.api (s.masters m).slotOwner).waiters woken →
      Move s (.worker w) ((s.releaseMaster woken m).setWorker w .idle)
  | wakesRank {s : State ρ κ ω} {w r job status m other others woken} :
      s.workers w = .waking r job status m (other :: others) → Wakes (s.api other).waiters woken →
      Move s (.worker w) ((s.wakeRank woken other).setWorker w (.waking r job status m others))
  | releases {s : State ρ κ ω} {w r job status m woken} : s.workers w = .waking r job status m [] →
      Wakes (s.api (s.masters m).slotOwner).waiters woken →
      Move s (.worker w) ((s.releaseMaster woken m).setWorker w (.done r job status))
  | advances {s : State ρ κ ω} {w r job woken} : s.workers w = .done r job .ok → Wakes (s.api r).waiters woken →
      Move s (.worker w)
        ((s.setApi r ((s.api r).advanceToNextJob woken).2).setWorker w
          (((s.api r).advanceToNextJob woken).1.elim .idle (.run r)))
  | updatesStatus {s : State ρ κ ω} {w r job status woken} : s.workers w = .done r job status → status ≠ .ok →
      Wakes (s.api r).waiters woken →
      Move s (.worker w) ((s.updateStatus r status woken).setWorker w .idle)

/-- The insertion of a NULL job dereferences it: nothing happens afterwards. -/
structure Step (s : State ρ κ ω) (a : Action ρ κ ω) (t : State ρ κ ω) : Prop where
  alive : ∀ q, none ∉ s.queue q
  move : Move s a t

/-- What `dpu_thread_job_create` makes of a rank. -/
structure RankApi.Created (api : RankApi κ) : Prop where
  availableJobs : api.availableJobs = (List.range api.nrJobs).reverse
  availableJobsLength : api.availableJobsLength = api.nrJobs
  jobs : api.jobs = []
  jobError : api.jobError = .ok
  waiters : api.waiters = []

structure State.Created (s : State ρ κ ω) : Prop where
  api : ∀ r, (s.api r).Created
  queue : ∀ q, s.queue q = []
  clients : ∀ c, s.clients c = .idle
  workers : ∀ w, s.workers w = .idle
  nextMaster : s.nextMaster = 0
  parked : ∀ r, s.parked r = false

abbrev JobRun (start : State ρ κ ω) (history : List (Transition (State ρ κ ω) (Action ρ κ ω))) (s : State ρ κ ω) :
    Prop :=
  Run Step start history s

/-- Two states of a rank differ in its slots and in the threads that wait for them only. -/
structure RankApi.SameJobs (before after : RankApi κ) : Prop where
  nrJobs : after.nrJobs = before.nrJobs
  queueIdx : after.queueIdx = before.queueIdx
  jobs : after.jobs = before.jobs

theorem RankApi.SameJobs.refl (api : RankApi κ) : api.SameJobs api := ⟨rfl, rfl, rfl⟩

theorem RankApi.getJobs_same (need : Nat) (hand : List Nat) (api : RankApi κ) :
    api.SameJobs (api.getJobs need hand).2 ∧ (api.getJobs need hand).2.waiters = api.waiters ∧
      (api.getJobs need hand).2.jobError = api.jobError := by
  induction need generalizing hand api with
  | zero => exact ⟨.refl api, rfl, rfl⟩
  | succ need ih =>
    unfold RankApi.getJobs
    split_ifs
    · exact ⟨.refl api, rfl, rfl⟩
    · split
      · exact ⟨.refl api, rfl, rfl⟩
      · obtain ⟨same, waiters, jobError⟩ :=
          ih (hand ++ [_]) { api with availableJobs := _, availableJobsLength := _ }
        exact ⟨⟨same.nrJobs, same.queueIdx, same.jobs⟩, waiters, jobError⟩

theorem RankApi.ungetJobs_eq (slots : List Nat) (api : RankApi κ) :
    api.ungetJobs slots = { api with
      availableJobs := slots.reverse ++ api.availableJobs
      availableJobsLength := api.availableJobsLength + slots.length } := by
  induction slots generalizing api with
  | nil => rfl
  | cons slot slots ih =>
    rw [RankApi.ungetJobs, List.foldl_cons, ← RankApi.ungetJobs, ih]
    simp [Nat.add_assoc, Nat.add_comm 1]

@[simp] theorem RankApi.advanceToNextJob_fst (woken : Option κ) (api : RankApi κ) :
    (api.advanceToNextJob woken).1 = api.jobs.tail.head? := by
  unfold RankApi.advanceToNextJob
  cases api.jobs <;> rfl

@[simp] theorem RankApi.advanceToNextJob_jobs (woken : Option κ) (api : RankApi κ) :
    (api.advanceToNextJob woken).2.jobs = api.jobs.tail := by
  unfold RankApi.advanceToNextJob
  split
  next empty => rw [empty, List.tail_nil]
  next filled => rw [filled, List.tail_cons]

@[simp] theorem RankApi.advanceToNextJob_queueIdx (woken : Option κ) (api : RankApi κ) :
    (api.advanceToNextJob woken).2.queueIdx = api.queueIdx := by
  unfold RankApi.advanceToNextJob
  split <;> rfl

@[simp] theorem RankApi.advanceToNextJob_nrJobs (woken : Option κ) (api : RankApi κ) :
    (api.advanceToNextJob woken).2.nrJobs = api.nrJobs := by
  unfold RankApi.advanceToNextJob
  split <;> rfl

/-- The master jobs after those of some dropped jobs are abandoned. -/
def abandon (jobs : List (ThreadJob κ)) (masters : Nat → Master ρ) : Nat → Master ρ := fun m =>
  if .callbackOf m ∈ jobs.map ThreadJob.type then { masters m with abandoned := true } else masters m

/-- A rank after all of its jobs are dropped. -/
def RankApi.drained (woken : Option κ) (api : RankApi κ) : RankApi κ :=
  { api with
    availableJobs := api.availableJobs ++ api.jobs.map ThreadJob.slot
    availableJobsLength := api.availableJobsLength + api.jobs.length
    jobs := []
    waiters := if api.availableJobs = [] ∧ api.jobs ≠ [] then signal woken api.waiters else api.waiters }

theorem State.dropJob_eq (s : State ρ κ ω) (r : ρ) (status : DpuError) (job : ThreadJob κ) :
    ∃ syncs, s.dropJob r status job = { s with syncs := syncs, masters := abandon [job] s.masters } := by
  have other (unlike : ∀ m, job.type ≠ .callbackOf m) : abandon [job] s.masters = s.masters :=
    funext fun m => if_neg (by simpa using (unlike m).symm)
  unfold State.dropJob
  split
  next caller type => exact ⟨_, by rw [other (by simp [type])]; rfl⟩
  next m type =>
    refine ⟨s.syncs, ?_⟩
    have masters : Function.update s.masters m { s.masters m with abandoned := true } =
        abandon [job] s.masters := by
      funext m'
      by_cases same : m' = m
      · subst same
        simp [abandon, type]
      · simp [abandon, type, same]
    rw [State.setMaster, masters]
  next unlikeSync unlike => exact ⟨s.syncs, by rw [other unlike]⟩

/-- What the loop of `dpu_thread_update_status` does. -/
theorem State.dropJobs_eq (r : ρ) (status : DpuError) (woken : Option κ) {jobs : List (ThreadJob κ)}
    {s : State ρ κ ω} (here : (s.api r).jobs = jobs) :
    ∃ syncs, s.dropJobs r status woken jobs = { s with
      api := Function.update s.api r ((s.api r).drained woken)
      syncs := syncs
      masters := abandon jobs s.masters } := by
  induction jobs generalizing s with
  | nil =>
    have api : (s.api r).drained woken = s.api r := by
      unfold RankApi.drained
      generalize s.api r = api at here
      cases api
      simp_all
    have masters : abandon ([] : List (ThreadJob κ)) s.masters = s.masters := funext fun m => by simp [abandon]
    exact ⟨s.syncs, by rw [State.dropJobs, api, Function.update_eq_self, masters]⟩
  | cons job rest ih =>
    obtain ⟨syncs, dropped⟩ := s.dropJob_eq r status job
    obtain ⟨syncs', later⟩ := @ih (((s.dropJob r status job).setApi r
      { (s.api r).releaseJobSlotUnlocked woken job.slot with jobs := rest })) (by simp [State.setApi])
    refine ⟨syncs', ?_⟩
    rw [State.dropJobs, later, dropped]
    have masters : abandon rest (abandon [job] s.masters) = abandon (job :: rest) s.masters := by
      funext m
      by_cases first : .callbackOf m = job.type <;> by_cases second : .callbackOf m ∈ rest.map ThreadJob.type <;>
        simp [abandon, first, second]
    have api : RankApi.drained woken { (s.api r).releaseJobSlotUnlocked woken job.slot with jobs := rest } =
        (s.api r).drained woken := by
      simp [RankApi.drained, RankApi.releaseJobSlotUnlocked, here, Nat.add_assoc, Nat.add_comm 1]
    simp only [State.setApi, Function.update_self, Function.update_idem, masters, api]

theorem State.updateStatus_eq (s : State ρ κ ω) (r : ρ) (status : DpuError) (woken : Option κ) :
    ∃ syncs, s.updateStatus r status woken = { s with
      api := Function.update s.api r ({ s.api r with jobError := status }.drained woken)
      syncs := syncs
      masters := abandon (s.api r).jobs s.masters } := by
  obtain ⟨syncs, dropped⟩ := @State.dropJobs_eq _ _ _ _ _ _ r status woken (s.api r).jobs
    (s.setApi r { s.api r with jobError := status }) (by simp [State.setApi])
  exact ⟨syncs, by rw [State.updateStatus, dropped]; simp [State.setApi]⟩

end

end Upmem.Jobs
