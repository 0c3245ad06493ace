import Upmem.Preempt
import Upmem.Reset
import Upmem.Runner

namespace Upmem
open Transitions

/-- What a callback job carries. The ranks of its set share the counter of
one object, from which the last of them to arrive is known. -/
structure CallbackInfo (ρ : Type) where
  object : Nat
  isSync : Bool
  isSingleCall : Bool
  isNonblocking : Bool
  ranks : List ρ

/-- `struct dpu_thread_job`. A launch of a rank says which preempted launch it
belongs to, if any. The copies to and from WRAM and IRAM and the loads of
programs are not told apart. -/
inductive Job (ρ : Type)
  | launchRank (launch : Option Nat)
  | launchDpu (ci dpu : Nat)
  | sync (object : Nat)
  | copyToMram (offset size : BitVec 32)
  | copyFromMram (offset size : BitVec 32)
  | other
  | callback (info : CallbackInfo ρ)

/-- How far the launch of a rank by the current preempted launch has come:
its LAUNCH job has not booted the rank, some DPU runs, all of them have
stopped (some in fault or not), or a reset came first. -/
inductive LaunchPhase
  | pending | running | ended (fault : Bool) | interrupted
  deriving DecidableEq, Repr

def LaunchPhase.interrupt : LaunchPhase → LaunchPhase
  | running => interrupted
  | phase => phase

/-- A rank with its thread-job part, the run and fault bits of its hardware
and the phase of its launch. -/
structure HostRank (ρ : Type) where
  rank : Rank
  run : Nat → DpuBitfield
  fault : Nat → DpuBitfield
  phase : LaunchPhase
  shouldStop : Bool
  queueIdx : Nat
  nrThreads : Nat
  jobs : List (Job ρ)
  callbackTidSet : Bool

/-- Where a worker thread is: in its main loop, computing a job, waiting for
the DPUs a job has launched, in the function of a callback, or about to
advance or to clean the FIFO of a rank. -/
inductive WorkerPc (ρ : Type)
  | wait
  | compute (rank : ρ) (job : Job ρ)
  | sync (rank : ρ) (dpu : Option (Nat × Nat))
  | callback (rank : ρ) (info : CallbackInfo ρ)
  | detached
  | advance (rank : ρ)
  | failed (rank : ρ)
  | exited

inductive LaunchKind
  | restart | advance
  deriving DecidableEq, Repr

/-- The host library: its ranks, the job queues, the worker threads of each
rank, the counters of the synchronisation objects, and the preempted launch
in progress on the ranks of a set. -/
structure Host (ρ : Type) where
  ranks : ρ → HostRank ρ
  queue : Nat → List (ρ × Job ρ)
  workers : ρ → Nat → WorkerPc ρ
  objects : Nat → Nat
  call : Call
  kind : LaunchKind
  setRanks : Nat → ρ
  syncObject : Nat
  launches : Nat

section
variable {ρ : Type}

/-- The enabled DPUs of a control interface that the hardware has not stopped. -/
def HostRank.notStopped (r : HostRank ρ) (ci : Nat) : DpuBitfield :=
  (r.run ci &&& r.rank.enabledMask ci) &&& ~~~ r.fault ci

def HostRank.allStopped (r : HostRank ρ) : Bool :=
  (List.range r.rank.nrCis).all fun ci => r.notStopped ci == 0#8

def HostRank.anyFault (r : HostRank ρ) : Bool :=
  (List.range r.rank.nrCis).any fun ci => r.fault ci &&& r.rank.enabledMask ci != 0#8

/-- A running launch has ended once all of its DPUs have stopped. -/
def HostRank.settle (r : HostRank ρ) : HostRank ρ :=
  { r with phase := if r.phase = .running ∧ r.allStopped = true then .ended r.anyFault else r.phase }

/-- The statuses of the commands that a launch sends. -/
structure LaunchCommands where
  preexecution : DpuError
  poll : DpuError
  profiling : DpuError
  boot : DpuError

/-- What the commands of a launch read from the hardware of a rank. -/
def HostRank.reading (r : HostRank ρ) (commands : LaunchCommands) : LaunchReading where
  poll := { status := commands.poll, run := r.run, fault := r.fault }
  profiling := commands.profiling
  boot := commands.boot

/-- The boot of a rank, for the current preempted launch or not. -/
def HostRank.bootRank (r : HostRank ρ) (current : Bool) (commands : LaunchCommands) : DpuError × HostRank ρ :=
  let (status, rank) := dpuBootRank commands.preexecution (r.reading commands) r.rank
  if status ≠ .ok then (status, { r with rank := rank })
  else
    (.ok, HostRank.settle { r with
      rank := rank
      run := fun ci => r.run ci ||| r.rank.enabledMask ci
      phase := if current = true ∧ r.phase = .pending then .running else r.phase })

def HostRank.bootDpu (r : HostRank ρ) (ci dpu : Nat) (commands : LaunchCommands) : DpuError × HostRank ρ :=
  let (status, rank) := dpuBootDpu ci dpu commands.preexecution (r.reading commands) r.rank
  if status ≠ .ok then (status, { r with rank := rank })
  else (.ok, { r with rank := rank, run := Function.update r.run ci (r.run ci ||| dpuMaskOne dpu) })

/-- `polling_thread_rank` with the lock of a rank that has DPUs running. -/
def HostRank.poll (r : HostRank ρ) (status : DpuError) : HostRank ρ :=
  let (pollStatus, rank) := dpuPollRank { status := status, run := r.run, fault := r.fault } r.rank
  { r with rank := { rank with runContext := { rank.runContext with pollStatus := pollStatus } } }

/-- The hardware after some DPUs have stopped and some have failed. -/
def HostRank.progress (r : HostRank ρ) (run fault : Nat → DpuBitfield) : HostRank ρ :=
  HostRank.settle { r with run := run, fault := fault }

/-- `dpu_reset_rank`, which may leave any run and fault bits behind. -/
def HostRank.reset (r : HostRank ρ) (call : ResetCall → DpuError) (run fault : Nat → DpuBitfield) : HostRank ρ :=
  { r with rank := (dpuResetRank call r.rank).2, run := run, fault := fault, phase := r.phase.interrupt }

/-- `abort_struggling_dpu`. -/
def HostRank.abortStrugglingDpu (r : HostRank ρ) (call : ResetCall → DpuError) (run fault : Nat → DpuBitfield) :
    HostRank ρ :=
  HostRank.reset { r with shouldStop := true } call run fault

/-- `abort_struggling_dpu_advance`, which waits for the counter to stay at zero. -/
def HostRank.abortStrugglingDpuAdvance (r : HostRank ρ) : HostRank ρ :=
  { r with
    shouldStop := true
    rank := { r.rank with runContext := { r.rank.runContext with nbDpuRunning := 0 } } }

def WorkerPc.finish (status : DpuError) (rank : ρ) : WorkerPc ρ :=
  if status = .ok then .advance rank else .failed rank

/-- The status of a transfer: that of its guard, then that of the access. -/
def guardedStatus (access : Except DpuError MramPath) (status : DpuError) : DpuError :=
  match access with
  | .error refused => refused
  | .ok _ => status

variable [DecidableEq ρ]

def Host.setRank (h : Host ρ) (r : ρ) (value : HostRank ρ) : Host ρ :=
  { h with ranks := Function.update h.ranks r value }

def Host.setWorker (h : Host ρ) (owner : ρ) (i : Nat) (pc : WorkerPc ρ) : Host ρ :=
  { h with workers := Function.update h.workers owner (Function.update (h.workers owner) i pc) }

def Host.setObject (h : Host ρ) (object value : Nat) : Host ρ :=
  { h with objects := Function.update h.objects object value }

def Host.setCall (h : Host ρ) (call : Call) : Host ρ :=
  { h with call := call }

/-- The FIFO of a rank replaced. -/
def Host.setJobs (h : Host ρ) (r : ρ) (jobs : List (Job ρ)) : Host ρ :=
  h.setRank r { h.ranks r with jobs := jobs }

def Host.setQueue (h : Host ρ) (queueIdx : Nat) (entries : List (ρ × Job ρ)) : Host ρ :=
  { h with queue := Function.update h.queue queueIdx entries }

/-- A job put at the end of the queue of its rank. -/
def Host.insertTail (h : Host ρ) (r : ρ) (job : Job ρ) : Host ρ :=
  h.setQueue (h.ranks r).queueIdx (h.queue (h.ranks r).queueIdx ++ [(r, job)])

/-- `dpu_thread_insert_rank_list`, which does nothing with a null job. -/
def Host.insertRankList (h : Host ρ) (r : ρ) : Option (Job ρ) → Host ρ
  | none => h
  | some job => h.insertTail r job

/-- `dpu_thread_job_add_jobs` for one rank. -/
def Host.addJobs (h : Host ρ) (r : ρ) (first : Job ρ) (rest : List (Job ρ)) : Host ρ :=
  let jobs := (h.ranks r).jobs
  (if jobs.isEmpty then h.insertTail r first else h).setJobs r (jobs ++ first :: rest)

def Host.setCallbackTid (h : Host ρ) (ranks : List ρ) (value : Bool) : Host ρ :=
  { h with ranks := fun r => if r ∈ ranks then { h.ranks r with callbackTidSet := value } else h.ranks r }

/-- `dpu_thread_handle_global_block`. A rank without a next job has no result:
the code inserts a null pointer in a queue there. -/
def Host.handleGlobalBlock (rank : ρ) : List ρ → Host ρ → Option (Host ρ)
  | [], h => some h
  | other :: others, h =>
    if other = rank then handleGlobalBlock rank others h
    else
      match (h.ranks other).jobs.tail with
      | [] => none
      | next :: later =>
        handleGlobalBlock rank others ((h.setJobs other (next :: later)).insertTail other next)

/-- The counters after the SYNC jobs of a cleaned FIFO have been notified. -/
def notifySyncJobs : List (Job ρ) → (Nat → Nat) → Nat → Nat
  | [], objects => objects
  | .sync object :: rest, objects => notifySyncJobs rest (Function.update objects object (objects object - 1))
  | _ :: rest, objects => notifySyncJobs rest objects

/-- `dpu_thread_update_status`: the FIFO of a rank cleaned after a failure. -/
def Host.updateStatus (h : Host ρ) (r : ρ) : Host ρ :=
  { h.setJobs r [] with objects := notifySyncJobs (h.ranks r).jobs h.objects }

end

end Upmem
