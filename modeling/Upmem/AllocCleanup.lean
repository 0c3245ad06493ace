import Upmem.Alloc
import Upmem.RankList

namespace Upmem.AllocCleanup
open RankList

def NR_QUEUES : Nat := 4

/-- What the process holds. A rank that the backend allocates is known by its
number; there is one entry in `workers` for each running worker thread, the
rank to which its `thread_info` belongs. -/
structure Process where
  acquired : Nat
  released : List Nat
  workers : List Nat
  sets : List (List Nat)
  capacity : Nat
  polling : Nat → Bool

/-- Only acquired ranks are released or worked for. -/
structure Process.Known (p : Process) : Prop where
  released : ∀ r ∈ p.released, r < p.acquired
  workers : ∀ r ∈ p.workers, r < p.acquired

/-- What a valid profile gives to an allocation. The greatest number of blocks
is none when its text is not a number. -/
structure Profile where
  properties : Properties
  dispatchOnAllRanks : Bool
  sgXferEnabled : Bool
  sgXferMaxBlockPerDpu : Option (BitVec 32)

/-- The answers to a call of `dpu_get_rank_of_type`, the rank as the backend
fills it and the answers to the commands of its reset. The list of the handler
is taken as full, so that a place for the rank is one of the answers. -/
structure Request where
  inputs : GetInputs
  rank : Rank
  call : ResetCall → DpuError
  agrees : rank.Agrees
  enabled : 0 < getNrOfDpusInRank rank

/-- What an allocation is given: the profile, unless it is invalid, and what
memory, the backend and the system answer. The requests, the NUMA nodes, the
tables of jobs and the threads are those of the ranks in their order. -/
structure Answers where
  profile : Option Profile
  currentRanksGrown : Nat → Bool
  ranksAllocated : Bool
  requests : Nat → Request
  disableDpu : Nat → DpuError
  numaNode : Nat → Int
  jobsTable : Nat → Bool
  threadCreated : Nat → Nat → Bool
  setsGrown : Bool
  condInit : Nat → Bool
  pollingCreated : Nat → Bool

/-- A rank in the hands of an allocation. -/
structure HeldRank where
  number : Nat
  rank : Rank

inductive Outcome
  | failedAssertion
  | error (status : DpuError)
  | ok (set : List Nat)
  deriving DecidableEq

namespace Answers
variable (answers : Answers)

def inputs (eachRank : Nat) : GetInputs :=
  { (answers.requests eachRank).inputs with properties := answers.profile.map Profile.properties }

/-- `dpu_get_rank_of_type`. The backend has allocated a rank when the rank has
come into the list of the handler. -/
def dpuGetRankOfType (eachRank : Nat) (p : Process) : DpuError × Process :=
  let ((status, _), table) := (answers.inputs eachRank).dpuGetRankOfType () setupDpuRankList
  (status, if some () ∈ table.ranks then { p with acquired := p.acquired + 1 } else p)

/-- The rank that a request returns, with its `disable_reset_on_alloc`. -/
def handout (eachRank : Nat) : Handout :=
  let request := answers.requests eachRank
  { rank := request.rank
    disableResetOnAlloc :=
      answers.profile.any fun profile => fetchBooleanProperty profile.properties .disableResetOnAlloc false
    call := request.call
    agrees := request.agrees
    enabled := request.enabled }

/-- `nr_threads` of every rank, which the profile gives. -/
def nrThreads : Nat :=
  match answers.profile with
  | none => 0
  | some profile =>
    ((fetchIntegerProperty profile.properties .nrThreadsPerRank NR_THREADS_PER_RANK_DEFAULT).getD 0#32).toNat

def queueIdx (eachRank : Nat) : Nat :=
  if answers.numaNode eachRank = -1 then 0 else (BitVec.ofInt 32 (answers.numaNode eachRank)).toNat

/-- The threads of a rank, created one after the other. -/
def createThreads (created : Nat → Bool) (rank : Nat) : Nat → Nat → List Nat → Bool × List Nat
  | _, 0, workers => (true, workers)
  | eachThread, left + 1, workers =>
    if created eachThread then createThreads created rank (eachThread + 1) left (workers ++ [rank])
      else (false, workers)

/-- The loop of `dpu_thread_job_create`, with the ranks that are done. -/
def threadJobLoop : Nat → List Nat → List Nat → List Nat → DpuError × List Nat × List Nat
  | _, [], done, workers => (.ok, done, workers)
  | eachRank, rank :: ranks, done, workers =>
    if !answers.jobsTable eachRank then (.system, done, workers)
    else if NR_QUEUES ≤ answers.queueIdx eachRank then (.system, done, workers)
    else
      let (created, workers) := createThreads (answers.threadCreated eachRank) rank 0 answers.nrThreads workers
      if !created then (.system, done ++ [rank], workers)
      else threadJobLoop (eachRank + 1) ranks (done ++ [rank]) workers

/-- `dpu_thread_job_create`. After a failure the threads of the ranks that are done are joined. -/
def dpuThreadJobCreate (ranks : List Nat) (p : Process) : DpuError × Process :=
  let (status, done, workers) := answers.threadJobLoop 0 ranks [] p.workers
  if status = .ok then (.ok, { p with workers := workers })
  else (status, { p with workers := done.foldl (fun workers rank => workers.filter fun r => r ≠ rank) workers })

def setAllocatorRegister (set : List Nat) (p : Process) : DpuError × Process :=
  if p.sets.length = p.capacity then
    let p := { p with capacity := 2 * p.capacity + 2 }
    if !answers.setsGrown then (.system, p) else (.ok, { p with sets := p.sets ++ [set] })
  else (.ok, { p with sets := p.sets ++ [set] })

/-- `polling_thread_create`, with the queues that are left. -/
def pollingThreadCreate : Nat → Nat → (Nat → Bool) → DpuError × (Nat → Bool)
  | _, 0, isRunning => (.ok, isRunning)
  | eachQueue, left + 1, isRunning =>
    if isRunning eachQueue then (.ok, isRunning)
    else
      let isRunning := Function.update isRunning eachQueue true
      if !answers.condInit eachQueue then (.system, isRunning)
      else if !answers.pollingCreated eachQueue then (.system, isRunning)
      else pollingThreadCreate (eachQueue + 1) left isRunning

def initDpuSet (ranks : List Nat) (p : Process) : DpuError × Process :=
  let (status, p) := answers.dpuThreadJobCreate ranks p
  if status ≠ .ok then (status, p)
  else
    let (status, p) := answers.setAllocatorRegister ranks p
    if status ≠ .ok then (status, p)
    else
      let (status, polling) := answers.pollingThreadCreate 0 NR_QUEUES p.polling
      (status, { p with polling := polling })

/-- `sg_buffer_pool_create`, given what the first rank of the set holds. -/
def sgBufferPoolCreate (sgXferEnabled hasBlocksAddr hasBlocksLength : Bool) : DpuError :=
  if !sgXferEnabled then .internal
  else if hasBlocksAddr then .internal
  else if hasBlocksLength then .internal
  else .ok

/-- `init_scatter_gather_transfer_buffer`. The fetch of SG_XFER_ENABLE cannot fail. -/
def initScatterGatherTransferBuffer : DpuError :=
  match answers.profile with
  | none => .invalidProfile
  | some profile =>
    match profile.sgXferMaxBlockPerDpu with
    | none => .invalidProfile
    | some sgXferMaxBlockPerDpu =>
      if profile.sgXferEnabled = false ∧ 0#32 < sgXferMaxBlockPerDpu then .invalidProfile
      else if profile.sgXferEnabled then
        -- a new rank is zeroed, so that it has no buffers
        sgBufferPoolCreate profile.sgXferEnabled false false
      else .ok

end Answers

def dpuFreeRank (p : Process) (rank : Nat) : Process :=
  { p with released := p.released ++ [rank] }

/-- The label `error_free_ranks` of `dpu_alloc` and `free_ranks` of `dpu_alloc_ranks`. -/
def freeRanks (status : DpuError) (ranks : List Nat) (p : Process) : Outcome × Process :=
  (.error status, ranks.foldl dpuFreeRank p)

namespace Answers
variable (answers : Answers)

/-- What both functions do when the ranks are chosen. -/
def finishSet (ranks : List Nat) (p : Process) : Outcome × Process :=
  let (status, p) := answers.initDpuSet ranks p
  if status ≠ .ok then freeRanks status ranks p
  else
    let status := answers.initScatterGatherTransferBuffer
    if status ≠ .ok then freeRanks status ranks p else (.ok ranks, p)

/-- The loop of `dpu_alloc`, with the number of ranks that it may still take. -/
def allocLoop (nrDpus : Nat) (dispatchOnAllRanks : Bool) :
    Nat → Nat → List HeldRank → Nat → Process → DpuError × List HeldRank × Nat × Process
  | 0, _, currentRanks, currentNrOfDpus, p => (.ok, currentRanks, currentNrOfDpus, p)
  | left + 1, capacity, currentRanks, currentNrOfDpus, p =>
    let currentNrOfRanks := currentRanks.length
    if currentNrOfRanks = capacity ∧ answers.currentRanksGrown capacity = false then
      (.system, currentRanks, currentNrOfDpus, p)
    else
      let capacity := if currentNrOfRanks = capacity then 2 * capacity + 2 else capacity
      let number := p.acquired
      let (status, p) := answers.dpuGetRankOfType currentNrOfRanks p
      if status ≠ .ok then
        match endWithoutRank nrDpus dispatchOnAllRanks status (currentRanks.map HeldRank.rank) currentNrOfDpus with
        | .error status => (status, currentRanks, currentNrOfDpus, p)
        | .ok _ => (.ok, currentRanks, currentNrOfDpus, p)
      else
        let (status, nextRank) := (answers.handout currentNrOfRanks).reset
        let currentRanks := currentRanks ++ [⟨number, nextRank⟩]
        if status ≠ .ok then (status, currentRanks, currentNrOfDpus, p)
        else
          let currentNrOfDpus := currentNrOfDpus + getNrOfDpusInRank nextRank
          if left ≠ 0 ∧ (dispatchOnAllRanks = true ∨ currentNrOfDpus < nrDpus) then
            allocLoop nrDpus dispatchOnAllRanks left capacity currentRanks currentNrOfDpus p
          else (.ok, currentRanks, currentNrOfDpus, p)

def dpuAlloc (nrDpus : Nat) (p : Process) : Outcome × Process :=
  if nrDpus = 0 then (.error .allocation, p)
  else
    match answers.profile with
    | none => (.error .invalidProfile, p)
    | some profile =>
      let dispatchOnAllRanks := profile.dispatchOnAllRanks && decide (nrDpus ≠ DPU_ALLOCATE_ALL)
      let (status, currentRanks, currentNrOfDpus, p) := answers.allocLoop nrDpus dispatchOnAllRanks nrDpus 0 [] 0 p
      if status ≠ .ok then freeRanks status (currentRanks.map HeldRank.number) p
      else
        let nrDpus := if nrDpus = DPU_ALLOCATE_ALL then currentNrOfDpus else nrDpus
        match disableUnusedDpus answers.disableDpu currentNrOfDpus nrDpus (currentRanks.map HeldRank.rank) with
        | .failedAssertion => (.failedAssertion, p)
        | .error status => freeRanks status (currentRanks.map HeldRank.number) p
        | .ok _ => answers.finishSet (currentRanks.map HeldRank.number) p

/-- The loop of `dpu_alloc_ranks`, with the number of ranks that are left. The
label `free_ranks` frees the ranks before the one at which the loop stops. -/
def allocRanksLoop : Nat → List Nat → Process → DpuError × List Nat × Process
  | 0, ranks, p => (.ok, ranks, p)
  | left + 1, ranks, p =>
    let number := p.acquired
    let (status, p) := answers.dpuGetRankOfType ranks.length p
    if status ≠ .ok then (status, ranks, p)
    else
      let (status, _) := (answers.handout ranks.length).reset
      if status ≠ .ok then (status, ranks, p) else allocRanksLoop left (ranks ++ [number]) p

def dpuAllocRanks (nrRanks : Nat) (p : Process) : Outcome × Process :=
  if nrRanks = DPU_ALLOCATE_ALL then answers.dpuAlloc DPU_ALLOCATE_ALL p
  else if nrRanks = 0 then (.error .allocation, p)
  else if !answers.ranksAllocated then (.error .system, p)
  else
    let (status, ranks, p) := answers.allocRanksLoop nrRanks [] p
    if status ≠ .ok then freeRanks status ranks p else answers.finishSet ranks p

end Answers

/-- A call of one of the two allocation functions. -/
inductive Call
  | alloc (nrDpus : Nat)
  | allocRanks (nrRanks : Nat)

def Call.run (answers : Answers) : Call → Process → Outcome × Process
  | .alloc nrDpus => answers.dpuAlloc nrDpus
  | .allocRanks nrRanks => answers.dpuAllocRanks nrRanks

end Upmem.AllocCleanup
