import Mathlib.Logic.Function.Basic
import Mathlib.Data.List.Perm.Subperm
import Mathlib.Data.List.Count
import Mathlib.Data.List.Nodup
import Upmem.Lib.Transitions

namespace Upmem.XeonSpPools
open Transitions

/-- `DPU_XFER_THREAD_CONF_DEFAULT`. -/
def CONF_DEFAULT : Nat := 0xFFFFFFFF

def MAX_THREAD_PER_POOL : Nat := 8

def MAX_NB_CHANNEL : Nat := 31

/-- `dpu_transfer_thread_configuration`. -/
structure Conf where
  nbThreadPerPool : Nat
  threshold1Thread : Nat
  threshold2Threads : Nat
  threshold4Threads : Nat

def defaultConf : Conf := ⟨4, 1024, 2048, 32 * 1024⟩

/-- `xeon_sp_set_configuration`. -/
def xeonSpSetConfiguration (conf : Conf) : Conf where
  nbThreadPerPool :=
    if conf.nbThreadPerPool = CONF_DEFAULT then defaultConf.nbThreadPerPool
    else if MAX_THREAD_PER_POOL < conf.nbThreadPerPool then MAX_THREAD_PER_POOL
    else conf.nbThreadPerPool
  threshold1Thread := if conf.threshold1Thread = CONF_DEFAULT then defaultConf.threshold1Thread
    else conf.threshold1Thread
  threshold2Threads := if conf.threshold2Threads = CONF_DEFAULT then defaultConf.threshold2Threads
    else conf.threshold2Threads
  threshold4Threads := if conf.threshold4Threads = CONF_DEFAULT then defaultConf.threshold4Threads
    else conf.threshold4Threads

/-- The threads that `xeon_sp_init_and_do_xfer` asks for. -/
def threadsForXfer (conf : Conf) (sizeTransfer : Nat) : Nat :=
  if sizeTransfer < conf.threshold1Thread then 1
  else if sizeTransfer < conf.threshold2Threads ∧ 2 ≤ conf.nbThreadPerPool then 2
  else if sizeTransfer < conf.threshold4Threads ∧ 4 ≤ conf.nbThreadPerPool then 4
  else conf.nbThreadPerPool

/-- `channel_id_to_pool_id`. -/
def channelIdToPoolId (channelId : Nat) : Nat :=
  if channelId = 0xFF then MAX_NB_CHANNEL - 1 else channelId

/-- The mutex that `xeon_sp_acquire_pool` locks. -/
def channelMutex (channelId : Nat) : Nat :=
  if channelId < MAX_NB_CHANNEL then channelId else MAX_NB_CHANNEL - 1

/-- The channel that `xeon_sp_init_rank` and `xeon_sp_destroy_rank` count a rank for. -/
def countedChannel (channelId : Nat) : Nat :=
  if MAX_NB_CHANNEL < channelId then MAX_NB_CHANNEL - 1 else channelId

/-- A rank: its channel, the size of its control interfaces and the configuration that it is given. -/
structure Rank where
  channelId : Fin 256
  nrOfDpusPerControlInterface : Nat
  conf : Conf

/-- `xeon_sp_private`, whether its threads are there, which of them are done with
the transfer, and the lines that they have processed for it. -/
structure Pool (ρ : Type) where
  tr : Option ρ
  nbDpusPerCi : Nat
  nbThreadsForXfer : Nat
  nbThreads : Nat
  initialised : Bool
  done : List Nat
  lines : List (ρ × Nat)

/-- `thread_do_mram_xfer`: the lines that a thread of a pool processes. -/
def threadDoMramXfer {ρ : Type} (pool : Pool ρ) (threadId : Nat) : List (ρ × Nat) :=
  if ¬threadId < pool.nbThreadsForXfer then []
  else
    let nbDpusPerThread := pool.nbDpusPerCi / pool.nbThreadsForXfer
    let dpuIdStart := threadId * nbDpusPerThread
    let dpuIdStop :=
      if threadId = pool.nbThreadsForXfer - 1 then pool.nbDpusPerCi else (threadId + 1) * nbDpusPerThread
    (List.range' dpuIdStart (dpuIdStop - dpuIdStart)).flatMap fun line => pool.tr.toList.map fun tr => (tr, line)

/-- A transfer: its rank and its size. -/
structure Xfer (ρ : Type) where
  rank : ρ
  size : Nat

/-- How far a thread of the host is with its transfer. -/
inductive Stage
  | acquired | ready | woken | finished
  deriving DecidableEq

/-- `xeon_sp_ctx`, whether something outside of its arrays has been written, the configurations
of the ranks, the ranks that are initialised, and the transfers of the threads of the host. -/
structure Ctx (ρ τ : Type) where
  outside : Bool
  pool : Nat → Pool ρ
  channelsMutex : Nat → Option τ
  nbRegionPerChannel : Nat → Nat
  conf : ρ → Conf
  live : List ρ
  xfer : τ → Option (Stage × Xfer ρ)

section Pools
variable {ρ τ : Type}

/-- The pool of a rank's transfers. -/
def Rank.poolId (rank : Rank) : Nat := channelIdToPoolId rank.channelId

def Rank.counted (rank : Rank) : Nat := countedChannel rank.channelId

def Rank.mutex (rank : Rank) : Nat := channelMutex rank.channelId

def Pool.empty : Pool ρ := ⟨none, 0, 0, 0, false, [], []⟩

def Ctx.start (ranks : ρ → Rank) : Ctx ρ τ where
  outside := false
  pool _ := .empty
  channelsMutex _ := none
  nbRegionPerChannel _ := 0
  conf r := (ranks r).conf
  live := []
  xfer _ := none

inductive Action (ρ τ : Type)
  | initRank (rank : ρ)
  | destroyRank (rank : ρ)
  | acquire (thread : τ) (xfer : Xfer ρ)
  | setUp (thread : τ)
  | wake (thread : τ)
  | work (thread : τ) (threadId : Nat)
  | finish (thread : τ)
  | release (thread : τ)

/-- The thread of the host that does a step. -/
def Action.thread : Action ρ τ → Option τ
  | .initRank _ | .destroyRank _ => none
  | .acquire thread _ | .setUp thread | .wake thread | .work thread _ | .finish thread | .release thread =>
    some thread

variable [DecidableEq ρ] [DecidableEq τ]

def Ctx.setPool (s : Ctx ρ τ) (i : Nat) (pool : Pool ρ) : Ctx ρ τ :=
  { s with pool := Function.update s.pool i pool }

def Ctx.setXfer (s : Ctx ρ τ) (thread : τ) (xfer : Option (Stage × Xfer ρ)) : Ctx ρ τ :=
  { s with xfer := Function.update s.xfer thread xfer }

/-- `xeon_sp_init_rank`. -/
def xeonSpInitRank (ranks : ρ → Rank) (s : Ctx ρ τ) (rank : ρ) : Ctx ρ τ :=
  let conf := xeonSpSetConfiguration (s.conf rank)
  let channelId := (ranks rank).counted
  let counted := { s with
    outside := s.outside || decide (MAX_NB_CHANNEL ≤ channelId)
    conf := Function.update s.conf rank conf
    nbRegionPerChannel := Function.update s.nbRegionPerChannel channelId (s.nbRegionPerChannel channelId + 1)
    live := rank :: s.live }
  if 0 < s.nbRegionPerChannel channelId then counted
  else
    let poolId := channelIdToPoolId channelId
    counted.setPool poolId { s.pool poolId with
      nbDpusPerCi := (ranks rank).nrOfDpusPerControlInterface
      nbThreads := conf.nbThreadPerPool
      initialised := true
      done := [] }

/-- `xeon_sp_destroy_rank`. -/
def xeonSpDestroyRank (ranks : ρ → Rank) (s : Ctx ρ τ) (rank : ρ) : Ctx ρ τ :=
  let channelId := (ranks rank).counted
  let counted := { s with
    outside := s.outside || decide (MAX_NB_CHANNEL ≤ channelId)
    conf := Function.update s.conf rank (xeonSpSetConfiguration (s.conf rank))
    nbRegionPerChannel := Function.update s.nbRegionPerChannel channelId (s.nbRegionPerChannel channelId - 1)
    live := s.live.erase rank }
  if s.nbRegionPerChannel channelId - 1 ≠ 0 then counted
  else
    let poolId := channelIdToPoolId channelId
    counted.setPool poolId { s.pool poolId with initialised := false }

/-- The fields that `xeon_sp_init_and_do_xfer` sets. -/
def Pool.setUp (pool : Pool ρ) (conf : Conf) (xfer : Xfer ρ) : Pool ρ :=
  { pool with tr := some xfer.rank, nbThreadsForXfer := threadsForXfer conf xfer.size }

/-- A thread of the pool does its part. -/
def Pool.work (pool : Pool ρ) (threadId : Nat) : Pool ρ :=
  { pool with done := pool.done ++ [threadId], lines := pool.lines ++ threadDoMramXfer pool threadId }

/-- One step of `xeon_sp_init_rank` or `xeon_sp_destroy_rank` of a rank that has no transfer, which hold
the mutex of the context all along, of a transfer on a rank that is initialised, or of a thread of a pool.
The two barriers wait for all threads of the pool. -/
inductive Step (ranks : ρ → Rank) : Ctx ρ τ → Action ρ τ → Ctx ρ τ → Prop
  | initRank {s rank} : rank ∉ s.live → Step ranks s (.initRank rank) (xeonSpInitRank ranks s rank)
  | destroyRank {s rank} : rank ∈ s.live → (∀ thread stage xfer, s.xfer thread = some (stage, xfer) →
      xfer.rank ≠ rank) →
      Step ranks s (.destroyRank rank) (xeonSpDestroyRank ranks s rank)
  | acquire {s thread xfer} : s.xfer thread = none → xfer.rank ∈ s.live →
      s.channelsMutex (ranks xfer.rank).mutex = none →
      Step ranks s (.acquire thread xfer) { s.setXfer thread (some (.acquired, xfer)) with
        channelsMutex := Function.update s.channelsMutex (ranks xfer.rank).mutex (some thread) }
  | setUp {s thread xfer} : s.xfer thread = some (.acquired, xfer) →
      Step ranks s (.setUp thread) ((s.setPool (ranks xfer.rank).poolId
        ((s.pool (ranks xfer.rank).poolId).setUp (s.conf xfer.rank) xfer)).setXfer thread (some (.ready, xfer)))
  | wake {s thread xfer} : s.xfer thread = some (.ready, xfer) →
      Step ranks s (.wake thread) ((s.setPool (ranks xfer.rank).poolId
        { s.pool (ranks xfer.rank).poolId with done := [], lines := [] }).setXfer thread (some (.woken, xfer)))
  | work {s thread xfer threadId} : s.xfer thread = some (.woken, xfer) →
      threadId < (s.pool (ranks xfer.rank).poolId).nbThreads → threadId ∉ (s.pool (ranks xfer.rank).poolId).done →
      Step ranks s (.work thread threadId) (s.setPool (ranks xfer.rank).poolId
        ((s.pool (ranks xfer.rank).poolId).work threadId))
  | finish {s thread xfer} : s.xfer thread = some (.woken, xfer) →
      (∀ threadId < (s.pool (ranks xfer.rank).poolId).nbThreads,
        threadId ∈ (s.pool (ranks xfer.rank).poolId).done) →
      Step ranks s (.finish thread) (s.setXfer thread (some (.finished, xfer)))
  | release {s thread xfer} : s.xfer thread = some (.finished, xfer) →
      Step ranks s (.release thread) { s.setXfer thread none with
        channelsMutex := Function.update s.channelsMutex (ranks xfer.rank).mutex none }

/-- Each transfer has a pool of its own, that is there and whose threads have processed
each line of its rank once. -/
structure Right (ranks : ρ → Rank) (s : Ctx ρ τ) : Prop where
  inside : s.outside = false
  alone : ∀ thread thread' stage xfer stage' xfer', s.xfer thread = some (stage, xfer) →
    s.xfer thread' = some (stage', xfer') → (ranks xfer.rank).poolId = (ranks xfer'.rank).poolId → thread = thread'
  initialised : ∀ thread stage xfer, s.xfer thread = some (stage, xfer) →
    (ranks xfer.rank).poolId < MAX_NB_CHANNEL ∧ (s.pool (ranks xfer.rank).poolId).initialised = true
  lines : ∀ thread xfer, s.xfer thread = some (.finished, xfer) →
    (s.pool (ranks xfer.rank).poolId).lines.Perm
      ((List.range (ranks xfer.rank).nrOfDpusPerControlInterface).map fun line => (xfer.rank, line))

/-- The lines that the threads of a pool process. -/
def Pool.covered (pool : Pool ρ) (nbThreadsForXfer : Nat) : Nat :=
  if nbThreadsForXfer ≤ pool.nbThreads then pool.nbDpusPerCi
  else pool.nbThreads * (pool.nbDpusPerCi / nbThreadsForXfer)

/-- The condition: no rank is on the channel 31, a transfer is on a channel that has a pool, and the
threads of the pool, that another rank may have made, cover the lines of its rank. -/
def Covers (ranks : ρ → Rank) (τ' : Transition (Ctx ρ τ) (Action ρ τ)) : Prop :=
  (∀ rank, τ'.action = .initRank rank ∨ τ'.action = .destroyRank rank →
    ((ranks rank).channelId : Nat) ≠ MAX_NB_CHANNEL) ∧
  (∀ thread xfer, τ'.action = .acquire thread xfer →
    ((ranks xfer.rank).channelId : Nat) < MAX_NB_CHANNEL ∨ ((ranks xfer.rank).channelId : Nat) = 0xFF) ∧
  ∀ thread, τ'.action = .finish thread → ∀ xfer, τ'.before.xfer thread = some (.woken, xfer) →
    (τ'.before.pool (ranks xfer.rank).poolId).covered
      (threadsForXfer (τ'.before.conf xfer.rank) xfer.size) = (ranks xfer.rank).nrOfDpusPerControlInterface

section Channels
variable {rank rank' : Rank}

theorem max_nb_channel : MAX_NB_CHANNEL = 31 := rfl

theorem counted_le (rank : Rank) : rank.counted ≤ MAX_NB_CHANNEL := by
  simp only [Rank.counted, countedChannel]
  split <;> omega

/-- Channels with one pool have one mutex. -/
theorem mutex_of_poolId (same : rank.poolId = rank'.poolId) : rank.mutex = rank'.mutex := by
  have max := max_nb_channel
  simp only [Rank.poolId, Rank.mutex, channelIdToPoolId, channelMutex] at same ⊢
  split at same <;> split at same <;> split <;> split <;> omega

theorem poolId_of_counted (rank : Rank) : channelIdToPoolId rank.counted = rank.counted := by
  have max := max_nb_channel
  have below := counted_le rank
  rw [channelIdToPoolId, if_neg (by omega)]

/-- A rank whose transfers use a pool that some rank makes is counted for it. -/
theorem counted_of_poolId_le (below : rank.poolId ≤ MAX_NB_CHANNEL) : rank.counted = rank.poolId := by
  have max := max_nb_channel
  simp only [Rank.poolId, Rank.counted, channelIdToPoolId, countedChannel] at below ⊢
  split at below <;> split <;> omega

theorem poolId_lt_iff : rank.poolId < MAX_NB_CHANNEL ↔
    (rank.channelId : Nat) < MAX_NB_CHANNEL ∨ (rank.channelId : Nat) = 0xFF := by
  have max := max_nb_channel
  simp only [Rank.poolId, channelIdToPoolId]
  split <;> omega

theorem counted_lt_iff : rank.counted < MAX_NB_CHANNEL ↔ (rank.channelId : Nat) ≠ MAX_NB_CHANNEL := by
  have max := max_nb_channel
  simp only [Rank.counted, countedChannel]
  split <;> omega

end Channels

section Lines
variable {pool : Pool ρ} {rank : ρ}

/-- The intervals of the first threads, one after the other. -/
theorem flatMap_range (per count : Nat) :
    (List.range count).flatMap (fun k => List.range' (k * per) ((k + 1) * per - k * per)) =
      List.range (count * per) := by
  induction count with
  | zero => simp
  | succ count ih =>
    have part : (count + 1) * per - count * per = per := by rw [Nat.succ_mul, Nat.add_sub_cancel_left]
    have next : List.range (count * per) ++ List.range' (count * per) per = List.range (count * per + per) := by
      rw [List.range_eq_range', List.range_eq_range', ← @List.range'_append_1 0 (count * per) per, Nat.zero_add]
    rw [List.range_succ, List.flatMap_append, ih, List.flatMap_singleton, part, next, Nat.succ_mul]

theorem flatMap_append_nil {α β : Type} {l l' : List α} {f : α → List β} (nil : ∀ x ∈ l', f x = []) :
    (l ++ l').flatMap f = l.flatMap f := by
  rw [List.flatMap_append, List.flatMap_eq_nil_iff.mpr nil, List.append_nil]

/-- The interval of a thread. -/
def Pool.interval (pool : Pool ρ) (threadId : Nat) : List Nat :=
  let per := pool.nbDpusPerCi / pool.nbThreadsForXfer
  if threadId < pool.nbThreadsForXfer then
    List.range' (threadId * per)
      ((if threadId = pool.nbThreadsForXfer - 1 then pool.nbDpusPerCi else (threadId + 1) * per) - threadId * per)
  else []

omit [DecidableEq ρ] in
theorem threadDoMramXfer_eq (tr : pool.tr = some rank) (threadId : Nat) :
    threadDoMramXfer pool threadId = (pool.interval threadId).map fun line => (rank, line) := by
  rw [threadDoMramXfer, Pool.interval, tr]
  by_cases takes : threadId < pool.nbThreadsForXfer
  · simp only [takes, not_true_eq_false, if_false, if_true]
    exact List.map_eq_flatMap.symm
  · simp [takes]

omit [DecidableEq ρ] in
/-- The intervals of the threads that have the same number of lines. -/
theorem flatMap_interval {count : Nat} (below : count < pool.nbThreadsForXfer) :
    (List.range count).flatMap pool.interval =
      List.range (count * (pool.nbDpusPerCi / pool.nbThreadsForXfer)) := by
  rw [← flatMap_range]
  refine List.flatMap_congr fun threadId member => ?_
  have inside := List.mem_range.mp member
  simp only [Pool.interval]
  rw [if_pos (by omega), if_neg (by omega)]

omit [DecidableEq ρ] in
/-- The lines of all threads of a pool, in their order. -/
theorem flatMap_threadDoMramXfer (tr : pool.tr = some rank) (positive : 1 ≤ pool.nbThreadsForXfer) :
    (List.range pool.nbThreads).flatMap (threadDoMramXfer pool) =
      (List.range (pool.covered pool.nbThreadsForXfer)).map fun line => (rank, line) := by
  rw [show threadDoMramXfer pool = fun k => (pool.interval k).map fun line => (rank, line) from
    funext (threadDoMramXfer_eq tr), ← List.map_flatMap]
  congr 1
  rw [Pool.covered]
  by_cases enough : pool.nbThreadsForXfer ≤ pool.nbThreads
  · obtain ⟨count, threads⟩ := Nat.exists_eq_add_of_le' positive
    obtain ⟨rest, split⟩ := Nat.exists_eq_add_of_le enough
    have lines : count * (pool.nbDpusPerCi / pool.nbThreadsForXfer) ≤ pool.nbDpusPerCi :=
      Nat.le_trans (Nat.mul_le_mul_right _ (show count ≤ pool.nbThreadsForXfer by omega)) (Nat.mul_div_le _ _)
    have last : pool.interval count = List.range' (count * (pool.nbDpusPerCi / pool.nbThreadsForXfer))
        (pool.nbDpusPerCi - count * (pool.nbDpusPerCi / pool.nbThreadsForXfer)) := by
      simp only [Pool.interval]
      rw [if_pos (by omega), if_pos (by omega)]
    rw [if_pos enough, split, List.range_add, flatMap_append_nil, threads, List.range_succ, List.flatMap_append,
      flatMap_interval (by omega), List.flatMap_singleton, last, List.range_eq_range', List.range_eq_range']
    · have all := @List.range'_append_1 0 (count * (pool.nbDpusPerCi / pool.nbThreadsForXfer))
        (pool.nbDpusPerCi - count * (pool.nbDpusPerCi / pool.nbThreadsForXfer))
      rwa [Nat.zero_add, Nat.add_sub_cancel' lines] at all
    · intro threadId member
      obtain ⟨k, _, rfl⟩ := List.mem_map.mp member
      simp only [Pool.interval]
      exact if_neg (by omega)
  · rw [if_neg enough, flatMap_interval (by omega)]

end Lines

section Invariant
variable {ranks : ρ → Rank} {s t : Ctx ρ τ} {thread : τ} {stage : Stage} {xfer : Xfer ρ}

/-- A transfer that has its mutex. -/
structure Underway (ranks : ρ → Rank) (s : Ctx ρ τ) (thread : τ) (stage : Stage) (xfer : Xfer ρ) : Prop where
  owner : s.channelsMutex (ranks xfer.rank).mutex = some thread
  live : xfer.rank ∈ s.live
  ready : stage ≠ .acquired → (s.pool (ranks xfer.rank).poolId).tr = some xfer.rank ∧
    (s.pool (ranks xfer.rank).poolId).nbThreadsForXfer = threadsForXfer (s.conf xfer.rank) xfer.size
  woken : stage = .woken ∨ stage = .finished → (s.pool (ranks xfer.rank).poolId).done.Nodup ∧
    (∀ threadId ∈ (s.pool (ranks xfer.rank).poolId).done, threadId < (s.pool (ranks xfer.rank).poolId).nbThreads) ∧
    (s.pool (ranks xfer.rank).poolId).lines =
      (s.pool (ranks xfer.rank).poolId).done.flatMap (threadDoMramXfer (s.pool (ranks xfer.rank).poolId))
  finished : stage = .finished → ∀ threadId < (s.pool (ranks xfer.rank).poolId).nbThreads,
    threadId ∈ (s.pool (ranks xfer.rank).poolId).done

/-- What the code keeps whatever the ranks are. -/
structure Kept (ranks : ρ → Rank) (s : Ctx ρ τ) : Prop where
  counts : ∀ c, s.nbRegionPerChannel c = s.live.countP fun r => (ranks r).counted = c
  nodup : s.live.Nodup
  pools : ∀ r ∈ s.live, (s.pool (ranks r).counted).initialised = true
  confs : ∀ r, 1 ≤ (s.conf r).nbThreadPerPool
  underway : ∀ thread stage xfer, s.xfer thread = some (stage, xfer) → Underway ranks s thread stage xfer

theorem one_le_setConfiguration {conf : Conf} (positive : 1 ≤ conf.nbThreadPerPool) :
    1 ≤ (xeonSpSetConfiguration conf).nbThreadPerPool := by
  have default : defaultConf.nbThreadPerPool = 4 := rfl
  have max : MAX_THREAD_PER_POOL = 8 := rfl
  simp only [xeonSpSetConfiguration]
  split
  · omega
  · split <;> omega

theorem one_le_threadsForXfer {conf : Conf} (positive : 1 ≤ conf.nbThreadPerPool) (size : Nat) :
    1 ≤ threadsForXfer conf size := by
  rw [threadsForXfer]
  split
  · decide
  · split
    · decide
    · split
      · decide
      · exact positive

omit [DecidableEq ρ] [DecidableEq τ] in
/-- A step that changes neither the pool of a transfer nor what it knows of its rank. -/
theorem Underway.frame (underway : Underway ranks s thread stage xfer)
    (owner : t.channelsMutex (ranks xfer.rank).mutex = s.channelsMutex (ranks xfer.rank).mutex)
    (live : xfer.rank ∈ t.live) (pool : t.pool (ranks xfer.rank).poolId = s.pool (ranks xfer.rank).poolId)
    (conf : t.conf xfer.rank = s.conf xfer.rank) : Underway ranks t thread stage xfer where
  owner := owner.trans underway.owner
  live := live
  ready := by
    rw [pool, conf]
    exact underway.ready
  woken := by
    rw [pool]
    exact underway.woken
  finished := by
    rw [pool]
    exact underway.finished

omit [DecidableEq ρ] [DecidableEq τ] in
/-- A live rank is counted on its channel. -/
theorem Kept.counted_pos (kept : Kept ranks s) {r : ρ} (live : r ∈ s.live) :
    0 < s.nbRegionPerChannel (ranks r).counted := by
  rw [kept.counts]
  exact List.countP_pos_iff.mpr ⟨r, live, by simp⟩

omit [DecidableEq ρ] [DecidableEq τ] in
/-- Two transfers with one pool are one. -/
theorem Kept.alone (kept : Kept ranks s) {thread' : τ} {stage' : Stage} {xfer' : Xfer ρ}
    (first : s.xfer thread = some (stage, xfer)) (second : s.xfer thread' = some (stage', xfer'))
    (same : (ranks xfer.rank).poolId = (ranks xfer'.rank).poolId) : thread = thread' := by
  have owner := (kept.underway thread stage xfer first).owner
  rw [mutex_of_poolId same, (kept.underway thread' stage' xfer' second).owner] at owner
  exact (Option.some.inj owner).symm

omit [DecidableEq τ] in
/-- A rank that is initialised disturbs no transfer. -/
theorem Underway.initRank (kept : Kept ranks s) (underway : Underway ranks s thread stage xfer) {rank : ρ}
    (new : rank ∉ s.live) :
    (xeonSpInitRank ranks s rank).pool (ranks xfer.rank).poolId = s.pool (ranks xfer.rank).poolId ∧
      (xeonSpInitRank ranks s rank).conf xfer.rank = s.conf xfer.rank := by
  have conf : Function.update s.conf rank (xeonSpSetConfiguration (s.conf rank)) xfer.rank = s.conf xfer.rank :=
    Function.update_of_ne (fun same : xfer.rank = rank => new (same ▸ underway.live)) _ _
  rw [xeonSpInitRank]
  by_cases counted : 0 < s.nbRegionPerChannel (ranks rank).counted
  · simp only [if_pos counted, true_and]
    exact conf
  · simp only [if_neg counted]
    rw [poolId_of_counted]
    refine ⟨Function.update_of_ne (fun same => counted ?_) _ _, conf⟩
    have own := counted_of_poolId_le (Nat.le_trans (Nat.le_of_eq same) (counted_le _))
    rw [← same, ← own]
    exact kept.counted_pos underway.live

omit [DecidableEq τ] in
theorem Kept.confs_set (kept : Kept ranks s) (rank r : ρ) :
    1 ≤ (Function.update s.conf rank (xeonSpSetConfiguration (s.conf rank)) r).nbThreadPerPool := by
  by_cases same : r = rank
  · subst same
    rw [Function.update_self]
    exact one_le_setConfiguration (kept.confs r)
  · rw [Function.update_of_ne same]
    exact kept.confs r

omit [DecidableEq τ] in
theorem Kept.initRank (kept : Kept ranks s) {rank : ρ} (new : rank ∉ s.live) :
    Kept ranks (xeonSpInitRank ranks s rank) := by
  have counts (c : Nat) : Function.update s.nbRegionPerChannel (ranks rank).counted
      (s.nbRegionPerChannel (ranks rank).counted + 1) c =
        (rank :: s.live).countP fun r => (ranks r).counted = c := by
    rw [List.countP_cons, ← kept.counts]
    by_cases same : c = (ranks rank).counted
    · subst same
      simp
    · simp [same, Ne.symm same]
  have nodup : (rank :: s.live).Nodup := List.nodup_cons.mpr ⟨new, kept.nodup⟩
  have confs := kept.confs_set rank
  have underway (thread : τ) (stage : Stage) (xfer : Xfer ρ) (before : s.xfer thread = some (stage, xfer)) :
      Underway ranks (xeonSpInitRank ranks s rank) thread stage xfer := by
    have here := kept.underway thread stage xfer before
    obtain ⟨pool, conf⟩ := here.initRank kept new
    refine here.frame ?_ ?_ pool conf
    · rw [xeonSpInitRank]
      split <;> rfl
    · rw [xeonSpInitRank]
      split <;> exact List.mem_cons_of_mem _ here.live
  rw [xeonSpInitRank] at underway ⊢
  by_cases counted : 0 < s.nbRegionPerChannel (ranks rank).counted
  · simp only [if_pos counted] at underway ⊢
    refine ⟨counts, nodup, fun r live => ?_, confs, underway⟩
    rcases List.mem_cons.mp live with rfl | old
    · rw [kept.counts] at counted
      obtain ⟨other, live', same⟩ := List.countP_pos_iff.mp counted
      rw [← of_decide_eq_true same]
      exact kept.pools other live'
    · exact kept.pools r old
  · simp only [if_neg counted] at underway ⊢
    rw [poolId_of_counted] at underway ⊢
    refine ⟨counts, nodup, fun r live => ?_, confs, underway⟩
    simp only [Ctx.setPool]
    by_cases same : (ranks r).counted = (ranks rank).counted
    · rw [same, Function.update_self]
    · rw [Function.update_of_ne same]
      rcases List.mem_cons.mp live with rfl | old
      · exact absurd rfl same
      · exact kept.pools r old

omit [DecidableEq τ] in
theorem Kept.counts_erase (kept : Kept ranks s) {rank : ρ} (live : rank ∈ s.live) (c : Nat) :
    Function.update s.nbRegionPerChannel (ranks rank).counted (s.nbRegionPerChannel (ranks rank).counted - 1) c =
      (s.live.erase rank).countP fun r => (ranks r).counted = c := by
  rw [List.countP_erase]
  by_cases same : c = (ranks rank).counted
  · subst same
    simp [live, kept.counts]
  · simp [same, Ne.symm same, kept.counts]

omit [DecidableEq τ] in
/-- The other live ranks of a channel are still counted. -/
theorem Kept.still_counted (kept : Kept ranks s) {rank r : ρ} (live : rank ∈ s.live)
    (member : r ∈ s.live.erase rank)
    (same : (ranks r).counted = (ranks rank).counted) : s.nbRegionPerChannel (ranks rank).counted - 1 ≠ 0 := by
  have count := kept.counts_erase live (ranks rank).counted
  rw [Function.update_self] at count
  rw [count]
  exact Nat.ne_of_gt (List.countP_pos_iff.mpr ⟨r, member, decide_eq_true same⟩)

omit [DecidableEq τ] in
/-- A rank that is destroyed disturbs no transfer of another one. -/
theorem Underway.destroyRank (kept : Kept ranks s) (underway : Underway ranks s thread stage xfer) {rank : ρ}
    (live : rank ∈ s.live) (other : xfer.rank ≠ rank) :
    (xeonSpDestroyRank ranks s rank).pool (ranks xfer.rank).poolId = s.pool (ranks xfer.rank).poolId ∧
      (xeonSpDestroyRank ranks s rank).conf xfer.rank = s.conf xfer.rank := by
  have conf : Function.update s.conf rank (xeonSpSetConfiguration (s.conf rank)) xfer.rank = s.conf xfer.rank :=
    Function.update_of_ne other _ _
  rw [xeonSpDestroyRank]
  by_cases last : s.nbRegionPerChannel (ranks rank).counted - 1 ≠ 0
  · simp only [if_pos last, true_and]
    exact conf
  · simp only [if_neg last]
    rw [poolId_of_counted]
    refine ⟨Function.update_of_ne (fun same => last ?_) _ _, conf⟩
    have own := counted_of_poolId_le (Nat.le_trans (Nat.le_of_eq same) (counted_le _))
    exact kept.still_counted live ((List.mem_erase_of_ne other).mpr underway.live) (own.trans same)

omit [DecidableEq τ] in
theorem Kept.destroyRank (kept : Kept ranks s) {rank : ρ} (live : rank ∈ s.live)
    (unused : ∀ thread stage xfer, s.xfer thread = some (stage, xfer) → xfer.rank ≠ rank) :
    Kept ranks (xeonSpDestroyRank ranks s rank) := by
  have counts := kept.counts_erase live
  have nodup : (s.live.erase rank).Nodup := kept.nodup.erase rank
  have confs := kept.confs_set rank
  have underway (thread : τ) (stage : Stage) (xfer : Xfer ρ) (before : s.xfer thread = some (stage, xfer)) :
      Underway ranks (xeonSpDestroyRank ranks s rank) thread stage xfer := by
    have here := kept.underway thread stage xfer before
    have other := unused thread stage xfer before
    obtain ⟨pool, conf⟩ := here.destroyRank kept live other
    refine here.frame ?_ ?_ pool conf
    · rw [xeonSpDestroyRank]
      split <;> rfl
    · rw [xeonSpDestroyRank]
      split <;> exact (List.mem_erase_of_ne other).mpr here.live
  rw [xeonSpDestroyRank] at underway ⊢
  by_cases last : s.nbRegionPerChannel (ranks rank).counted - 1 ≠ 0
  · simp only [if_pos last] at underway ⊢
    exact ⟨counts, nodup, fun r member => kept.pools r (List.mem_of_mem_erase member), confs, underway⟩
  · simp only [if_neg last] at underway ⊢
    rw [poolId_of_counted] at underway ⊢
    refine ⟨counts, nodup, fun r member => ?_, confs, underway⟩
    have other : (ranks r).counted ≠ (ranks rank).counted := fun same => last (kept.still_counted live member same)
    exact (congrArg Pool.initialised (Function.update_of_ne other _ _)).trans
      (kept.pools r (List.mem_of_mem_erase member))

omit [DecidableEq ρ] in
/-- A transfer, or a thread of its pool, has done a step. -/
theorem Kept.of_transfer (kept : Kept ranks s) (before : s.xfer thread = some (stage, xfer))
    {stage' : Stage} {pool : Pool ρ}
    (xfers : t.xfer = Function.update s.xfer thread (some (stage', xfer)))
    (pools : t.pool = Function.update s.pool (ranks xfer.rank).poolId pool)
    (initialised : pool.initialised = (s.pool (ranks xfer.rank).poolId).initialised)
    (same : t.channelsMutex = s.channelsMutex ∧ t.nbRegionPerChannel = s.nbRegionPerChannel ∧
      t.conf = s.conf ∧ t.live = s.live)
    (after : Underway ranks t thread stage' xfer) : Kept ranks t := by
  obtain ⟨mutexes, regions, conf, live⟩ := same
  refine ⟨?_, ?_, fun r member => ?_, ?_, fun thread' stage'' xfer' underway => ?_⟩
  · rw [regions, live]
    exact kept.counts
  · rw [live]
    exact kept.nodup
  · rw [live] at member
    rw [pools]
    by_cases here : (ranks r).counted = (ranks xfer.rank).poolId
    · rw [here, Function.update_self, initialised, ← here]
      exact kept.pools r member
    · rw [Function.update_of_ne here]
      exact kept.pools r member
  · rw [conf]
    exact kept.confs
  · rw [xfers] at underway
    by_cases self : thread' = thread
    · subst self
      rw [Function.update_self] at underway
      cases underway
      exact after
    · rw [Function.update_of_ne self] at underway
      have there := kept.underway thread' stage'' xfer' underway
      refine there.frame (congrFun mutexes _) (live ▸ there.live) ?_ (congrFun conf _)
      rw [pools]
      exact Function.update_of_ne (fun same => self (kept.alone underway before same)) _ _

omit [DecidableEq ρ] in
theorem Kept.acquire (kept : Kept ranks s) (idle : s.xfer thread = none) (live : xfer.rank ∈ s.live)
    (free : s.channelsMutex (ranks xfer.rank).mutex = none) :
    Kept ranks { s.setXfer thread (some (.acquired, xfer)) with
      channelsMutex := Function.update s.channelsMutex (ranks xfer.rank).mutex (some thread) } := by
  refine ⟨kept.counts, kept.nodup, kept.pools, kept.confs, fun thread' stage' xfer' underway => ?_⟩
  simp only [Ctx.setXfer] at underway
  by_cases self : thread' = thread
  · subst self
    rw [Function.update_self] at underway
    cases underway
    refine ⟨Function.update_self _ _ _, live,
      fun same => absurd rfl same, fun either => ?_, fun same => nomatch same⟩
    exact either.elim (fun same => nomatch same) fun same => nomatch same
  · rw [Function.update_of_ne self] at underway
    have there := kept.underway thread' stage' xfer' underway
    refine there.frame (Function.update_of_ne (fun same => ?_) _ _) there.live rfl rfl
    rw [← same, there.owner] at free
    cases free

omit [DecidableEq ρ] in
theorem Kept.release (kept : Kept ranks s) (before : s.xfer thread = some (stage, xfer)) :
    Kept ranks { s.setXfer thread none with
      channelsMutex := Function.update s.channelsMutex (ranks xfer.rank).mutex none } := by
  refine ⟨kept.counts, kept.nodup, kept.pools, kept.confs, fun thread' stage' xfer' underway => ?_⟩
  simp only [Ctx.setXfer] at underway
  by_cases self : thread' = thread
  · subst self
    rw [Function.update_self] at underway
    cases underway
  · rw [Function.update_of_ne self] at underway
    have there := kept.underway thread' stage' xfer' underway
    refine there.frame (Function.update_of_ne (fun same => self ?_) _ _) there.live rfl rfl
    have owner := there.owner
    rw [same, (kept.underway thread stage xfer before).owner] at owner
    exact (Option.some.inj owner).symm

omit [DecidableEq ρ] [DecidableEq τ] in
theorem threadDoMramXfer_congr {pool pool' : Pool ρ} (tr : pool'.tr = pool.tr)
    (dpus : pool'.nbDpusPerCi = pool.nbDpusPerCi)
    (threads : pool'.nbThreadsForXfer = pool.nbThreadsForXfer) :
    threadDoMramXfer pool' = threadDoMramXfer pool := by
  funext threadId
  rw [threadDoMramXfer, threadDoMramXfer, tr, dpus, threads]

theorem Kept.step {a : Action ρ τ} (kept : Kept ranks s) (step : Step ranks s a t) : Kept ranks t := by
  cases step with
  | initRank new => exact kept.initRank new
  | destroyRank live unused => exact kept.destroyRank live unused
  | acquire idle live free => exact kept.acquire idle live free
  | release before => exact kept.release before
  | @setUp thread xfer before =>
    have here := kept.underway thread _ xfer before
    refine kept.of_transfer before rfl rfl rfl ⟨rfl, rfl, rfl, rfl⟩
      ⟨here.owner, here.live, fun _ => ?_, fun either => ?_,
      fun same => nomatch same⟩
    · simp [Ctx.setXfer, Ctx.setPool, Pool.setUp]
    · exact either.elim (fun same => nomatch same) fun same => nomatch same
  | @wake thread xfer before =>
    have here := kept.underway thread _ xfer before
    have ready := here.ready (by decide)
    refine kept.of_transfer before rfl rfl rfl ⟨rfl, rfl, rfl, rfl⟩
      ⟨here.owner, here.live, fun _ => ?_, fun _ => ?_,
      fun same => nomatch same⟩
    · simpa [Ctx.setXfer, Ctx.setPool] using ready
    · simp [Ctx.setXfer, Ctx.setPool]
  | @work thread xfer threadId before below new =>
    have here := kept.underway thread _ xfer before
    have ready := here.ready (by decide)
    obtain ⟨nodup, inside, lines⟩ := here.woken (Or.inl rfl)
    refine kept.of_transfer before
      (Function.update_eq_self_iff.mpr before.symm).symm rfl rfl ⟨rfl, rfl, rfl, rfl⟩
      ⟨here.owner, here.live, fun _ => ?_, fun _ => ?_, fun same => nomatch same⟩
    · simpa [Ctx.setPool, Pool.work] using ready
    · have same : threadDoMramXfer ((s.pool (ranks xfer.rank).poolId).work threadId) =
          threadDoMramXfer (s.pool (ranks xfer.rank).poolId) := threadDoMramXfer_congr rfl rfl rfl
      simp only [Ctx.setPool, Function.update_self, same]
      refine ⟨?_, fun other member => ?_, ?_⟩
      · exact List.nodup_append.mpr ⟨nodup, List.nodup_singleton _, fun first member second only eq =>
          new (List.mem_singleton.mp only ▸ eq ▸ member)⟩
      · rcases List.mem_append.mp member with old | only
        · exact inside other old
        · rw [List.mem_singleton.mp only]
          exact below
      · simp only [Pool.work, lines, List.flatMap_append, List.flatMap_singleton]
  | @finish thread xfer before all =>
    have here := kept.underway thread _ xfer before
    have ready := here.ready (by decide)
    refine kept.of_transfer before rfl (Function.update_eq_self _ _).symm rfl ⟨rfl, rfl, rfl, rfl⟩
      ⟨here.owner, here.live, fun _ => ready, fun _ => here.woken (Or.inl rfl), fun _ => all⟩

/-- A step of another thread, or of a rank, does not disturb a transfer. -/
theorem Kept.step_others {a : Action ρ τ} (kept : Kept ranks s) (step : Step ranks s a t)
    (other : a.thread ≠ some thread) : t.xfer thread = s.xfer thread ∧ ∀ stage xfer,
      s.xfer thread = some (stage, xfer) →
      t.pool (ranks xfer.rank).poolId = s.pool (ranks xfer.rank).poolId ∧ t.conf xfer.rank = s.conf xfer.rank := by
  have apart {stage stage' : Stage} {thread' : τ} {xfer xfer' : Xfer ρ} (ne : some thread' ≠ some thread)
      (here : s.xfer thread = some (stage, xfer)) (there : s.xfer thread' = some (stage', xfer')) :
      (ranks xfer.rank).poolId ≠ (ranks xfer'.rank).poolId :=
    fun same => ne (congrArg some (kept.alone here there same).symm)
  have ne {thread' : τ} (different : some thread' ≠ some thread) : thread ≠ thread' :=
    fun same => different (congrArg some same.symm)
  cases step with
  | @initRank rank new =>
    refine ⟨?_, fun stage xfer underway => (kept.underway thread stage xfer underway).initRank kept new⟩
    rw [xeonSpInitRank]
    split <;> rfl
  | @destroyRank rank live unused =>
    refine ⟨?_, fun stage xfer underway =>
      (kept.underway thread stage xfer underway).destroyRank kept live (unused thread stage xfer underway)⟩
    rw [xeonSpDestroyRank]
    split <;> rfl
  | acquire idle live free => exact ⟨Function.update_of_ne (ne other) _ _, fun _ _ _ => ⟨rfl, rfl⟩⟩
  | release before => exact ⟨Function.update_of_ne (ne other) _ _, fun _ _ _ => ⟨rfl, rfl⟩⟩
  | finish before all => exact ⟨Function.update_of_ne (ne other) _ _, fun _ _ _ => ⟨rfl, rfl⟩⟩
  | setUp before =>
    exact ⟨Function.update_of_ne (ne other) _ _, fun _ _ here =>
      ⟨Function.update_of_ne (apart other here before) _ _, rfl⟩⟩
  | wake before =>
    exact ⟨Function.update_of_ne (ne other) _ _, fun _ _ here =>
      ⟨Function.update_of_ne (apart other here before) _ _, rfl⟩⟩
  | work before below new =>
    exact ⟨rfl, fun _ _ here => ⟨Function.update_of_ne (apart other here before) _ _, rfl⟩⟩

omit [DecidableEq ρ] [DecidableEq τ] in
/-- The lines of a finished transfer. -/
theorem Kept.lines_perm (kept : Kept ranks s) (finished : s.xfer thread = some (.finished, xfer)) :
    (s.pool (ranks xfer.rank).poolId).lines.Perm
      ((List.range ((s.pool (ranks xfer.rank).poolId).covered (threadsForXfer (s.conf xfer.rank) xfer.size))).map
        fun line => (xfer.rank, line)) := by
  have here := kept.underway thread .finished xfer finished
  obtain ⟨tr, threads⟩ := here.ready (by decide)
  obtain ⟨nodup, inside, lines⟩ := here.woken (Or.inr rfl)
  have positive := one_le_threadsForXfer (kept.confs xfer.rank) xfer.size
  rw [lines, ← threads, ← flatMap_threadDoMramXfer tr (threads ▸ positive)]
  refine List.Perm.flatMap_right _ ?_
  refine (List.perm_ext_iff_of_nodup nodup List.nodup_range).mpr fun threadId => ?_
  rw [List.mem_range]
  exact ⟨inside threadId, here.finished rfl threadId⟩

/-- What a transfer must have: a pool of the context, and all lines when it is finished. -/
def Sound (ranks : ρ → Rank) (s : Ctx ρ τ) (stage : Stage) (xfer : Xfer ρ) : Prop :=
  (ranks xfer.rank).poolId < MAX_NB_CHANNEL ∧
    (stage = .finished → (s.pool (ranks xfer.rank).poolId).covered (threadsForXfer (s.conf xfer.rank) xfer.size) =
      (ranks xfer.rank).nrOfDpusPerControlInterface)

omit [DecidableEq ρ] [DecidableEq τ] in
theorem Kept.right_iff (kept : Kept ranks s) : Right ranks s ↔ s.outside = false ∧
    ∀ thread stage xfer, s.xfer thread = some (stage, xfer) → Sound ranks s stage xfer := by
  constructor
  · intro right
    refine ⟨right.inside, fun thread stage xfer underway => ⟨(right.initialised thread stage xfer underway).1, ?_⟩⟩
    rintro rfl
    have lengths := ((kept.lines_perm underway).symm.trans (right.lines thread xfer underway)).length_eq
    simpa using lengths
  · rintro ⟨inside, sound⟩
    refine ⟨inside, fun thread thread' stage xfer stage' xfer' first second same => kept.alone first second same,
      fun thread stage xfer underway => ⟨(sound thread stage xfer underway).1, ?_⟩, fun thread xfer finished => ?_⟩
    · have counted := counted_of_poolId_le (Nat.le_of_lt (sound thread stage xfer underway).1)
      rw [← counted]
      exact kept.pools _ (kept.underway thread stage xfer underway).live
    · rw [← (sound thread .finished xfer finished).2 rfl]
      exact kept.lines_perm finished

theorem Kept.sound_others {a : Action ρ τ} (kept : Kept ranks s) (step : Step ranks s a t)
    (before : ∀ thread stage xfer, s.xfer thread = some (stage, xfer) → Sound ranks s stage xfer) {thread' : τ}
    (other : a.thread ≠ some thread') {stage' : Stage} {xfer' : Xfer ρ}
    (after : t.xfer thread' = some (stage', xfer')) :
    Sound ranks t stage' xfer' := by
  obtain ⟨same, frame⟩ := kept.step_others step other
  rw [same] at after
  obtain ⟨pool, conf⟩ := frame stage' xfer' after
  rw [Sound, pool, conf]
  exact before thread' stage' xfer' after

omit [DecidableEq ρ] [DecidableEq τ] in
theorem covers_rank {r : ρ} {a : Action ρ τ} (is : a = .initRank r ∨ a = .destroyRank r) :
    Covers ranks ⟨s, a, t⟩ ↔ ((ranks r).channelId : Nat) ≠ MAX_NB_CHANNEL := by
  refine ⟨fun covers => covers.1 r is, fun ne => ⟨fun other either => ?_, fun _ _ same => ?_, fun _ same => ?_⟩⟩
  · rcases is with rfl | rfl <;> rcases either with same | same <;> cases same <;> exact ne
  · rcases is with rfl | rfl <;> cases same
  · rcases is with rfl | rfl <;> cases same

omit [DecidableEq ρ] [DecidableEq τ] in
theorem covers_acquire : Covers ranks ⟨s, .acquire thread xfer, t⟩ ↔ (ranks xfer.rank).poolId < MAX_NB_CHANNEL := by
  rw [poolId_lt_iff]
  refine ⟨fun covers => covers.2.1 thread xfer rfl, fun valid => ⟨fun _ either => ?_, fun _ _ same => ?_,
    fun _ same => ?_⟩⟩
  · exact either.elim (fun same => nomatch same) fun same => nomatch same
  · cases same
    exact valid
  · cases same

omit [DecidableEq ρ] [DecidableEq τ] in
theorem covers_finish (woken : s.xfer thread = some (.woken, xfer)) : Covers ranks ⟨s, .finish thread, t⟩ ↔
    (s.pool (ranks xfer.rank).poolId).covered (threadsForXfer (s.conf xfer.rank) xfer.size) =
      (ranks xfer.rank).nrOfDpusPerControlInterface := by
  refine ⟨fun covers => covers.2.2 thread rfl xfer woken,
    fun lines => ⟨fun _ either => ?_, fun _ _ same => ?_, fun _ same xfer' woken' => ?_⟩⟩
  · exact either.elim (fun same => nomatch same) fun same => nomatch same
  · cases same
  · cases same
    cases woken.symm.trans woken'
    exact lines

omit [DecidableEq ρ] [DecidableEq τ] in
/-- The other steps meet the condition. -/
theorem covers_other {a : Action ρ τ} (other : ∀ rank, a ≠ .initRank rank ∧ a ≠ .destroyRank rank)
    (acquire : ∀ thread xfer, a ≠ .acquire thread xfer) (finish : ∀ thread, a ≠ .finish thread) :
    Covers ranks ⟨s, a, t⟩ :=
  ⟨fun rank either => either.elim (fun same => absurd same (other rank).1) fun same => absurd same (other rank).2,
    fun thread xfer same => absurd same (acquire thread xfer), fun thread same => absurd same (finish thread)⟩

/-- A step keeps the property just when it meets the condition. -/
theorem Kept.right_step_iff {a : Action ρ τ} (kept : Kept ranks s) (right : Right ranks s)
    (step : Step ranks s a t) :
    Right ranks t ↔ Covers ranks ⟨s, a, t⟩ := by
  obtain ⟨inside, before⟩ := kept.right_iff.mp right
  have others {thread' : τ} := @Kept.sound_others _ _ _ _ _ _ _ a kept step before thread'
  rw [(kept.step step).right_iff]
  -- The transfers are sound when that of the thread that has done the step is.
  have own {thread : τ} (acts : a.thread = some thread) :
    (∀ thread' stage' xfer', t.xfer thread' = some (stage', xfer') →
      Sound ranks t stage' xfer') ↔ ∀ stage' xfer', t.xfer thread = some (stage', xfer') →
      Sound ranks t stage' xfer' := by
    refine ⟨fun all => all thread, fun mine thread' stage' xfer' after => ?_⟩
    by_cases same : thread' = thread
    · exact mine stage' xfer' (same ▸ after)
    · exact others (fun eq => same (Option.some.inj (eq.symm.trans acts))) after
  have rank {rank : ρ} (outside : t.outside = (s.outside || decide (MAX_NB_CHANNEL ≤ (ranks rank).counted)))
      (nobody : a.thread = none) (covers : Covers ranks ⟨s, a, t⟩ ↔
          ((ranks rank).channelId : Nat) ≠ MAX_NB_CHANNEL) :
      (t.outside = false ∧ ∀ thread' stage' xfer', t.xfer thread' = some (stage', xfer') →
        Sound ranks t stage' xfer') ↔
        Covers ranks ⟨s, a, t⟩ := by
    rw [covers, ← counted_lt_iff, outside, inside, Bool.false_or, decide_eq_false_iff_not, Nat.not_le]
    exact and_iff_left fun thread' stage' xfer' after => others (by rw [nobody]; simp) after
  cases step with
  | @initRank r new =>
    refine rank ?_ rfl (covers_rank (Or.inl rfl))
    rw [xeonSpInitRank]
    split <;> rfl
  | @destroyRank r live unused =>
    refine rank ?_ rfl (covers_rank (Or.inr rfl))
    rw [xeonSpDestroyRank]
    split <;> rfl
  | @acquire thread xfer idle live free =>
    rw [covers_acquire, own rfl]
    refine (and_iff_right inside).trans ⟨fun sound => ?_, fun valid stage' xfer' after => ?_⟩
    · exact (sound .acquired xfer (Function.update_self _ _ _)).1
    · obtain ⟨rfl, rfl⟩ : stage' = .acquired ∧ xfer' = xfer := by
        simpa [Ctx.setXfer, eq_comm] using after
      exact ⟨valid, fun same => nomatch same⟩
  | @finish thread xfer woken all =>
    rw [covers_finish woken, own rfl]
    refine (and_iff_right inside).trans ⟨fun sound => ?_, fun lines stage' xfer' after => ?_⟩
    · exact (sound .finished xfer (Function.update_self _ _ _)).2 rfl
    · obtain ⟨rfl, rfl⟩ : stage' = .finished ∧ xfer' = xfer := by
        simpa [Ctx.setXfer, eq_comm] using after
      exact ⟨(before thread .woken xfer' woken).1, fun _ => lines⟩
  | @setUp thread xfer acquired =>
    refine iff_of_true ⟨inside, (own rfl).mpr fun stage' xfer' after => ?_⟩
      (covers_other (by simp) (by simp) (by simp))
    obtain ⟨rfl, rfl⟩ : stage' = .ready ∧ xfer' = xfer := by
      simpa [Ctx.setXfer, eq_comm] using after
    exact ⟨(before thread .acquired xfer' acquired).1, fun same => nomatch same⟩
  | @wake thread xfer ready =>
    refine iff_of_true ⟨inside, (own rfl).mpr fun stage' xfer' after => ?_⟩
      (covers_other (by simp) (by simp) (by simp))
    obtain ⟨rfl, rfl⟩ : stage' = .woken ∧ xfer' = xfer := by
      simpa [Ctx.setXfer, eq_comm] using after
    exact ⟨(before thread .ready xfer' ready).1, fun same => nomatch same⟩
  | @work thread xfer threadId woken below new =>
    refine iff_of_true ⟨inside, (own rfl).mpr fun stage' xfer' after => ?_⟩
      (covers_other (by simp) (by simp) (by simp))
    cases woken.symm.trans after
    exact ⟨(before thread .woken xfer woken).1, fun same => nomatch same⟩
  | @release thread xfer finished =>
    refine iff_of_true ⟨inside, (own rfl).mpr fun stage' xfer' after => ?_⟩
      (covers_other (by simp) (by simp) (by simp))
    simp [Ctx.setXfer] at after

omit [DecidableEq ρ] [DecidableEq τ] in
theorem Kept.start (positive : ∀ r, 1 ≤ (ranks r).conf.nbThreadPerPool) :
    Kept ranks (Ctx.start ranks : Ctx ρ τ) where
  counts _ := rfl
  nodup := List.nodup_nil
  pools _ live := nomatch live
  confs := positive
  underway _ _ _ underway := nomatch underway

/-- The transfers of a run have pools of their own that process each line once just when
its steps meet the condition. -/
theorem transfers_right_iff {history : List (Transition (Ctx ρ τ) (Action ρ τ))}
    (positive : ∀ r, 1 ≤ (ranks r).conf.nbThreadPerPool) (run : Run (Step ranks) (Ctx.start ranks) history s) :
    (∀ τ' ∈ history, Right ranks τ'.after) ↔ ∀ τ' ∈ history, Covers ranks τ' := by
  refine run.guarded_iff (Kept.start positive) (fun _ _ _ kept step => kept.step step)
    ((Kept.start positive).right_iff.mpr ⟨rfl, fun _ _ _ underway => nomatch underway⟩)
    fun _ _ _ kept right step => kept.right_step_iff right step

end Invariant

end Pools

section Example

/-- One rank with two threads. -/
def oneRank : Unit → Rank := fun _ => ⟨0, 8, ⟨2, 1024, 2048, 32768⟩⟩

def oneXfer : Xfer Unit := ⟨(), 4096⟩

theorem transfers_right_iff_one :
    ∃ (history : List (Transition (Ctx Unit Unit) (Action Unit Unit))) (s : Ctx Unit Unit),
    Run (Step oneRank) (Ctx.start oneRank) history s ∧ s.xfer () = some (.finished, oneXfer) ∧
      ∀ τ' ∈ history, Right oneRank τ'.after := by
  have run : Run (Step oneRank) (Ctx.start oneRank : Ctx Unit Unit) [] _ := .start
  have run := run.next (@Step.initRank _ _ _ _ oneRank _ () (by decide))
  have run := run.next (@Step.acquire _ _ _ _ oneRank _ () oneXfer rfl List.mem_cons_self rfl)
  have run := run.next (@Step.setUp _ _ _ _ oneRank _ () oneXfer rfl)
  have run := run.next (@Step.wake _ _ _ _ oneRank _ () oneXfer rfl)
  have run := run.next (@Step.work _ _ _ _ oneRank _ () oneXfer 1 rfl (by decide) (by decide))
  have run := run.next (@Step.work _ _ _ _ oneRank _ () oneXfer 0 rfl (by decide) (by decide))
  have woken := run.next (@Step.finish _ _ _ _ oneRank _ () oneXfer rfl (by decide))
  refine ⟨_, _, woken, rfl, (transfers_right_iff (fun _ => show 1 ≤ 2 by decide) woken).mpr fun τ' member => ?_⟩
  simp only [List.mem_cons, List.not_mem_nil, or_false] at member
  rcases member with rfl | rfl | rfl | rfl | rfl | rfl | rfl
  · exact (covers_finish (rfl : _ = some (Stage.woken, oneXfer))).mpr (by decide)
  · exact covers_other (by simp) (by simp) (by simp)
  · exact covers_other (by simp) (by simp) (by simp)
  · exact covers_other (by simp) (by simp) (by simp)
  · exact covers_other (by simp) (by simp) (by simp)
  · exact covers_acquire.mpr (by decide)
  · exact (covers_rank (Or.inl rfl)).mpr (by decide)

/-- Two ranks of a channel: the first one makes a pool with one thread, the second one asks for two. -/
def twoRanks : Bool → Rank := fun second => ⟨0, 8, ⟨if second then 2 else 1, 1024, 2048, 32768⟩⟩

def secondXfer : Xfer Bool := ⟨true, 65536⟩

/-- The thread of the pool processes only the lines 0 to 3 of the second rank. -/
theorem secondRank_not_right :
    ∃ (history : List (Transition (Ctx Bool Unit) (Action Bool Unit))) (s : Ctx Bool Unit),
    Run (Step twoRanks) (Ctx.start twoRanks) history s ∧ ¬Right twoRanks s := by
  have run : Run (Step twoRanks) (Ctx.start twoRanks : Ctx Bool Unit) [] _ := .start
  have run := run.next (@Step.initRank _ _ _ _ twoRanks _ false (by decide))
  have run := run.next (@Step.initRank _ _ _ _ twoRanks _ true (by decide))
  have run := run.next (@Step.acquire _ _ _ _ twoRanks _ () secondXfer rfl List.mem_cons_self rfl)
  have run := run.next (@Step.setUp _ _ _ _ twoRanks _ () secondXfer rfl)
  have run := run.next (@Step.wake _ _ _ _ twoRanks _ () secondXfer rfl)
  have run := run.next (@Step.work _ _ _ _ twoRanks _ () secondXfer 0 rfl (by decide) (by decide))
  have run := run.next (@Step.finish _ _ _ _ twoRanks _ () secondXfer rfl (by decide))
  refine ⟨_, _, run, fun right => ?_⟩
  have lengths := (right.lines () secondXfer rfl).length_eq
  exact absurd lengths (by decide)

end Example
end Upmem.XeonSpPools
