import Upmem.AbortArray
import Upmem.AbortWindow
import Upmem.Checksum
import Upmem.DpuSet
import Upmem.HashTable
import Upmem.Keccak
import Upmem.ResetEnabled

namespace Upmem
open Transitions Loops

/-- What a host has done with the DPUs of its set: its state, the entries of
the abort array it has read and the DPUs whose shares it has recomputed. -/
structure HostTrace (σ : Type) where
  state : σ
  reads : List Nat
  recomputed : List Nat

/-- The loop of the resuming hosts over the DPUs of their set. -/
def resumeLoop {σ : Type} (nrDpus : Nat) (abortInfo : Nat → Int) (share : Nat → σ → σ) (start : σ) : HostTrace σ :=
  (List.range nrDpus).foldl (fun trace i =>
    if abortInfo i = 0 then { trace with reads := trace.reads ++ [i] }
    else { state := share i trace.state, reads := trace.reads ++ [i], recomputed := trace.recomputed ++ [i] })
    ⟨start, [], []⟩

def Checksum.hostFuncResume (NR_DPUS NR_TASKLETS : Nat) (abortInfo : Nat → Int) (globalData : Nat → BitVec 8)
    (results : Nat → Nat → Checksum.DpuResult) : HostTrace (Nat → Nat → Checksum.DpuResult) :=
  resumeLoop NR_DPUS abortInfo (fun i results =>
    Function.update results i fun eachTasklet =>
      if eachTasklet < NR_TASKLETS then Checksum.resumeTasklet NR_TASKLETS globalData (results i eachTasklet)
      else results i eachTasklet) results

/-- The iterations of the parallel loop in order. -/
def HashTable.hostFuncResume (NR_DPUS NR_TASKLETS : Nat) (abortInfo : Nat → Int) (table : Nat → HashTable.DataItem)
    (results : Nat → Nat → HashTable.DpuResult) : HostTrace (Nat → Nat → HashTable.DpuResult) :=
  resumeLoop NR_DPUS abortInfo (fun i results =>
    Function.update results i fun eachTasklet =>
      if eachTasklet < NR_TASKLETS then
        HashTable.resumeTasklet NR_TASKLETS table eachTasklet (results i eachTasklet)
      else results i eachTasklet) results

/-- `host_resume`, with the iterations of its parallel loop in order. -/
def Keccak.hostResume (nrOfDpus NR_TASKLETS : Nat) (abortInfo : Nat → Int)
    (totalResults : Nat → Nat → Keccak.DpuResult) : HostTrace (BitVec 64) :=
  resumeLoop nrOfDpus abortInfo (fun i totalSum =>
    (List.range NR_TASKLETS).foldl (fun totalSum t => Keccak.resumeTasklet (totalResults i t) totalSum) totalSum) 0

section
variable {σ : Type} (nrDpus : Nat) (abortInfo : Nat → Int) (share : Nat → σ → σ) (start : σ)

theorem resumeLoop_succ : resumeLoop (nrDpus + 1) abortInfo share start =
    let trace := resumeLoop nrDpus abortInfo share start
    if abortInfo nrDpus = 0 then { trace with reads := trace.reads ++ [nrDpus] }
    else { state := share nrDpus trace.state, reads := trace.reads ++ [nrDpus],
           recomputed := trace.recomputed ++ [nrDpus] } := by
  rw [resumeLoop, List.range_succ, List.foldl_append, List.foldl_cons, List.foldl_nil]
  rfl

/-- Every DPU of the loop has its entry read. -/
theorem resumeLoop_reads : (resumeLoop nrDpus abortInfo share start).reads = List.range nrDpus := by
  induction nrDpus with
  | zero => rfl
  | succ n ih =>
    rw [resumeLoop_succ, List.range_succ, ← ih]
    simp only []
    split_ifs <;> rfl

theorem mem_resumeLoop_recomputed {i : Nat} :
    i ∈ (resumeLoop nrDpus abortInfo share start).recomputed ↔ i < nrDpus ∧ abortInfo i ≠ 0 := by
  induction nrDpus with
  | zero => simp [resumeLoop]
  | succ n ih =>
    rw [resumeLoop_succ]
    by_cases spared : abortInfo n = 0
    · simp only [if_pos spared, ih]
      refine ⟨fun ⟨below, aborted⟩ => ⟨by omega, aborted⟩, fun ⟨below, aborted⟩ => ⟨?_, aborted⟩⟩
      have other : i ≠ n := fun same => aborted (same ▸ spared)
      omega
    · simp only [if_neg spared, List.mem_append, ih, List.mem_singleton]
      constructor
      · rintro (⟨below, aborted⟩ | rfl)
        · exact ⟨by omega, aborted⟩
        · exact ⟨Nat.lt_succ_self i, spared⟩
      · rintro ⟨below, aborted⟩
        by_cases last : i = n
        · exact .inr last
        · exact .inl ⟨by omega, aborted⟩

end

/-- A state in which a launch on the ranks of a set returns when its abort phase is over. -/
structure AbortOutcome (nrRanks : Nat) (abort : Nat → Int) (c : Call) : Prop where
  reached : Reachable (fun s a t => Call.step s a = some t) (Call.start (.onRanks nrRanks abort)) c
  returned : c.caller = .returned
  entered : c.entry.isSome = true

/-- The abort phase leaves the entries of the ranks set for the aborted ones only. -/
theorem AbortOutcome.abort_ne_zero_iff {nrRanks : Nat} {abort : Nat → Int} {c : Call}
    (outcome : AbortOutcome nrRanks abort c) {r : Nat} (inside : r < nrRanks) :
    c.abort r ≠ 0 ↔ c.aborted r = true := by
  obtain ⟨⟨history, run⟩, returned, entered⟩ := outcome
  have run : CallRun (.onRanks nrRanks abort) history c := run
  have written : c.written = nrRanks := by
    rw [run.phased.written_returned returned, if_pos entered, run.setup_eq]
    simp [CallSetup.onRanks, CallSetup.syncNrRanks]
  rw [(run.arrayKept r).1 (written ▸ inside)]
  cases c.aborted r <;> simp

/-- A host recomputes the shares of the DPUs in aborted ranks, and reads the
abort array in the entries of the ranks only. -/
structure ResumesAborted {σ : Type} (set : List SetRank) (c : Call) (trace : HostTrace σ) : Prop where
  inside : ∀ i ∈ trace.reads, i < set.length
  recomputed : ∀ dpu i, (dpu, i) ∈ dpuForeach set → (i ∈ trace.recomputed ↔ c.aborted dpu.1 = true)

/-- Every DPU has the index of its rank. -/
def OnePerRank (set : List SetRank) : Prop :=
  ∀ dpu i, (dpu, i) ∈ dpuForeach set → dpu.1 = i

theorem mem_dpuForeach {set : List SetRank} (one : OneTopology set) {dpu : Nat × Nat} {i : Nat} :
    (dpu, i) ∈ dpuForeach set ↔ (enabledDpus 0 set)[i]? = some dpu := by
  rw [dpuForeach_eq one, List.mem_zipIdx_iff_getElem?]

theorem enabledDpus_rank {set : List SetRank} {first : Nat} {dpu : Nat × Nat}
    (member : dpu ∈ enabledDpus first set) :
    dpu.1 < first + set.length := by
  induction set generalizing first with
  | nil => simp [enabledDpus] at member
  | cons each rest ih =>
    rw [List.length_cons]
    rcases List.mem_append.mp member with here | later
    · obtain ⟨dpuIdx, _, rfl⟩ := List.mem_map.mp here
      omega
    · have := ih later
      omega

theorem enabledDpus_indexed_iff {set : List SetRank} (first : Nat)
    (nonempty : ∀ each ∈ set, 0 < (each.rank.enabledFrom 0).length) :
    (∀ i dpu, (enabledDpus first set)[i]? = some dpu → dpu.1 = first + i) ↔
      ∀ each ∈ set, (each.rank.enabledFrom 0).length = 1 := by
  induction set generalizing first with
  | nil => simp [enabledDpus]
  | cons each rest ih =>
    have later := ih (first + 1) fun other member => nonempty other (List.mem_cons_of_mem _ member)
    rw [List.forall_mem_cons, ← later, enabledDpus]
    cases enabled : each.rank.enabledFrom 0 with
    | nil => exact absurd (nonempty each List.mem_cons_self) (by simp [enabled])
    | cons dpuIdx more =>
      cases more with
      | nil =>
        simp only [List.map_cons, List.map_nil, List.singleton_append, List.length_singleton, true_and]
        constructor
        · intro indexed i dpu at_dpu
          rw [indexed (i + 1) dpu at_dpu]
          omega
        · intro indexed i dpu at_dpu
          cases i with
          | zero =>
            obtain rfl := Option.some.inj at_dpu
            rfl
          | succ i =>
            rw [indexed i dpu at_dpu]
            omega
      | cons second more =>
        refine iff_of_false (fun indexed => ?_) fun both => absurd both.1 (by simp)
        have shifted := indexed 1 (first, second) rfl
        exact absurd shifted (by simp)

/-- When no rank of the set is empty, every DPU has the index of its rank
exactly if every rank holds a single one. -/
theorem onePerRank_iff {set : RankSet} (nonempty : ∀ each ∈ set.ranks, 0 < getNrOfDpusInRank each.rank) :
    OnePerRank set.ranks ↔ ∀ each ∈ set.ranks, getNrOfDpusInRank each.rank = 1 := by
  have counts (each : SetRank) := getNrOfDpusInRank_eq each.agrees
  simp only [counts] at nonempty ⊢
  rw [← enabledDpus_indexed_iff 0 nonempty, OnePerRank, forall_comm]
  simp only [mem_dpuForeach set.oneTopology, Nat.zero_add]

/-- The first poll of a launch, 50 ms after its start, when all ranks but one are done. -/
structure PollingLone (nrRanks lone k : Nat) (c : Call) : Prop where
  poller : c.poller = .check k
  caller : c.caller = .cleanPreempt
  clock : c.clock ≤ 50
  nrRank : c.preempt.nrRank = nrRanks
  threshold : c.preempt.nrRankThreshold = ⌊RANK_THRESHOLD * nrRanks⌋₊
  average : c.preempt.avgExecutionDur ≤ 50
  rankDone : ∀ r, c.preempt.rankDone r = if r < k ∧ r ≠ lone then 1 else 0
  numDone : c.preempt.numDone + (if lone < k then 1 else 0) = k
  aborted : ∀ r, c.aborted r = false

/-- The abort loop that follows such a poll. -/
structure AbortingLone (nrRanks lone i : Nat) (c : Call) : Prop where
  poller : c.poller = .abort i
  caller : c.caller = .cleanPreempt
  nrRank : c.preempt.nrRank = nrRanks
  rankDone : ∀ r < nrRanks, (c.preempt.rankDone r = 0 ↔ r = lone)
  entered : c.entry.isSome = true
  aborted : ∀ r < nrRanks, (c.aborted r = true ↔ r < i ∧ r = lone)

theorem PollingLone.step {nrRanks lone k : Nat} {c : Call} (polling : PollingLone nrRanks lone k c)
    (inside : k < nrRanks) :
    ∃ d, c.step (.check (decide (k ≠ lone)) false 50) = some d ∧ PollingLone nrRanks lone (k + 1) d := by
  have more : ¬ c.preempt.nrRank ≤ k := by rw [polling.nrRank]; omega
  have late : ¬ 50 < c.clock := not_lt.mpr polling.clock
  have fresh : c.preempt.rankDone k = 0 := by
    rw [polling.rankDone, if_neg (fun both => Nat.lt_irrefl k both.1)]
  have stepped : c.step (.check (decide (k ≠ lone)) false 50) = some
      { c with preempt := eachRankStatus k (decide (k ≠ lone)) false 50 c.preempt, clock := 50,
               poller := .check (k + 1) } := by
    simp only [Call.step, polling.poller, if_neg more, if_neg late]
  refine ⟨_, stepped, ?_⟩
  have counted := polling.numDone
  by_cases this : k = lone
  · subst this
    simp only [ne_eq, not_true_eq_false, decide_false, eachRankStatus, Bool.false_eq_true, if_false]
    refine { polling with poller := rfl, clock := le_rfl, rankDone := fun r => ?_, numDone := ?_ }
    · rw [polling.rankDone]
      exact if_congr (by omega) rfl rfl
    · change c.preempt.numDone + (if k < k + 1 then 1 else 0) = k + 1
      rw [if_neg (Nat.lt_irrefl k)] at counted
      rw [if_pos (Nat.lt_succ_self k)]
      omega
  · simp only [ne_eq, this, not_false_eq_true, decide_true, eachRankStatus, fresh, if_true]
    refine { polling with poller := rfl, clock := le_rfl, average := ?_, rankDone := fun r => ?_, numDone := ?_ }
    · have average := Nat.mul_le_mul_right c.preempt.numDone polling.average
      refine Nat.div_le_of_le_mul ?_
      rw [Nat.add_mul, Nat.one_mul, Nat.mul_comm c.preempt.numDone]
      omega
    · simp only [Function.update_apply, polling.rankDone]
      split_ifs <;> first | rfl | omega
    · change c.preempt.numDone + 1 + (if lone < k + 1 then 1 else 0) = k + 1
      split_ifs at counted ⊢ <;> omega

theorem PollingLone.decide {nrRanks lone : Nat} {c : Call} (some : lone < nrRanks)
    (polling : PollingLone nrRanks lone nrRanks c) :
    ∃ d e, c.step (.check false false 50) = .some d ∧ d.step (.decide 50) = .some e ∧
      AbortingLone nrRanks lone 0 e := by
  have counted := polling.numDone
  rw [if_pos some] at counted
  have threshold : c.preempt.nrRankThreshold ≤ c.preempt.numDone := by
    have ranks : (nrRanks : ℚ) = c.preempt.numDone + 1 := by exact_mod_cast counted.symm
    rw [polling.threshold, ← Nat.lt_succ_iff, Nat.floor_lt (by unfold RANK_THRESHOLD; positivity),
      ranks, RANK_THRESHOLD]
    push_cast
    linarith [show (0 : ℚ) ≤ c.preempt.numDone from Nat.cast_nonneg _]
  have struggle : determineStruggleDpu 50 c.preempt = true :=
    (determineStruggleDpu_iff polling.average).mpr ⟨threshold, by decide⟩
  refine ⟨_, _, Call.step_allChecked polling.poller polling.nrRank.le,
    Call.step_enterAbort rfl polling.clock struggle, ?_⟩
  refine ⟨rfl, polling.caller, polling.nrRank, fun r inside => ?_, rfl, fun r _ => ?_⟩
  · simp only [polling.rankDone, inside, true_and]
    split_ifs <;> simp_all
  · simp [polling.aborted r]

theorem AbortingLone.step {nrRanks lone i : Nat} {c : Call} (aborting : AbortingLone nrRanks lone i c)
    (inside : i < nrRanks) : ∃ d, c.step .abort = some d ∧ AbortingLone nrRanks lone (i + 1) d := by
  have more : ¬ c.preempt.nrRank ≤ i := by
    rw [aborting.nrRank]
    omega
  have here := aborting.rankDone i inside
  by_cases this : i = lone
  · have stepped : c.step .abort = some
        { c with abort := Function.update c.abort i 1, aborted := Function.update c.aborted i true,
                 poller := .abort (i + 1) } := by
      simp only [Call.step, aborting.poller, if_neg more, if_pos (here.mpr this)]
    refine ⟨_, stepped, { aborting with poller := rfl, aborted := fun r below => ?_ }⟩
    have earlier := aborting.aborted r below
    by_cases same : r = i
    · subst same
      simpa using this
    · simp only [Function.update_of_ne same, earlier]
      omega
  · have stepped :
        c.step .abort = some { c with abort := Function.update c.abort i 0, poller := .abort (i + 1) } := by
      simp only [Call.step, aborting.poller, if_neg more, if_neg (fun done => this (here.mp done))]
    refine ⟨_, stepped, { aborting with poller := rfl, aborted := fun r below => ?_ }⟩
    rw [aborting.aborted r below]
    omega

/-- Some launch aborts just one of its ranks, whichever it is. -/
theorem exists_abortOutcome {nrRanks lone : Nat} (some : lone < nrRanks) (abort : Nat → Int) :
    ∃ c, AbortOutcome nrRanks abort c ∧ ∀ r < nrRanks, (c.aborted r = true ↔ r = lone) := by
  let setup := CallSetup.onRanks nrRanks abort
  let step := fun (s : Call) a t => Call.step s a = .some t
  have known : setup.syncNrRanks = nrRanks := by simp [setup, CallSetup.onRanks, CallSetup.syncNrRanks]
  have begun : ∃ c, Reachable step (Call.start setup) c ∧ PollingLone nrRanks lone 0 c := by
    have executed : execute Call.step [.getJobs true, .doJobs, .test] (Call.start setup) = .some
        { Call.start setup with preempt := initPreempt nrRanks, poller := .check 0, caller := .cleanPreempt } := by
      simp [execute, Call.step, Call.start, known]
    obtain ⟨history, run⟩ := execute_run executed
    refine ⟨_, run.reachable, rfl, rfl, Nat.zero_le _, rfl, rfl, Nat.zero_le _, fun r => ?_, rfl, fun r => rfl⟩
    rw [if_neg (fun both => Nat.not_lt_zero r both.1)]
    rfl
  have polled (k : Nat) (below : k ≤ nrRanks) :
      ∃ c, Reachable step (Call.start setup) c ∧ PollingLone nrRanks lone k c := by
    induction k with
    | zero => exact begun
    | succ k ih =>
      obtain ⟨c, reach, polling⟩ := ih (by omega)
      obtain ⟨d, taken, next⟩ := polling.step below
      exact ⟨d, reach.next taken, next⟩
  have aborting (i : Nat) (below : i ≤ nrRanks) :
      ∃ c, Reachable step (Call.start setup) c ∧ AbortingLone nrRanks lone i c := by
    induction i with
    | zero =>
      obtain ⟨c, reach, polling⟩ := polled nrRanks le_rfl
      obtain ⟨d, e, checked, decided, next⟩ := polling.decide some
      exact ⟨e, (reach.next checked).next decided, next⟩
    | succ i ih =>
      obtain ⟨c, reach, here⟩ := ih (by omega)
      obtain ⟨d, taken, next⟩ := here.step below
      exact ⟨d, reach.next taken, next⟩
  obtain ⟨c, reach, here⟩ := aborting nrRanks le_rfl
  have finished : c.step .abort = .some { c with poller := .finished } := by
    simp only [Call.step, here.poller, if_pos here.nrRank.le]
  have cleaned : Call.step { c with poller := .finished } .cleanPreempt =
      .some { c with poller := .finished, stopPolling := true, caller := .join } := by
    simp only [Call.step, here.caller, if_true]
  have joined : Call.step { c with poller := .finished, stopPolling := true, caller := .join } .join =
      .some { c with poller := .finished, stopPolling := true, caller := .returned } := rfl
  refine ⟨{ c with poller := .finished, stopPolling := true, caller := .returned },
    ⟨((reach.next finished).next cleaned).next joined, rfl, here.entered⟩, fun r inside => ?_⟩
  rw [here.aborted r inside]
  omega

/-- A host that loops over the DPUs of a set follows every outcome of the abort
phase exactly if the index of every DPU is that of its rank. -/
theorem resumesAborted_iff {σ : Type} (set : RankSet) (host : (Nat → Int) → HostTrace σ)
    (reads : ∀ abortInfo, (host abortInfo).reads = List.range (dpuGetNrDpus set.ranks))
    (recomputed : ∀ abortInfo i, i ∈ (host abortInfo).recomputed ↔ i < dpuGetNrDpus set.ranks ∧ abortInfo i ≠ 0) :
    (∀ abort c, AbortOutcome set.ranks.length abort c → ResumesAborted set.ranks c (host c.abort)) ↔
      OnePerRank set.ranks := by
  have visited {dpu : Nat × Nat} {i : Nat} (visit : (dpu, i) ∈ dpuForeach set.ranks) :
      i < dpuGetNrDpus set.ranks ∧ dpu.1 < set.ranks.length := by
    have at_visit := (mem_dpuForeach set.oneTopology).mp visit
    refine ⟨dpuGetNrDpus_eq set.ranks ▸ (List.getElem?_eq_some_iff.mp at_visit).1, ?_⟩
    simpa using enabledDpus_rank (List.mem_of_getElem? at_visit)
  constructor
  · intro follows dpu i visit
    obtain ⟨counted, some⟩ := visited visit
    obtain ⟨c, outcome, lone⟩ := exists_abortOutcome some fun _ => 0
    obtain ⟨inside, each⟩ := follows _ c outcome
    have below : i < set.ranks.length := inside i (by rw [reads]; exact List.mem_range.mpr counted)
    have aborted : c.aborted dpu.1 = true := (lone dpu.1 some).mpr rfl
    have entry := ((recomputed c.abort i).mp ((each dpu i visit).mpr aborted)).2
    exact ((lone i below).mp ((outcome.abort_ne_zero_iff below).mp entry)).symm
  · intro one abort c outcome
    constructor
    · intro i member
      rw [reads, List.mem_range, dpuGetNrDpus_eq] at member
      have visit : ((enabledDpus 0 set.ranks)[i], i) ∈ dpuForeach set.ranks :=
        (mem_dpuForeach set.oneTopology).mpr (List.getElem?_eq_getElem member)
      exact one _ i visit ▸ (visited visit).2
    · intro dpu i visit
      obtain ⟨counted, below⟩ := visited visit
      obtain rfl := one dpu i visit
      rw [recomputed, outcome.abort_ne_zero_iff below]
      exact and_iff_right counted

/-- The hosts of the checksum, of the hash table and of keccak follow every
outcome of the abort phase exactly if the index of every DPU is that of its rank. -/
theorem hosts_resume_iff (set : RankSet) (NR_TASKLETS : Nat) :
    (∀ globalData results, (∀ abort c, AbortOutcome set.ranks.length abort c → ResumesAborted set.ranks c
        (Checksum.hostFuncResume (dpuGetNrDpus set.ranks) NR_TASKLETS c.abort globalData results)) ↔
          OnePerRank set.ranks) ∧
      (∀ table results, (∀ abort c, AbortOutcome set.ranks.length abort c → ResumesAborted set.ranks c
        (HashTable.hostFuncResume (dpuGetNrDpus set.ranks) NR_TASKLETS c.abort table results)) ↔
          OnePerRank set.ranks) ∧
      (∀ totalResults, (∀ abort c, AbortOutcome set.ranks.length abort c → ResumesAborted set.ranks c
        (Keccak.hostResume (dpuGetNrDpus set.ranks) NR_TASKLETS c.abort totalResults)) ↔ OnePerRank set.ranks) := by
  refine ⟨fun globalData results => ?_, fun table results => ?_, fun totalResults => ?_⟩
  · exact resumesAborted_iff set
      (fun abortInfo => Checksum.hostFuncResume (dpuGetNrDpus set.ranks) NR_TASKLETS abortInfo globalData results)
      (fun _ => resumeLoop_reads ..) fun _ _ => mem_resumeLoop_recomputed ..
  · exact resumesAborted_iff set
      (fun abortInfo => HashTable.hostFuncResume (dpuGetNrDpus set.ranks) NR_TASKLETS abortInfo table results)
      (fun _ => resumeLoop_reads ..) fun _ _ => mem_resumeLoop_recomputed ..
  · exact resumesAborted_iff set
      (fun abortInfo => Keccak.hostResume (dpuGetNrDpus set.ranks) NR_TASKLETS abortInfo totalResults)
      (fun _ => resumeLoop_reads ..) fun _ _ => mem_resumeLoop_recomputed ..

/-- A rank of two enabled DPUs. -/
def doubleRank : SetRank where
  rank := (halfEnabledRank 0).withEnabled fun _ _ => true
  agrees := (halfEnabledRank 0).withEnabled_agrees _

/-- On one rank of two DPUs the hosts read a second entry of the abort array,
which has one. -/
theorem two_dpus_not_resumed : ¬ ∀ (set : RankSet) (NR_TASKLETS : Nat) (globalData : Nat → BitVec 8)
    (results : Nat → Nat → Checksum.DpuResult) (abort : Nat → Int)
      (c : Call), AbortOutcome set.ranks.length abort c → ResumesAborted set.ranks c
        (Checksum.hostFuncResume (dpuGetNrDpus set.ranks) NR_TASKLETS c.abort globalData results) := by
  intro always
  obtain ⟨c, outcome, _⟩ := exists_abortOutcome (show 0 < [doubleRank].length by decide) fun _ => 0
  have two : dpuGetNrDpus [doubleRank] = 2 := by decide
  have inside :=
    (always ⟨[doubleRank], oneTopology_single _⟩ 16 (fun _ => 0) (fun _ _ => ⟨0, 0, 0⟩) _ c outcome).inside 1
  rw [Checksum.hostFuncResume, resumeLoop_reads, two] at inside
  exact absurd (inside (by decide)) (by decide)

end Upmem
