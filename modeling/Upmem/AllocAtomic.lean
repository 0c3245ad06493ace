import Upmem.AllocCleanup

namespace Upmem.AllocCleanup
open RankList

/-- Every rank that a call has acquired is released once, no worker thread
refers to a rank that the call has released, and the allocated sets are the
same. -/
structure Atomic (before after : Process) : Prop where
  released : ∀ r, before.acquired ≤ r → r < after.acquired → after.released.count r = 1
  workers : ∀ r ∈ after.workers, r ∈ after.released → r ∈ before.workers ∧ r ∈ before.released
  sets : after.sets = before.sets

namespace Answers
variable (answers : Answers)

/-- The list has a place for one more rank, and the checks after the registration pass. -/
def Keeps (eachRank : Nat) (properties : Properties) : Prop :=
  (answers.inputs eachRank).listGrown = true ∧ (answers.inputs eachRank).PassesChecks properties

/-- A request is returned: the rank is registered and nothing fails behind its registration. -/
def Returns (eachRank : Nat) : Prop :=
  ∃ profile, answers.profile = some profile ∧ (answers.inputs eachRank).Registers profile.properties ∧
    answers.Keeps eachRank profile.properties

/-- The answer to a request. -/
def answer (eachRank : Nat) : DpuError :=
  ((answers.inputs eachRank).dpuGetRankOfType () setupDpuRankList).1.1

/-- Nothing fails behind the registration of a rank that the backend has allocated. -/
def KeepsRank (eachRank : Nat) : Prop :=
  ∀ profile, answers.profile = some profile → (answers.inputs eachRank).Registers profile.properties →
    answers.Keeps eachRank profile.properties

/-- The reset of a rank, if there is one, succeeds. -/
def Resets (eachRank : Nat) : Prop :=
  (answers.handout eachRank).reset.1 = .ok

/-- The jobs of a rank and its worker threads are created. -/
structure RankStarts (eachRank : Nat) : Prop where
  jobsTable : answers.jobsTable eachRank = true
  queueIdx : answers.queueIdx eachRank < NR_QUEUES
  threads : ∀ eachThread < answers.nrThreads, answers.threadCreated eachRank eachThread = true

def WorkersStart (nrRanks : Nat) : Prop :=
  ∀ eachRank < nrRanks, answers.RankStarts eachRank

/-- There is a place for one more set. -/
def HasPlace (p : Process) : Prop :=
  p.sets.length ≠ p.capacity ∨ answers.setsGrown = true

/-- The polling threads up to the first one that runs can be created. -/
def PollingStarts (p : Process) : Prop :=
  ∀ eachQueue < NR_QUEUES, (∀ queue ≤ eachQueue, p.polling queue = false) →
    answers.condInit eachQueue = true ∧ answers.pollingCreated eachQueue = true

/-- The greatest number of blocks of a scatter/gather transfer is a number,
and it is given only if these transfers are enabled. -/
def SgValid : Prop :=
  ∃ profile, answers.profile = some profile ∧ ∃ sgXferMaxBlockPerDpu,
    profile.sgXferMaxBlockPerDpu = some sgXferMaxBlockPerDpu ∧
      (0#32 < sgXferMaxBlockPerDpu → profile.sgXferEnabled = true)

/-- What remains when the worker threads are created succeeds, but a set
without a place is harmless when its ranks have no worker threads. -/
structure Completes (p : Process) : Prop where
  registers : answers.HasPlace p ∨ answers.nrThreads = 0
  polls : answers.HasPlace p → answers.PollingStarts p
  sgValid : answers.HasPlace p → answers.SgValid

/-- A rank that is taken, after its reset. -/
def nextRank (eachRank : Nat) : Rank :=
  (answers.handout eachRank).reset.2

/-- The number of DPUs of the first `nrRanks` ranks. -/
def nrDpusOf (nrRanks : Nat) : Nat :=
  ((List.range nrRanks).map fun eachRank => getNrOfDpusInRank (answers.nextRank eachRank)).sum

/-- The capacity of the array of ranks before a request. -/
def capacityAt : Nat → Nat
  | 0 => 0
  | eachRank + 1 => if eachRank = capacityAt eachRank then 2 * capacityAt eachRank + 2 else capacityAt eachRank

section Alloc
variable (nrDpus : Nat) (dispatchOnAllRanks : Bool)

/-- `dpu_alloc` wants one more rank. -/
def Wants (nrRanks : Nat) : Prop :=
  nrRanks = 0 ∨ nrRanks < nrDpus ∧ (dispatchOnAllRanks = true ∨ answers.nrDpusOf nrRanks < nrDpus)

/-- The array of ranks has room for one more, or it can grow. -/
def HasRoom (nrRanks : Nat) : Prop :=
  nrRanks ≠ capacityAt nrRanks ∨ answers.currentRanksGrown nrRanks = true

/-- `dpu_alloc` takes one more rank. -/
structure Advances (eachRank : Nat) : Prop where
  wants : answers.Wants nrDpus dispatchOnAllRanks eachRank
  room : answers.HasRoom eachRank
  returns : answers.Returns eachRank
  resets : answers.Resets eachRank

/-- With these ranks the loop of `dpu_alloc` ends well. -/
def Ends (nrRanks : Nat) : Prop :=
  ¬answers.Wants nrDpus dispatchOnAllRanks nrRanks ∨
    answers.HasRoom nrRanks ∧ answers.answer nrRanks = .allocation ∧
      (nrDpus = DPU_ALLOCATE_ALL ∨ dispatchOnAllRanks = true) ∧
      (dispatchOnAllRanks = true → nrDpus ≤ answers.nrDpusOf nrRanks)

/-- What `disable_unused_dpus` makes of the first ranks. -/
def disabled (nrRanks : Nat) : AllocResult :=
  disableUnusedDpus answers.disableDpu (answers.nrDpusOf nrRanks)
    (if nrDpus = DPU_ALLOCATE_ALL then answers.nrDpusOf nrRanks else nrDpus)
    ((List.range nrRanks).map answers.nextRank)

/-- `dpu_alloc` comes to the creation of a set of `nrRanks` ranks. -/
structure Gathers (nrRanks : Nat) : Prop where
  some : nrRanks ≠ 0
  advances : ∀ eachRank < nrRanks, answers.Advances nrDpus dispatchOnAllRanks eachRank
  ends : answers.Ends nrDpus dispatchOnAllRanks nrRanks
  disables : ∃ set, answers.disabled nrDpus nrRanks = .ok set

/-- The loop ends well at a rank that it does not get, and the call gives no error behind it. -/
structure GoesWithout (nrRanks : Nat) (p : Process) : Prop where
  some : nrRanks ≠ 0
  ends : answers.Ends nrDpus dispatchOnAllRanks nrRanks
  disables : ∀ status, answers.disabled nrDpus nrRanks ≠ .error status
  succeeds : (∃ set, answers.disabled nrDpus nrRanks = .ok set) →
    answers.WorkersStart nrRanks ∧ answers.HasPlace p ∧ answers.PollingStarts p ∧ answers.SgValid

/-- No rank that is asked for is lost once the backend has allocated it, unless the call gives no error, and
nothing fails after the worker threads are created. -/
structure AllocGuarded (p : Process) : Prop where
  keeps : ∀ k, (∀ eachRank < k, answers.Advances nrDpus dispatchOnAllRanks eachRank) →
    answers.Wants nrDpus dispatchOnAllRanks k → answers.HasRoom k →
    answers.KeepsRank k ∨ answers.GoesWithout nrDpus dispatchOnAllRanks k p
  completes : ∀ nrRanks, answers.Gathers nrDpus dispatchOnAllRanks nrRanks → answers.WorkersStart nrRanks →
    answers.Completes p

end Alloc

/-- The same for `dpu_alloc_ranks`, where moreover the reset of no rank fails. -/
structure AllocRanksGuarded (nrRanks : Nat) (p : Process) : Prop where
  keeps : ∀ k < nrRanks, (∀ eachRank < k, answers.Returns eachRank ∧ answers.Resets eachRank) →
    answers.KeepsRank k ∧ (answers.Returns k → answers.Resets k)
  completes : (∀ eachRank < nrRanks, answers.Returns eachRank ∧ answers.Resets eachRank) →
    answers.WorkersStart nrRanks → answers.Completes p

variable {answers}

theorem Returns.keeps {eachRank : Nat} (returns : answers.Returns eachRank) : answers.KeepsRank eachRank := by
  obtain ⟨profile, given, -, keeps⟩ := returns
  intro other atOther _
  obtain rfl := Option.some.inj (given.symm.trans atOther)
  exact keeps

/-- A request is refused and takes nothing, or the backend allocates a rank. -/
theorem dpuGetRankOfType_cases (eachRank : Nat) (p : Process) :
    (answers.answer eachRank ≠ .ok ∧ ¬answers.Returns eachRank ∧ answers.KeepsRank eachRank ∧
        answers.dpuGetRankOfType eachRank p = (answers.answer eachRank, p)) ∨
      ((answers.answer eachRank = .ok ↔ answers.Returns eachRank) ∧
        (answers.KeepsRank eachRank ↔ answers.Returns eachRank) ∧
        answers.dpuGetRankOfType eachRank p = (answers.answer eachRank,
          { p with acquired := p.acquired + 1 })) := by
  have own (profile : Profile) (given : answers.profile = some profile) :
      (answers.inputs eachRank).properties = some profile.properties := by
    simp [inputs, given]
  by_cases registered : ∃ properties, (answers.inputs eachRank).properties = some properties ∧
      (answers.inputs eachRank).Registers properties
  · obtain ⟨properties, atProperties, registers⟩ := registered
    obtain ⟨profile, given, rfl⟩ : ∃ profile, answers.profile = some profile ∧ profile.properties = properties := by
      simpa [inputs] using atProperties
    have returned : (answers.inputs eachRank).dpuGetRankOfType () setupDpuRankList = _ :=
      GetInputs.dpuGetRankOfType_registers atProperties registers
    have ok : answers.answer eachRank = .ok ↔ answers.Keeps eachRank profile.properties := by
      rw [answer, returned, Keeps]
      cases (answers.inputs eachRank).listGrown with
      | false => exact iff_of_false DpuError.noConfusion fun keeps => Bool.noConfusion keeps.1
      | true => exact GetInputs.finishRank_ok_iff.trans (by simp)
    refine .inr ⟨ok.trans ⟨fun keeps => ⟨profile, given, registers, keeps⟩, fun returns => ?_⟩,
      ⟨fun keeps => ⟨profile, given, registers, keeps profile given registers⟩, Returns.keeps⟩, ?_⟩
    · exact returns.keeps profile given registers
    · have listed (grown : Bool) : some () ∈ (dpuRankListAdd grown setupDpuRankList ()).2.ranks := by
        cases grown <;> decide
      have atTable : some () ∈ ((answers.inputs eachRank).dpuGetRankOfType () setupDpuRankList).2.ranks := by
        rw [returned]
        split_ifs <;> exact listed _
      simp only [dpuGetRankOfType, answer, if_pos atTable]
  · obtain ⟨status, failed, returned⟩ :
        ∃ status, status ≠ .ok ∧ (answers.inputs eachRank).dpuGetRankOfType
        () setupDpuRankList = ((status, false), setupDpuRankList) :=
      GetInputs.dpuGetRankOfType_not_registers registered
    have unlisted : some () ∉ (setupDpuRankList : RankTable Unit).ranks := by decide
    have atAnswer : answers.answer eachRank = status := by rw [answer, returned]
    refine .inl ⟨atAnswer ▸ failed, ?_, ?_, ?_⟩
    · rintro ⟨profile, given, registers, -⟩
      exact registered ⟨profile.properties, own profile given, registers⟩
    · exact fun profile given registers => absurd ⟨profile.properties, own profile given, registers⟩ registered
    · simp [dpuGetRankOfType, atAnswer, returned, unlisted]

theorem createThreads_spec (created : Nat → Bool) (rank eachThread left : Nat) (workers : List Nat) :
    ∃ done started, createThreads created rank eachThread left workers = (done,
      workers ++ List.replicate started rank) ∧
      (done = true ↔ ∀ thread < left, created (eachThread + thread) = true) ∧ started ≤ left ∧
      (done = true → started = left) := by
  induction left generalizing eachThread workers with
  | zero => exact ⟨true, 0, by simp [createThreads], by simp, le_rfl, fun _ => rfl⟩
  | succ left ih =>
    unfold createThreads
    by_cases first : created eachThread = true
    · obtain ⟨done, started, result, all, few, full⟩ := ih (eachThread + 1) (workers ++ [rank])
      refine ⟨done, started + 1, ?_, ?_, by omega, fun ended => by rw [full ended]⟩
      · rw [if_pos first, result, List.append_assoc, List.singleton_append, List.replicate_succ]
      · rw [all, Nat.forall_lt_succ_left]
        simp only [Nat.add_zero, first, true_and, Nat.add_assoc, Nat.add_comm 1]
    · refine ⟨false, 0, by simp [first], ?_, Nat.zero_le _, by simp⟩
      simp only [Bool.false_eq_true, false_iff]
      exact fun all => first (by simpa using all 0 (Nat.succ_pos left))

/-- The threads that the loop creates belong to ranks that are done, and all
are there when it ends well. -/
theorem threadJobLoop_spec (eachRank : Nat) (ranks done workers : List Nat) :
    ∃ status done' added, answers.threadJobLoop eachRank ranks done workers = (status, done ++ done',
      workers ++ added) ∧
      (∀ r ∈ added, r ∈ done') ∧ (∀ r ∈ done', r ∈ ranks) ∧
      (status = .ok ↔ ∀ i < ranks.length, answers.RankStarts (eachRank + i)) ∧
      (status = .ok → answers.nrThreads ≠ 0 → ∀ r ∈ ranks, r ∈ added) ∧ (answers.nrThreads = 0 → added = []) := by
  induction ranks generalizing eachRank done workers with
  | nil => exact ⟨.ok, [], [], by simp [threadJobLoop], by simp, by simp, by simp, by simp, by simp⟩
  | cons rank ranks ih =>
    have stops (failed : ¬answers.RankStarts eachRank) :
        DpuError.system = .ok ↔ ∀ i < (rank :: ranks).length, answers.RankStarts (eachRank + i) := by
      simp only [reduceCtorEq, false_iff]
      exact fun all => failed (all 0 (Nat.succ_pos _))
    unfold threadJobLoop
    by_cases noTable : (!answers.jobsTable eachRank) = true
    · rw [if_pos noTable]
      refine ⟨.system, [], [], by simp, by simp, by simp, stops fun starts => ?_, by simp, by simp⟩
      simp [starts.jobsTable] at noTable
    rw [if_neg noTable]
    by_cases noQueue : NR_QUEUES ≤ answers.queueIdx eachRank
    · rw [if_pos noQueue]
      exact ⟨.system, [], [], by simp, by simp, by simp, stops fun starts => by have := starts.queueIdx; omega,
        by simp, by simp⟩
    rw [if_neg noQueue]
    obtain ⟨created, started, threads, all, few, full⟩ :=
      createThreads_spec (answers.threadCreated eachRank) rank 0 answers.nrThreads workers
    simp only [Nat.zero_add] at all
    simp only [threads]
    by_cases allCreated : created = true
    · obtain ⟨status, done', added, result, owned, inside, ok, every, none⟩ :=
        ih (eachRank + 1) (done ++ [rank]) (workers ++ List.replicate started rank)
      have starts : answers.RankStarts eachRank :=
        ⟨by simpa using noTable, not_le.mp noQueue, all.mp allCreated⟩
      refine ⟨status, rank :: done', List.replicate started rank ++ added, ?_, ?_, ?_, ?_, ?_, ?_⟩
      · simp [allCreated, result]
      · intro r member
        rcases List.mem_append.mp member with own | later
        · exact List.mem_cons.mpr (.inl (List.eq_of_mem_replicate own))
        · exact List.mem_cons_of_mem _ (owned r later)
      · exact fun r member => (List.mem_cons.mp member).elim (fun same => same ▸ List.mem_cons_self)
          fun later => List.mem_cons_of_mem _ (inside r later)
      · rw [ok, List.length_cons, Nat.forall_lt_succ_left]
        simp only [Nat.add_zero, starts, true_and, Nat.add_assoc, Nat.add_comm 1]
      · intro ended some r member
        rcases List.mem_cons.mp member with rfl | later
        · exact List.mem_append_left _ (List.mem_replicate.mpr ⟨full allCreated ▸ some, rfl⟩)
        · exact List.mem_append_right _ (every ended some r later)
      · intro zero
        obtain rfl : started = 0 := by omega
        simp [none zero]
    · refine ⟨.system, [rank], List.replicate started rank, by simp [allCreated], fun r member => ?_, by simp,
        stops fun starts => allCreated (all.mpr starts.threads), by simp, fun zero => ?_⟩
      · exact List.mem_singleton.mpr (List.eq_of_mem_replicate member)
      · obtain rfl : started = 0 := by omega
        rfl

theorem foldl_filter_ne (done workers : List Nat) :
    done.foldl (fun workers rank => workers.filter fun r => r ≠ rank) workers = workers.filter fun r =>
      r ∉ done := by
  induction done generalizing workers with
  | nil => simp
  | cons rank done ih =>
    rw [List.foldl_cons, ih, List.filter_filter]
    exact List.filter_congr fun r _ => by simp [Bool.and_comm]

/-- The worker threads of new ranks are created together or not at all. -/
theorem dpuThreadJobCreate_cases {ranks : List Nat} {p : Process} (fresh : ∀ r ∈ ranks, r ∉ p.workers) :
    (answers.WorkersStart ranks.length ∧ ∃ added,
        answers.dpuThreadJobCreate ranks p = (.ok, { p with workers := p.workers ++ added }) ∧
        (∀ r ∈ added, r ∈ ranks) ∧ (answers.nrThreads ≠ 0 → ∀ r ∈ ranks, r ∈ added) ∧
        (answers.nrThreads = 0 → added = [])) ∨
      (¬answers.WorkersStart ranks.length ∧ ∃ status, status ≠ .ok ∧
        answers.dpuThreadJobCreate ranks p = (status, p)) := by
  obtain ⟨status, done, added, result, owned, inside, ok, every, none⟩ :=
    @threadJobLoop_spec answers 0 ranks [] p.workers
  simp only [Nat.zero_add] at ok
  unfold dpuThreadJobCreate
  simp only [result, List.nil_append]
  by_cases ended : status = .ok
  · refine .inl
      ⟨ok.mp ended, added, by rw [if_pos ended], fun r member => inside r (owned r member), every ended, none⟩
  · have joined : (p.workers ++ added).filter (fun r => r ∉ done) = p.workers := by
      have kept : p.workers.filter (fun r => r ∉ done) = p.workers :=
        List.filter_eq_self.mpr fun r member => by
          have other : r ∉ done := fun finished => fresh r (inside r finished) member
          simpa using other
      have gone : added.filter (fun r => r ∉ done) = [] :=
        List.filter_eq_nil_iff.mpr fun r member => by simpa using owned r member
      rw [List.filter_append, kept, gone, List.append_nil]
    refine .inr ⟨fun starts => ended (ok.mpr starts), status, ended, ?_⟩
    rw [if_neg ended, foldl_filter_ne, joined]

theorem pollingThreadCreate_ok_iff (eachQueue left : Nat) (isRunning : Nat → Bool) :
    (answers.pollingThreadCreate eachQueue left isRunning).1 = .ok ↔
      ∀ i < left, (∀ j ≤ i, isRunning (eachQueue + j) = false) →
        answers.condInit (eachQueue + i) = true ∧ answers.pollingCreated (eachQueue + i) = true := by
  induction left generalizing eachQueue isRunning with
  | zero => simp [pollingThreadCreate]
  | succ left ih =>
    unfold pollingThreadCreate
    by_cases running : isRunning eachQueue = true
    · rw [if_pos running]
      refine iff_of_true rfl fun i _ idle => ?_
      have first := idle 0 (Nat.zero_le i)
      rw [Nat.add_zero, running] at first
      cases first
    · have idle : isRunning eachQueue = false := by simpa using running
      have above (j : Nat) : Function.update isRunning eachQueue true (eachQueue + 1 + j) =
          isRunning (eachQueue + (j + 1)) := by
        rw [Function.update_of_ne (by omega), Nat.add_assoc, Nat.add_comm 1]
      have rest (i : Nat) : (∀ j ≤ i + 1, isRunning (eachQueue + j) = false) ↔
          ∀ j ≤ i, Function.update isRunning eachQueue true (eachQueue + 1 + j) = false := by
        simp only [above]
        constructor
        · exact fun all j below => all (j + 1) (Nat.succ_le_succ below)
        · intro all j below
          cases j with
          | zero => exact idle
          | succ j => exact all j (Nat.le_of_succ_le_succ below)
      have now : ∀ j ≤ 0, isRunning (eachQueue + j) = false := by simpa using idle
      rw [if_neg running, Nat.forall_lt_succ_left, imp_iff_right now]
      simp only [Nat.add_zero, rest]
      by_cases cond : answers.condInit eachQueue = true
      · by_cases thread : answers.pollingCreated eachQueue = true
        · simp only [cond, thread, ih, Bool.not_true, Bool.false_eq_true, if_false, and_self, true_and,
            Nat.add_assoc,
            Nat.add_comm 1]
        · simp [cond, thread]
      · simp [cond]

theorem initScatterGatherTransferBuffer_ok_iff : answers.initScatterGatherTransferBuffer = .ok ↔
      answers.SgValid := by
  unfold initScatterGatherTransferBuffer SgValid
  cases answers.profile with
  | none => simp
  | some profile =>
    obtain ⟨properties, dispatchOnAllRanks, sgXferEnabled, sgXferMaxBlockPerDpu⟩ := profile
    cases sgXferMaxBlockPerDpu with
    | none => simp
    | some blocks => cases sgXferEnabled <;> by_cases none : blocks = 0#32 <;> simp [none, sgBufferPoolCreate]

end Answers

/-- The process when an allocation that holds `n` ranks is about to end: the
ranks it has taken, those of them that it does not hold, and the workers it
has started. -/
structure Leaves (before p : Process) (n lost : Nat) (added : List Nat) : Prop where
  acquired : p.acquired = before.acquired + n + lost
  released : p.released = before.released
  workers : p.workers = before.workers ++ added
  owned : ∀ r ∈ added, r ∈ List.range' before.acquired n

section Ends
variable {before p : Process} {n lost : Nat} {added : List Nat}

theorem foldl_dpuFreeRank (ranks : List Nat) (p : Process) :
    ranks.foldl dpuFreeRank p = { p with released := p.released ++ ranks } := by
  induction ranks generalizing p with
  | nil => simp
  | cons rank ranks ih => simp [ih, dpuFreeRank]

/-- The labels that free the held ranks are enough exactly when the call holds
all its ranks and has left no workers and no set. -/
theorem Leaves.freed_atomic_iff (leaves : Leaves before p n lost added) (known : before.Known) :
    Atomic before ((List.range' before.acquired n).foldl dpuFreeRank p) ↔
      lost = 0 ∧ added = [] ∧ p.sets = before.sets := by
  have old (r : Nat) (above : before.acquired ≤ r) : before.released.count r = 0 :=
    List.count_eq_zero.mpr fun member => absurd (known.released r member) (not_lt.mpr above)
  rw [foldl_dpuFreeRank, leaves.released]
  constructor
  · rintro ⟨released, workers, sets⟩
    refine ⟨?_, ?_, sets⟩
    · by_contra some
      have once := released (before.acquired + n) (by omega) (by have := leaves.acquired; simp only; omega)
      simp only [List.count_append, old _ (Nat.le_add_right _ _), Nat.zero_add] at once
      have absent : before.acquired + n ∉ List.range' before.acquired n := by simp
      rw [List.count_eq_zero.mpr absent] at once
      cases once
    · refine List.eq_nil_iff_forall_not_mem.mpr fun r member => ?_
      have own := leaves.owned r member
      have working : r ∈ p.workers := leaves.workers ▸ List.mem_append_right _ member
      have older := known.workers r (workers r working (List.mem_append_right _ own)).1
      have newer := (List.mem_range'_1.mp own).1
      omega
  · rintro ⟨rfl, rfl, sets⟩
    refine ⟨fun r above below => ?_, fun r working released => ?_, sets⟩
    · have own : r ∈ List.range' before.acquired n :=
        List.mem_range'_1.mpr ⟨above, by have := leaves.acquired; simp only at below; omega⟩
      simp only [List.count_append, old r above, Nat.zero_add]
      exact List.count_eq_one_of_mem List.nodup_range' own
    · have worked : r ∈ before.workers := by simpa [leaves.workers] using working
      refine ⟨worked, (List.mem_append.mp released).resolve_right fun own => ?_⟩
      have older := known.workers r worked
      have newer := (List.mem_range'_1.mp own).1
      omega

/-- A call that gives an error is atomic. -/
def AtomicOnError (before : Process) (ended : Outcome × Process) : Prop :=
  ∀ status, ended.1 = .error status → Atomic before ended.2

theorem Leaves.freeRanks_iff (leaves : Leaves before p n lost added) (known : before.Known) (status : DpuError) :
    AtomicOnError before (freeRanks status (List.range' before.acquired n) p) ↔
      lost = 0 ∧ added = [] ∧ p.sets = before.sets := by
  rw [← leaves.freed_atomic_iff known]
  exact ⟨fun atomic => atomic status rfl, fun atomic _ _ => atomic⟩

end Ends

namespace Answers
variable {answers : Answers} {before p : Process} {n : Nat}

theorem setAllocatorRegister_cases (set : List Nat) (p : Process) :
    (answers.HasPlace p ∧ ∃ capacity, answers.setAllocatorRegister set p =
        (.ok, { p with sets := p.sets ++ [set], capacity := capacity })) ∨
      (¬answers.HasPlace p ∧ ∃ capacity,
        answers.setAllocatorRegister set p = (.system, { p with capacity := capacity })) := by
  unfold setAllocatorRegister HasPlace
  by_cases full : p.sets.length = p.capacity
  · by_cases grown : answers.setsGrown = true
    · exact .inl ⟨.inr grown, 2 * p.capacity + 2, by simp [full, grown]⟩
    · exact .inr ⟨by simp [full, grown], 2 * p.capacity + 2, by simp [full, grown]⟩
  · exact .inl ⟨.inl full, p.capacity, by simp [full]⟩

section Set
variable {lost : Nat} (leaves : Leaves before p n lost []) (known : before.Known)
include leaves known

/-- The steps that create a set: the workers do not start and nothing is left,
or the workers stay, with the set or without a place for it. -/
theorem initDpuSet_cases :
    (¬answers.WorkersStart n ∧ ∃ status, status ≠ .ok ∧
        answers.initDpuSet (List.range' before.acquired n) p = (status, p)) ∨
      (answers.WorkersStart n ∧ ∃ status after added,
        answers.initDpuSet (List.range' before.acquired n) p = (status, after) ∧ Leaves before after n lost added ∧
        (n ≠ 0 → (added = [] ↔ answers.nrThreads = 0)) ∧
        ((¬answers.HasPlace p ∧ status ≠ .ok ∧ after.sets = p.sets) ∨
          (answers.HasPlace p ∧ (status = .ok ↔ answers.PollingStarts p) ∧
            after.sets = p.sets ++ [List.range' before.acquired n]))) := by
  have same : p.workers = before.workers := by simpa using leaves.workers
  have fresh : ∀ r ∈ List.range' before.acquired n, r ∉ p.workers := fun r own working => by
    have older := known.workers r (same ▸ working)
    have newer := (List.mem_range'_1.mp own).1
    omega
  unfold initDpuSet
  rcases @dpuThreadJobCreate_cases answers _ p fresh with ⟨starts, added, created, owned, every, none⟩ |
    ⟨stops, status, failed, created⟩
  · rw [List.length_range'] at starts
    have empty (some : n ≠ 0) : added = [] ↔ answers.nrThreads = 0 := by
      have first : before.acquired ∈ List.range' before.acquired n := List.mem_range'_1.mpr ⟨le_rfl, by omega⟩
      exact ⟨fun gone => by_contra fun threads => by simpa [gone] using every threads _ first, none⟩
    have left : Leaves before { p with workers := p.workers ++ added } n lost added :=
      ⟨leaves.acquired, leaves.released, by rw [same], owned⟩
    refine .inr ⟨starts, ?_⟩
    simp only [created, ne_eq, not_true_eq_false, if_false]
    rcases @setAllocatorRegister_cases answers (List.range' before.acquired n)
      { p with workers := p.workers ++ added } with ⟨placed, capacity, registered⟩ | ⟨unplaced,
        capacity, registered⟩
    · have polls : _ ↔ answers.PollingStarts p := @pollingThreadCreate_ok_iff answers 0 NR_QUEUES p.polling |>.trans
        (by simp only [PollingStarts, Nat.zero_add])
      simp only [registered, not_true_eq_false, if_false]
      exact ⟨_, _, added, rfl, ⟨left.acquired, left.released, left.workers, owned⟩, empty,
        .inr ⟨placed, polls, rfl⟩⟩
    · simp only [registered, reduceCtorEq, not_false_eq_true, if_true]
      exact ⟨_, _, added, rfl, ⟨left.acquired, left.released, left.workers, owned⟩, empty,
        .inl ⟨unplaced, DpuError.noConfusion, rfl⟩⟩
  · rw [List.length_range'] at stops
    exact .inl ⟨stops, status, failed, by simp [created, failed]⟩

/-- What follows the choice of the ranks is atomic where the call has not lost a
rank and nothing more fails once the worker threads are there, or where it gives
no error. -/
theorem finishSet_iff (some : n ≠ 0) (sets : p.sets = before.sets) :
    AtomicOnError before (answers.finishSet (List.range' before.acquired n) p) ↔
      lost = 0 ∧ (answers.WorkersStart n → answers.Completes p) ∨
        answers.WorkersStart n ∧ answers.HasPlace p ∧ answers.PollingStarts p ∧ answers.SgValid := by
  unfold finishSet
  rcases @initDpuSet_cases answers before p n lost leaves known with ⟨stops, status, failed, result⟩ |
    ⟨starts, status, after, added, result, left, empty, place⟩
  · simp only [result, ne_eq, failed, not_false_eq_true, if_true, leaves.freeRanks_iff known]
    constructor
    · exact fun kept => .inl ⟨kept.1, fun starts => absurd starts stops⟩
    · rintro (kept | succeeds)
      · exact ⟨kept.1, trivial, sets⟩
      · exact absurd succeeds.1 stops
  · simp only [starts, forall_const, true_and]
    rw [result]
    rcases place with ⟨unplaced, failed, kept⟩ | ⟨placed, ok, longer⟩
    · simp only [ne_eq, failed, not_false_eq_true, if_true, left.freeRanks_iff known, empty some, kept]
      constructor
      · rintro ⟨whole, noThreads, -⟩
        exact .inl
          ⟨whole, .inr noThreads, fun placed => absurd placed unplaced, fun placed => absurd placed unplaced⟩
      · rintro (⟨whole, completes⟩ | succeeds)
        · exact ⟨whole, completes.registers.resolve_left unplaced, sets⟩
        · exact absurd succeeds.1 unplaced
    · have stays (status : DpuError) :
          ¬AtomicOnError before (freeRanks status (List.range' before.acquired n) after) := by
        rw [left.freeRanks_iff known, longer, sets]
        rintro ⟨-, -, shorter⟩
        simpa using congrArg List.length shorter
      by_cases polled : status = .ok
      · by_cases valid : answers.initScatterGatherTransferBuffer = .ok
        · simp only [polled, valid, ne_eq, not_true_eq_false, if_false]
          refine iff_of_true (fun status error => by cases error) (.inr ⟨placed, ok.mp polled, ?_⟩)
          exact initScatterGatherTransferBuffer_ok_iff.mp valid
        · simp only [polled, valid, ne_eq, not_true_eq_false, not_false_eq_true, if_true, if_false]
          refine iff_of_false (stays _) ?_
          rintro (⟨-, completes⟩ | succeeds)
          · exact valid (initScatterGatherTransferBuffer_ok_iff.mpr (completes.sgValid placed))
          · exact valid (initScatterGatherTransferBuffer_ok_iff.mpr succeeds.2.2)
      · simp only [polled, ne_eq, not_false_eq_true, if_true]
        refine iff_of_false (stays _) ?_
        rintro (⟨-, completes⟩ | succeeds)
        · exact polled (ok.mpr (completes.polls placed))
        · exact polled (ok.mpr succeeds.2.1)

end Set

theorem leaves_take (before : Process) (n lost : Nat) :
    Leaves before { before with acquired := before.acquired + n + lost } n lost [] :=
  ⟨rfl, rfl, (List.append_nil _).symm, by simp⟩

theorem Completes.of_succeeds (succeeds : answers.HasPlace p ∧ answers.PollingStarts p ∧ answers.SgValid) :
    answers.Completes p :=
  ⟨.inl succeeds.1, fun _ => succeeds.2.1, fun _ => succeeds.2.2⟩

theorem completes_take (acquired : Nat) :
    answers.Completes { before with acquired := acquired } ↔ answers.Completes before :=
  ⟨fun ⟨registers, polls, valid⟩ => ⟨registers, polls, valid⟩, fun ⟨registers, polls, valid⟩ => ⟨registers,
    polls, valid⟩⟩

section RanksLoop

/-- The loop of `dpu_alloc_ranks` takes ranks up to the first one that is not
returned or not reset, and leaves that rank if the backend has allocated it. -/
theorem allocRanksLoop_spec (left : Nat)
    (taken : ∀ eachRank < n, answers.Returns eachRank ∧ answers.Resets eachRank) :
    ∃ status m lost, answers.allocRanksLoop left (List.range' before.acquired n)
        { before with acquired := before.acquired + n } =
          (status, List.range' before.acquired m, { before with acquired := before.acquired + m + lost }) ∧
      (∀ eachRank < m, answers.Returns eachRank ∧ answers.Resets eachRank) ∧
      ((status = .ok ∧ m = n + left ∧ lost = 0) ∨
        (status ≠ .ok ∧ m < n + left ∧ ¬(answers.Returns m ∧ answers.Resets m) ∧
          (lost = 0 ↔ answers.KeepsRank m ∧ (answers.Returns m → answers.Resets m)))) := by
  induction left generalizing n with
  | zero => exact ⟨.ok, n, 0, rfl, taken, .inl ⟨rfl, rfl, rfl⟩⟩
  | succ left ih =>
    simp only [allocRanksLoop, List.length_range']
    rcases @dpuGetRankOfType_cases answers n { before with acquired := before.acquired + n } with
      ⟨failed, refused, keeps, result⟩ | ⟨ok, keeps, result⟩
    · simp only [result, failed, ne_eq, not_false_eq_true, if_true]
      refine ⟨_, n, 0, rfl, taken, .inr ⟨failed, by omega, fun both => refused both.1, ?_⟩⟩
      exact iff_of_true rfl ⟨keeps, fun returns => absurd returns refused⟩
    · by_cases returns : answers.Returns n
      · by_cases resets : answers.Resets n
        · have status : ((answers.handout n).reset).1 = .ok := resets
          have more : ∀ eachRank < n + 1, answers.Returns eachRank ∧ answers.Resets eachRank :=
            fun eachRank below =>
            (Nat.lt_succ_iff_lt_or_eq.mp below).elim (taken eachRank) fun same => same ▸ ⟨returns, resets⟩
          obtain ⟨status', m, lost, run, all, ending⟩ := ih more
          refine ⟨status', m, lost, ?_, all, ?_⟩
          · rw [← run, List.range'_1_concat]
            simp [result, ok.mpr returns, status, Nat.add_assoc]
          · rw [show n + (left + 1) = n + 1 + left by omega]
            exact ending
        · have status : ((answers.handout n).reset).1 ≠ .ok := resets
          refine ⟨_, n, 1, by simp only [result, ok.mpr returns, ne_eq, not_true_eq_false, if_false, status,
            not_false_eq_true, if_true], taken, .inr ⟨status, by omega, fun both => resets both.2, ?_⟩⟩
          exact iff_of_false Nat.one_ne_zero fun both => resets (both.2 returns)
      · have failed : answers.answer n ≠ .ok := fun ended => returns (ok.mp ended)
        refine ⟨_, n, 1, by simp only [result, ne_eq, failed, not_false_eq_true, if_true], taken,
          .inr ⟨failed, by omega, fun both => returns both.1, ?_⟩⟩
        exact iff_of_false Nat.one_ne_zero fun both => returns (keeps.mp both.1)

/-- `dpu_alloc_ranks` after its first checks. -/
theorem allocRanks_atomic_iff (known : before.Known) {nrRanks : Nat} (some : nrRanks ≠ 0) :
    AtomicOnError before
        (let (status, ranks, p) := answers.allocRanksLoop nrRanks [] before
        if status ≠ .ok then freeRanks status ranks p else answers.finishSet ranks p) ↔
      answers.AllocRanksGuarded nrRanks before := by
  obtain ⟨status, m, lost, run, taken, ending⟩ :=
    @allocRanksLoop_spec answers before 0 nrRanks (fun _ below => absurd below (Nat.not_lt_zero _))
  have run : answers.allocRanksLoop nrRanks [] before =
      (status, List.range' before.acquired m, { before with acquired := before.acquired + m + lost }) := run
  simp only [run]
  rcases ending with ⟨rfl, length, rfl⟩ | ⟨failed, below, stops, kept⟩
  · obtain rfl : m = nrRanks := by omega
    simp only [ne_eq, not_true_eq_false, if_false]
    rw [finishSet_iff (leaves_take before m 0) known some rfl, completes_take]
    constructor
    · intro ended
      refine ⟨fun k below _ => ⟨(taken k below).1.keeps, fun _ => (taken k below).2⟩, fun _ starts => ?_⟩
      exact ended.elim (fun completes => completes.2 starts) fun succeeds => .of_succeeds succeeds.2
    · exact fun guarded => .inl ⟨rfl, fun starts => guarded.completes taken starts⟩
  · rw [if_pos failed, (leaves_take before m lost).freeRanks_iff known, kept]
    rw [Nat.zero_add] at below
    constructor
    · rintro ⟨⟨keeps, resets⟩, -, -⟩
      refine ⟨fun k inside earlier => ?_, fun all => absurd (all m below) stops⟩
      rcases lt_trichotomy k m with before | rfl | after
      · exact ⟨(taken k before).1.keeps, fun _ => (taken k before).2⟩
      · exact ⟨keeps, resets⟩
      · exact absurd (earlier m after) stops
    · exact fun guarded => ⟨guarded.keeps m below taken, rfl, rfl⟩

end RanksLoop

section Loop
variable {nrDpus : Nat} {dispatchOnAllRanks : Bool}

/-- The first `n` ranks that `dpu_alloc` takes. -/
def heldRanks (answers : Answers) (before : Process) (n : Nat) : List HeldRank :=
  (List.range n).map fun k => ⟨before.acquired + k, answers.nextRank k⟩

theorem heldRanks_succ (before : Process) (n : Nat) : answers.heldRanks before (n + 1) =
    answers.heldRanks before n ++ [⟨before.acquired + n, answers.nextRank n⟩] := by
  simp [heldRanks, List.range_succ]

@[simp] theorem heldRanks_length (before : Process) (n : Nat) : (answers.heldRanks before n).length = n := by
  simp [heldRanks]

@[simp] theorem heldRanks_number (before : Process) (n : Nat) :
    (answers.heldRanks before n).map HeldRank.number = List.range' before.acquired n := by
  simp [heldRanks, Function.comp_def, List.range'_eq_map_range]

@[simp] theorem heldRanks_rank (before : Process) (n : Nat) :
    (answers.heldRanks before n).map HeldRank.rank = (List.range n).map answers.nextRank := by
  simp [heldRanks, Function.comp_def]

theorem nrDpusOf_succ (n : Nat) :
    answers.nrDpusOf (n + 1) = answers.nrDpusOf n + getNrOfDpusInRank (answers.nextRank n) := by
  simp [nrDpusOf, List.range_succ]

/-- How the loop of `dpu_alloc` ends: `s` is the first rank that it does not take. -/
structure LoopEnded (answers : Answers) (nrDpus : Nat) (dispatchOnAllRanks : Bool) (status : DpuError)
    (s m lost : Nat) : Prop where
  advances : ∀ k < s, answers.Advances nrDpus dispatchOnAllRanks k
  stops : ¬answers.Advances nrDpus dispatchOnAllRanks s
  keeps : lost = 0 ↔ (answers.Wants nrDpus dispatchOnAllRanks s → answers.HasRoom s → answers.KeepsRank s)
  ok : status = .ok ↔ s ≠ 0 ∧ answers.Ends nrDpus dispatchOnAllRanks s
  exact : status = .ok → m = s

theorem exists_endWithoutRank_iff {status : DpuError} {ranks : List Rank} {current : Nat} :
    (∃ held, endWithoutRank nrDpus dispatchOnAllRanks status ranks current = .ok held) ↔
      status = .allocation ∧ ranks ≠ [] ∧ (nrDpus = DPU_ALLOCATE_ALL ∨ dispatchOnAllRanks = true) ∧
        (dispatchOnAllRanks = true → nrDpus ≤ current) := by
  constructor
  · rintro ⟨held, ended⟩
    exact (endWithoutRank_ok_iff.mp ended).2.2
  · intro ends
    exact ⟨_, endWithoutRank_ok_iff.mpr ⟨rfl, rfl, ends⟩⟩

theorem endWithoutRank_error {status error : DpuError} {ranks : List Rank} {current : Nat}
    (ended : endWithoutRank nrDpus dispatchOnAllRanks status ranks current = .error error) : error = status := by
  unfold endWithoutRank at ended
  split_ifs at ended <;> cases ended <;> rfl

theorem allocLoop_spec (left : Nat) (bound : n + left = nrDpus) (more : left ≠ 0)
    (taken : ∀ k < n, answers.Advances nrDpus dispatchOnAllRanks k)
    (wants : answers.Wants nrDpus dispatchOnAllRanks n) :
    ∃ status s m lost dpus, answers.allocLoop nrDpus dispatchOnAllRanks left (capacityAt n)
        (answers.heldRanks before n) (answers.nrDpusOf n) { before with acquired := before.acquired + n } =
          (status, answers.heldRanks before m, dpus, { before with acquired := before.acquired + m + lost }) ∧
      (status = .ok → dpus = answers.nrDpusOf m) ∧ LoopEnded answers nrDpus dispatchOnAllRanks status s m lost := by
  induction left generalizing n with
  | zero => exact absurd rfl more
  | succ left ih =>
    unfold allocLoop
    simp only [heldRanks_length]
    by_cases full : n = capacityAt n ∧ answers.currentRanksGrown (capacityAt n) = false
    · rw [if_pos full]
      have noRoom : ¬answers.HasRoom n := by
        rintro (room | grown)
        · exact room full.1
        · rw [full.1, full.2] at grown
          cases grown
      refine ⟨_, n, n, 0, _, rfl, fun _ => rfl, taken, fun advances => noRoom advances.room, ?_, ?_, by simp⟩
      · exact iff_of_true rfl fun _ room => absurd room noRoom
      · refine iff_of_false DpuError.noConfusion ?_
        rintro ⟨-, unwanted | ⟨room, -⟩⟩
        · exact unwanted wants
        · exact noRoom room
    have room : answers.HasRoom n := by
      by_cases atCapacity : n = capacityAt n
      · refine .inr ?_
        have grown : answers.currentRanksGrown (capacityAt n) = true := by simpa [← atCapacity] using full
        rwa [← atCapacity] at grown
      · exact .inl atCapacity
    rw [if_neg full]
    rcases @dpuGetRankOfType_cases answers n { before with acquired := before.acquired + n } with
      ⟨failed, refused, keeps, result⟩ | ⟨ok, keeps, result⟩
    · have stops : ¬answers.Advances nrDpus dispatchOnAllRanks n := fun advances => refused advances.returns
      simp only [result, failed, ne_eq, not_false_eq_true, if_true, heldRanks_rank]
      have ended :=
        @exists_endWithoutRank_iff nrDpus dispatchOnAllRanks (answers.answer n) ((List.range n).map answers.nextRank)
        (answers.nrDpusOf n)
      have ends : answers.Ends nrDpus dispatchOnAllRanks n ↔ answers.answer n = .allocation ∧
          (nrDpus = DPU_ALLOCATE_ALL ∨ dispatchOnAllRanks = true) ∧
          (dispatchOnAllRanks = true → nrDpus ≤ answers.nrDpusOf n) := by
        simp [Ends, wants, room]
      cases outcome : endWithoutRank nrDpus dispatchOnAllRanks (answers.answer n)
          ((List.range n).map answers.nextRank) (answers.nrDpusOf n) with
      | error error =>
        obtain rfl := endWithoutRank_error outcome
        refine ⟨_, n, n, 0, _, rfl,
          fun _ => rfl, taken, stops, iff_of_true rfl fun _ _ => keeps, iff_of_false failed ?_, by simp⟩
        rintro ⟨some, atEnd⟩
        obtain ⟨held, good⟩ := ended.mpr ⟨(ends.mp atEnd).1, by simpa using some, (ends.mp atEnd).2⟩
        rw [outcome] at good
        cases good
      | ok held =>
        obtain ⟨last, some, rest⟩ := ended.mp ⟨held, outcome⟩
        refine ⟨_, n, n, 0, _, rfl,
          fun _ => rfl, taken, stops, iff_of_true rfl fun _ _ => keeps, iff_of_true rfl ?_, fun _ => rfl⟩
        exact ⟨by simpa using some, ends.mpr ⟨last, rest⟩⟩
    · by_cases returns : answers.Returns n
      · simp only [result, ok.mpr returns, ne_eq, not_true_eq_false, if_false]
        by_cases resets : answers.Resets n
        · have status : ((answers.handout n).reset).1 = .ok := resets
          have advances : answers.Advances nrDpus dispatchOnAllRanks n := ⟨wants, room, returns, resets⟩
          have taken : ∀ k < n + 1, answers.Advances nrDpus dispatchOnAllRanks k := fun k below =>
            (Nat.lt_succ_iff_lt_or_eq.mp below).elim (taken k) fun same => same ▸ advances
          have held : answers.heldRanks before n ++ [⟨before.acquired + n, (answers.handout n).reset.2⟩] =
              answers.heldRanks before (n + 1) := (heldRanks_succ before n).symm
          have dpus : answers.nrDpusOf n + getNrOfDpusInRank (answers.handout n).reset.2 =
              answers.nrDpusOf (n + 1) :=
            (nrDpusOf_succ n).symm
          simp only [status, not_true_eq_false, if_false, held, dpus]
          by_cases goes : ¬left = 0 ∧ (dispatchOnAllRanks = true ∨ answers.nrDpusOf (n + 1) < nrDpus)
          · rw [if_pos goes]
            exact ih (by omega) goes.1 taken (.inr ⟨by omega, goes.2⟩)
          · have unwanted : ¬answers.Wants nrDpus dispatchOnAllRanks (n + 1) := by
              rintro (zero | ⟨inside, more⟩)
              · exact absurd zero (Nat.succ_ne_zero n)
              · exact goes ⟨by omega, more⟩
            rw [if_neg goes]
            refine ⟨_, n + 1, n + 1, 0, _, rfl,
              fun _ => rfl, taken, fun advances => unwanted advances.wants, ?_, ?_, fun _ => rfl⟩
            · exact iff_of_true rfl fun wanted => absurd wanted unwanted
            · exact iff_of_true rfl ⟨Nat.succ_ne_zero n, .inl unwanted⟩
        · have status : ((answers.handout n).reset).1 ≠ .ok := resets
          simp only [status, not_false_eq_true, if_true]
          refine ⟨_, n, n + 1, 0, _, Prod.ext rfl (Prod.ext (heldRanks_succ before n).symm rfl),
            fun good => absurd good status, taken, fun advances =>
              resets advances.resets, ?_, iff_of_false status ?_, fun good => absurd good status⟩
          · exact iff_of_true rfl fun _ _ => returns.keeps
          · rintro ⟨-, unwanted | ⟨-, last, -⟩⟩
            · exact unwanted wants
            · exact DpuError.noConfusion (last.symm.trans (ok.mpr returns))
      · have failed : answers.answer n ≠ .ok := fun ended => returns (ok.mp ended)
        have stops : ¬answers.Advances nrDpus dispatchOnAllRanks n := fun advances => returns advances.returns
        have loses : ¬(answers.Wants nrDpus dispatchOnAllRanks n → answers.HasRoom n → answers.KeepsRank n) :=
          fun all => returns (keeps.mp (all wants room))
        have ended := @exists_endWithoutRank_iff nrDpus dispatchOnAllRanks (answers.answer n)
          ((List.range n).map answers.nextRank) (answers.nrDpusOf n)
        simp only [result, failed, ne_eq, not_false_eq_true, if_true, heldRanks_rank]
        cases outcome : endWithoutRank nrDpus dispatchOnAllRanks (answers.answer n)
            ((List.range n).map answers.nextRank) (answers.nrDpusOf n) with
        | error error =>
          obtain rfl := endWithoutRank_error outcome
          refine ⟨_, n, n, 1, _, rfl, fun _ => rfl, taken, stops, iff_of_false Nat.one_ne_zero loses,
            iff_of_false failed ?_, fun good => absurd good failed⟩
          rintro ⟨some, unwanted | ⟨-, atEnd⟩⟩
          · exact unwanted wants
          · obtain ⟨held, good⟩ := ended.mpr ⟨atEnd.1, by simpa using some, atEnd.2⟩
            rw [outcome] at good
            cases good
        | ok held =>
          obtain ⟨last, some, rest⟩ := ended.mp ⟨held, outcome⟩
          refine ⟨_, n, n, 1, _, rfl, fun _ => rfl, taken, stops, iff_of_false Nat.one_ne_zero loses,
            iff_of_true rfl ⟨by simpa using some, .inr ⟨room, last, rest⟩⟩, fun _ => rfl⟩

/-- What the end of the loop says about every number of ranks. -/
theorem LoopEnded.forall_iff {status : DpuError} {s m lost : Nat}
    (ended : LoopEnded answers nrDpus dispatchOnAllRanks status s m lost) (p : Process) :
    ((∀ k, (∀ j < k, answers.Advances nrDpus dispatchOnAllRanks j) → answers.Wants nrDpus dispatchOnAllRanks k →
        answers.HasRoom k → answers.KeepsRank k ∨ answers.GoesWithout nrDpus dispatchOnAllRanks k p) ↔
      lost = 0 ∨ answers.GoesWithout nrDpus dispatchOnAllRanks s p) ∧
      ∀ k, k ≠ 0 → (∀ j < k, answers.Advances nrDpus dispatchOnAllRanks j) →
        answers.Ends nrDpus dispatchOnAllRanks k → status = .ok ∧ k = s := by
  constructor
  · rw [ended.keeps]
    constructor
    · intro all
      by_cases without : answers.GoesWithout nrDpus dispatchOnAllRanks s p
      · exact .inr without
      · exact .inl fun wants room => (all s ended.advances wants room).resolve_right without
    · intro last k earlier wants room
      rcases lt_trichotomy k s with before | rfl | after
      · exact .inl (ended.advances k before).returns.keeps
      · exact last.imp_left fun keeps => keeps wants room
      · exact absurd (earlier s after) ended.stops
  · intro k some earlier ends
    rcases lt_trichotomy k s with before | rfl | after
    · have advances := ended.advances k before
      rcases ends with unwanted | ⟨_, last, _⟩
      · exact absurd advances.wants unwanted
      · rcases @dpuGetRankOfType_cases answers k ⟨0, [], [], [], 0, fun _ => false⟩ with ⟨_, refused, _⟩ | ⟨ok, _⟩
        · exact absurd advances.returns refused
        · exact DpuError.noConfusion (last.symm.trans (ok.mpr advances.returns))
    · exact ⟨ended.ok.mpr ⟨some, ends⟩, rfl⟩
    · exact absurd (earlier s after) ended.stops

/-- `dpu_alloc` after its first checks. -/
theorem alloc_atomic_iff (known : before.Known) (some : nrDpus ≠ 0) {profile : Profile}
    (given : answers.profile = Option.some profile) :
    AtomicOnError before (answers.dpuAlloc nrDpus before) ↔
      answers.AllocGuarded nrDpus (profile.dispatchOnAllRanks && decide (nrDpus ≠ DPU_ALLOCATE_ALL)) before := by
  obtain ⟨status, s, m, lost, dpus, run, exact, ended⟩ :=
    @allocLoop_spec answers before 0 nrDpus
      (profile.dispatchOnAllRanks && decide (nrDpus ≠ DPU_ALLOCATE_ALL)) nrDpus
      (Nat.zero_add _) some (fun _ below => absurd below (Nat.not_lt_zero _)) (.inl rfl)
  obtain ⟨keeps, ends⟩ := ended.forall_iff before
  have run : answers.allocLoop nrDpus (profile.dispatchOnAllRanks && decide (nrDpus ≠ DPU_ALLOCATE_ALL)) nrDpus 0
    [] 0 before =
      (status, answers.heldRanks before m, dpus, { before with acquired := before.acquired + m + lost }) := run
  simp only [dpuAlloc, some, if_false, given, run]
  by_cases ok : status = .ok
  · obtain rfl := ended.exact ok
    obtain rfl := exact ok
    obtain ⟨positive, atEnd⟩ := ended.ok.mp ok
    simp only [ok, ne_eq, not_true_eq_false, if_false, heldRanks_number, heldRanks_rank]
    have none (noSet : ¬∃ set, answers.disabled nrDpus m = .ok set) :
        ∀ k, answers.Gathers nrDpus (profile.dispatchOnAllRanks && decide (nrDpus ≠ DPU_ALLOCATE_ALL)) k →
          answers.WorkersStart k → answers.Completes before :=
      fun k gathered => absurd ((ends k gathered.some gathered.advances gathered.ends).2 ▸ gathered.disables) noSet
    have named : disableUnusedDpus answers.disableDpu (answers.nrDpusOf m)
        (if nrDpus = DPU_ALLOCATE_ALL then answers.nrDpusOf m else nrDpus)
        ((List.range m).map answers.nextRank) = answers.disabled nrDpus m := rfl
    rw [named]
    cases disabled : answers.disabled nrDpus m with
    | failedAssertion =>
      refine iff_of_true (fun _ error => by cases error) ⟨keeps.mpr (.inr ⟨positive, atEnd, ?_, ?_⟩), none ?_⟩
      · exact fun status error => by cases disabled.symm.trans error
      all_goals
        rintro ⟨set, good⟩
        cases disabled.symm.trans good
    | error status =>
      simp only
      rw [(leaves_take before m lost).freeRanks_iff known]
      have noSet : ¬∃ set, answers.disabled nrDpus m = .ok set := by
        rintro ⟨set, good⟩
        cases disabled.symm.trans good
      constructor
      · exact fun atomic => ⟨keeps.mpr (.inl atomic.1), none noSet⟩
      · intro guarded
        refine ⟨(keeps.mp guarded.keeps).resolve_right fun without => without.disables status disabled, rfl, rfl⟩
    | ok set =>
      simp only
      rw [finishSet_iff (leaves_take before m lost) known positive rfl, completes_take]
      have gathers : answers.Gathers nrDpus (profile.dispatchOnAllRanks && decide (nrDpus ≠ DPU_ALLOCATE_ALL)) m :=
        ⟨positive, ended.advances, atEnd, ⟨set, disabled⟩⟩
      have only (completes : answers.WorkersStart m → answers.Completes before) (k : Nat)
          (gathered : answers.Gathers nrDpus (profile.dispatchOnAllRanks && decide (nrDpus ≠ DPU_ALLOCATE_ALL)) k) :
          answers.WorkersStart k → answers.Completes before := by
        obtain ⟨-, rfl⟩ := ends k gathered.some gathered.advances gathered.ends
        exact completes
      constructor
      · rintro (⟨rfl, completes⟩ | succeeds)
        · exact ⟨keeps.mpr (.inl rfl), only completes⟩
        · refine ⟨keeps.mpr (.inr ⟨positive, atEnd, fun status error => ?_, fun _ => succeeds⟩), only fun _ => ?_⟩
          · cases disabled.symm.trans error
          · exact .of_succeeds succeeds.2
      · intro guarded
        rcases keeps.mp guarded.keeps with rfl | without
        · exact .inl ⟨rfl, guarded.completes m gathers⟩
        · exact .inr (without.succeeds ⟨set, disabled⟩)
  · simp only [ne_eq, ok, not_false_eq_true, if_true, heldRanks_number]
    rw [(leaves_take before m lost).freeRanks_iff known]
    constructor
    · rintro ⟨whole, -, -⟩
      exact ⟨keeps.mpr (.inl whole),
        fun k gathered => absurd (ends k gathered.some gathered.advances gathered.ends).1 ok⟩
    · intro guarded
      refine ⟨(keeps.mp guarded.keeps).resolve_right fun without => ?_, rfl, rfl⟩
      exact ok (ended.ok.mpr ⟨without.some, without.ends⟩)

end Loop

end Answers

/-- The condition on what a call is given, behind its first checks. -/
def Call.Guarded (answers : Answers) (p : Process) : Call → Prop
  | .alloc nrDpus => AllocFrom nrDpus
  | .allocRanks nrRanks =>
    if nrRanks = DPU_ALLOCATE_ALL then AllocFrom DPU_ALLOCATE_ALL
    else nrRanks ≠ 0 → answers.ranksAllocated = true → answers.AllocRanksGuarded nrRanks p
where
  AllocFrom (nrDpus : Nat) : Prop := nrDpus ≠ 0 → ∀ profile, answers.profile = some profile →
    answers.AllocGuarded nrDpus (profile.dispatchOnAllRanks && decide (nrDpus ≠ DPU_ALLOCATE_ALL)) p

/-- A call that stops at its first checks has taken nothing. -/
theorem atomicOnError_unchanged (p : Process) (outcome : Outcome) : AtomicOnError p (outcome, p) :=
  fun _ _ => ⟨fun _ above below => absurd above (not_le.mpr below),
    fun _ working released => ⟨working, released⟩, rfl⟩

theorem dpuAlloc_atomic_iff {answers : Answers} {p : Process} (known : p.Known) (nrDpus : Nat) :
    AtomicOnError p (answers.dpuAlloc nrDpus p) ↔ Call.Guarded.AllocFrom answers p nrDpus := by
  by_cases zero : nrDpus = 0
  · rw [Answers.dpuAlloc, if_pos zero]
    exact iff_of_true (atomicOnError_unchanged p _) fun some => absurd zero some
  · cases given : answers.profile with
    | none =>
      simp only [Answers.dpuAlloc, if_neg zero, given]
      exact iff_of_true (atomicOnError_unchanged p _) fun _ profile atProfile => by cases given.symm.trans atProfile
    | some profile =>
      rw [Answers.alloc_atomic_iff known zero given]
      constructor
      · intro guarded _ other atOther
        obtain rfl := Option.some.inj (given.symm.trans atOther)
        exact guarded
      · exact fun guarded => guarded zero profile given

/-- An allocation that gives an error has released every rank it acquired once,
has left no worker thread of a released rank and has kept the allocated sets, if
and only if no rank is lost between its allocation by the backend and the
arrays of the call, unless the call gives no error all the same, and nothing
fails after the worker threads are created. -/
theorem run_atomic_iff (answers : Answers) (call : Call) (p : { p : Process // p.Known }) :
    (∀ status, (call.run answers p).1 = .error status → Atomic p (call.run answers p).2) ↔
      call.Guarded answers p := by
  change AtomicOnError p (call.run answers p) ↔ _
  cases call with
  | alloc nrDpus => exact dpuAlloc_atomic_iff p.property nrDpus
  | allocRanks nrRanks =>
    change AtomicOnError p (answers.dpuAllocRanks nrRanks p) ↔ _
    simp only [Call.Guarded, Answers.dpuAllocRanks]
    by_cases all : nrRanks = DPU_ALLOCATE_ALL
    · rw [if_pos all, if_pos all]
      exact dpuAlloc_atomic_iff p.property DPU_ALLOCATE_ALL
    rw [if_neg all, if_neg all]
    by_cases zero : nrRanks = 0
    · rw [if_pos zero]
      exact iff_of_true (atomicOnError_unchanged p _) fun some => absurd zero some
    rw [if_neg zero]
    cases memory : answers.ranksAllocated with
    | false => exact iff_of_true (atomicOnError_unchanged p _) fun _ given => by cases given
    | true =>
      have ranks := @Answers.allocRanks_atomic_iff answers p p.property nrRanks zero
      exact ranks.trans ⟨fun guarded _ _ => guarded, fun guarded => guarded zero rfl⟩

/-- Nothing is allocated yet. -/
def idleProcess : Process :=
  ⟨0, [], [], [], 0, fun _ => false⟩

/-- A call where memory, the backend and the system answer well. Its profile
limits the blocks of scatter/gather transfers, which it does not enable. -/
def blocksWithoutSg : Answers where
  profile := some
    { properties := fun name => if name = .disableResetOnAlloc then some "true" else none
      dispatchOnAllRanks := false
      sgXferEnabled := false
      sgXferMaxBlockPerDpu := some 4#32 }
  currentRanksGrown := fun _ => true
  ranksAllocated := true
  requests := fun _ =>
    { inputs := wellGiven fun _ => none
      rank := halfEnabledRank 0
      call := fun _ => .ok
      agrees := ⟨(halfEnabledRank_agrees 0).1, (halfEnabledRank_agrees 0).2⟩
      enabled := by decide }
  disableDpu := fun _ => .ok
  numaNode := fun _ => -1
  jobsTable := fun _ => true
  threadCreated := fun _ _ => true
  setsGrown := true
  condInit := fun _ => true
  pollingCreated := fun _ => true

/-- The invalid profile is found when the rank has a worker thread and the set
is registered, and both survive the release of the rank. -/
theorem blocksWithoutSg_not_atomic :
    ¬∀ (answers : Answers) (call : Call) (p : { p : Process // p.Known }) status,
      (call.run answers p).1 = .error status → Atomic p (call.run answers p).2 := by
  intro always
  have fails : (Call.run blocksWithoutSg (.allocRanks 1) idleProcess).1 = .error .invalidProfile := by decide
  have sets := (always blocksWithoutSg (.allocRanks 1) ⟨idleProcess, by simp [idleProcess], by simp [idleProcess]⟩
    .invalidProfile fails).sets
  revert sets
  decide

end Upmem.AllocCleanup
