import Upmem.Lib.Transitions
import Upmem.Mask
import Upmem.Profile
import Upmem.Rank
import Mathlib.Data.Finset.Basic

namespace Upmem.RankList
universe u
variable {α : Type u}

/-- `dpu_type_t`. -/
inductive DpuType
  | functionalSimulator | cycleAccurateSimulator | rtlSimulator | hw | backupSpi | scenario
  deriving DecidableEq

def dpuTypeFromProfileString : String → Option DpuType
  | "simulator" => some .functionalSimulator
  | "cas" => some .cycleAccurateSimulator
  | "model" => some .rtlSimulator
  | "hw" => some .hw
  | "spi" => some .backupSpi
  | "scenario" => some .scenario
  | _ => none

def NR_JOBS_PER_RANK_DEFAULT : BitVec 32 := 16#32
def NR_THREADS_PER_RANK_DEFAULT : BitVec 32 := 1#32
def NR_THREADS_PER_RANK_MAX : Nat := 8
def DEBUG_CMDS_BUFFER_SIZE_DEFAULT : BitVec 64 := 1000#64

/-- `dpu_rank_handler_dpu_rank_list`, its size being its length, and the index
that `dpu_rank_handler_next_dpu_rank` points to. -/
structure RankTable (α : Type u) where
  ranks : List (Option α)
  next : Nat

def setupDpuRankList : RankTable α := ⟨[none], 0⟩

/-- The next slot, behind the others where none is empty, if memory for more is found. -/
def dpuRankListUpdateNext (grown : Bool) (table : RankTable α) : Bool × RankTable α :=
  match table.ranks.findIdx? (fun rank => rank.isNone) with
  | some eachRank => (true, { table with next := eachRank })
  | none =>
    let size := table.ranks.length
    -- without memory the source has doubled the size, which is ahead of the slots from then on
    if !grown then (false, table)
    else (true, ⟨table.ranks ++ List.replicate (size * 2 + 1 - size) none, size⟩)

def dpuRankListAdd (grown : Bool) (table : RankTable α) (rank : α) : Bool × RankTable α :=
  dpuRankListUpdateNext grown { table with ranks := table.ranks.set table.next (some rank) }

def dpuRankListRemove [DecidableEq α] (table : RankTable α) (rank : α) : RankTable α :=
  match table.ranks.findIdx? (fun entry => entry = some rank) with
  | some eachRank => { table with ranks := table.ranks.set eachRank none }
  | none => table

/-- What a call of `dpu_get_rank_of_type` is given: the properties of the
profile, unless it is invalid, what the allocations of memory, the backend and
the system answer, and whether the log of the commands is on. -/
structure GetInputs where
  properties : Option Properties
  rankAllocated : Bool
  copied : Property → Bool
  hwInstantiated : Bool
  nrHwRanks : Option Nat
  instantiated : DpuType → Bool
  nextRankId : Bool
  descriptionAllocated : Bool
  topology : Topology
  filled : Bool
  dpusAllocated : Bool
  allocate : (Nat → DpuSelectedMask) → Option (Nat → DpuSelectedMask)
  listGrown : Bool
  sampleStatsAllocated : Bool
  logdEnabled : Bool
  cmdsAllocated : Bool
  mutexAttrInit : Bool
  mutexInit : Bool

namespace GetInputs
variable (inputs : GetInputs)

def determineDefaultBackendType : DpuType :=
  if !inputs.hwInstantiated then .functionalSimulator
  else if inputs.nrHwRanks = some 0 then .functionalSimulator
  else .hw

def determineBackendType (properties : Properties) : Except DpuError DpuType :=
  match fetchStringProperty inputs.copied properties .backend with
  | none => .error .system
  | some none => .ok inputs.determineDefaultBackendType
  | some (some backendString) =>
    match dpuTypeFromProfileString backendString with
    | some type => .ok type
    | none => .error .invalidProfile

/-- `set_generic_description_for_enabled_dpus`, with the DPUs it enables on each control interface. -/
def setGenericDescription (properties : Properties) : Option (Nat → DpuSelectedMask) :=
  match fetchLongProperty properties .disabledMask 0 with
  | none => none
  | some disabledMask =>
    some fun eachCi =>
      let disabledMaskForCi := ((disabledMask >>> (8 * eachCi)) &&& 0xFF#64).truncate 32
      BitVec.ofNat 32 (1 <<< inputs.topology.nrOfDpusPerControlInterface - 1) &&& ~~~disabledMaskForCi

def allDisabled (enabledDpus : Nat → DpuSelectedMask) : Bool :=
  (List.range inputs.topology.nrOfControlInterfaces).all fun eachSlice => enabledDpus eachSlice = 0#32

/-- `dpu_rank_handler_get_rank`. -/
def dpuRankHandlerGetRank (properties : Properties) (rank : α) (table : RankTable α) : Bool × RankTable α :=
  if !inputs.nextRankId then (false, table)
  else if !inputs.descriptionAllocated then (false, table)
  else if !inputs.filled then (false, table)
  else
    match inputs.setGenericDescription properties with
    | none => (false, table)
    | some enabledDpus =>
      -- the fetch of DISABLE_SAFE_CHECKS cannot fail
      if !inputs.dpusAllocated then (false, table)
      else
        match inputs.allocate enabledDpus with
        | none => (false, table)
        | some enabledDpus =>
          if inputs.allDisabled enabledDpus then (false, table) else dpuRankListAdd inputs.listGrown table rank

/-- The texts of a list of properties can be fetched, one after the other. -/
def fetchesStrings (properties : Properties) (names : List Property) : Bool :=
  names.all fun name => (fetchStringProperty inputs.copied properties name).isSome

/-- `dpu_get_profiling_properties`. -/
def dpuGetProfilingProperties (properties : Properties) : DpuError :=
  match fetchStringProperty inputs.copied properties .enableProfiling with
  | none => .invalidProfile
  | some enableProfiling =>
    if !inputs.fetchesStrings properties [.profilingDpuId, .profilingSliceId] then .invalidProfile
    else
      match enableProfiling with
      | none => .ok
      | some profiling =>
        if profiling ∉ ["statistics", "nop", "mcount", "samples", "sections"] then .internal
        else if profiling = "samples" ∧ inputs.sampleStatsAllocated = false then .system
        else if !inputs.fetchesStrings properties [.mcountAddress, .retMcountAddress, .threadProfilingAddress] then
          .invalidProfile
        else .ok

/-- The part of `dpu_get_rank_of_type` after the rank is in the list. The flag
tells whether the function returns without freeing the rank. -/
def finishRank (properties : Properties) : DpuError × Bool :=
  let status := inputs.dpuGetProfilingProperties properties
  if status ≠ .ok then (status, false)
  else
    -- the fetches of DISABLE_MUX_SWITCH and DISABLE_RESET_ON_ALLOC cannot fail
    match fetchIntegerProperty properties .nrJobsPerRank NR_JOBS_PER_RANK_DEFAULT with
    | none => (.invalidProfile, false)
    | some _ =>
      match fetchIntegerProperty properties .nrThreadsPerRank NR_THREADS_PER_RANK_DEFAULT with
      | none => (.invalidProfile, false)
      | some nrThreads =>
        if nrThreads.toNat > NR_THREADS_PER_RANK_MAX then (.invalidProfile, false)
        else
          match fetchLongProperty properties .cmdsBufferSize DEBUG_CMDS_BUFFER_SIZE_DEFAULT with
          | none => (.invalidProfile, false)
          | some _ =>
            if inputs.logdEnabled = true ∧ inputs.cmdsAllocated = false then (.system, true)
            else if !inputs.mutexAttrInit then (.system, false)
            else if !inputs.mutexInit then (.system, false)
            else (.ok, true)

/-- `dpu_get_rank_of_type` for the address that `calloc` gives to the rank. -/
def dpuGetRankOfType (rank : α) (table : RankTable α) : (DpuError × Bool) × RankTable α :=
  match inputs.properties with
  | none => ((.invalidProfile, false), table)
  | some properties =>
    if !inputs.rankAllocated then ((.system, false), table)
    else
      match inputs.determineBackendType properties with
      | .error status => ((status, false), table)
      | .ok type =>
        if !inputs.instantiated type then ((.allocation, false), table)
        else
          match inputs.dpuRankHandlerGetRank properties rank table with
          | (false, table) => ((.allocation, false), table)
          | (true, table) => (inputs.finishRank properties, table)

end GetInputs

/-- The table of the ranks, the ranks returned and not yet freed and the
addresses that hold memory of a rank. -/
structure State (α : Type u) where
  table : RankTable α
  live : Finset α
  allocated : Finset α

inductive Action (α : Type u)
  | get (rank : α) (inputs : GetInputs)
  | free (rank : α)

def initial : State α := ⟨setupDpuRankList, ∅, ∅⟩

/-- The state after a call. -/
def State.after [DecidableEq α] (s : State α) : Action α → State α
  | .get rank inputs =>
    let ((status, kept), table) := inputs.dpuGetRankOfType rank s.table
    { table := table
      live := if status = .ok then insert rank s.live else s.live
      allocated := if kept then insert rank s.allocated else s.allocated }
  | .free rank => ⟨dpuRankListRemove s.table rank, s.live.erase rank, s.allocated.erase rank⟩

/-- The memory of a new rank is free, memory for the list is found, and only ranks that were returned are freed. -/
def State.Allows (s : State α) : Action α → Prop
  | .get rank inputs => rank ∉ s.allocated ∧ inputs.listGrown = true
  | .free rank => rank ∈ s.live

def step [DecidableEq α] (s : State α) (action : Action α) (t : State α) : Prop :=
  s.Allows action ∧ t = s.after action

/-- The pointer to the next slot is in bounds and its slot is empty. -/
def RankTable.NextEmpty (table : RankTable α) : Prop :=
  table.ranks[table.next]? = some none

/-- The list holds every live rank once and no other rank. -/
def State.ListSound [DecidableEq α] (s : State α) : Prop :=
  (∀ rank, s.table.ranks.count (some rank) = if rank ∈ s.live then 1 else 0) ∧ s.table.NextEmpty

theorem dpuRankListUpdateNext_fst (table : RankTable α) : (dpuRankListUpdateNext true table).1 = true := by
  unfold dpuRankListUpdateNext
  cases table.ranks.findIdx? (fun rank => rank.isNone) <;> rfl

theorem dpuRankListUpdateNext_nextEmpty (table : RankTable α) : (dpuRankListUpdateNext true table).2.NextEmpty := by
  unfold dpuRankListUpdateNext RankTable.NextEmpty
  cases found : table.ranks.findIdx? (fun rank => rank.isNone) with
  | some eachRank =>
    obtain ⟨inside, empty, _⟩ := List.findIdx?_eq_some_iff_getElem.mp found
    have atSlot : table.ranks[eachRank] = none := Option.isNone_iff_eq_none.mp empty
    simp [List.getElem?_eq_getElem inside, atSlot]
  | none =>
    have added : 0 < table.ranks.length * 2 + 1 - table.ranks.length := by omega
    simp [added]

theorem dpuRankListUpdateNext_count [DecidableEq α] (table : RankTable α) (rank : α) :
    (dpuRankListUpdateNext true table).2.ranks.count (some rank) = table.ranks.count (some rank) := by
  unfold dpuRankListUpdateNext
  cases table.ranks.findIdx? (fun rank => rank.isNone) with
  | some eachRank => rfl
  | none => simp [List.count_append, List.count_replicate]

theorem dpuRankListAdd_count [DecidableEq α] {table : RankTable α} (empty : table.NextEmpty) (rank other : α) :
    (dpuRankListAdd true table rank).2.ranks.count (some other) =
      table.ranks.count (some other) + if rank = other then 1 else 0 := by
  obtain ⟨inside, atNext⟩ := List.getElem?_eq_some_iff.mp empty
  simp only [dpuRankListAdd, dpuRankListUpdateNext_count]
  rw [List.count_set inside, atNext]
  simp

/-- Removing a rank takes one of its entries out and leaves the other entries. -/
theorem dpuRankListRemove_count [DecidableEq α] (table : RankTable α) (rank other : α) :
    (dpuRankListRemove table rank).ranks.count (some other) =
      table.ranks.count (some other) - if rank = other then 1 else 0 := by
  unfold dpuRankListRemove
  cases found : table.ranks.findIdx? (fun entry => entry = some rank) with
  | some eachRank =>
    obtain ⟨inside, same, _⟩ := List.findIdx?_eq_some_iff_getElem.mp found
    simp only [decide_eq_true_eq] at same
    simp only
    rw [List.count_set inside, same]
    simp
  | none =>
    by_cases equal : rank = other
    · subst equal
      have absent : some rank ∉ table.ranks := by
        intro member
        have differs := List.findIdx?_eq_none_iff.mp found _ member
        simp at differs
      simp [List.count_eq_zero.mpr absent]
    · simp [equal]

theorem dpuRankListRemove_nextEmpty [DecidableEq α] {table : RankTable α} (empty : table.NextEmpty) (rank : α) :
    (dpuRankListRemove table rank).NextEmpty := by
  unfold dpuRankListRemove
  cases table.ranks.findIdx? (fun entry => entry = some rank) with
  | some eachRank =>
    obtain ⟨inside, _⟩ := List.getElem?_eq_some_iff.mp empty
    unfold RankTable.NextEmpty at *
    by_cases same : eachRank = table.next
    · subst same
      simp [List.getElem?_set_self inside]
    · simpa [List.getElem?_set_ne same] using empty
  | none => exact empty

namespace GetInputs
variable {inputs : GetInputs} {properties : Properties} {rank : α} {table : RankTable α}

/-- Every check up to the registration of the rank passes. -/
structure Registers (inputs : GetInputs) (properties : Properties) : Prop where
  rankAllocated : inputs.rankAllocated = true
  handler : ∃ type, inputs.determineBackendType properties = .ok type ∧ inputs.instantiated type = true
  nextRankId : inputs.nextRankId = true
  descriptionAllocated : inputs.descriptionAllocated = true
  filled : inputs.filled = true
  dpusAllocated : inputs.dpusAllocated = true
  enabled : ∃ described enabledDpus, inputs.setGenericDescription properties = some described ∧
    inputs.allocate described = some enabledDpus ∧ inputs.allDisabled enabledDpus = false

/-- The profiling properties can be fetched and name a type of profiling. -/
structure ProfilingValid (inputs : GetInputs) (properties : Properties) : Prop where
  copied : ∀ name ∈ [.enableProfiling, .profilingDpuId, .profilingSliceId],
    (properties name).isSome = true → inputs.copied name = true
  profiling : ∀ profiling, properties .enableProfiling = some profiling →
    profiling ∈ ["statistics", "nop", "mcount", "samples", "sections"] ∧
      (profiling = "samples" → inputs.sampleStatsAllocated = true) ∧
      ∀ name ∈ [.mcountAddress, .retMcountAddress, .threadProfilingAddress],
        (properties name).isSome = true → inputs.copied name = true

/-- The checks after the registration pass. -/
structure PassesChecks (inputs : GetInputs) (properties : Properties) : Prop where
  profiling : inputs.ProfilingValid properties
  nrJobs : (fetchIntegerProperty properties .nrJobsPerRank NR_JOBS_PER_RANK_DEFAULT).isSome = true
  nrThreads : ∃ nrThreads, fetchIntegerProperty properties .nrThreadsPerRank NR_THREADS_PER_RANK_DEFAULT =
    some nrThreads ∧
    nrThreads.toNat ≤ NR_THREADS_PER_RANK_MAX
  cmdsBufferSize : (fetchLongProperty properties .cmdsBufferSize DEBUG_CMDS_BUFFER_SIZE_DEFAULT).isSome = true
  cmdsAllocated : inputs.logdEnabled = true → inputs.cmdsAllocated = true
  mutexAttrInit : inputs.mutexAttrInit = true
  mutexInit : inputs.mutexInit = true

theorem fetchesStrings_iff {names : List Property} :
    inputs.fetchesStrings properties names = true ↔
      ∀ name ∈ names, (properties name).isSome = true → inputs.copied name = true := by
  simp only [fetchesStrings, List.all_eq_true, fetchStringProperty_isSome]

theorem dpuGetProfilingProperties_ok_iff :
    inputs.dpuGetProfilingProperties properties = .ok ↔ inputs.ProfilingValid properties := by
  unfold dpuGetProfilingProperties
  constructor
  · intro passed
    split at passed
    · cases passed
    rename_i enableProfiling fetched
    obtain ⟨given, first⟩ := fetchStringProperty_eq_some.mp fetched
    split at passed
    · cases passed
    rename_i ids
    have copied := fetchesStrings_iff.mp (by simpa using ids)
    refine ⟨by simpa [given] using And.intro first (by simpa using copied), ?_⟩
    intro profiling atProfiling
    obtain rfl : enableProfiling = some profiling := given.symm.trans atProfiling
    simp only at passed
    split_ifs at passed with unknown noSamples addresses
    exact ⟨unknown, by simpa using noSamples, fetchesStrings_iff.mp (by simpa using addresses)⟩
  · intro valid
    have first := valid.copied .enableProfiling (by simp)
    have ids : inputs.fetchesStrings properties [.profilingDpuId, .profilingSliceId] = true :=
      fetchesStrings_iff.mpr fun name member => valid.copied name (List.mem_cons_of_mem _ member)
    rw [fetchStringProperty_eq_some.mpr ⟨rfl, first⟩]
    cases given : properties .enableProfiling with
    | none => simp [ids]
    | some profiling =>
      obtain ⟨known, samples, addresses⟩ := valid.profiling profiling given
      have noSamples : ¬(profiling = "samples" ∧ inputs.sampleStatsAllocated = false) := by simpa using samples
      simp only [ids, not_not.mpr known, noSamples, fetchesStrings_iff.mpr addresses]
      rfl

/-- When the checks pass the rank is returned. -/
theorem finishRank_of_passes (passes : inputs.PassesChecks properties) :
    inputs.finishRank properties = (.ok, true) := by
  obtain ⟨nrJobs, atJobs⟩ := Option.isSome_iff_exists.mp passes.nrJobs
  obtain ⟨nrThreads, atThreads, few⟩ := passes.nrThreads
  obtain ⟨size, atSize⟩ := Option.isSome_iff_exists.mp passes.cmdsBufferSize
  have profiling := dpuGetProfilingProperties_ok_iff.mpr passes.profiling
  have kept : ¬(inputs.logdEnabled = true ∧ inputs.cmdsAllocated = false) := by
    simpa using passes.cmdsAllocated
  simp [finishRank, profiling, atJobs, atThreads, not_lt.mpr few, atSize, kept, passes.mutexAttrInit,
    passes.mutexInit]

theorem finishRank_ok_iff : (inputs.finishRank properties).1 = .ok ↔ inputs.PassesChecks properties := by
  constructor
  · intro passed
    unfold finishRank at passed
    simp only at passed
    split at passed
    · rename_i failed
      exact absurd passed failed
    rename_i profiling
    have profilingValid := dpuGetProfilingProperties_ok_iff.mp (not_not.mp profiling)
    split at passed
    · cases passed
    rename_i nrJobs atJobs
    split at passed
    · cases passed
    rename_i nrThreads atThreads
    split at passed
    · cases passed
    rename_i tooMany
    split at passed
    · cases passed
    rename_i size atSize
    split_ifs at passed with lost attr mutex
    exact
      { profiling := profilingValid
        nrJobs := by simp [atJobs]
        nrThreads := ⟨nrThreads, atThreads, not_lt.mp tooMany⟩
        cmdsBufferSize := by simp [atSize]
        cmdsAllocated := by simpa using lost
        mutexAttrInit := by simpa using attr
        mutexInit := by simpa using mutex }
  · intro passes
    rw [finishRank_of_passes passes]

/-- A rank that registers is added to the table, and the checks that follow are made if
the table has a next slot. -/
theorem dpuGetRankOfType_registers (given : inputs.properties = some properties)
    (registers : inputs.Registers properties) :
    inputs.dpuGetRankOfType rank table =
      if (dpuRankListAdd inputs.listGrown table rank).1 = true then
        (inputs.finishRank properties, (dpuRankListAdd inputs.listGrown table rank).2)
      else ((.allocation, false), (dpuRankListAdd inputs.listGrown table rank).2) := by
  obtain ⟨type, found, instantiated⟩ := registers.handler
  obtain ⟨described, enabledDpus, atDescription, atAllocate, enabled⟩ := registers.enabled
  simp only [dpuGetRankOfType, dpuRankHandlerGetRank, given, registers.rankAllocated, found, instantiated,
    registers.nextRankId, registers.descriptionAllocated, registers.filled, atDescription, registers.dpusAllocated,
    atAllocate, enabled, Bool.not_true, Bool.false_eq_true, if_false]
  rcases dpuRankListAdd inputs.listGrown table rank with ⟨_ | _, after⟩ <;> rfl

/-- The same where memory for the table is found. -/
theorem dpuGetRankOfType_grown (given : inputs.properties = some properties)
    (registers : inputs.Registers properties)
    (grown : inputs.listGrown = true) :
    inputs.dpuGetRankOfType rank table = (inputs.finishRank properties, (dpuRankListAdd true table rank).2) := by
  have next : (dpuRankListAdd true table rank).1 = true := dpuRankListUpdateNext_fst _
  rw [dpuGetRankOfType_registers given registers, grown, if_pos next]

theorem dpuRankHandlerGetRank_cases (properties : Properties) (rank : α) (table : RankTable α) :
    inputs.dpuRankHandlerGetRank properties rank table = (false, table) ∨
      inputs.nextRankId = true ∧ inputs.descriptionAllocated = true ∧ inputs.filled = true ∧
        inputs.dpusAllocated = true ∧
        ∃ described enabledDpus, inputs.setGenericDescription properties = some described ∧
          inputs.allocate described = some enabledDpus ∧ inputs.allDisabled enabledDpus = false := by
  unfold dpuRankHandlerGetRank
  split_ifs with noId noDescription notFilled noDpus
  · exact .inl rfl
  · exact .inl rfl
  · exact .inl rfl
  · split <;> exact .inl rfl
  · split
    · exact .inl rfl
    · rename_i described atDescription
      split
      · exact .inl rfl
      · rename_i enabledDpus atAllocate
        split_ifs with disabled
        · exact .inl rfl
        · simp only [Bool.not_eq_true, Bool.not_eq_false'] at noId noDescription notFilled noDpus disabled
          exact .inr ⟨noId, noDescription, notFilled, noDpus, described, enabledDpus, atDescription,
            atAllocate, disabled⟩

theorem determineBackendType_error (inputs : GetInputs) {status : DpuError}
    (found : inputs.determineBackendType properties = .error status) : status ≠ .ok := by
  unfold determineBackendType at found
  rintro rfl
  split at found
  · cases found
  · cases found
  · split at found <;> cases found

/-- A call that fails before the registration leaves the table and frees the rank. -/
theorem dpuGetRankOfType_not_registers
    (fails : ¬∃ properties, inputs.properties = some properties ∧ inputs.Registers properties) :
    ∃ status, status ≠ .ok ∧ inputs.dpuGetRankOfType rank table = ((status, false), table) := by
  unfold dpuGetRankOfType
  split
  · exact ⟨.invalidProfile, DpuError.noConfusion, rfl⟩
  · rename_i properties given
    split_ifs with noRank
    · exact ⟨.system, DpuError.noConfusion, rfl⟩
    · split
      · rename_i status found
        exact ⟨status, inputs.determineBackendType_error found, rfl⟩
      · rename_i type found
        split_ifs with noHandler
        · exact ⟨.allocation, DpuError.noConfusion, rfl⟩
        · rcases @dpuRankHandlerGetRank_cases _ inputs properties rank table with refused |
            ⟨nextRankId, descriptionAllocated, filled, dpusAllocated, enabled⟩
          · rw [refused]
            exact ⟨.allocation, DpuError.noConfusion, rfl⟩
          · simp only [Bool.not_eq_true, Bool.not_eq_false'] at noRank noHandler
            exact absurd ⟨properties, given, noRank, ⟨type, found, noHandler⟩, nextRankId,
              descriptionAllocated, filled,
              dpusAllocated, enabled⟩ fails

end GetInputs

variable [DecidableEq α] {s t : State α}

/-- What a call does: a rank is refused and leaves no trace, or it is entered
into the table, whether it is then returned or not, or it is freed. -/
theorem step_cases {action : Action α} (taken : step s action t) :
    (∃ rank inputs, action = .get rank inputs ∧
        (¬∃ properties, inputs.properties = some properties ∧ inputs.Registers properties) ∧ t = s) ∨
      (∃ rank inputs properties, action = .get rank inputs ∧ rank ∉ s.allocated ∧
        inputs.properties = some properties ∧ inputs.Registers properties ∧
        t.table = (dpuRankListAdd true s.table rank).2 ∧
        (inputs.PassesChecks properties → t.live = insert rank s.live ∧ t.allocated = insert rank s.allocated) ∧
        (¬inputs.PassesChecks properties → t.live = s.live ∧ s.allocated ⊆ t.allocated)) ∨
      ∃ rank, action = .free rank ∧ rank ∈ s.live ∧
        t = ⟨dpuRankListRemove s.table rank, s.live.erase rank, s.allocated.erase rank⟩ := by
  obtain ⟨allowed, rfl⟩ := taken
  cases action with
  | free rank => exact .inr (.inr ⟨rank, rfl, allowed, rfl⟩)
  | get rank inputs =>
    by_cases registered : ∃ properties, inputs.properties = some properties ∧ inputs.Registers properties
    · obtain ⟨properties, given, registers⟩ := registered
      have returned : inputs.dpuGetRankOfType rank s.table = _ :=
        GetInputs.dpuGetRankOfType_grown given registers allowed.2
      refine .inr (.inl ⟨rank, inputs, properties, rfl, allowed.1, given, registers, ?_, ?_, ?_⟩)
      · simp [State.after, returned]
      · intro passes
        simp [State.after, returned, GetInputs.finishRank_of_passes passes]
      · intro fails
        have failed : (inputs.finishRank properties).1 ≠ .ok := fun ok => fails (GetInputs.finishRank_ok_iff.mp ok)
        simp only [State.after, returned, failed, if_false, true_and]
        split
        · exact Finset.subset_insert _ _
        · exact Finset.Subset.refl _
    · have refused : ∃ status, status ≠ .ok ∧ inputs.dpuGetRankOfType rank s.table = ((status, false), s.table) :=
        GetInputs.dpuGetRankOfType_not_registers registered
      obtain ⟨status, failed, returned⟩ := refused
      exact .inl ⟨rank, inputs, rfl, registered, by simp [State.after, returned, failed]⟩

/-- What holds in every state: the next slot is empty and live ranks have memory. -/
structure State.Held (s : State α) : Prop where
  nextEmpty : s.table.NextEmpty
  live_subset : s.live ⊆ s.allocated

omit [DecidableEq α] in
theorem initial_held : (initial : State α).Held :=
  ⟨rfl, Finset.Subset.refl _⟩

theorem step_held {action : Action α} (held : s.Held) (taken : step s action t) : t.Held := by
  rcases step_cases taken with ⟨rank, inputs, rfl, _, rfl⟩ |
    ⟨rank, inputs, properties, rfl, _, _, _, table, passed, failed⟩ | ⟨rank, rfl, _, rfl⟩
  · exact held
  · refine ⟨by rw [table]; exact dpuRankListUpdateNext_nextEmpty _, ?_⟩
    by_cases passes : inputs.PassesChecks properties
    · rw [(passed passes).1, (passed passes).2]
      exact Finset.insert_subset_insert _ held.live_subset
    · rw [(failed passes).1]
      exact held.live_subset.trans (failed passes).2
  · exact ⟨dpuRankListRemove_nextEmpty held.nextEmpty rank, Finset.erase_subset_erase _ held.live_subset⟩

theorem initial_listSound : (initial : State α).ListSound :=
  ⟨by simp [initial, setupDpuRankList], rfl⟩

/-- A call whose rank, once in the list, is also returned. -/
def KeepsRegistered : Action α → Prop
  | .get _ inputs =>
    ∀ properties, inputs.properties = some properties → inputs.Registers properties → inputs.PassesChecks properties
  | .free _ => True

theorem step_listSound_iff {action : Action α} (held : s.Held) (sound : s.ListSound) (taken : step s action t) :
    t.ListSound ↔ KeepsRegistered action := by
  have after := step_held held taken
  obtain ⟨counts, _⟩ := sound
  rcases step_cases taken with ⟨rank, inputs, rfl, refused, rfl⟩ |
    ⟨rank, inputs, properties, rfl, fresh, given, registers, table, passed, failed⟩ | ⟨rank, rfl, present, rfl⟩
  · have keeps : KeepsRegistered (.get rank inputs) :=
      fun properties given registers => absurd ⟨properties, given, registers⟩ refused
    exact iff_of_true ⟨counts, after.nextEmpty⟩ keeps
  · have absent : rank ∉ s.live := fun member => fresh (held.live_subset member)
    have added (other : α) : t.table.ranks.count (some other) =
        (if other ∈ s.live then 1 else 0) + if rank = other then 1 else 0 := by
      rw [table, dpuRankListAdd_count held.nextEmpty, counts]
    constructor
    · intro sound other atOther _
      obtain rfl := Option.some.inj (given.symm.trans atOther)
      by_contra fails
      have once := (sound.1 rank).symm.trans (added rank)
      simp [(failed fails).1, absent] at once
    · intro keeps
      refine ⟨fun other => ?_, after.nextEmpty⟩
      rw [added, (passed (keeps properties given registers)).1]
      by_cases same : rank = other
      · subst same
        simp [absent]
      · simp [same, Ne.symm same]
  · refine iff_of_true ⟨fun other => ?_, after.nextEmpty⟩ trivial
    simp only [dpuRankListRemove_count, counts, Finset.mem_erase]
    by_cases same : rank = other
    · subst same
      simp [present]
    · simp [same, Ne.symm same]

/-- In every run the list holds exactly the live ranks, and the next slot is
empty, after every call, if and only if every rank that a call enters into the
list passes the later checks of that call. -/
theorem listSound_iff {history : List (Transitions.Transition (State α) (Action α))}
    (run : Transitions.Run step initial history s) :
    (∀ τ ∈ history, τ.after.ListSound) ↔ ∀ τ ∈ history, KeepsRegistered τ.action :=
  run.guarded_iff initial_held (fun _ _ _ => step_held) initial_listSound fun _ _ _ => step_listSound_iff

/-- A call under a given profile where memory, backend and system answer well. -/
def wellGiven (properties : Properties) : GetInputs where
  properties := some properties
  rankAllocated := true
  copied := fun _ => true
  hwInstantiated := true
  nrHwRanks := some 1
  instantiated := fun _ => true
  nextRankId := true
  descriptionAllocated := true
  topology := ⟨8, 8, by decide, eight_le_DPU_MAX_NR_DPUS_PER_CI⟩
  filled := true
  dpusAllocated := true
  allocate := some
  listGrown := true
  sampleStatsAllocated := true
  logdEnabled := false
  cmdsAllocated := true
  mutexAttrInit := true
  mutexInit := true

/-- A profile that only gives the number of threads of the rank. -/
def threadsProfile (nrThreads : String) : Properties
  | .nrThreadsPerRank => some nrThreads
  | _ => none

theorem listSound_iff_twoThreads :
    (initial.after (.get 0 (wellGiven (threadsProfile "2"))) : State Nat).ListSound ∧
      KeepsRegistered (.get 0 (wellGiven (threadsProfile "2")) : Action Nat) := by
  have run : Transitions.Run step (initial : State Nat)
      [⟨initial, .get 0 (wellGiven (threadsProfile "2")), initial.after (.get 0 (wellGiven (threadsProfile "2")))⟩]
      (initial.after (.get 0 (wellGiven (threadsProfile "2")))) :=
    .next .start ⟨⟨Finset.notMem_empty _, rfl⟩, rfl⟩
  have keeps : KeepsRegistered (.get 0 (wellGiven (threadsProfile "2")) : Action Nat) := by
    rintro properties given -
    obtain rfl := Option.some.inj given
    exact
      { profiling := ⟨fun _ _ _ => rfl, fun _ given => by cases given⟩
        nrJobs := rfl
        nrThreads := ⟨2#32, by decide, by decide⟩
        cmdsBufferSize := rfl
        cmdsAllocated := fun _ => rfl
        mutexAttrInit := rfl
        mutexInit := rfl }
  have sound := (listSound_iff run).mpr (List.forall_mem_singleton.mpr keeps)
  exact ⟨sound _ List.mem_cons_self, keeps⟩

/-- Nine threads for each rank are too many, which the call finds when the
rank is already in the list. -/
theorem nineThreads_not_listSound :
    ¬∀ (s : State Nat) history, Transitions.Run step initial history s → s.ListSound := by
  intro always
  have run : Transitions.Run step (initial : State Nat)
      [⟨initial, .get 0 (wellGiven (threadsProfile "9")), _⟩] _ := .next .start ⟨⟨Finset.notMem_empty _, rfl⟩, rfl⟩
  have once := (always _ _ run).1 0
  revert once
  decide

end Upmem.RankList
