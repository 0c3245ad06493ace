import Upmem.Lib.Ledger
import Upmem.Rank

namespace Upmem.RankResources
open Ledger

/-- `DPU_REGION_MODE_*`. -/
inductive RegionMode
  | perf | safe | hybrid
  deriving DecidableEq

/-- `dpu_rank_status_e`. -/
inductive RankStatus
  | success | communicationError | backendError | systemError | invalidPropertyError | enodev
  deriving DecidableEq

/-- What `hw_allocate` reads of a `struct dpu_region_address_translation`. Each backend of the table defines both of
the functions for a rank, or none. -/
structure Translate where
  capHybridControlInterface : Bool
  initRank : Bool
  destroyRank : Bool
  paired : initRank = destroyRank

inductive Resource
  | sysfsRank | rankContext | ciBuffer | ciMapping | regionMapping | registration
  deriving DecidableEq

/-- `hw_dpu_rank_allocation_parameters_t` and the configuration of the description. The backend is the entry of
`backend_translate` for the rank, if it has one. -/
structure AllocationParameters where
  mode : RegionMode
  bypassModuleCompatibility : Bool
  ignoreVpd : Bool
  chipEmulated : Bool
  translate : Translate
  backend : Option Translate

/-- What each step of an allocation returns. -/
structure Outcomes where
  isKernelModuleCompatible : Bool
  getAvailableRank : Int
  rankContext : Bool
  chipIdMatches : Bool
  getByteOrder : RankStatus
  initRank : Int
  ciMalloc : Bool
  ciMmap : Bool
  regionMmap : Bool
  fillSramRepairs : DpuError

/-- `params->translate` from the moment that the backend is filled in. -/
def AllocationParameters.filled (params : AllocationParameters) : Translate :=
  match params.mode with
  | .safe => params.translate
  | _ => params.backend.getD params.translate

/-- The label `free_physical_rank`. -/
def freePhysicalRank : List (Event Resource) := [.release .sysfsRank]

/-- The label `free_rank_context`. -/
def freeRankContext : List (Event Resource) := .release .rankContext :: freePhysicalRank

/-- The label `free_rank`. -/
def freeRank (mode : RegionMode) (translate : Translate) : List (Event Resource) :=
  (if mode ≠ .safe ∧ translate.destroyRank then [.release .registration] else []) ++ freeRankContext

/-- The label `free_ci`. -/
def freeCi (mode : RegionMode) (translate : Translate) : List (Event Resource) :=
  (if mode = .safe ∨ mode = .hybrid ∧ !translate.capHybridControlInterface then [.release .ciBuffer]
    else if mode = .hybrid ∧ translate.capHybridControlInterface then [.release .ciMapping]
    else []) ++ freeRank mode translate

/-- The label `free_ptr_region`. -/
def freePtrRegion (mode : RegionMode) (translate : Translate) : List (Event Resource) :=
  (if mode = .perf then [.release .regionMapping] else []) ++ freeCi mode translate

/-- The defects of the memories, the last step. -/
def applyDefects (params : AllocationParameters) (outcomes : Outcomes) (trace : List (Event Resource)) :
    RankStatus × List (Event Resource) :=
  if !params.chipEmulated ∧ !params.ignoreVpd ∧ outcomes.fillSramRepairs ≠ .ok then
    (.systemError, trace ++ freePtrRegion params.mode params.filled)
  else (.success, trace)

/-- The control interfaces and the region of a mode with a backend. -/
def mapInterfaces (params : AllocationParameters) (outcomes : Outcomes) (translate : Translate)
    (trace : List (Event Resource)) : RankStatus × List (Event Resource) :=
  match params.mode with
  | .hybrid =>
    if !translate.capHybridControlInterface then
      if !outcomes.ciMalloc then (.systemError, trace ++ freeRank params.mode translate)
      else applyDefects params outcomes (trace ++ [.acquire .ciBuffer])
    else if !outcomes.ciMmap then (.systemError, trace ++ freeRank params.mode translate)
    else applyDefects params outcomes (trace ++ [.acquire .ciMapping])
  | _ =>
    if !outcomes.regionMmap then (.systemError, trace ++ freeCi params.mode translate)
    else applyDefects params outcomes (trace ++ [.acquire .regionMapping])

/-- `hw_allocate` after the check of the kernel module. `init_rank` registers the rank when it returns 0, and only
a negative code of it is an error. -/
def allocateRank (params : AllocationParameters) (outcomes : Outcomes) : RankStatus × List (Event Resource) :=
  if outcomes.getAvailableRank ≠ 0 then (.systemError, [])
  else if !outcomes.rankContext then (.systemError, .acquire .sysfsRank :: freePhysicalRank)
  else
    let trace := [.acquire .sysfsRank, .acquire .rankContext]
    if !outcomes.chipIdMatches then (.systemError, trace ++ freeRankContext)
    else if outcomes.getByteOrder ≠ .success then (outcomes.getByteOrder, trace ++ freeRankContext)
    else
      match params.mode with
      | .safe =>
        if !outcomes.ciMalloc then (.systemError, trace ++ freeRankContext)
        else applyDefects params outcomes (trace ++ [.acquire .ciBuffer])
      | _ =>
        match params.backend with
        | none => (.systemError, trace ++ freeRankContext)
        | some translate =>
          if translate.initRank ∧ outcomes.initRank < 0 then (.systemError, trace ++ freeRankContext)
          else
            let trace := trace ++ if translate.initRank ∧ outcomes.initRank = 0 then
              [.acquire .registration] else []
            mapInterfaces params outcomes translate trace

/-- `hw_allocate`: its status, `compatibility_checked`, and what it acquires and releases. -/
def hwAllocate (params : AllocationParameters) (outcomes : Outcomes) (compatibilityChecked : Bool) :
    RankStatus × Bool × List (Event Resource) :=
  if !params.bypassModuleCompatibility ∧ !compatibilityChecked then
    if !outcomes.isKernelModuleCompatible then (.systemError, compatibilityChecked, [])
    else
      let result := allocateRank params outcomes
      (result.1, true, result.2)
  else
    let result := allocateRank params outcomes
    (result.1, compatibilityChecked, result.2)

/-- `hw_free`. -/
def hwFree (mode : RegionMode) (translate : Translate) : List (Event Resource) :=
  (if mode = .perf then .release .regionMapping :: if translate.destroyRank then [.release .registration] else []
    else if mode = .hybrid ∧ translate.capHybridControlInterface then [.release .ciMapping]
    else [.release .ciBuffer]) ++ [.release .sysfsRank, .release .rankContext]

/-- The resources of an allocated rank. -/
def required (mode : RegionMode) (translate : Translate) : List Resource :=
  match mode with
  | .safe => [.ciBuffer, .rankContext, .sysfsRank]
  | .perf => .regionMapping :: ((if translate.initRank then [.registration] else []) ++ [.rankContext, .sysfsRank])
  | .hybrid =>
    (if translate.capHybridControlInterface then .ciMapping else .ciBuffer) ::
      ((if translate.initRank then [.registration] else []) ++ [.rankContext, .sysfsRank])

/-- Every step that the mode of an allocation has succeeds. -/
structure AllStepsSucceed (params : AllocationParameters) (outcomes : Outcomes) : Prop where
  getAvailableRank : outcomes.getAvailableRank = 0
  rankContext : outcomes.rankContext = true
  chipIdMatches : outcomes.chipIdMatches = true
  getByteOrder : outcomes.getByteOrder = .success
  backend : params.mode ≠ .safe → ∃ translate, params.backend = some translate ∧
    (translate.initRank = true → outcomes.initRank = 0)
  ciMalloc : params.mode = .safe ∨ (params.mode = .hybrid ∧ params.filled.capHybridControlInterface = false) →
    outcomes.ciMalloc = true
  ciMmap : params.mode = .hybrid ∧ params.filled.capHybridControlInterface = true → outcomes.ciMmap = true
  regionMmap : params.mode = .perf → outcomes.regionMmap = true
  fillSramRepairs : params.chipEmulated = false → params.ignoreVpd = false → outcomes.fillSramRepairs = .ok

/-- An allocation that starts with no resources succeeds only after every step, holding what the mode requires, and
a failure leaves nothing. -/
def AllocatePaired (params : AllocationParameters) (outcomes : Outcomes)
    (result : RankStatus × List (Event Resource)) :
    Prop :=
  (result.1 = .success → AllStepsSucceed params outcomes ∧
    replay (holding []) result.2 = some (holding (required params.mode params.filled))) ∧
  (result.1 ≠ .success → replay (holding []) result.2 = some (holding []))

/-- `init_rank` is called. -/
structure CallsInitRank (params : AllocationParameters) (outcomes : Outcomes) : Prop where
  getAvailableRank : outcomes.getAvailableRank = 0
  rankContext : outcomes.rankContext = true
  chipIdMatches : outcomes.chipIdMatches = true
  getByteOrder : outcomes.getByteOrder = .success
  mode : params.mode ≠ .safe
  backend : ∃ translate, params.backend = some translate ∧ translate.initRank = true

section Unwind
variable {mode : RegionMode} {translate : Translate}

/-- What `init_rank` leaves when it succeeds. -/
def registered (translate : Translate) : List Resource := if translate.initRank then [.registration] else []

theorem replay_freeRankContext :
    replay (holding [.rankContext, .sysfsRank]) freeRankContext = some (holding []) := by
  rw [freeRankContext, freePhysicalRank, replay_release, replay_release, replay_nil]

theorem replay_freeRank (backend : mode ≠ .safe) :
    replay (holding (registered translate ++ [.rankContext, .sysfsRank]))
    (freeRank mode translate) = some (holding []) := by
  rw [freeRank, registered, translate.paired]
  by_cases destroys : translate.destroyRank = true
  · simp only [destroys, if_true, ne_eq, backend, not_false_eq_true, and_self, List.cons_append, List.nil_append,
      replay_release, replay_freeRankContext]
  · simp only [destroys, and_false, if_false, Bool.false_eq_true, List.nil_append, replay_freeRankContext]

/-- A rank that is not registered is destroyed all the same. -/
theorem replay_freeRank_none (backend : mode ≠ .safe) (destroys : translate.destroyRank = true) :
    replay (holding [.rankContext, .sysfsRank]) (freeRank mode translate) = none := by
  rw [freeRank, if_pos ⟨backend, destroys⟩, List.cons_append]
  exact replay_release_none _ (by decide)

end Unwind

/-- The control interface or the region of a mode. -/
def interfaceOf (mode : RegionMode) (translate : Translate) : Resource :=
  match mode with
  | .safe => .ciBuffer
  | .perf => .regionMapping
  | .hybrid => if translate.capHybridControlInterface then .ciMapping else .ciBuffer

/-- The last label releases what the mode mapped, and goes on. -/
theorem replay_freePtrRegion (mode : RegionMode) (translate : Translate) (held : List Resource) :
    replay (holding (interfaceOf mode translate :: held)) (freePtrRegion mode translate) =
      replay (holding held) (freeRank mode translate) := by
  cases mode with
  | safe => simp [freePtrRegion, freeCi, interfaceOf]
  | perf => simp [freePtrRegion, freeCi, interfaceOf]
  | hybrid => cases cap : translate.capHybridControlInterface <;> simp [freePtrRegion, freeCi, interfaceOf, cap]

section Stages
variable {params : AllocationParameters} {outcomes : Outcomes} {translate : Translate}
  {trace : List (Event Resource)}
  {held : List Resource}

theorem applyDefects_failed (mapped : replay (holding []) trace =
      some (holding (interfaceOf params.mode params.filled :: held)))
    (failed : (applyDefects params outcomes trace).1 ≠ .success) :
    replay (holding []) (applyDefects params outcomes trace).2 = replay (holding held)
    (freeRank params.mode params.filled) := by
  unfold applyDefects at failed ⊢
  split
  · rw [replay_append, mapped, Option.bind_some, replay_freePtrRegion]
  · rename_i fine
    rw [if_neg fine] at failed
    exact absurd rfl failed

theorem applyDefects_success (success : (applyDefects params outcomes trace).1 = .success) :
    (applyDefects params outcomes trace).2 = trace ∧
      (params.chipEmulated = false → params.ignoreVpd = false → outcomes.fillSramRepairs = .ok) := by
  unfold applyDefects at success ⊢
  split at success
  · cases success
  · rename_i fine
    rw [if_neg fine]
    refine ⟨rfl, fun real reads => ?_⟩
    by_contra defect
    exact fine ⟨by simp [real], by simp [reads], defect⟩

/-- What the steps of a mode with a backend need. -/
structure InterfacesSucceed (params : AllocationParameters) (outcomes : Outcomes) : Prop where
  ciMalloc : params.mode = .hybrid ∧ params.filled.capHybridControlInterface = false → outcomes.ciMalloc = true
  ciMmap : params.mode = .hybrid ∧ params.filled.capHybridControlInterface = true → outcomes.ciMmap = true
  regionMmap : params.mode = .perf → outcomes.regionMmap = true
  fillSramRepairs : params.chipEmulated = false → params.ignoreVpd = false → outcomes.fillSramRepairs = .ok

theorem replay_snoc (before : replay (holding []) trace = some (holding held)) (resource : Resource) :
    replay (holding []) (trace ++ [.acquire resource]) = some (holding (resource :: held)) := by
  rw [replay_append, before, Option.bind_some, replay_acquire, replay_nil]

/-- From what is held before them, the last steps end with the interface of the mode,
or in the label `free_rank`. -/
def EndsPaired (params : AllocationParameters) (held : List Resource) (needs : Prop)
    (result : RankStatus × List (Event Resource)) : Prop :=
  (result.1 = .success → needs ∧
    replay (holding []) result.2 = some (holding (interfaceOf params.mode params.filled :: held))) ∧
  (result.1 ≠ .success →
    replay (holding []) result.2 = replay (holding held) (freeRank params.mode params.filled))

theorem applyDefects_ends (before : replay (holding []) trace = some (holding held)) {resource : Resource}
    (interface : interfaceOf params.mode params.filled = resource) {needs : Prop}
    (rest : (params.chipEmulated = false → params.ignoreVpd = false → outcomes.fillSramRepairs = .ok) → needs) :
    EndsPaired params held needs (applyDefects params outcomes (trace ++ [.acquire resource])) := by
  subst interface
  have mapped := replay_snoc before (interfaceOf params.mode params.filled)
  constructor
  · intro success
    obtain ⟨same, defects⟩ := applyDefects_success success
    exact ⟨rest defects, by rw [same, mapped]⟩
  · exact applyDefects_failed mapped

theorem EndsPaired.failed {needs : Prop} {events : List (Event Resource)}
    (before : replay (holding []) trace = some (holding held))
    (label : replay (holding held) events = replay (holding held) (freeRank params.mode params.filled)) :
    EndsPaired params held needs (.systemError, trace ++ events) :=
  ⟨fun success => (by cases success), fun _ => by rw [replay_append, before, Option.bind_some, label]⟩

theorem mapInterfaces_ends (outcomes : Outcomes) (backend : params.mode ≠ .safe)
    (before : replay (holding []) trace = some (holding held)) :
    EndsPaired params held (InterfacesSucceed params outcomes)
    (mapInterfaces params outcomes params.filled trace) := by
  unfold mapInterfaces
  cases mode : params.mode with
  | safe => exact absurd mode backend
  | perf =>
    dsimp only
    split
    · refine EndsPaired.failed before ?_
      rw [freeCi, mode, if_neg (by simp), if_neg (by simp), List.nil_append]
    · rename_i mapped
      refine applyDefects_ends before (by rw [mode]; rfl) fun defects =>
        ⟨?_, ?_, fun _ => by simpa using mapped, defects⟩
      · rintro ⟨hybrid, _⟩
        exact absurd (mode.symm.trans hybrid) (by decide)
      · rintro ⟨hybrid, _⟩
        exact absurd (mode.symm.trans hybrid) (by decide)
  | hybrid =>
    dsimp only
    have notPerf : params.mode = .perf → outcomes.regionMmap = true :=
      fun perf => absurd (mode.symm.trans perf) (by decide)
    split
    · rename_i without
      have without : params.filled.capHybridControlInterface = false := by simpa using without
      split
      · exact EndsPaired.failed before (by rw [mode])
      · rename_i allocated
        refine applyDefects_ends before (by rw [mode, interfaceOf, without]; rfl) fun defects =>
          ⟨fun _ => by simpa using allocated, fun needs => ?_, notPerf, defects⟩
        exact absurd (without.symm.trans needs.2) (by decide)
    · rename_i cap
      have cap : params.filled.capHybridControlInterface = true := by simpa using cap
      split
      · exact EndsPaired.failed before (by rw [mode])
      · rename_i mapped
        refine applyDefects_ends before (by rw [mode, interfaceOf, cap]; rfl) fun defects =>
          ⟨fun needs => ?_, fun _ => by simpa using mapped, notPerf, defects⟩
        exact absurd (needs.2.symm.trans cap) (by decide)

end Stages

theorem required_eq (mode : RegionMode) (translate : Translate) :
    required mode translate = interfaceOf mode translate ::
      ((if mode = .safe then [] else registered translate) ++ [.rankContext, .sysfsRank]) := by
  cases mode <;> rfl

section Allocate
variable {params : AllocationParameters} {outcomes : Outcomes}

/-- A failure that only ran the labels of the context. -/
theorem AllocatePaired.failed {status : RankStatus} (failure : status ≠ .success) {events : List (Event Resource)}
    (unwinds : replay (holding []) events = some (holding [])) : AllocatePaired params outcomes (status, events) :=
  ⟨fun success => absurd success failure, fun _ => unwinds⟩

theorem replay_context : replay (holding []) [.acquire .sysfsRank, .acquire .rankContext] =
    some (holding [Resource.rankContext, .sysfsRank]) := by
  rw [replay_acquire, replay_acquire, replay_nil]

theorem replay_context_freed :
    replay (holding []) ([.acquire .sysfsRank, .acquire .rankContext] ++ freeRankContext) = some (holding []) := by
  rw [replay_append, replay_context, Option.bind_some, replay_freeRankContext]

/-- The steps before the one that depends on the mode succeed. -/
structure RankPrepared (outcomes : Outcomes) : Prop where
  getAvailableRank : outcomes.getAvailableRank = 0
  rankContext : outcomes.rankContext = true
  chipIdMatches : outcomes.chipIdMatches = true
  getByteOrder : outcomes.getByteOrder = .success

theorem safe_paired (prepared : RankPrepared outcomes) (safe : params.mode = .safe)
    (allocated : outcomes.ciMalloc = true) :
    AllocatePaired params outcomes
      (applyDefects params outcomes ([.acquire .sysfsRank, .acquire .rankContext] ++ [.acquire .ciBuffer])) := by
  have buffer : interfaceOf params.mode params.filled = .ciBuffer := by
    rw [safe]
    rfl
  have ends : EndsPaired params [.rankContext, .sysfsRank]
      (params.chipEmulated = false → params.ignoreVpd = false → outcomes.fillSramRepairs = .ok)
      (applyDefects params outcomes ([.acquire .sysfsRank, .acquire .rankContext] ++ [.acquire .ciBuffer])) :=
    applyDefects_ends replay_context buffer id
  constructor
  · intro success
    obtain ⟨defects, held⟩ := ends.1 success
    refine ⟨⟨prepared.getAvailableRank, prepared.rankContext, prepared.chipIdMatches, prepared.getByteOrder,
      fun backend => absurd safe backend, fun _ => allocated, ?_, ?_, defects⟩, ?_⟩
    · rintro ⟨hybrid, _⟩
      exact absurd (safe.symm.trans hybrid) (by decide)
    · intro perf
      exact absurd (safe.symm.trans perf) (by decide)
    · rw [held, required_eq, if_pos safe, List.nil_append]
  · intro failure
    rw [ends.2 failure, freeRank, if_neg (fun both => both.1 safe), List.nil_append, replay_freeRankContext]

section Backend
variable {translate : Translate}

theorem filled_eq (backend : params.mode ≠ .safe) (found : params.backend = some translate) :
    params.filled = translate := by
  rw [AllocationParameters.filled]
  split
  · rename_i safe
    exact absurd safe backend
  · rw [found]
    rfl

/-- A rank that `init_rank` has registered, or whose backend has no such function. -/
theorem registered_paired (prepared : RankPrepared outcomes) (backend : params.mode ≠ .safe)
    (found : params.backend = some translate) (zero : translate.initRank = true → outcomes.initRank = 0) :
    AllocatePaired params outcomes (mapInterfaces params outcomes translate
      ([.acquire .sysfsRank, .acquire .rankContext] ++
        if translate.initRank ∧ outcomes.initRank = 0 then [.acquire .registration] else [])) := by
  have fill := filled_eq backend found
  have before : replay (holding []) ([.acquire .sysfsRank, .acquire .rankContext] ++
      if translate.initRank ∧ outcomes.initRank = 0 then [.acquire .registration] else []) =
      some (holding (registered translate ++ [.rankContext, .sysfsRank])) := by
    rw [replay_append, replay_context, Option.bind_some, registered]
    by_cases defined : translate.initRank = true
    · rw [if_pos ⟨defined, zero defined⟩, if_pos defined, replay_acquire, replay_nil]
      rfl
    · rw [if_neg fun both => defined both.1, if_neg defined, replay_nil]
      rfl
  have ends := mapInterfaces_ends outcomes backend before
  rw [fill] at ends
  constructor
  · intro success
    obtain ⟨interfaces, held⟩ := ends.1 success
    refine ⟨⟨prepared.getAvailableRank, prepared.rankContext, prepared.chipIdMatches, prepared.getByteOrder,
      fun _ => ⟨translate, found,
        zero⟩, ?_, interfaces.ciMmap, interfaces.regionMmap, interfaces.fillSramRepairs⟩, ?_⟩
    · rintro (safe | needs)
      · exact absurd safe backend
      · exact interfaces.ciMalloc needs
    · rw [held, required_eq, if_neg backend, fill]
  · intro failure
    rw [ends.2 failure, fill, replay_freeRank backend]

/-- A rank that is not registered, when `init_rank` has returned a positive code and the code goes on. -/
theorem unregistered_not_paired (backend : params.mode ≠ .safe) (found : params.backend = some translate)
    (defined : translate.initRank = true) (positive : 0 < outcomes.initRank) :
    ¬AllocatePaired params outcomes
      (mapInterfaces params outcomes translate [.acquire .sysfsRank, .acquire .rankContext]) := by
  intro paired
  have fill := filled_eq backend found
  have ends := mapInterfaces_ends outcomes backend replay_context
  rw [fill] at ends
  by_cases success :
    (mapInterfaces params outcomes translate [.acquire .sysfsRank, .acquire .rankContext]).1 = .success
  · obtain ⟨other, some_, zero⟩ := (paired.1 success).1.backend backend
    rw [found] at some_
    cases some_
    have := zero defined
    omega
  · have unwound := (ends.2 success).symm.trans (paired.2 success)
    rw [replay_freeRank_none backend (by rw [fill, ← translate.paired]; exact defined)] at unwound
    cases unwound

end Backend

/-- An allocation is paired unless `init_rank` is called and returns a positive code. -/
theorem allocateRank_paired_iff : AllocatePaired params outcomes (allocateRank params outcomes) ↔
    (CallsInitRank params outcomes → outcomes.initRank ≤ 0) := by
  unfold allocateRank
  by_cases available : outcomes.getAvailableRank = 0
  case neg =>
    rw [if_pos available]
    exact ⟨fun _ calls => absurd calls.getAvailableRank available, fun _ => .failed (by decide) rfl⟩
  rw [if_neg (not_not.mpr available)]
  by_cases context : outcomes.rankContext = true
  case neg =>
    rw [if_pos (by simpa using context)]
    refine ⟨fun _ calls => absurd calls.rankContext context, fun _ => .failed (by decide) ?_⟩
    rw [freePhysicalRank, replay_acquire, replay_release, replay_nil]
  rw [if_neg (by simpa using context)]
  by_cases chipId : outcomes.chipIdMatches = true
  case neg =>
    rw [if_pos (by simpa using chipId)]
    exact ⟨fun _ calls => absurd calls.chipIdMatches chipId, fun _ => .failed (by decide) replay_context_freed⟩
  rw [if_neg (by simpa using chipId)]
  by_cases byteOrder : outcomes.getByteOrder = .success
  case neg =>
    rw [if_pos byteOrder]
    exact ⟨fun _ calls => absurd calls.getByteOrder byteOrder, fun _ => .failed byteOrder replay_context_freed⟩
  rw [if_neg (not_not.mpr byteOrder)]
  have prepared : RankPrepared outcomes := ⟨available, context, chipId, byteOrder⟩
  dsimp only
  split
  · rename_i safe
    refine ⟨fun _ calls => absurd safe calls.mode, fun _ => ?_⟩
    split
    · exact .failed (by decide) replay_context_freed
    · rename_i allocated
      exact safe_paired prepared safe (by simpa using allocated)
  rename_i notSafe
  have backend : params.mode ≠ .safe := fun safe => notSafe safe
  cases found : params.backend with
  | none =>
    refine ⟨fun _ calls => ?_, fun _ => .failed (by decide) replay_context_freed⟩
    obtain ⟨translate, some_, _⟩ := calls.backend
    exact absurd (found.symm.trans some_) (by simp)
  | some translate =>
    dsimp only
    split
    · rename_i refused
      exact ⟨fun _ _ => by omega, fun _ => .failed (by decide) replay_context_freed⟩
    rename_i notRefused
    by_cases positive : translate.initRank = true ∧ 0 < outcomes.initRank
    · rw [if_neg (by omega), List.append_nil]
      refine ⟨fun paired =>
        absurd paired (unregistered_not_paired backend found positive.1 positive.2), fun nonpositive => ?_⟩
      have code := nonpositive ⟨available, context, chipId, byteOrder, backend, translate, found, positive.1⟩
      omega
    · have zero : translate.initRank = true → outcomes.initRank = 0 := by
        intro defined
        by_contra other
        rcases lt_or_gt_of_ne other with negative | above
        · exact notRefused ⟨defined, negative⟩
        · exact positive ⟨defined, above⟩
      refine ⟨fun _ calls => ?_, fun _ => registered_paired prepared backend found zero⟩
      obtain ⟨other, some_, defined⟩ := calls.backend
      rw [found] at some_
      cases some_
      exact le_of_eq (zero defined)

end Allocate

/-- A rank is freed with all its resources unless it was registered for the hybrid mode. -/
theorem hwFree_paired_iff (mode : RegionMode) (translate : Translate) :
    replay (holding (required mode translate)) (hwFree mode translate) = some (holding []) ↔
      ¬(mode = .hybrid ∧ translate.initRank = true) := by
  have tail : replay (holding [Resource.rankContext, .sysfsRank]) [.release .sysfsRank, .release .rankContext] =
      some (holding []) := by
    rw [holding_perm (List.Perm.swap _ _ _), replay_release, replay_release, replay_nil]
  cases mode with
  | safe => simp [required, hwFree, tail]
  | perf =>
    simp only [required, hwFree, if_true, translate.paired]
    cases translate.destroyRank <;> simp [tail]
  | hybrid =>
    have registeredOnly : replay (holding [Resource.registration, .rankContext, .sysfsRank])
        [.release .sysfsRank, .release .rankContext] = some (holding [.registration]) := by
      rw [holding_perm (show [Resource.registration, .rankContext, .sysfsRank].Perm
        [.sysfsRank, .rankContext, .registration] by decide), replay_release, replay_release, replay_nil]
    have left : some (holding [Resource.registration]) ≠ some (holding []) :=
      fun same => absurd (holding_inj_nil (Option.some.inj same)) (by decide)
    simp only [required, hwFree, reduceCtorEq, if_false, true_and]
    cases translate.capHybridControlInterface <;> cases translate.initRank <;>
      simp [tail, registeredOnly, left]

/-- A rank that is allocated, with the mode and the backend it was allocated with. -/
structure AllocatedRank where
  mode : RegionMode
  translate : Translate

/-- The state of the ranks: those that are allocated, and all that was acquired and released for each. -/
structure Ranks where
  compatibilityChecked : Bool
  allocated : Nat → Option AllocatedRank
  events : Nat → List (Event Resource)

/-- A call. Only a rank that is not allocated is allocated, and only one that is gets freed. -/
inductive Call
  | allocate (rank : Nat) (params : AllocationParameters) (outcomes : Outcomes)
  | free (rank : Nat)

def Ranks.exec (s : Ranks) : Call → Ranks
  | .allocate rank params outcomes =>
    if s.allocated rank = none then
      let (status, compatibilityChecked, trace) := hwAllocate params outcomes s.compatibilityChecked
      { compatibilityChecked := compatibilityChecked
        allocated := if status = .success then Function.update s.allocated rank
          (some ⟨params.mode, params.filled⟩) else s.allocated
        events := Function.update s.events rank (s.events rank ++ trace) }
    else s
  | .free rank =>
    match s.allocated rank with
    | none => s
    | some allocated =>
      { s with
        allocated := Function.update s.allocated rank none
        events := Function.update s.events rank (s.events rank ++ hwFree allocated.mode allocated.translate) }

/-- The resources of a rank in a state. -/
def owed : Option AllocatedRank → List Resource
  | none => []
  | some allocated => required allocated.mode allocated.translate

/-- Each rank that is allocated holds what its mode requires, once, and any other rank holds nothing. -/
def Ranks.Accounted (s : Ranks) : Prop :=
  ∀ rank, replay (holding []) (s.events rank) = some (holding (owed (s.allocated rank)))

/-- The kernel module is accepted. -/
def passesCheck (params : AllocationParameters) (outcomes : Outcomes) (compatibilityChecked : Bool) : Prop :=
  params.bypassModuleCompatibility = true ∨ compatibilityChecked = true ∨ outcomes.isKernelModuleCompatible = true

/-- An allocation of a rank that is not allocated succeeds only behind the check of the
driver and holds what it is to hold or nothing, and a release returns everything. -/
def Ranks.CallPaired (s : Ranks) : Call → Prop
  | .allocate rank params outcomes => s.allocated rank = none →
    ((hwAllocate params outcomes s.compatibilityChecked).1 = .success →
      passesCheck params outcomes s.compatibilityChecked) ∧
    AllocatePaired params outcomes ((hwAllocate params outcomes s.compatibilityChecked).1,
      (hwAllocate params outcomes s.compatibilityChecked).2.2)
  | .free rank => ∀ allocated, s.allocated rank = some allocated →
    replay (holding []) (s.events rank ++ hwFree allocated.mode allocated.translate) = some (holding [])

/-- The condition on a call: `init_rank`, when it is called, returns no positive code;
a rank that was registered for the hybrid mode is not freed. -/
def Ranks.CallMeets (s : Ranks) : Call → Prop
  | .allocate rank params outcomes => s.allocated rank = none → passesCheck params outcomes s.compatibilityChecked →
    CallsInitRank params outcomes → outcomes.initRank ≤ 0
  | .free rank => ∀ allocated, s.allocated rank = some allocated →
    ¬(allocated.mode = .hybrid ∧ allocated.translate.initRank = true)

/-- Before each call of a sequence and at its end the resources are accounted for, and each call pairs what it
acquires with what it releases. -/
def RunPaired : Ranks → List Call → Prop
  | s, [] => s.Accounted
  | s, call :: calls => s.Accounted ∧ s.CallPaired call ∧ RunPaired (s.exec call) calls

def RunMeets : Ranks → List Call → Prop
  | _, [] => True
  | s, call :: calls => s.CallMeets call ∧ RunMeets (s.exec call) calls

section Runs
variable {params : AllocationParameters} {outcomes : Outcomes} {compatibilityChecked : Bool}

theorem hwAllocate_passes (passes : passesCheck params outcomes compatibilityChecked) :
    (hwAllocate params outcomes compatibilityChecked).1 = (allocateRank params outcomes).1 ∧
      (hwAllocate params outcomes compatibilityChecked).2.2 = (allocateRank params outcomes).2 := by
  unfold hwAllocate
  split
  · rename_i checks
    have compatible : outcomes.isKernelModuleCompatible = true := by
      rcases passes with bypass | checked | compatible
      · simp [bypass] at checks
      · simp [checked] at checks
      · exact compatible
    simp [compatible]
  · exact ⟨rfl, rfl⟩

theorem hwAllocate_refused (refused : ¬passesCheck params outcomes compatibilityChecked) :
    hwAllocate params outcomes compatibilityChecked = (.systemError, compatibilityChecked, []) := by
  simp only [passesCheck, not_or, Bool.not_eq_true] at refused
  simp [hwAllocate, refused.1, refused.2.1, refused.2.2]

theorem Ranks.Accounted.call_paired_iff {s : Ranks} (accounted : s.Accounted) (call : Call) :
    s.CallPaired call ↔ s.CallMeets call := by
  cases call with
  | allocate rank params outcomes =>
    refine imp_congr_right fun _ => ?_
    by_cases passes : passesCheck params outcomes s.compatibilityChecked
    · obtain ⟨status, trace⟩ := hwAllocate_passes passes
      rw [status, trace]
      simp only [passes, implies_true, true_and, forall_const]
      exact allocateRank_paired_iff
    · rw [hwAllocate_refused passes]
      exact ⟨fun _ accepted => absurd accepted passes, fun _ => ⟨fun success => (by cases success),
        .failed (fun success => by cases success) rfl⟩⟩
  | free rank =>
    refine forall_congr' fun allocated => imp_congr_right fun at_rank => ?_
    rw [replay_append, accounted rank, at_rank, Option.bind_some]
    exact hwFree_paired_iff allocated.mode allocated.translate

theorem Ranks.Accounted.exec {s : Ranks} (accounted : s.Accounted) {call : Call} (paired : s.CallPaired call) :
    (s.exec call).Accounted := by
  intro other
  cases call with
  | allocate rank params outcomes =>
    rw [Ranks.exec]
    split
    · rename_i free
      obtain ⟨_, success, failure⟩ := paired free
      by_cases same : other = rank
      · subst same
        have before := accounted other
        rw [free] at before
        simp only [Function.update_self]
        rw [replay_append, before, Option.bind_some, owed]
        by_cases allocated : (hwAllocate params outcomes s.compatibilityChecked).1 = .success
        · rw [if_pos allocated, Function.update_self]
          exact (success allocated).2
        · rw [if_neg allocated, free]
          exact failure allocated
      · have kept := accounted other
        by_cases allocated : (hwAllocate params outcomes s.compatibilityChecked).1 = .success
        · simp only [if_pos allocated, Function.update_of_ne same]
          exact kept
        · simp only [if_neg allocated, Function.update_of_ne same]
          exact kept
    · exact accounted other
  | free rank =>
    rw [Ranks.exec]
    split
    · exact accounted other
    · rename_i allocated at_rank
      by_cases same : other = rank
      · subst same
        simp only [Function.update_self]
        exact paired allocated at_rank
      · simp only [Function.update_of_ne same]
        exact accounted other

theorem Ranks.Accounted.run_paired_iff {s : Ranks} (accounted : s.Accounted) (calls : List Call) :
    RunPaired s calls ↔ RunMeets s calls := by
  induction calls generalizing s with
  | nil => exact ⟨fun _ => trivial, fun _ => accounted⟩
  | cons call calls ih =>
    rw [RunPaired, RunMeets, accounted.call_paired_iff call]
    constructor
    · rintro ⟨_, meets, rest⟩
      exact ⟨meets, (ih (accounted.exec ((accounted.call_paired_iff call).mpr meets))).mp rest⟩
    · rintro ⟨meets, rest⟩
      exact ⟨accounted, meets, (ih (accounted.exec ((accounted.call_paired_iff call).mpr meets))).mpr rest⟩

end Runs

/-- No rank is allocated yet. -/
def noRanks (compatibilityChecked : Bool) : Ranks := ⟨compatibilityChecked, fun _ => none, fun _ => []⟩

/-- The resources of the ranks are paired in a sequence of calls exactly when each call meets the condition. -/
theorem runPaired_iff (compatibilityChecked : Bool) (calls : List Call) :
    RunPaired (noRanks compatibilityChecked) calls ↔ RunMeets (noRanks compatibilityChecked) calls :=
  Ranks.Accounted.run_paired_iff (fun _ => rfl) calls

/-- `xeon_sp_translate`. -/
def xeonSpTranslate : Translate := ⟨false, true, true, rfl⟩

/-- A rank in the mode `perf` on that backend. -/
def perfParameters : AllocationParameters := ⟨.perf, true, true, false, xeonSpTranslate, some xeonSpTranslate⟩

/-- A thread of the pool cannot be created: `pthread_create` returns 11. -/
def noThread : Outcomes := ⟨true, 0, true, true, .success, 11, true, true, true, .ok⟩

theorem noThread_not_paired : ¬RunPaired (noRanks false) [.allocate 0 perfParameters noThread, .free 0] := by
  rintro ⟨_, paired, _⟩
  have success := (paired rfl).2.1 rfl
  obtain ⟨translate, found, zero⟩ := success.1.backend (by decide)
  cases found
  exact absurd (zero rfl) (by decide)

def MAX_NB_CHANNEL : Nat := 31

/-- The channel that counts the regions of a rank. -/
def countedChannel (channelId : Nat) : Nat := if channelId > MAX_NB_CHANNEL then MAX_NB_CHANNEL - 1 else channelId

/-- `xeon_sp_init_rank`, on the counts of the channels, with what `pthread_barrier_init` and each `pthread_create`
return. -/
def xeonSpInitRank (nbRegionPerChannel : Nat → BitVec 32) (channelId : Nat) (barrierInit : Int)
    (threadCreate : List Int) :
    Int × (Nat → BitVec 32) :=
  let channel := countedChannel channelId
  let counted := Function.update nbRegionPerChannel channel (nbRegionPerChannel channel + 1)
  let uncounted := Function.update counted channel (counted channel - 1)
  if nbRegionPerChannel channel > 0#32 then (0, counted)
  else if barrierInit ≠ 0 then (barrierInit, uncounted)
  else
    match threadCreate.find? (· ≠ 0) with
    | some ret => (ret, uncounted)
    | none => (0, counted)

/-- The count of `xeon_sp_destroy_rank`. -/
def xeonSpDestroyRank (nbRegionPerChannel : Nat → BitVec 32) (channelId : Nat) : Nat → BitVec 32 :=
  let channel := countedChannel channelId
  Function.update nbRegionPerChannel channel (nbRegionPerChannel channel - 1)

/-- `xeon_sp_init_rank` counts the rank exactly when it returns 0, and destroying the rank then undoes it. -/
theorem xeonSpInitRank_counts (nbRegionPerChannel : Nat → BitVec 32) (channelId : Nat) (barrierInit : Int)
    (threadCreate : List Int) :
    let result := xeonSpInitRank nbRegionPerChannel channelId barrierInit threadCreate
    (result.1 = 0 ∧ xeonSpDestroyRank result.2 channelId = nbRegionPerChannel) ∨
      (result.1 ≠ 0 ∧ result.2 = nbRegionPerChannel) := by
  have undone : Function.update (Function.update nbRegionPerChannel (countedChannel channelId)
      (nbRegionPerChannel (countedChannel channelId) + 1)) (countedChannel channelId)
      (nbRegionPerChannel (countedChannel channelId) + 1 - 1) = nbRegionPerChannel := by
    rw [Function.update_idem, BitVec.add_sub_cancel, Function.update_eq_self]
  unfold xeonSpInitRank xeonSpDestroyRank
  dsimp only
  rw [Function.update_self]
  split
  · exact Or.inl ⟨rfl, by simpa only [Function.update_self] using undone⟩
  split
  · rename_i failed
    exact Or.inr ⟨failed, undone⟩
  split
  · rename_i ret found
    exact Or.inr ⟨by simpa using List.find?_some found, undone⟩
  · exact Or.inl ⟨rfl, by simpa only [Function.update_self] using undone⟩

end Upmem.RankResources
