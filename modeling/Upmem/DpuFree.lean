import Mathlib.Logic.Function.Basic
import Upmem.Rank

namespace Upmem.DpuFree

/-- A pointer into an array of ranks. -/
structure RanksPtr where
  array : Nat
  index : Nat
  deriving DecidableEq

/-- A `dpu_set_t` of kind `DPU_SET_RANKS`. -/
structure RanksSet where
  nrRanks : Nat
  ranks : RanksPtr
  deriving DecidableEq

/-- The pointers of a `struct sg_xfer_buffer`. -/
structure SgXferBuffer where
  blocksAddr : Option Nat
  blocksLength : Option Nat

/-- The fields of `rank->api` for scatter/gather transfers. -/
structure RankApi where
  sgXferEnabled : Bool
  sgBufferPool : Nat → SgXferBuffer

/-- What `dpu_free` reads and writes: the registry, the arrays of ranks and the
ranks that are allocated, the buffers that are, and the ranks whose threads run. -/
structure State where
  sets : List RanksSet
  arrays : Nat → Option (List Nat)
  ranks : Nat → Option RankApi
  buffers : Nat → Bool
  workers : List Nat

/-- The rank at a pointer and an index, unless the memory is not allocated. -/
def State.rankAt (state : State) (ranks : RanksPtr) (eachRank : Nat) : Option Nat :=
  (state.arrays ranks.array).bind fun array => array[ranks.index + eachRank]?

/-- `free`, which must not be given a buffer twice. -/
def State.free (state : State) (buffer : Nat) : Option State :=
  if state.buffers buffer then some { state with buffers := Function.update state.buffers buffer false } else none

/-- `sg_buffer_pool_free`. There is no result where memory is accessed that is not allocated. -/
def sgBufferPoolFree (set : RanksSet) (state : State) : Option (DpuError × State) :=
  (state.rankAt set.ranks 0).bind fun first => (state.ranks first).bind fun api =>
    if api.sgXferEnabled = false then some (.ok, state)
    else
      match (api.sgBufferPool 0).blocksAddr with
      | none => some (.internal, state)
      | some blocksAddr => (state.free blocksAddr).bind fun state =>
        match (api.sgBufferPool 0).blocksLength with
        | none => some (.internal, state)
        | some blocksLength => (state.free blocksLength).map fun state =>
          (.ok,
            { state with ranks := Function.update state.ranks first (some { api with sgXferEnabled := false }) })

/-- `set_allocator_unregister`, which moves the sets behind the one found. -/
def setAllocatorUnregister (set : RanksSet) (state : State) : DpuError × State :=
  if set ∈ state.sets then (.ok, { state with sets := state.sets.erase set }) else (.invalidDpuSet, state)

/-- `dpu_thread_job_free`, which joins the threads of the ranks. -/
def dpuThreadJobFree (ranks : List Nat) (state : State) : State :=
  { state with workers := state.workers.filter fun rank => rank ∉ ranks }

/-- The loop over `dpu_free_rank`, with the status that the backend answers for each rank. -/
def dpuFreeRanks (freed : Nat → DpuError) (ranks : List Nat) (status : DpuError) (state : State) :
    DpuError × State :=
  ranks.foldl (fun (status, state) rank =>
    (if freed rank ≠ .ok then freed rank else status,
      { state with ranks := Function.update state.ranks rank none }))
    (status, state)

/-- `dpu_free` of a set of ranks. -/
def dpuFree (freed : Nat → DpuError) (set : RanksSet) (state : State) : Option (DpuError × State) :=
  (sgBufferPoolFree set state).bind fun (status, state) =>
    if status ≠ .ok then some (status, state)
    else
      let (status, state) := setAllocatorUnregister set state
      if status ≠ .ok then some (status, state)
      else ((List.range set.nrRanks).mapM fun eachRank => state.rankAt set.ranks eachRank).map fun ranks =>
        let (status, state) := dpuFreeRanks freed ranks status (dpuThreadJobFree ranks state)
        (status, { state with arrays := Function.update state.arrays set.ranks.array none })

section Free
variable {freed : Nat → DpuError} {set : RanksSet} {state after : State} {status : DpuError}

@[simp] theorem dpuFreeRanks_sets (ranks : List Nat) (status : DpuError) (state : State) :
    (dpuFreeRanks freed ranks status state).2.sets = state.sets := by
  induction ranks generalizing status state with
  | nil => rfl
  | cons rank rest ih => exact ih _ _

/-- The first rank of a set, with its fields, where they can be read. -/
def FirstRank (state : State) (set : RanksSet) (first : Nat) (api : RankApi) : Prop :=
  state.rankAt set.ranks 0 = some first ∧ state.ranks first = some api

theorem State.free_keeps {buffer : Nat} (freed : state.free buffer = some after) :
    after.sets = state.sets ∧ after.ranks = state.ranks := by
  rw [State.free] at freed
  split at freed
  · cases freed
    exact ⟨rfl, rfl⟩
  · cases freed

/-- Freeing the buffers leaves the registry alone. It has no effect on a rank
without scatter/gather transfers; otherwise it fails or clears the flag of the
first rank. -/
theorem sgBufferPoolFree_cases (ended : sgBufferPoolFree set state = some (status, after)) :
    after.sets = state.sets ∧ ∃ first api, FirstRank state set first api ∧
      (api.sgXferEnabled = false ∧ status = .ok ∧ after = state ∨
        api.sgXferEnabled = true ∧ (status = .internal ∨
          status = .ok ∧ after.ranks first = some { api with sgXferEnabled := false })) := by
  obtain ⟨first, atFirst, ended⟩ := Option.bind_eq_some_iff.mp ended
  obtain ⟨api, readable, ended⟩ := Option.bind_eq_some_iff.mp ended
  cases enabled : api.sgXferEnabled with
  | false =>
    rw [if_pos enabled] at ended
    cases ended
    exact ⟨rfl, first, api, ⟨atFirst, readable⟩, .inl ⟨enabled, rfl, rfl⟩⟩
  | true =>
    rw [if_neg (by simp [enabled])] at ended
    cases blocksAddr : (api.sgBufferPool 0).blocksAddr with
    | none =>
      simp only [blocksAddr] at ended
      cases ended
      exact ⟨rfl, first, api, ⟨atFirst, readable⟩, .inr ⟨enabled, .inl rfl⟩⟩
    | some addr =>
      simp only [blocksAddr] at ended
      obtain ⟨middle, freedAddr, ended⟩ := Option.bind_eq_some_iff.mp ended
      cases blocksLength : (api.sgBufferPool 0).blocksLength with
      | none =>
        simp only [blocksLength] at ended
        cases ended
        exact ⟨(State.free_keeps freedAddr).1, first, api, ⟨atFirst, readable⟩, .inr ⟨enabled, .inl rfl⟩⟩
      | some length =>
        simp only [blocksLength] at ended
        obtain ⟨last, freedLength, ended⟩ := Option.map_eq_some_iff.mp ended
        cases ended
        have sets := (State.free_keeps freedLength).1.trans (State.free_keeps freedAddr).1
        exact ⟨sets, first, api, ⟨atFirst, readable⟩, .inr ⟨enabled, .inr ⟨rfl, Function.update_self ..⟩⟩⟩

theorem sgBufferPoolFree_disabled {first : Nat} {api : RankApi} (here : FirstRank state set first api)
    (disabled : api.sgXferEnabled = false) : sgBufferPoolFree set state = some (.ok, state) := by
  simp [sgBufferPoolFree, here.1, here.2, disabled]

/-- Where a set is found, `dpu_free` leaves it out of the registry. -/
theorem dpuFree_sets (registered : set ∈ state.sets)
    (ended : dpuFree freed set state = some (.invalidDpuSet, after)) :
    after.sets ≠ state.sets := by
  obtain ⟨⟨status, middle⟩, pools, ended⟩ := Option.bind_eq_some_iff.mp ended
  obtain ⟨sets, _, _, _, result⟩ := sgBufferPoolFree_cases pools
  have found : set ∈ middle.sets := sets ▸ registered
  by_cases ok : status = .ok
  · simp only [ok, ne_eq, not_true_eq_false, if_false, setAllocatorUnregister, found, if_true] at ended
    obtain ⟨ranks, _, ended⟩ := Option.map_eq_some_iff.mp ended
    have left : after.sets = middle.sets.erase set := by
      rw [← congrArg (fun result => result.2.sets) ended]
      simp [dpuThreadJobFree]
    intro same
    have shorter := List.length_erase_of_mem found
    have positive := List.length_pos_of_mem found
    rw [← left, same, sets] at shorter
    rw [sets] at positive
    omega
  · simp only [ne_eq, ok, not_false_eq_true, if_true] at ended
    cases ended
    simp at result

/-- The array of ranks of a set that has been freed is read when it is freed again. -/
theorem dpuFree_twice (ended : dpuFree freed set state = some (.ok, after)) : dpuFree freed set after = none := by
  obtain ⟨⟨status, middle⟩, pools, ended⟩ := Option.bind_eq_some_iff.mp ended
  have gone : after.arrays set.ranks.array = none := by
    simp only [setAllocatorUnregister] at ended
    split_ifs at ended with failed found rejected
    · simp_all
    · simp_all
    · obtain ⟨ranks, _, ended⟩ := Option.map_eq_some_iff.mp ended
      rw [← (Prod.mk.inj ended).2]
      exact Function.update_self ..
    · simp at ended
    · simp_all
  simp [dpuFree, sgBufferPoolFree, State.rankAt, gone]

/-- `dpu_free` rejects a set without effect if and only if it is not in the
registry and its first rank can be read and has no scatter/gather transfers. -/
theorem dpuFree_rejects_iff (freed : Nat → DpuError) (set : RanksSet) (state : State) :
    dpuFree freed set state = some (.invalidDpuSet, state) ↔
      set ∉ state.sets ∧ ∃ first api, FirstRank state set first api ∧ api.sgXferEnabled = false := by
  constructor
  · intro rejected
    refine ⟨fun registered => dpuFree_sets registered rejected rfl, ?_⟩
    have foreign : set ∉ state.sets := fun registered => dpuFree_sets registered rejected rfl
    obtain ⟨⟨status, middle⟩, pools, ended⟩ := Option.bind_eq_some_iff.mp rejected
    obtain ⟨sets, first, api, here, ⟨disabled, _, _⟩ | ⟨enabled, failed | ⟨ok, cleared⟩⟩⟩ :=
      sgBufferPoolFree_cases pools
    · exact ⟨first, api, here, disabled⟩
    · subst failed
      cases ended
    · have missing : set ∉ middle.sets := sets ▸ foreign
      simp only [ok, ne_eq, not_true_eq_false, if_false, setAllocatorUnregister, missing, reduceCtorEq,
        not_false_eq_true,
        if_true, Option.some.injEq, Prod.mk.injEq, true_and] at ended
      rw [ended, here.2] at cleared
      have flag := congrArg RankApi.sgXferEnabled (Option.some.inj cleared)
      exact absurd (enabled.symm.trans flag) Bool.noConfusion
  · rintro ⟨foreign, first, api, here, disabled⟩
    simp [dpuFree, sgBufferPoolFree_disabled here disabled, setAllocatorUnregister, foreign]

end Free

/-- The fields of a rank with scatter/gather transfers, whose first buffers are these. -/
def enabledApi (blocksAddr blocksLength : Nat) : RankApi where
  sgXferEnabled := true
  sgBufferPool := fun _ => ⟨some blocksAddr, some blocksLength⟩

/-- Two ranks with scatter/gather transfers that have been allocated as one set. -/
def twoRanks : State where
  sets := [⟨2, ⟨0, 0⟩⟩]
  arrays := fun array => if array = 0 then some [0, 1] else none
  ranks := fun rank => if rank < 2 then some (enabledApi (2 * rank) (2 * rank + 1)) else none
  buffers := fun buffer => buffer < 4
  workers := [0, 1]

/-- The set of the first rank alone is rejected when its buffers have been freed. -/
theorem oneRank_loses_buffers : ¬∀ freed set state, set ∉ state.sets →
    dpuFree freed set state = some (.invalidDpuSet, state) := by
  intro rejects
  have rejected := rejects (fun _ => .ok) ⟨1, ⟨0, 0⟩⟩ twoRanks (by decide)
  have buffers := congrArg (Option.map fun result => result.2.buffers 0) rejected
  revert buffers
  decide

end Upmem.DpuFree
