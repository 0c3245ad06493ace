import Upmem.Programs

namespace Upmem.Programs
open RefCount StatusChain Transitions

/-- A load of a program, an allocation of a rank or a free of one. -/
inductive ProgramAction
  | load (outcome : LoadOutcome) (target : LoadTarget)
  | allocRank (rank : Nat) (enabled : List Bool)
  | freeRank (rank : Nat)

def ProgramAction.exec : ProgramAction → ProgramState → DpuError × ProgramState
  | .load outcome target, s => dpuLoadGeneric outcome target s
  | .allocRank rank enabled, s =>
    (.ok, { s with dpus := s.dpus ++ enabled.map fun enabled => ⟨rank, enabled, none⟩ })
  | .freeRank rank, s => (.ok, dpuFreeRank rank s)

/-- The DPUs of the ranks whose jobs succeed take the program, in some order,
and a job that is dropped has an error. -/
def LoadTarget.Valid (dpus : List ProgramDpu) : LoadTarget → Prop
  | .ranks _ jobs order =>
    (jobs.map Prod.fst).Nodup ∧ order.Perm (jobs.flatMap fun job => (dpuLoadRank dpus job.1 job.2).2) ∧
      ∀ rank error, (rank, RankOutcome.dropped error) ∈ jobs → error ≠ .ok
  | .dpu k _ _ => k < dpus.length

def ProgramAction.Valid (s : ProgramState) : ProgramAction → Prop
  | .load _ target => target.Valid s.dpus
  | .allocRank rank _ => ∀ dpu ∈ s.dpus, dpu.rank ≠ rank
  | .freeRank _ => True

def programStep (s : ProgramState) (action : ProgramAction) (t : ProgramState) : Prop :=
  action.Valid s ∧ t = (action.exec s).2

/-- The reference counts are those of the DPUs, and freed are exactly, and
once, the programs that lose their last reference and a new program whose load
fails before a DPU has taken it. -/
structure RefsSound (τ : Transition ProgramState ProgramAction) : Prop where
  counted : CountedBy (references τ.after.dpus) τ.after.heap
  freed : ∀ program, program ∈ τ.after.heap.freed ↔ program ∈ τ.before.heap.freed ∨
    (0 < (references τ.before.dpus).count program ∧ (references τ.after.dpus).count program = 0) ∨
    (program = τ.before.heap.next ∧ program < τ.after.heap.next ∧ (τ.action.exec τ.before).1 ≠ .ok ∧
      (references τ.after.dpus).count program = 0)

/-- The load gets past the steps that come before the DPUs. -/
def LoadOutcome.Starts (outcome : LoadOutcome) : Prop :=
  outcome.malloc = true ∧ outcome.loadElfProgram = .ok ∧ outcome.sanityCheck = .ok

/-- A load on ranks that starts gets its jobs, and if one of them fails some
DPU of another one takes the program; the profiling information of a load on
an enabled DPU is filled without a failure. -/
def ProgramAction.Completes (s : ProgramState) : ProgramAction → Prop
  | .load outcome (.ranks acquire jobs order) => outcome.Starts →
      acquire = .ok ∧ (firstFailure .ok (jobStatuses s.dpus jobs) = .ok ∨ order ≠ [])
  | .load outcome (.dpu k fillProfilingInfo _) => outcome.Starts → ∀ dpu, s.dpus[k]? = some dpu →
      dpu.enabled = true → fillProfilingInfo = .ok
  | _ => True

section Loads
variable {s : ProgramState} {outcome : LoadOutcome} {target : LoadTarget}

/-- The DPUs that a job gives the program are DPUs of its rank. -/
theorem mem_dpuLoadRank {dpus : List ProgramDpu} {rank k : Nat} {job : RankOutcome}
    (member : k ∈ (dpuLoadRank dpus rank job).2) :
    ∃ inside : k < dpus.length, dpus[k].rank = rank := by
  cases job with
  | dropped error => cases member
  | ran fillProfilingInfo elfLoad =>
    simp only [dpuLoadRank] at member
    split at member
    · cases member
    · split at member
      · cases member
      · obtain ⟨small, selected⟩ := List.mem_filter.mp member
        have inside := List.mem_range.mp small
        rw [List.getElem?_eq_getElem inside, Option.any_some, Bool.and_eq_true, decide_eq_true_eq] at selected
        exact ⟨inside, selected.1⟩

theorem dpuLoadRank_nodup {dpus : List ProgramDpu} (rank : Nat) (job : RankOutcome) :
    (dpuLoadRank dpus rank job).2.Nodup := by
  cases job with
  | dropped error => exact .nil
  | ran fillProfilingInfo elfLoad =>
    simp only [dpuLoadRank]
    split
    · exact .nil
    · split
      · exact .nil
      · exact List.nodup_range.filter _

/-- No DPU takes the program twice. -/
theorem LoadTarget.Valid.order_nodup {acquire : DpuError} {jobs : List (Nat × RankOutcome)} {order : List Nat}
    (valid : (LoadTarget.ranks acquire jobs order).Valid s.dpus) :
    order.Nodup ∧ ∀ k ∈ order, k < s.dpus.length := by
  obtain ⟨distinct, same, -⟩ := valid
  constructor
  · rw [same.nodup_iff, List.nodup_flatMap]
    refine ⟨fun job _ => dpuLoadRank_nodup job.1 job.2, ?_⟩
    refine (List.pairwise_map.mp distinct).imp fun apart k first second => ?_
    obtain ⟨inside, rank⟩ := mem_dpuLoadRank first
    obtain ⟨_, other⟩ := mem_dpuLoadRank second
    exact apart (rank.symm.trans other)
  · intro k member
    obtain ⟨job, -, given⟩ := List.mem_flatMap.mp (same.subset member)
    obtain ⟨inside, -⟩ := mem_dpuLoadRank given
    exact inside

/-- The state in which a load comes to the DPUs. -/
def afterMalloc (s : ProgramState) : ProgramState := { s with heap := dpuInitProgramRef s.heap.next s.heap.create }

section Fresh
variable (counted : CountedBy (references s.dpus) s.heap)
include counted

theorem afterMalloc_counted : CountedBy (references (afterMalloc s).dpus) (afterMalloc s).heap ∧
    (afterMalloc s).heap.Live s.heap.next ∧ (afterMalloc s).heap.freed = s.heap.freed ∧
      (afterMalloc s).heap.next = s.heap.next + 1 := by
  obtain ⟨fresh, alive⟩ := counted.create
  refine ⟨fresh, alive, ?_, ?_⟩
  · simp only [afterMalloc, dpuInitProgramRef, Heap.setCount]
    split <;> rfl
  · simp only [afterMalloc, dpuInitProgramRef, Heap.setCount]
    split <;> rfl

theorem fresh_unreferenced : s.heap.next ∉ references s.dpus := fun member => lt_irrefl _ (counted.live _ member).1

variable {t : ProgramState} {action : ProgramAction}

/-- A load that fails before a DPU has taken the program and frees it. -/
theorem sound_of_discarded (failed : (action.exec s).1 ≠ .ok) (dpus : t.dpus = s.dpus)
    (countedAfter : CountedBy (references s.dpus) t.heap) (freed : t.heap.freed = s.heap.next :: s.heap.freed)
    (next : t.heap.next = s.heap.next + 1) : RefsSound ⟨s, action, t⟩ where
  counted := dpus ▸ countedAfter
  freed := fun program => by
    have none : (references s.dpus).count s.heap.next = 0 := List.count_eq_zero.mpr (fresh_unreferenced counted)
    have apart : ¬ (0 < (references s.dpus).count program ∧ (references s.dpus).count program = 0) := by omega
    dsimp only
    rw [freed, dpus, List.mem_cons, next, or_iff_right apart, or_comm]
    refine or_congr_right ⟨?_, fun new => new.1⟩
    rintro rfl
    exact ⟨rfl, Nat.lt_succ_self _, failed, none⟩

/-- A load whose program is taken by DPUs, or that succeeds. -/
theorem sound_of_taken (passage : Passage s.heap.next (references s.dpus) (afterMalloc s).heap
      (references t.dpus) t.heap)
    (holds : (action.exec s).1 = .ok ∨ 0 < (references t.dpus).count s.heap.next) : RefsSound ⟨s, action, t⟩ where
  counted := passage.counted
  freed := fun program => by
    have freedBefore := (afterMalloc_counted counted).2.2.1
    dsimp only
    rw [passage.freed, freedBefore]
    refine or_congr_right (or_iff_left ?_).symm
    rintro ⟨rfl, -, failed, none⟩
    rcases holds with passed | taken
    · exact failed passed
    · omega

omit counted in
/-- A step that creates no program. -/
theorem sound_of_passage {gaining : Nat}
    (passage : Passage gaining (references s.dpus) s.heap (references t.dpus) t.heap) :
    RefsSound ⟨s, action, t⟩ where
  counted := passage.counted
  freed := fun program => by
    dsimp only
    rw [passage.freed, passage.next]
    refine or_congr_right (or_iff_left ?_).symm
    rintro ⟨rfl, below, -⟩
    exact lt_irrefl _ below

/-- A load on ranks whose jobs have been acquired. -/
theorem ranks_taken {acquire : DpuError} {jobs : List (Nat × RankOutcome)} {order : List Nat}
    (valid : (LoadTarget.ranks acquire jobs order).Valid s.dpus) :
    Passage s.heap.next (references s.dpus) (afterMalloc s).heap
        (references (order.foldl (replaceProgram s.heap.next) (afterMalloc s)).dpus)
        (order.foldl (replaceProgram s.heap.next) (afterMalloc s)).heap ∧
      (references (order.foldl (replaceProgram s.heap.next) (afterMalloc s)).dpus).count s.heap.next =
      order.length := by
  obtain ⟨fresh, alive, -, -⟩ := afterMalloc_counted counted
  obtain ⟨distinct, inside⟩ := valid.order_nodup
  have others : ∀ k ∈ order, ∀ dpu, (afterMalloc s).dpus[k]? = some dpu → dpu.program ≠ some s.heap.next := by
    intro k _ dpu at_k same
    exact fresh_unreferenced counted (List.mem_filterMap.mpr ⟨dpu, List.mem_of_getElem? at_k, same⟩)
  obtain ⟨passage, count⟩ := replaceAll_passage fresh alive inside distinct others
  have none : (references s.dpus).count s.heap.next = 0 := List.count_eq_zero.mpr (fresh_unreferenced counted)
  have unchanged : (afterMalloc s).dpus = s.dpus := rfl
  rw [unchanged, none, Nat.zero_add] at count
  exact ⟨passage, count⟩

/-- A load that completes keeps the counts and frees what it should. -/
theorem load_sound (valid : target.Valid s.dpus) (completes : (ProgramAction.load outcome target).Completes s) :
    RefsSound ⟨s, .load outcome target, (dpuLoadGeneric outcome target s).2⟩ := by
  obtain ⟨fresh, alive, freedBefore, nextBefore⟩ := afterMalloc_counted counted
  have unreferenced := fresh_unreferenced counted
  -- the program of a load that fails before the DPUs is freed at the label
  have discarded (failed : (dpuLoadGeneric outcome target s).1 ≠ .ok)
      (result : (dpuLoadGeneric outcome target s).2 = freeRuntime s.heap.next (afterMalloc s)) :
      RefsSound ⟨s, .load outcome target, (dpuLoadGeneric outcome target s).2⟩ := by
    obtain ⟨countedAfter, freedAfter, nextAfter⟩ := fresh.release_one alive unreferenced
    rw [result]
    exact sound_of_discarded counted failed rfl countedAfter (freedAfter.trans (congrArg _ freedBefore))
      (nextAfter.trans nextBefore)
  by_cases malloc : outcome.malloc = true
  swap
  · have unchanged : (dpuLoadGeneric outcome target s).2 = s := by simp [dpuLoadGeneric, malloc]
    rw [unchanged]
    exact @sound_of_passage s s _ s.heap.next (.refl counted)
  by_cases elf : outcome.loadElfProgram = .ok
  swap
  · have result : dpuLoadGeneric outcome target s =
        (outcome.loadElfProgram, { afterMalloc s with heap := (afterMalloc s).heap.discard s.heap.next }) := by
      simp [dpuLoadGeneric, malloc, elf, afterMalloc]
    obtain ⟨countedAfter, freedAfter, nextAfter⟩ := fresh.discard alive unreferenced
    have failed : (dpuLoadGeneric outcome target s).1 ≠ .ok := by rwa [result]
    rw [result]
    exact sound_of_discarded counted failed rfl countedAfter (freedAfter.trans (congrArg _ freedBefore))
      (nextAfter.trans nextBefore)
  by_cases sanity : outcome.sanityCheck = .ok
  swap
  · have result : dpuLoadGeneric outcome target s = (outcome.sanityCheck,
        freeRuntime s.heap.next (afterMalloc s)) := by
      simp [dpuLoadGeneric, malloc, elf, sanity, afterMalloc]
    exact discarded (by rwa [result]) (by rw [result])
  have starts : outcome.Starts := ⟨malloc, elf, sanity⟩
  cases target with
  | ranks acquire jobs order =>
    obtain ⟨acquired, holds⟩ := completes starts
    have result : dpuLoadGeneric outcome (.ranks acquire jobs order) s =
        (firstFailure .ok (jobStatuses s.dpus jobs), order.foldl (replaceProgram s.heap.next) (afterMalloc s)) := by
      simp [dpuLoadGeneric, malloc, elf, sanity, acquired, afterMalloc]
    obtain ⟨passage, count⟩ := ranks_taken counted valid
    have statusOrTaken : ((ProgramAction.load outcome (.ranks acquire jobs order)).exec s).1 = .ok ∨
        0 < (references (order.foldl (replaceProgram s.heap.next) (afterMalloc s)).dpus).count s.heap.next := by
      rw [count, ProgramAction.exec, result]
      exact holds.imp_right List.length_pos_iff.mpr
    rw [result]
    exact sound_of_taken counted passage statusOrTaken
  | dpu k fillProfilingInfo elfLoad =>
    have inside : k < s.dpus.length := valid
    have at_k : (afterMalloc s).dpus[k]? = some s.dpus[k] := List.getElem?_eq_getElem inside
    have start : dpuLoadGeneric outcome (.dpu k fillProfilingInfo elfLoad) s =
        let loaded := dpuLoadDpu k s.heap.next fillProfilingInfo elfLoad (afterMalloc s)
        if loaded.1 ≠ .ok then (loaded.1, freeRuntime s.heap.next loaded.2) else loaded := by
      simp only [dpuLoadGeneric, malloc, elf, sanity, Bool.not_true, Bool.false_eq_true, ne_eq,
        not_true_eq_false, if_false,
        afterMalloc]
      rfl
    by_cases enabled : s.dpus[k].enabled = true
    swap
    · have result : dpuLoadGeneric outcome (.dpu k fillProfilingInfo elfLoad) s =
          (.dpuDisabled, freeRuntime s.heap.next (afterMalloc s)) := by
        rw [start]
        simp [dpuLoadDpu, at_k, enabled]
      exact discarded (by simp [result]) (by rw [result])
    have filled := completes starts _ (List.getElem?_eq_getElem inside) enabled
    by_cases loads : elfLoad = .ok
    swap
    · have result : dpuLoadGeneric outcome (.dpu k fillProfilingInfo elfLoad) s =
          (elfLoad, freeRuntime s.heap.next (afterMalloc s)) := by
        rw [start]
        simp [dpuLoadDpu, at_k, enabled, filled, loads]
      exact discarded (by rwa [result]) (by rw [result])
    have result : dpuLoadGeneric outcome (.dpu k fillProfilingInfo elfLoad) s =
        (.ok, replaceProgram s.heap.next (afterMalloc s) k) := by
      rw [start]
      simp [dpuLoadDpu, at_k, enabled, filled, loads]
    have other : (afterMalloc s).dpus[k].program ≠ some s.heap.next := fun same =>
      unreferenced (List.mem_filterMap.mpr ⟨_, List.getElem_mem inside, same⟩)
    have passed : ((ProgramAction.load outcome (.dpu k fillProfilingInfo elfLoad)).exec s).1 = .ok := by
      rw [ProgramAction.exec, result]
    rw [result]
    exact sound_of_taken counted (replaceProgram_passage fresh alive inside other).1 (.inl passed)

end Fresh

/-- A step that completes keeps the counts and frees what it should. -/
theorem ProgramAction.Completes.sound {t : ProgramState} {action : ProgramAction}
    (counted : CountedBy (references s.dpus) s.heap) (taken : programStep s action t)
    (completes : action.Completes s) :
    RefsSound ⟨s, action, t⟩ := by
  obtain ⟨valid, rfl⟩ := taken
  cases action with
  | load outcome target => exact load_sound counted valid completes
  | allocRank rank enabled =>
    have same : references (s.dpus ++ enabled.map fun enabled => ⟨rank, enabled, none⟩) = references s.dpus := by
      rw [references_append]
      simp [references]
    refine @sound_of_passage s _ _ s.heap.next ?_
    rw [ProgramAction.exec, same]
    exact .refl counted
  | freeRank rank => exact sound_of_passage (dpuFreeRank_passage counted rank)

end Loads

/-- No rank is allocated and no program has been created. -/
def noPrograms : ProgramState := ⟨[], ⟨fun _ => 0, 0, [], false⟩⟩

theorem noPrograms_counted : CountedBy (references noPrograms.dpus) noPrograms.heap where
  fault := rfl
  counts := fun program live => absurd live.1 (Nat.not_lt_zero program)
  live := fun _ member => by cases member
  once := .nil
  past := fun _ member => by cases member

section Example

/-- A rank with one enabled DPU, and then a program loaded on it, where the job of the rank ends in some way. -/
def allocAndLoad (job : RankOutcome) (order : List Nat) : List (Transition ProgramState ProgramAction) :=
  let alloc : ProgramAction := .allocRank 0 [true]
  let allocated := (alloc.exec noPrograms).2
  let load : ProgramAction := .load ⟨true, .ok, .ok⟩ (.ranks .ok [(0, job)] order)
  [⟨allocated, load, (load.exec allocated).2⟩, ⟨noPrograms, alloc, allocated⟩]

theorem allocAndLoad_run {fillProfilingInfo elfLoad : DpuError} {order : List Nat}
    (taken : order = (dpuLoadRank [⟨0, true, none⟩] 0 (.ran fillProfilingInfo elfLoad)).2) :
    ∃ s, Run programStep noPrograms (allocAndLoad (.ran fillProfilingInfo elfLoad) order) s := by
  have allocates : programStep noPrograms (.allocRank 0 [true]) _ :=
    ⟨fun _ member => (List.not_mem_nil member).elim, rfl⟩
  refine ⟨_, (Run.start.next allocates).next ⟨⟨List.nodup_singleton 0, ?_, fun rank error member => ?_⟩, rfl⟩⟩
  · rw [taken]
    simp [ProgramAction.exec, noPrograms]
  · simp at member

end Example

section Runs
variable {s : ProgramState} {history : List (Transition ProgramState ProgramAction)}

/-- In every history whose loads complete the reference counts are those of
the DPUs and each program is freed once, when it should be. -/
theorem completes_refsSound (run : Run programStep noPrograms history s)
    (completes : ∀ τ ∈ history, τ.action.Completes τ.before) :
    CountedBy (references s.dpus) s.heap ∧ ∀ τ ∈ history, RefsSound τ :=
  run.guarded_transitions (Q := fun s => CountedBy (references s.dpus) s.heap) noPrograms_counted
    (fun _ _ _ before taken complete =>
      have sound := complete.sound before taken
      ⟨sound.counted, sound⟩) completes

theorem completes_refsSound_allocAndLoad : (allocAndLoad (.ran .ok .ok) [0]).Forall RefsSound := by
  obtain ⟨s, run⟩ := @allocAndLoad_run .ok .ok [0] (by decide)
  refine List.forall_iff_forall_mem.mpr (completes_refsSound run ?_).2
  intro τ member
  rcases List.mem_cons.mp member with rfl | member
  · exact fun _ => ⟨rfl, .inl (by decide)⟩
  · obtain rfl := List.mem_singleton.mp member
    trivial

/-- The job of the only rank fails, and the program is neither freed nor referred to. -/
theorem failedJob_not_refsSound : ¬ ∀ (s : ProgramState) (history : List (Transition ProgramState ProgramAction)),
    Run programStep noPrograms history s → CountedBy (references s.dpus) s.heap ∧ ∀ τ ∈ history, RefsSound τ := by
  intro sound
  obtain ⟨s, run⟩ := @allocAndLoad_run .ok .timeout [] (by decide)
  have load := (sound s _ run).2 _ List.mem_cons_self
  have freed := (load.freed 0).mpr (.inr (.inr ⟨rfl, by decide, by decide, by decide⟩))
  revert freed
  decide

end Runs

end Upmem.Programs
