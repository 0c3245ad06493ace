import Upmem.Rank
import Upmem.Lib.RefCount
import Upmem.Lib.StatusChain
import Upmem.Lib.Transitions

namespace Upmem.Programs
open RefCount StatusChain

/-- `struct dpu_t` as far as its program goes. -/
structure ProgramDpu where
  rank : Nat
  enabled : Bool
  program : Option Nat

/-- The DPUs of the allocated ranks and the programs. -/
structure ProgramState where
  dpus : List ProgramDpu
  heap : Heap

/-- The programs that DPUs point to, once for each DPU. -/
def references (dpus : List ProgramDpu) : List Nat := dpus.filterMap (·.program)

def dpuInitProgramRef (program : Nat) (heap : Heap) : Heap := heap.setCount program 0

def dpuTakeProgramRef (program : Nat) (heap : Heap) : Heap := heap.retain program

def dpuFreeProgram (program : Option Nat) (heap : Heap) : Heap :=
  match program with
  | none => heap
  | some program => heap.release program

/-- A DPU takes a program in place of the previous one. -/
def replaceProgram (program : Nat) (s : ProgramState) (k : Nat) : ProgramState :=
  match s.dpus[k]? with
  | none => s
  | some dpu =>
    { dpus := s.dpus.set k { dpu with program := some program }
      heap := dpuTakeProgramRef program (dpuFreeProgram dpu.program s.heap) }

/-- How the load job of a rank ends: it is dropped since the rank has failed
before, or it runs and its two calls answer. -/
inductive RankOutcome
  | dropped (error : DpuError)
  | ran (fillProfilingInfo elfLoad : DpuError)

/-- `dpu_load_rank`: the status of the job and the DPUs that take the program. -/
def dpuLoadRank (dpus : List ProgramDpu) (rank : Nat) : RankOutcome → DpuError × List Nat
  | .dropped error => (error, [])
  | .ran fillProfilingInfo elfLoad =>
    if fillProfilingInfo ≠ .ok then (fillProfilingInfo, [])
    else if elfLoad ≠ .ok then (elfLoad, [])
    else (.ok,
      (List.range dpus.length).filter fun k => dpus[k]?.any fun dpu => decide (dpu.rank = rank) && dpu.enabled)

def dpuLoadDpu (k program : Nat) (fillProfilingInfo elfLoad : DpuError) (s : ProgramState) :
    DpuError × ProgramState :=
  match s.dpus[k]? with
  | none => (.internal, s)
  | some dpu =>
    if !dpu.enabled then (.dpuDisabled, s)
    else if fillProfilingInfo ≠ .ok then (fillProfilingInfo, { s with heap := s.heap.discard program })
    else if elfLoad ≠ .ok then (elfLoad, s)
    else (.ok, replaceProgram program s k)

/-- The set that a program is loaded on. The jobs of several ranks run at the
same time, so the DPUs take the program in some order. -/
inductive LoadTarget
  | ranks (acquire : DpuError) (jobs : List (Nat × RankOutcome)) (order : List Nat)
  | dpu (k : Nat) (fillProfilingInfo elfLoad : DpuError)

/-- How the steps of a load that come before the DPUs answer. -/
structure LoadOutcome where
  malloc : Bool
  loadElfProgram : DpuError
  sanityCheck : DpuError

/-- The statuses of the jobs of a load. -/
def jobStatuses (dpus : List ProgramDpu) (jobs : List (Nat × RankOutcome)) : List DpuError :=
  jobs.map fun job => (dpuLoadRank dpus job.1 job.2).1

/-- The code at the label `free_runtime`. -/
def freeRuntime (program : Nat) (s : ProgramState) : ProgramState :=
  { s with heap := dpuFreeProgram (some program) (s.heap.setCount program 1) }

/-- `dpu_load_generic`. -/
def dpuLoadGeneric (outcome : LoadOutcome) (target : LoadTarget) (s : ProgramState) : DpuError × ProgramState :=
  if !outcome.malloc then (.system, s)
  else
    let runtime := s.heap.next
    let s := { s with heap := dpuInitProgramRef runtime s.heap.create }
    if outcome.loadElfProgram ≠ .ok then (outcome.loadElfProgram, { s with heap := s.heap.discard runtime })
    else if outcome.sanityCheck ≠ .ok then (outcome.sanityCheck, freeRuntime runtime s)
    else
      match target with
      | .ranks acquire jobs order =>
        if acquire ≠ .ok then (acquire, s)
        else (firstFailure .ok (jobStatuses s.dpus jobs), order.foldl (replaceProgram runtime) s)
      | .dpu k fillProfilingInfo elfLoad =>
        let loaded := dpuLoadDpu k runtime fillProfilingInfo elfLoad s
        if loaded.1 ≠ .ok then (loaded.1, freeRuntime runtime loaded.2) else loaded

/-- `dpu_free_rank`, for the programs of its DPUs. -/
def dpuFreeRank (rank : Nat) (s : ProgramState) : ProgramState where
  dpus := s.dpus.filter fun dpu => decide (dpu.rank ≠ rank)
  heap := (s.dpus.filter fun dpu => decide (dpu.rank = rank)).foldl
    (fun heap dpu => dpuFreeProgram dpu.program heap) s.heap

section Replace
variable {s : ProgramState} {program k : Nat}

theorem references_append (before later : List ProgramDpu) :
    references (before ++ later) = references before ++ references later := List.filterMap_append

theorem references_cons (dpu : ProgramDpu) (later : List ProgramDpu) :
    references (dpu :: later) = dpu.program.toList ++ references later := by
  cases given : dpu.program <;> simp [references, given]

/-- The references are those of one DPU and those of the others. -/
theorem references_set {dpus : List ProgramDpu} (inside : k < dpus.length) (replacement : ProgramDpu) :
    (references (dpus.set k replacement)).Perm
      (replacement.program.toList ++ (references (dpus.take k) ++ references (dpus.drop (k + 1)))) := by
  rw [List.set_eq_take_append_cons_drop, if_pos inside, references_append, references_cons]
  exact List.perm_append_comm_assoc _ _ _

/-- A DPU that takes a new program. -/
theorem replaceProgram_passage (counted : CountedBy (references s.dpus) s.heap) (alive : s.heap.Live program)
    (inside : k < s.dpus.length) (other : s.dpus[k].program ≠ some program) :
    Passage program (references s.dpus) s.heap (references (replaceProgram program s k).dpus)
        (replaceProgram program s k).heap ∧
      (references (replaceProgram program s k).dpus).count program = (references s.dpus).count program + 1 := by
  have result : replaceProgram program s k =
      ⟨s.dpus.set k { s.dpus[k] with program := some program },
        dpuTakeProgramRef program (dpuFreeProgram s.dpus[k].program s.heap)⟩ := by
    rw [replaceProgram, List.getElem?_eq_getElem inside]
  rw [result]
  have before := references_set inside s.dpus[k]
  rw [List.set_getElem_self] at before
  have after := references_set inside { s.dpus[k] with program := some program }
  generalize references (s.dpus.take k) ++ references (s.dpus.drop (k + 1)) = others at before after
  have freed : Passage program (references s.dpus) s.heap others (dpuFreeProgram s.dpus[k].program s.heap) := by
    refine Passage.perm ?_ before.symm
    cases previous : s.dpus[k].program with
    | none =>
      rw [previous] at before
      exact .refl (counted.perm before)
    | some old =>
      rw [previous] at before other
      exact release_passage (counted.perm before) fun same => other (congrArg some same)
  have stillAlive : (dpuFreeProgram s.dpus[k].program s.heap).Live program := by
    refine ⟨freed.next ▸ alive.1, fun gone => ?_⟩
    have up := freed.rises
    rcases (freed.freed program).mp gone with before | lost
    · exact alive.2 before
    · omega
  have taken := retain_passage freed.counted stillAlive
  refine ⟨(freed.trans taken).perm_after after.symm, ?_⟩
  have kept : others.count program = (references s.dpus).count program := by
    rw [before.count_eq, List.count_append, Nat.right_eq_add, List.count_eq_zero, Option.mem_toList]
    exact other
  rw [after.count_eq, ← kept]
  simp

/-- All DPUs of a load that take the program. -/
theorem replaceAll_passage {order : List Nat} (counted : CountedBy (references s.dpus) s.heap)
    (alive : s.heap.Live program)
    (inside : ∀ k ∈ order, k < s.dpus.length) (distinct : order.Nodup)
    (others : ∀ k ∈ order, ∀ dpu, s.dpus[k]? = some dpu → dpu.program ≠ some program) :
    Passage program (references s.dpus) s.heap (references (order.foldl (replaceProgram program) s).dpus)
        (order.foldl (replaceProgram program) s).heap ∧
      (references (order.foldl (replaceProgram program) s).dpus).count program =
        (references s.dpus).count program + order.length := by
  induction order generalizing s with
  | nil => exact ⟨.refl counted, rfl⟩
  | cons k rest ih =>
    obtain ⟨first, inside⟩ := List.forall_mem_cons.mp inside
    obtain ⟨otherFirst, others⟩ := List.forall_mem_cons.mp others
    obtain ⟨fresh, distinct⟩ := List.nodup_cons.mp distinct
    obtain ⟨passage, grows⟩ := replaceProgram_passage counted alive first
      (otherFirst _ (List.getElem?_eq_getElem first))
    have result : (replaceProgram program s k).dpus = s.dpus.set k { s.dpus[k] with program := some program } := by
      rw [replaceProgram, List.getElem?_eq_getElem first]
    have stillAlive : (replaceProgram program s k).heap.Live program :=
      passage.counted.live program (List.count_pos_iff.mp (by omega))
    obtain ⟨passages, count⟩ := @ih (replaceProgram program s k) passage.counted stillAlive
      (fun j member => by rw [result, List.length_set]; exact inside j member) distinct
      (fun j member dpu => by
        have differs : k ≠ j := fun same => fresh (same ▸ member)
        rw [result, List.getElem?_set_ne differs]
        exact others j member dpu)
    rw [List.foldl_cons]
    refine ⟨passage.trans passages, ?_⟩
    rw [count, grows, List.length_cons]
    omega

theorem foldl_dpuFreeProgram (dpus : List ProgramDpu) (heap : Heap) :
    dpus.foldl (fun heap dpu => dpuFreeProgram dpu.program heap) heap =
      (references dpus).foldl (fun heap program => heap.release program) heap := by
  induction dpus generalizing heap with
  | nil => rfl
  | cons dpu rest ih =>
    rw [List.foldl_cons, ih, references_cons, List.foldl_append]
    cases dpu.program <;> rfl

/-- Freeing a rank gives back the references of its DPUs. -/
theorem dpuFreeRank_passage (counted : CountedBy (references s.dpus) s.heap) (rank : Nat) :
    Passage s.heap.next (references s.dpus) s.heap (references (dpuFreeRank rank s).dpus)
    (dpuFreeRank rank s).heap := by
  have parts : (references s.dpus).Perm
      (references (s.dpus.filter fun dpu => decide (dpu.rank = rank)) ++ references (dpuFreeRank rank s).dpus) := by
    have split := (List.filter_append_perm (fun dpu : ProgramDpu => decide (dpu.rank = rank)) s.dpus).symm
    rw [← references_append]
    refine (split.filterMap _).trans (List.Perm.of_eq ?_)
    simp [references, dpuFreeRank]
  have heap : (dpuFreeRank rank s).heap =
      (references (s.dpus.filter fun dpu => decide (dpu.rank = rank))).foldl
      (fun heap program => heap.release program) s.heap :=
    foldl_dpuFreeProgram _ _
  rw [heap]
  refine Passage.perm (releases_passage (counted.perm parts) fun program member => ?_) parts.symm
  have old := (counted.live program (parts.symm.subset (List.mem_append_left _ member))).1
  exact Nat.ne_of_lt old

end Replace

end Upmem.Programs
