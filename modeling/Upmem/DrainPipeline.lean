import Upmem.Lib.Commands
import Upmem.Rank

namespace Upmem.DrainPipeline
open Commands

/-- The threads of a stopped DPU: those that run, in their scheduling order, the program
counter of each thread, and the one that the debug interface gives. -/
structure Pipeline where
  fifo : List Nat
  pc : Nat → BitVec 16
  debugPc : BitVec 16

/-- A step with a fault removes the next of the threads that run. -/
def Pipeline.faultAndStep (pipeline : Pipeline) : Pipeline :=
  match pipeline.fifo with
  | [] => pipeline
  | thread :: rest => { pipeline with fifo := rest, debugPc := pipeline.pc thread }

/-- A thread is resumed. -/
def Pipeline.boot (pipeline : Pipeline) (thread : Nat) : Pipeline :=
  if thread ∈ pipeline.fifo then pipeline else { pipeline with fifo := pipeline.fifo ++ [thread] }

/-- The fields of `struct dpu_context_t` for the threads. -/
structure ThreadContext where
  pcs : Nat → BitVec 16
  scheduling : Nat → BitVec 8
  nrOfRunningThreads : BitVec 8

/-- The run bits of the threads of a CI as they are read: a byte for each thread, with a bit for each DPU. -/
structure RunRegisters where
  previous : Nat → BitVec 8
  run : Nat → BitVec 8

structure DrainState where
  pipeline : Pipeline
  context : ThreadContext
  calls : Nat

/-- How the calls end, in order, and the run bits of the other DPUs of the CI at each of
them. What the allocated arrays hold is not known. -/
structure CiCalls where
  status : Nat → DpuError
  others : Nat → BitVec 8
  uninitialized : RunRegisters

structure DrainedDpu where
  memberId : Nat
  nrOfThreads : BitVec 8
  memberId_lt : memberId < 8

/-- The status of a call that fails. -/
abbrev Failure := { status : DpuError // status ≠ .ok }

abbrev DrainM := CommandM Failure DrainState

section Drain
variable (dpu : DrainedDpu) (calls : CiCalls)

/-- A call, and what it does to the pipeline if it succeeds. -/
def ff (effect : Pipeline → Pipeline) : DrainM PUnit := do
  let s ← get
  modify fun s => { s with calls := s.calls + 1 }
  if ok : calls.status s.calls = .ok then modify fun s => { s with pipeline := effect s.pipeline }
  else throw ⟨calls.status s.calls, ok⟩

/-- `(bits & mask_one) != 0`. -/
def isSet (bits : BitVec 8) : Bool := bits &&& dpuMaskOne dpu.memberId != 0#8

def threads : List Nat := List.range dpu.nrOfThreads.toNat

def ufiReadRunBit (thread : Nat) : DrainM (BitVec 8) := do
  let s ← get
  ff calls id
  let maskOne := dpuMaskOne dpu.memberId
  return (calls.others s.calls &&& ~~~maskOne) ||| if thread ∈ s.pipeline.fifo then maskOne else 0#8

/-- The loops that fetch the RUN register. -/
def fetchRunRegister : List Nat → (Nat → BitVec 8) → DrainM (Nat → BitVec 8)
  | [], register => pure register
  | thread :: rest, register => do
    let result ← ufiReadRunBit dpu calls thread
    fetchRunRegister rest (Function.update register thread result)

/-- What the last loop of a turn keeps: whether a thread still runs, the previous run bits and the context. -/
structure Recording where
  stillDraining : Bool
  previous : Nat → BitVec 8
  context : ThreadContext

/-- A thread that has been popped out, with its program counter. -/
def ThreadContext.pop (shouldAddToSchedule : Bool) (context : ThreadContext) (thread : Nat) (pc : BitVec 16) :
    ThreadContext where
  pcs := Function.update context.pcs thread pc
  scheduling :=
    if shouldAddToSchedule then Function.update context.scheduling thread context.nrOfRunningThreads
    else context.scheduling
  nrOfRunningThreads :=
    if shouldAddToSchedule then context.nrOfRunningThreads + 1#8 else context.nrOfRunningThreads

def recordThread (shouldAddToSchedule : Bool) (pc : BitVec 16) (run : Nat → BitVec 8) (recording : Recording)
    (thread : Nat) : Recording :=
  if isSet dpu (run thread) then { recording with stillDraining := true }
  else if isSet dpu (recording.previous thread) then
    { recording with
      previous := Function.update recording.previous thread 0#8
      context := recording.context.pop shouldAddToSchedule thread pc }
  else recording

/-- A turn of the loop of `drain_pipeline`: whether there is another one, and the run bits for it. -/
def drainTurn (shouldAddToSchedule : Bool) (registers : RunRegisters) : DrainM (Bool × RunRegisters) := do
  -- `ufi_debug_replace_stop`, `ufi_set_dpu_fault_and_step` and `ufi_debug_pc_read`
  ff calls id
  ff calls Pipeline.faultAndStep
  ff calls id
  let s ← get
  let run ← fetchRunRegister dpu calls (threads dpu) registers.run
  let recording := (threads dpu).foldl (recordThread dpu shouldAddToSchedule s.pipeline.debugPc run)
    ⟨false, registers.previous, s.context⟩
  modify fun s => { s with context := recording.context }
  return (recording.stillDraining, ⟨recording.previous, run⟩)

end Drain

section Calls
variable {dpu : DrainedDpu} {calls : CiCalls} {s t : DrainState}

theorem ff_ok {effect : Pipeline → Pipeline} {r : PUnit} (returns : Returns (ff calls effect) s r t) :
    t = ⟨effect s.pipeline, s.context, s.calls + 1⟩ := by
  rw [ff, returns_get_bind, returns_modify_bind] at returns
  split at returns
  · exact (returns_modify.mp returns).symm
  · exact absurd returns not_returns_throw

theorem ff_bind_ok {α : Type} {effect : Pipeline → Pipeline} {f : PUnit → DrainM α} {a : α}
    (returns : Returns (ff calls effect >>= f) s a t) :
    Returns (f ⟨⟩) ⟨effect s.pipeline, s.context, s.calls + 1⟩ a t := by
  obtain ⟨⟨⟩, u, first, rest⟩ := returns_bind.mp returns
  rwa [ff_ok first] at rest

theorem isSet_eq (bits : BitVec 8) : isSet dpu bits = bits.getLsbD dpu.memberId :=
  dpuMaskIsSelected_eq dpu.memberId_lt

/-- The run bits of a register are those of some threads. -/
def Shows (dpu : DrainedDpu) (register : Nat → BitVec 8) (running : List Nat) : Prop :=
  ∀ thread ∈ threads dpu, isSet dpu (register thread) = decide (thread ∈ running)

theorem ufiReadRunBit_ok {thread : Nat} {bits : BitVec 8}
    (returns : Returns (ufiReadRunBit dpu calls thread) s bits t) :
    t.pipeline = s.pipeline ∧ t.context = s.context ∧ isSet dpu bits = decide (thread ∈ s.pipeline.fifo) := by
  rw [ufiReadRunBit, returns_get_bind] at returns
  have value := ff_bind_ok returns
  obtain ⟨rfl, rfl⟩ := returns_pure.mp value
  refine ⟨rfl, rfl, ?_⟩
  have member := dpu.memberId_lt
  rw [isSet_eq, BitVec.getLsbD_or, BitVec.getLsbD_and, BitVec.getLsbD_not, dpuMaskOne_getLsbD member,
    decide_eq_true rfl]
  by_cases running : thread ∈ s.pipeline.fifo
  · rw [if_pos running, dpuMaskOne_getLsbD member, decide_eq_true running]
    simp
  · rw [if_neg running, decide_eq_false running]
    simp

theorem fetchRunRegister_ok {list : List Nat} {register result : Nat → BitVec 8}
    (returns : Returns (fetchRunRegister dpu calls list register) s result t) :
    t.pipeline = s.pipeline ∧ t.context = s.context ∧
      ∀ thread, isSet dpu (result thread) =
        if thread ∈ list then decide (thread ∈ s.pipeline.fifo) else isSet dpu (register thread) := by
  induction list generalizing register s with
  | nil =>
    obtain ⟨rfl, rfl⟩ := returns_pure.mp returns
    exact ⟨rfl, rfl, fun thread => (if_neg List.not_mem_nil).symm⟩
  | cons first rest ih =>
    obtain ⟨bits, u, read, later⟩ := returns_bind.mp returns
    obtain ⟨pipeline, context, bit⟩ := ufiReadRunBit_ok read
    obtain ⟨pipeline', context', bits'⟩ := ih later
    refine ⟨pipeline'.trans pipeline, context'.trans context, fun thread => ?_⟩
    rw [bits' thread, pipeline]
    by_cases here : thread = first
    · subst here
      simp [bit]
    · simp [here]

theorem fetchRunRegister_shows {register result : Nat → BitVec 8}
    (returns : Returns (fetchRunRegister dpu calls (threads dpu) register) s result t) :
    t.pipeline = s.pipeline ∧ t.context = s.context ∧ Shows dpu result s.pipeline.fifo := by
  obtain ⟨pipeline, context, bits⟩ := fetchRunRegister_ok returns
  exact ⟨pipeline, context, fun thread member => (bits thread).trans (if_pos member)⟩

end Calls

section Turn
variable {dpu : DrainedDpu} {calls : CiCalls} {shouldAddToSchedule : Bool} {pc : BitVec 16} {run : Nat → BitVec 8}

variable {previous : Nat → BitVec 8} {context : ThreadContext}

/-- The last loop of a turn on threads that have not been popped out. -/
theorem foldl_recordThread_others {list : List Nat}
    (others : ∀ thread ∈ list, isSet dpu (run thread) = false → isSet dpu (previous thread) = false)
    (still : Bool) :
    list.foldl (recordThread dpu shouldAddToSchedule pc run) ⟨still, previous, context⟩ =
      ⟨still || list.any fun thread => isSet dpu (run thread), previous, context⟩ := by
  induction list generalizing still with
  | nil => simp
  | cons first rest ih =>
    obtain ⟨here, others⟩ := List.forall_mem_cons.mp others
    rw [List.foldl_cons, recordThread]
    cases running : isSet dpu (run first) with
    | true =>
      rw [if_pos rfl]
      dsimp only
      rw [ih others]
      simp [running]
    | false =>
      rw [if_neg Bool.false_ne_true, if_neg (by rw [here running]; exact Bool.false_ne_true), ih others]
      simp [running]

variable {head : Nat} {rest : List Nat}

/-- The last loop of a turn that has popped out a thread. -/
theorem foldl_recordThread_popped (inside : head ∈ threads dpu) (gone : head ∉ rest) (shown : Shows dpu run rest)
    (before : Shows dpu previous (head :: rest)) :
    (threads dpu).foldl (recordThread dpu shouldAddToSchedule pc run) ⟨false, previous, context⟩ =
      ⟨(threads dpu).any fun thread => isSet dpu (run thread), Function.update previous head 0#8,
        context.pop shouldAddToSchedule head pc⟩ := by
  obtain ⟨earlier, later, split⟩ := List.append_of_mem inside
  have nodup : (earlier ++ head :: later).Nodup := split ▸ List.nodup_range
  have stopped : isSet dpu (run head) = false := by rw [shown head inside, decide_eq_false gone]
  have started : isSet dpu (previous head) = true := by
    rw [before head inside, decide_eq_true List.mem_cons_self]
  -- A thread other than the one that has been popped out runs if it ran before.
  have others : ∀ thread ∈ threads dpu, thread ≠ head → isSet dpu (run thread) = false →
      isSet dpu (previous thread) = false := by
    intro thread member other stops
    rw [shown thread member, decide_eq_false_iff_not] at stops
    rw [before thread member]
    exact decide_eq_false fun ran => (List.mem_cons.mp ran).elim other stops
  have notEarlier : ∀ thread ∈ earlier, thread ≠ head := by
    rintro thread member rfl
    exact (List.nodup_append.mp nodup).2.2 thread member thread List.mem_cons_self rfl
  have notLater : ∀ thread ∈ later, thread ≠ head := by
    rintro thread member rfl
    exact (List.nodup_cons.mp (List.nodup_append.mp nodup).2.1).1 member
  rw [split] at others ⊢
  have first := fun thread (member : thread ∈ earlier) =>
    others thread (List.mem_append_left _ member) (notEarlier thread member)
  have last : ∀ thread ∈ later, isSet dpu (run thread) = false →
      isSet dpu (Function.update previous head 0#8 thread) = false := by
    intro thread member stops
    rw [Function.update_of_ne (notLater thread member)]
    exact others thread (List.mem_append_right _ (List.mem_cons_of_mem _ member)) (notLater thread member) stops
  rw [List.foldl_append, foldl_recordThread_others first, List.foldl_cons, recordThread,
    if_neg (by rw [stopped]; exact Bool.false_ne_true), if_pos started, foldl_recordThread_others last]
  simp [stopped]

variable {s t : DrainState} {registers registers' : RunRegisters} {still : Bool}

/-- What a turn has done, when it goes on or ends. -/
theorem drainTurn_ok (returns : Returns (drainTurn dpu calls shouldAddToSchedule registers) s (still,
      registers') t) :
    t.pipeline = s.pipeline.faultAndStep ∧ ∃ run, Shows dpu run t.pipeline.fifo ∧
      (threads dpu).foldl (recordThread dpu shouldAddToSchedule t.pipeline.debugPc run)
        ⟨false, registers.previous, s.context⟩ = ⟨still, registers'.previous, t.context⟩ := by
  rw [drainTurn] at returns
  have stepped := ff_bind_ok (ff_bind_ok (ff_bind_ok returns))
  rw [returns_get_bind] at stepped
  obtain ⟨run, u, fetch, record⟩ := returns_bind.mp stepped
  rw [returns_modify_bind] at record
  obtain ⟨pipeline, context, shown⟩ := fetchRunRegister_shows fetch
  obtain ⟨value, rfl⟩ := returns_pure.mp record
  obtain ⟨rfl, rfl⟩ := Prod.mk.inj value
  refine ⟨pipeline, run, ?_, ?_⟩
  · rw [pipeline]
    exact shown
  · rw [pipeline]

theorem foldl_recordThread_stillDraining {list : List Nat} {recording : Recording}
    (still : (list.foldl (recordThread dpu shouldAddToSchedule pc run) recording).stillDraining = true) :
    recording.stillDraining = true ∨ ∃ thread ∈ list, isSet dpu (run thread) = true := by
  induction list generalizing recording with
  | nil => exact .inl still
  | cons first rest ih =>
    by_cases running : isSet dpu (run first) = true
    · exact .inr ⟨first, List.mem_cons_self, running⟩
    · rcases ih still with here | ⟨thread, member, runs⟩
      · rw [recordThread, if_neg running] at here
        split at here <;> exact .inl here
      · exact .inr ⟨thread, List.mem_cons_of_mem _ member, runs⟩

/-- A turn that is followed by another one has popped out a thread. -/
theorem drainTurn_shorter (turn : exec (drainTurn dpu calls shouldAddToSchedule registers) s =
      (.ok (true, registers'), t)) :
    t.pipeline.fifo.length < s.pipeline.fifo.length := by
  obtain ⟨pipeline, run, shown, fold⟩ := drainTurn_ok turn
  have still := congrArg Recording.stillDraining fold
  rcases foldl_recordThread_stillDraining still with none_ | ⟨thread, member, runs⟩
  · exact absurd none_ Bool.false_ne_true
  · rw [shown thread member, decide_eq_true_iff, pipeline, Pipeline.faultAndStep] at runs
    rw [pipeline, Pipeline.faultAndStep]
    cases fifo : s.pipeline.fifo with
    | nil => simp [fifo] at runs
    | cons head rest => simp

end Turn

section Pipeline
variable (dpu : DrainedDpu) (calls : CiCalls)

/-- The loop of `drain_pipeline`. -/
def drainLoop (shouldAddToSchedule : Bool) (registers : RunRegisters) (s : DrainState) :
    Except Failure PUnit × DrainState :=
  match _turn : exec (drainTurn dpu calls shouldAddToSchedule registers) s with
  | (.error status, t) => (.error status, t)
  | (.ok (false, _), t) => (.ok ⟨⟩, t)
  | (.ok (true, registers), t) => drainLoop shouldAddToSchedule registers t
termination_by s.pipeline.fifo.length
decreasing_by exact drainTurn_shorter ‹_›

/-- `drain_pipeline`, for a context that is given. -/
def drainPipeline (shouldAddToSchedule : Bool) : DrainM PUnit := do
  -- both arrays and `ufi_select_dpu`
  ff calls id
  ff calls id
  ff calls id
  let previous ← fetchRunRegister dpu calls (threads dpu) calls.uninitialized.previous
  if (threads dpu).any fun thread => isSet dpu (previous thread) then
    fun s => drainLoop dpu calls shouldAddToSchedule ⟨previous, calls.uninitialized.run⟩ s
    -- `ufi_clear_debug_replace`
    ff calls id

/-- The loop that resumes the threads that do not run. -/
def resumeThreads : List Nat → DrainM PUnit
  | [] => pure ⟨⟩
  | thread :: rest => do
    let s ← get
    if s.context.scheduling thread = 0xFF#8 then ff calls (·.boot thread)
    resumeThreads rest

/-- The steps 1.2 and 2 of `ci_debug_init_dpu`. -/
def fetchThreads : DrainM PUnit := do
  drainPipeline dpu calls true
  let s ← get
  if s.context.nrOfRunningThreads ≠ dpu.nrOfThreads then
    ff calls id
    ff calls Pipeline.faultAndStep
    resumeThreads calls (threads dpu)
    ff calls id
    drainPipeline dpu calls false

end Pipeline

/-- The threads of a pipeline are threads of the DPU, each one once. -/
structure Pipeline.Valid (pipeline : Pipeline) (dpu : DrainedDpu) : Prop where
  nodup : pipeline.fifo.Nodup
  inside : ∀ thread ∈ pipeline.fifo, thread ∈ threads dpu

/-- A context after some threads have been popped out, in their order. -/
def ThreadContext.drained (context : ThreadContext) (shouldAddToSchedule : Bool) (pc : Nat → BitVec 16)
    (fifo : List Nat) : ThreadContext :=
  fifo.foldl (fun context thread => context.pop shouldAddToSchedule thread (pc thread)) context

section Loop
variable {dpu : DrainedDpu} {calls : CiCalls} {shouldAddToSchedule : Bool} {s t : DrainState} {r : PUnit}

theorem drainLoop_ok {registers : RunRegisters} (valid : s.pipeline.Valid dpu) (running : s.pipeline.fifo ≠ [])
    (shown : Shows dpu registers.previous s.pipeline.fifo)
    (ends : drainLoop dpu calls shouldAddToSchedule registers s = (.ok r, t)) :
    t.pipeline.fifo = [] ∧ t.pipeline.pc = s.pipeline.pc ∧
      t.context = s.context.drained shouldAddToSchedule s.pipeline.pc s.pipeline.fifo := by
  obtain ⟨fifo, same⟩ : ∃ fifo, s.pipeline.fifo = fifo := ⟨_, rfl⟩
  induction fifo generalizing registers s with
  | nil => exact absurd same running
  | cons head rest ih =>
    have nodup := valid.nodup
    have inside := valid.inside
    rw [same] at nodup inside shown
    obtain ⟨gone, nodup⟩ := List.nodup_cons.mp nodup
    obtain ⟨headInside, inside⟩ := List.forall_mem_cons.mp inside
    rw [drainLoop] at ends
    split at ends
    · cases ends
    all_goals
      rename_i registers' u turn
      obtain ⟨pipeline, run, runShown, fold⟩ := drainTurn_ok turn
      have stepped : u.pipeline = ⟨rest, s.pipeline.pc, s.pipeline.pc head⟩ := by
        rw [pipeline, Pipeline.faultAndStep, same]
      rw [stepped] at runShown fold
      rw [foldl_recordThread_popped headInside gone runShown shown] at fold
      obtain ⟨still, previous, context⟩ := Recording.mk.inj fold
    · obtain ⟨-, rfl⟩ := Prod.mk.inj ends
      have ended : rest = [] := by
        refine List.eq_nil_iff_forall_not_mem.mpr fun thread member => ?_
        have runs := List.any_eq_false.mp still thread (inside thread member)
        rw [runShown thread (inside thread member)] at runs
        exact runs (decide_eq_true member)
      rw [stepped, same, ended, ← context]
      exact ⟨rfl, rfl, rfl⟩
    · have more : rest ≠ [] := by
        rintro rfl
        obtain ⟨thread, member, runs⟩ := List.any_eq_true.mp still
        rw [runShown thread member] at runs
        cases runs
      have shown' : Shows dpu registers'.previous rest := by
        intro thread member
        rw [← previous]
        by_cases here : thread = head
        · rw [here, Function.update_self, decide_eq_false gone, isSet_eq, BitVec.getLsbD_zero]
        · rw [Function.update_of_ne here, shown thread member]
          simp [here]
      have valid' : u.pipeline.Valid dpu := by
        rw [stepped]
        exact ⟨nodup, inside⟩
      have fifo' : u.pipeline.fifo = rest := congrArg Pipeline.fifo stepped
      have later := ih valid' (fifo'.trans_ne more) (fifo'.symm ▸ shown') ends fifo'
      rw [later.2.1, later.2.2, stepped, same, ← context]
      exact ⟨later.1, rfl, rfl⟩

theorem drainPipeline_ok (valid : s.pipeline.Valid dpu)
    (returns : Returns (drainPipeline dpu calls shouldAddToSchedule) s r t) :
    t.pipeline.fifo = [] ∧ t.pipeline.pc = s.pipeline.pc ∧
      t.context = s.context.drained shouldAddToSchedule s.pipeline.pc s.pipeline.fifo := by
  rw [drainPipeline] at returns
  have started := ff_bind_ok (ff_bind_ok (ff_bind_ok returns))
  obtain ⟨previous, u, fetch, rest⟩ := returns_bind.mp started
  obtain ⟨pipeline, context, shown⟩ := fetchRunRegister_shows fetch
  have samePipeline : u.pipeline = s.pipeline := pipeline
  have sameContext : u.context = s.context := context
  split at rest
  · rename_i some_
    obtain ⟨thread, member, runs⟩ := List.any_eq_true.mp some_
    rw [shown thread member, decide_eq_true_iff] at runs
    obtain ⟨_, v, loop, clear⟩ := returns_bind.mp rest
    have running : u.pipeline.fifo ≠ [] := by
      rw [samePipeline]
      exact List.ne_nil_of_mem runs
    have drained := drainLoop_ok (samePipeline ▸ valid) running (samePipeline ▸ shown) loop
    rw [ff_ok clear, ← samePipeline, ← sameContext]
    exact drained
  · rename_i none_
    obtain ⟨-, rfl⟩ := returns_pure.mp rest
    have empty : s.pipeline.fifo = [] := by
      refine List.eq_nil_iff_forall_not_mem.mpr fun thread member => ?_
      refine none_ (List.any_eq_true.mpr ⟨thread, valid.inside thread member, ?_⟩)
      rw [shown thread (valid.inside thread member)]
      exact decide_eq_true member
    rw [samePipeline, sameContext, empty]
    exact ⟨rfl, rfl, rfl⟩

end Loop

section Drained
variable {pc : Nat → BitVec 16} {shouldAddToSchedule : Bool}

theorem drained_pcs (context : ThreadContext) (fifo : List Nat) (thread : Nat) :
    (context.drained shouldAddToSchedule pc fifo).pcs thread = if thread ∈ fifo then pc thread
      else context.pcs thread := by
  induction fifo generalizing context with
  | nil => rfl
  | cons head rest ih =>
    rw [ThreadContext.drained, List.foldl_cons, ← ThreadContext.drained, ih]
    by_cases here : thread = head
    · subst here
      simp [ThreadContext.pop]
    · simp [ThreadContext.pop, here]

theorem drained_false (context : ThreadContext) (fifo : List Nat) :
    (context.drained false pc fifo).scheduling = context.scheduling ∧
      (context.drained false pc fifo).nrOfRunningThreads = context.nrOfRunningThreads := by
  induction fifo generalizing context with
  | nil => exact ⟨rfl, rfl⟩
  | cons head rest ih => exact ih (context.pop false head (pc head))

theorem drained_nrOfRunningThreads (context : ThreadContext) (fifo : List Nat) :
    (context.drained true pc fifo).nrOfRunningThreads = context.nrOfRunningThreads +
      BitVec.ofNat 8 fifo.length := by
  induction fifo generalizing context with
  | nil => exact (BitVec.add_zero _).symm
  | cons head rest ih =>
    rw [ThreadContext.drained, List.foldl_cons, ← ThreadContext.drained, ih, List.length_cons, Nat.add_comm,
      BitVec.ofNat_add, ← BitVec.add_assoc]
    rfl

theorem drained_scheduling_others (context : ThreadContext) {fifo : List Nat} {thread : Nat}
    (other : thread ∉ fifo) :
    (context.drained true pc fifo).scheduling thread = context.scheduling thread := by
  induction fifo generalizing context with
  | nil => rfl
  | cons head rest ih =>
    rw [List.mem_cons, not_or] at other
    rw [ThreadContext.drained, List.foldl_cons, ← ThreadContext.drained, ih _ other.2]
    exact Function.update_of_ne other.1 _ _

theorem drained_scheduling (context : ThreadContext) {fifo : List Nat} (nodup : fifo.Nodup) {i : Nat}
    (inside : i < fifo.length) :
    (context.drained true pc fifo).scheduling fifo[i] = context.nrOfRunningThreads + BitVec.ofNat 8 i := by
  induction fifo generalizing context i with
  | nil => exact absurd inside (Nat.not_lt_zero i)
  | cons head rest ih =>
    obtain ⟨gone, nodup⟩ := List.nodup_cons.mp nodup
    rw [ThreadContext.drained, List.foldl_cons, ← ThreadContext.drained]
    cases i with
    | zero =>
      rw [List.getElem_cons_zero, drained_scheduling_others _ gone, BitVec.add_zero]
      exact Function.update_self _ _ _
    | succ i =>
      rw [List.getElem_cons_succ, ih _ nodup (Nat.lt_of_succ_lt_succ inside), Nat.add_comm, BitVec.ofNat_add,
        ← BitVec.add_assoc]
      rfl

end Drained

/-- What a context is to hold about the threads of a pipeline. -/
structure Records (dpu : DrainedDpu) (fifo : List Nat) (pc : Nat → BitVec 16) (context : ThreadContext) : Prop where
  count : context.nrOfRunningThreads.toNat = fifo.length
  waiting : ∀ thread ∈ threads dpu, context.scheduling thread = 0xFF#8 ↔ thread ∉ fifo
  positions : ∀ i (inside : i < fifo.length), (context.scheduling fifo[i]).toNat = i
  pcs : ∀ thread ∈ threads dpu, context.pcs thread = pc thread

section Fetch
variable {dpu : DrainedDpu} {calls : CiCalls} {s t : DrainState} {r : PUnit}

theorem resumeThreads_ok {list : List Nat} (nodup : list.Nodup)
    (stopped : ∀ thread ∈ list, thread ∉ s.pipeline.fifo)
    (returns : Returns (resumeThreads calls list) s r t) :
    t.context = s.context ∧ t.pipeline =
      { s.pipeline with fifo :=
        s.pipeline.fifo ++ list.filter fun thread => s.context.scheduling thread = 0xFF#8 } := by
  induction list generalizing s with
  | nil =>
    obtain ⟨-, rfl⟩ := returns_pure.mp returns
    simp
  | cons first rest ih =>
    obtain ⟨other, nodup⟩ := List.nodup_cons.mp nodup
    obtain ⟨here, stopped⟩ := List.forall_mem_cons.mp stopped
    rw [resumeThreads, returns_get_bind] at returns
    split at returns
    · rename_i marked
      have later := ff_bind_ok returns
      have booted : s.pipeline.boot first = { s.pipeline with fifo := s.pipeline.fifo ++ [first] } := if_neg here
      rw [booted] at later
      have stopped' : ∀ thread ∈ rest, thread ∉ s.pipeline.fifo ++ [first] := by
        intro thread member
        rw [List.mem_append, List.mem_singleton, not_or]
        exact ⟨stopped thread member, fun same => other (same ▸ member)⟩
      obtain ⟨context, pipeline⟩ := ih nodup stopped' later
      refine ⟨context, pipeline.trans ?_⟩
      simp [marked]
    · rename_i unmarked
      have later := ih nodup stopped returns
      simp only [List.filter_cons, unmarked, decide_false, Bool.false_eq_true, if_false]
      exact later

/-- What `ci_debug_init_dpu` finds out about the threads. -/
def ThreadContext.fetched (context : ThreadContext) (dpu : DrainedDpu) (pipeline : Pipeline) : ThreadContext :=
  let drained := context.drained true pipeline.pc pipeline.fifo
  if drained.nrOfRunningThreads ≠ dpu.nrOfThreads then
    drained.drained false pipeline.pc ((threads dpu).filter fun thread => drained.scheduling thread = 0xFF#8)
  else drained

theorem fetchThreads_ok (valid : s.pipeline.Valid dpu) (returns : Returns (fetchThreads dpu calls) s r t) :
    t.context = s.context.fetched dpu s.pipeline := by
  rw [fetchThreads] at returns
  obtain ⟨_, u, drain, rest⟩ := returns_bind.mp returns
  obtain ⟨fifo, pc, context⟩ := drainPipeline_ok valid drain
  rw [returns_get_bind, context] at rest
  rw [ThreadContext.fetched]
  split at rest
  · rename_i fewer
    rw [if_pos fewer]
    have stepped := ff_bind_ok (ff_bind_ok rest)
    obtain ⟨_, v, resume, again⟩ := returns_bind.mp stepped
    have still : (id u.pipeline).faultAndStep = u.pipeline := by
      rw [id, Pipeline.faultAndStep, fifo]
    rw [still] at resume
    have resumed := resumeThreads_ok List.nodup_range (fun thread _ => by rw [fifo]; exact List.not_mem_nil) resume
    rw [fifo, List.nil_append] at resumed
    have drain' := ff_bind_ok again
    have valid' : (DrainState.mk (id v.pipeline) v.context (v.calls + 1)).pipeline.Valid dpu := by
      rw [id, resumed.2]
      exact ⟨List.nodup_range.filter _, fun thread member => List.mem_of_mem_filter member⟩
    have drained := drainPipeline_ok valid' drain'
    dsimp only [id] at drained
    rw [resumed.1, resumed.2, pc, context] at drained
    exact drained.2.2
  · rename_i all
    rw [if_neg all]
    obtain ⟨-, rfl⟩ := returns_pure.mp rest
    exact context

theorem Pipeline.Valid.length_le {pipeline : Pipeline} (valid : pipeline.Valid dpu) :
    pipeline.fifo.length ≤ dpu.nrOfThreads.toNat := by
  have shorter := (List.subperm_of_subset valid.nodup valid.inside).length_le
  rwa [threads, List.length_range] at shorter

theorem fetched_scheduling (context : ThreadContext) (pipeline : Pipeline) :
    (context.fetched dpu pipeline).scheduling = (context.drained true pipeline.pc pipeline.fifo).scheduling ∧
      (context.fetched dpu pipeline).nrOfRunningThreads =
        context.nrOfRunningThreads + BitVec.ofNat 8 pipeline.fifo.length := by
  rw [← drained_nrOfRunningThreads, ThreadContext.fetched]
  split
  · exact drained_false _ _
  · exact ⟨rfl, rfl⟩

/-- The counter and the marks of a context only come out right if it has started from 0 and with the marks. -/
theorem fetched_start {context : ThreadContext} {pipeline : Pipeline} (valid : pipeline.Valid dpu)
    (count : (context.fetched dpu pipeline).nrOfRunningThreads.toNat = pipeline.fifo.length)
    (waiting : ∀ thread ∈ threads dpu,
      (context.fetched dpu pipeline).scheduling thread = 0xFF#8 ↔ thread ∉ pipeline.fifo) :
    context.nrOfRunningThreads = 0#8 ∧
      ∀ thread ∈ threads dpu, thread ∉ pipeline.fifo → context.scheduling thread = 0xFF#8 := by
  obtain ⟨scheduling, sum⟩ := @fetched_scheduling dpu context pipeline
  refine ⟨BitVec.eq_of_toNat_eq ?_, fun thread member stopped => ?_⟩
  · rw [sum, BitVec.toNat_add, BitVec.toNat_ofNat] at count
    have few := valid.length_le
    have byte := dpu.nrOfThreads.isLt
    have small := context.nrOfRunningThreads.isLt
    show context.nrOfRunningThreads.toNat = 0
    omega
  · have mark := (waiting thread member).mpr stopped
    rwa [scheduling, drained_scheduling_others _ stopped] at mark

/-- The threads are recorded when the counter starts at 0 and the threads that do not run are marked before. -/
theorem fetched_records_iff (context : ThreadContext) {pipeline : Pipeline} (valid : pipeline.Valid dpu) :
    Records dpu pipeline.fifo pipeline.pc (context.fetched dpu pipeline) ↔
      context.nrOfRunningThreads = 0#8 ∧
        ∀ thread ∈ threads dpu, thread ∉ pipeline.fifo → context.scheduling thread = 0xFF#8 := by
  obtain ⟨scheduling, count⟩ := @fetched_scheduling dpu context pipeline
  have few := valid.length_le
  have byte := dpu.nrOfThreads.isLt
  constructor
  · intro records
    exact fetched_start valid records.count records.waiting
  · rintro ⟨zero, marked⟩
    rw [zero, BitVec.zero_add] at count
    have positions : ∀ i (inside : i < pipeline.fifo.length),
        (context.fetched dpu pipeline).scheduling pipeline.fifo[i] = BitVec.ofNat 8 i := by
      intro i inside
      rw [scheduling, drained_scheduling _ valid.nodup inside, zero, BitVec.zero_add]
    have waiting : ∀ thread ∈ threads dpu,
        (context.fetched dpu pipeline).scheduling thread = 0xFF#8 ↔ thread ∉ pipeline.fifo := by
      intro thread member
      constructor
      · intro mark running
        obtain ⟨i, inside, rfl⟩ := List.mem_iff_getElem.mp running
        rw [positions i inside] at mark
        have number := congrArg BitVec.toNat mark
        rw [BitVec.toNat_ofNat, BitVec.toNat_ofNat] at number
        omega
      · intro stopped
        rw [scheduling, drained_scheduling_others _ stopped]
        exact marked thread member stopped
    refine ⟨?_, waiting, fun i inside => ?_, fun thread member => ?_⟩
    · rw [count, BitVec.toNat_ofNat]
      omega
    · rw [positions i inside, BitVec.toNat_ofNat]
      omega
    · have mark := waiting thread member
      rw [scheduling] at mark
      rw [ThreadContext.fetched]
      split
      · rw [drained_pcs, drained_pcs]
        by_cases running : thread ∈ pipeline.fifo
        · simp [running]
        · rw [if_pos (List.mem_filter.mpr ⟨member, decide_eq_true (mark.mpr running)⟩)]
      · rename_i all
        rw [drained_nrOfRunningThreads, zero, BitVec.zero_add, not_not] at all
        have length := congrArg BitVec.toNat all
        rw [BitVec.toNat_ofNat] at length
        -- As many threads as the DPU has run, so all of them do.
        have perm := (List.subperm_of_subset valid.nodup valid.inside).perm_of_length_le (by
          rw [threads, List.length_range]
          omega)
        rw [drained_pcs, if_pos (perm.mem_iff.mpr member)]

end Fetch

section Success
variable {dpu : DrainedDpu} {calls : CiCalls}

theorem succeeds_ff (fine : ∀ n, calls.status n = .ok) (effect : Pipeline → Pipeline) :
    Succeeds (ff calls effect) := by
  refine succeeds_bind succeeds_get fun s => succeeds_bind succeeds_modify fun _ => ?_
  rw [dif_pos (fine s.calls)]
  exact succeeds_modify

theorem succeeds_fetchRunRegister (fine : ∀ n, calls.status n = .ok) (list : List Nat) (register : Nat → BitVec 8) :
    Succeeds (fetchRunRegister dpu calls list register) := by
  induction list generalizing register with
  | nil => exact succeeds_pure
  | cons first rest ih =>
    have read : Succeeds (ufiReadRunBit dpu calls first) :=
      succeeds_bind succeeds_get fun _ => succeeds_bind (succeeds_ff fine id) fun _ => succeeds_pure
    exact succeeds_bind read fun result => ih _

theorem succeeds_drainTurn (fine : ∀ n, calls.status n = .ok) (shouldAddToSchedule : Bool)
    (registers : RunRegisters) :
    Succeeds (drainTurn dpu calls shouldAddToSchedule registers) :=
  succeeds_bind (succeeds_ff fine _) fun _ => succeeds_bind (succeeds_ff fine _) fun _ =>
    succeeds_bind (succeeds_ff fine _) fun _ => succeeds_bind succeeds_get fun _ =>
      succeeds_bind (succeeds_fetchRunRegister fine _ _) fun _ => succeeds_bind succeeds_modify fun _ =>
        succeeds_pure

/-- The loop ends, as each turn pops out a thread. -/
theorem drainLoop_succeeds (fine : ∀ n, calls.status n = .ok) (shouldAddToSchedule : Bool)
    (registers : RunRegisters)
    (s : DrainState) : ∃ t, drainLoop dpu calls shouldAddToSchedule registers s = (.ok ⟨⟩, t) := by
  induction length : s.pipeline.fifo.length using Nat.strong_induction_on generalizing s registers with
  | _ n ih =>
    obtain ⟨⟨still, registers'⟩, t, turn⟩ := @succeeds_drainTurn dpu calls fine shouldAddToSchedule registers s
    have turns : exec (drainTurn dpu calls shouldAddToSchedule registers) s = (.ok (still, registers'), t) := turn
    rw [drainLoop]
    cases still with
    | false =>
      split
      · rename_i failed
        rw [turns] at failed
        cases failed
      · exact ⟨_, rfl⟩
      · rename_i again
        rw [turns] at again
        cases again
    | true =>
      split
      · rename_i failed
        rw [turns] at failed
        cases failed
      · rename_i last
        rw [turns] at last
        cases last
      · rename_i again
        rw [turns] at again
        cases again
        exact ih _ (length ▸ drainTurn_shorter turns) _ _ rfl

theorem succeeds_drainPipeline (fine : ∀ n, calls.status n = .ok) (shouldAddToSchedule : Bool) :
    Succeeds (drainPipeline dpu calls shouldAddToSchedule) := by
  refine succeeds_bind (succeeds_ff fine _) fun _ => succeeds_bind (succeeds_ff fine _) fun _ =>
    succeeds_bind (succeeds_ff fine _) fun _ => succeeds_bind (succeeds_fetchRunRegister fine _ _) fun previous =>
      succeeds_ite (succeeds_bind (fun s => ?_) fun _ => succeeds_ff fine _) succeeds_pure
  obtain ⟨t, ends⟩ := drainLoop_succeeds fine shouldAddToSchedule ⟨previous, calls.uninitialized.run⟩ s
  exact ⟨⟨⟩, t, ends⟩

theorem succeeds_resumeThreads (fine : ∀ n, calls.status n = .ok) (list : List Nat) :
    Succeeds (resumeThreads calls list) := by
  induction list with
  | nil => exact succeeds_pure
  | cons first rest ih =>
    exact succeeds_bind succeeds_get fun s => succeeds_ite (succeeds_bind (succeeds_ff fine _) fun _ => ih) ih

theorem succeeds_fetchThreads (fine : ∀ n, calls.status n = .ok) : Succeeds (fetchThreads dpu calls) :=
  succeeds_bind (succeeds_drainPipeline fine true) fun _ => succeeds_bind succeeds_get fun _ =>
    succeeds_ite (succeeds_bind (succeeds_ff fine _) fun _ => succeeds_bind (succeeds_ff fine _) fun _ =>
      succeeds_bind (succeeds_resumeThreads fine _) fun _ => succeeds_bind (succeeds_ff fine _) fun _ =>
        succeeds_drainPipeline fine false) succeeds_pure

end Success

end Upmem.DrainPipeline
