import Upmem.DebugRoutine

namespace Upmem.DebugRoutine
open Commands Ci Ufi

variable {dpu : RoutineDpu} {o : Outcomes} {s t : SliceState}

/-- The DPU is the one that is recorded and selected. -/
structure SliceState.Ready (s : SliceState) (dpu : RoutineDpu) : Prop where
  recorded : s.sliceTarget = .dpu dpu.memberId
  selected : s.hardware.selected = .dpu dpu.memberId

theorem SliceState.Ready.onSelected (ready : s.Ready dpu) (change : DpuMemories → DpuMemories) :
    (s.onSelected change).memories dpu.memberId = change (s.memories dpu.memberId) := by
  have addressed : s.hardware.Addressed dpu.memberId := by
    rw [CiHardware.Addressed, ready.selected]
  exact if_pos addressed

theorem SliceState.Ready.changed (ready : s.Ready dpu) (change : DpuMemories → DpuMemories) :
    (s.onSelected change).Ready dpu := ⟨ready.recorded, ready.selected⟩

theorem SliceState.Ready.answers (ready : s.Ready dpu) (mixed : DpuMemories) :
    s.answers mixed = s.memories dpu.memberId := by
  rw [SliceState.answers, ready.selected]

/-- How commands end: whether they succeed, what the DPU then has in its memories, and
that it is still selected after a success. -/
structure Leaves {α : Type} (dpu : RoutineDpu) (x : RoutineM α) (s : SliceState) (ok : Prop)
    (m : DpuMemories) : Prop where
  memories : (exec x s).2.memories dpu.memberId = m
  succeeds : (∃ a t, Returns x s a t) ↔ ok
  ready : ∀ a t, Returns x s a t → t.Ready dpu

section Rules
variable {α β : Type} {x : RoutineM α} {f : α → RoutineM β} {ok rest : Prop} {m m' : DpuMemories}

theorem Leaves.returned (leaves : Leaves dpu x s ok m) {a : α} (returned : Returns x s a t) :
    ok ∧ t.memories dpu.memberId = m ∧ t.Ready dpu := by
  refine ⟨leaves.succeeds.mp ⟨a, t, returned⟩, ?_, leaves.ready a t returned⟩
  rw [← leaves.memories, show exec x s = (.ok a, t) from returned]

theorem Leaves.bind [Decidable ok] (first : Leaves dpu x s ok m)
    (last : ∀ a t, Returns x s a t → Leaves dpu (f a) t rest m') :
    Leaves dpu (x >>= f) s (ok ∧ rest) (if ok then m' else m) := by
  cases result : exec x s with
  | mk value t =>
    cases value with
    | error e =>
      have failed : ¬ok := fun succeeds => by
        obtain ⟨a, u, returned⟩ := first.succeeds.mpr succeeds
        cases result.symm.trans returned
      have ends : exec (x >>= f) s = (.error e, t) := by rw [exec_bind, result]
      have memories := first.memories
      rw [result] at memories
      refine ⟨by rw [ends, if_neg failed]; exact memories, ⟨?_, fun both => absurd both.1 failed⟩, ?_⟩
      · rintro ⟨b, u, returned⟩
        cases ends.symm.trans returned
      · intro b u returned
        cases ends.symm.trans returned
    | ok a =>
      have succeeds : ok := (first.returned result).1
      have continued := last a t result
      have ends : exec (x >>= f) s = exec (f a) t := by rw [exec_bind, result]
      refine ⟨by rw [ends, if_pos succeeds]; exact continued.memories, ?_, ?_⟩
      · rw [← continued.succeeds, and_iff_right succeeds]
        simp only [Returns, ends]
      · intro b u returned
        exact continued.ready b u (ends.symm.trans returned)

theorem Leaves.of_eq {y : RoutineM α} (leaves : Leaves dpu x t ok m) (same : exec y s = exec x t) :
    Leaves dpu y s ok m := by
  refine ⟨by rw [same]; exact leaves.memories, ?_, fun a u returned => leaves.ready a u (same.symm.trans returned)⟩
  rw [← leaves.succeeds]
  simp only [Returns, same]

theorem Leaves.congr (leaves : Leaves dpu x s ok m) (succeeds : ok ↔ rest) (memories : m = m') :
    Leaves dpu x s rest m' :=
  ⟨memories ▸ leaves.memories, leaves.succeeds.trans succeeds, leaves.ready⟩

theorem Leaves.failed {e : DpuError} (ends : exec x s = (.error e, s)) :
    Leaves dpu x s False (s.memories dpu.memberId) := by
  refine ⟨by rw [ends], ⟨?_, False.elim⟩, ?_⟩
  · rintro ⟨a, t, returned⟩
    cases ends.symm.trans returned
  · intro a t returned
    cases ends.symm.trans returned

theorem Leaves.step (first : Leaves dpu x s ok m) (succeeds : ok)
    (last : ∀ a t, Returns x s a t → Leaves dpu (f a) t rest m') : Leaves dpu (x >>= f) s rest m' := by
  classical
  exact (first.bind last).congr (and_iff_right succeeds) (if_pos succeeds)

theorem Leaves.stop (first : Leaves dpu x s ok m) (fails : ¬ok) : Leaves dpu (x >>= f) s False m := by
  classical
  have last : ∀ a t, Returns x s a t → Leaves dpu (f a) t False m :=
    fun a t returned => absurd (first.returned returned).1 fails
  exact (first.bind last).congr (and_iff_right_of_imp False.elim |>.trans Iff.rfl) (if_neg fails)

/-- The memories stay as the first commands leave them. -/
theorem Leaves.bind_same (first : Leaves dpu x s ok m) (last : ∀ a t, Returns x s a t → Leaves dpu (f a) t rest m) :
    Leaves dpu (x >>= f) s (ok ∧ rest) m := by
  classical
  exact (first.bind last).congr Iff.rfl (ite_self _)

theorem Leaves.modify_bind {g : SliceState → SliceState} {f : PUnit → RoutineM β}
    (leaves : Leaves dpu (f ⟨⟩) (g s) ok m) :
    Leaves dpu (modify g >>= f) s ok m :=
  leaves.of_eq (by rw [exec_bind, exec_modify])

theorem Leaves.get_bind {f : SliceState → RoutineM β} (leaves : Leaves dpu (f s) s ok m) :
    Leaves dpu (get >>= f) s ok m :=
  leaves.of_eq (by rw [exec_bind, exec_get])

theorem Leaves.ff_bind {status : DpuError} {f : PUnit → RoutineM β}
    (leaves : status = .ok → Leaves dpu (f ⟨⟩) s ok m) :
    Leaves dpu (ff status >>= f) s (status = .ok ∧ ok) (if status = .ok then m else s.memories dpu.memberId) := by
  by_cases succeeds : status = .ok
  · refine ((leaves succeeds).of_eq ?_).congr (by rw [and_iff_right succeeds]) (by rw [if_pos succeeds])
    rw [exec_bind, ff, if_pos succeeds, exec_pure]
  · refine Leaves.congr (Leaves.failed (e := status) ?_) (by simp [succeeds]) (by rw [if_neg succeeds])
    rw [exec_bind, ff, if_neg succeeds, exec_throw]

theorem Leaves.allocate_bind {result : Option α}
    (last : ∀ a, result = some a → Leaves dpu (f a) s ok (s.memories dpu.memberId)) :
    Leaves dpu (allocate result >>= f) s (result.isSome = true ∧ ok) (s.memories dpu.memberId) := by
  cases result with
  | none => exact (Leaves.failed rfl).congr (by simp) rfl
  | some a => exact ((last a rfl).of_eq rfl).congr (by simp) rfl

theorem leaves_pure (ready : s.Ready dpu) (a : α) : Leaves dpu (pure a) s True (s.memories dpu.memberId) := by
  refine ⟨rfl, ⟨fun _ => trivial, fun _ => ⟨a, s, rfl⟩⟩, fun b t returned => ?_⟩
  cases returned
  exact ready

theorem leaves_modify {g : SliceState → SliceState} (ready : (g s).Ready dpu) :
    Leaves dpu (modify g) s True ((g s).memories dpu.memberId) := by
  refine ⟨rfl, ⟨fun _ => trivial, fun _ => ⟨⟨⟩, g s, rfl⟩⟩, fun r t returned => ?_⟩
  cases returned
  exact ready

theorem leaves_ff (ready : s.Ready dpu) (status : DpuError) :
    Leaves dpu (ff status) s (status = .ok) (s.memories dpu.memberId) := by
  by_cases succeeds : status = .ok
  · rw [ff, if_pos succeeds]
    exact (leaves_pure ready _).congr (by simp [succeeds]) rfl
  · rw [ff, if_neg succeeds]
    exact (Leaves.failed rfl).congr (by simp [succeeds]) rfl

end Rules

theorem returns_ff {status : DpuError} {r : PUnit} : Returns (ff status) s r t ↔ status = .ok ∧ s = t := by
  rw [ff]
  split
  · rename_i ok
    simp [returns_pure, ok]
  · rename_i failed
    simp [not_returns_throw, failed]

theorem returns_allocate {α : Type} {result : Option α} {a : α} :
    Returns (allocate result : RoutineM α) s a t ↔ result = some a ∧ s = t := by
  cases result with
  | none => simp [allocate, not_returns_throw]
  | some buffer => simp [allocate, returns_pure]

section Commands
variable (enabled : dpu.enabled = true)
include enabled

/-- A selection of the DPU, when what is recorded is selected. -/
theorem leaves_ufiSelectDpu (known : s.sliceTarget = .dpu dpu.memberId → s.hardware.selected = .dpu dpu.memberId)
    (outcome : CommandOutcome) :
    Leaves dpu (ufiSelectDpu dpu outcome) s (s.sliceTarget = .dpu dpu.memberId ∨ outcome.status = .ok)
      (s.memories dpu.memberId) := by
  unfold ufiSelectDpu
  rw [if_neg (by simp [enabled])]
  refine Leaves.get_bind ?_
  by_cases recorded : s.sliceTarget = .dpu dpu.memberId
  · rw [if_pos recorded]
    exact (leaves_pure ⟨recorded, known recorded⟩ true).congr (by simp [recorded]) rfl
  · rw [if_neg recorded]
    refine Leaves.modify_bind ?_
    by_cases succeeds : outcome.status = .ok
    · have reached := outcome.reaches succeeds
      refine (Leaves.ff_bind fun _ => leaves_pure ⟨rfl, ?_⟩ true).congr (by simp [succeeds]) (by simp)
      simp only [reached, if_true]
      rfl
    · rw [ff, if_neg succeeds]
      exact (Leaves.failed rfl).congr (by simp [succeeds, recorded]) rfl

theorem ufiSelectDpu_on {outcome : CommandOutcome} {on : Bool}
    (returned : Returns (ufiSelectDpu dpu outcome) s on t) :
    on = true := by
  unfold ufiSelectDpu at returned
  rw [if_neg (by simp [enabled]), returns_get_bind] at returned
  split at returned
  · exact (returns_pure.mp returned).1.symm
  · simp only [returns_bind, returns_pure] at returned
    obtain ⟨_, _, _, _, _, _, is, _⟩ := returned
    exact is.symm

/-- A selection of the DPU that is selected does nothing. -/
theorem Leaves.select_bind {α : Type} {ok : Prop} {m : DpuMemories} {f : Bool → RoutineM α} (ready : s.Ready dpu)
    (outcome : CommandOutcome) (leaves : Leaves dpu (f true) s ok m) :
    Leaves dpu (ufiSelectDpu dpu outcome >>= f) s ok m := by
  refine leaves.of_eq ?_
  have returned : exec (ufiSelectDpu dpu outcome) s = (.ok true, s) := by
    unfold ufiSelectDpu
    rw [if_neg (by simp [enabled]), exec_bind, exec_get]
    dsimp only
    rw [if_pos ready.recorded, exec_pure]
  rw [exec_bind, returned]

omit enabled

theorem leaves_onSelected (ready : s.Ready dpu) (change : DpuMemories → DpuMemories) (status : DpuError) :
    Leaves dpu (do modify fun s => s.onSelected change; ff status) s (status = .ok)
    (change (s.memories dpu.memberId)) :=
  Leaves.modify_bind ((leaves_ff (ready.changed change) status).congr Iff.rfl (ready.onSelected change))

theorem leaves_ufiIramWrite (ready : s.Ready dpu) (source : Nat → BitVec 64) (len : Nat) (outcome : WriteOutcome) :
    Leaves dpu (ufiIramWrite true source len outcome) s (outcome.status = .ok)
      ((s.memories dpu.memberId).writeIram source (outcome.count len)) :=
  leaves_onSelected ready (fun memories => memories.writeIram source (outcome.count len)) outcome.status

theorem ufiIramWrite_context {on : Bool} {source : Nat → BitVec 64} {len : Nat} {outcome : WriteOutcome} {r : PUnit}
    (returned : Returns (ufiIramWrite on source len outcome) s r t) : t.context = s.context := by
  rw [ufiIramWrite, returns_modify_bind, returns_ff] at returned
  rw [← returned.2]
  split <;> rfl

theorem leaves_ufiWramWrite (ready : s.Ready dpu) (source : Nat → BitVec 32) (len : Nat) (outcome : WriteOutcome) :
    Leaves dpu (ufiWramWrite true source len outcome) s (outcome.status = .ok)
      ((s.memories dpu.memberId).writeWram source (outcome.count len)) :=
  leaves_onSelected ready (fun memories => memories.writeWram source (outcome.count len)) outcome.status

theorem leaves_ufiWramRead (ready : s.Ready dpu) (on : Bool) (buffer : Nat → BitVec 32) (len : Nat)
    (status : DpuError) :
    Leaves dpu (ufiWramRead o on buffer len status) s (status = .ok) (s.memories dpu.memberId) := by
  unfold ufiWramRead
  refine (Leaves.ff_bind fun _ => ?_).congr (and_iff_left trivial) (ite_self _)
  exact Leaves.get_bind (leaves_pure ready _)

theorem leaves_ufiThreadBoot (ready : s.Ready dpu) (outcome : CommandOutcome) (run : HelperRun) :
    Leaves dpu (ufiThreadBoot true outcome run) s (outcome.status = .ok)
      (if outcome.reached then run.exec (s.memories dpu.memberId) else s.memories dpu.memberId) := by
  unfold ufiThreadBoot
  cases outcome.reached with
  | false => exact Leaves.modify_bind (leaves_ff ready outcome.status)
  | true => exact leaves_onSelected ready run.exec outcome.status

end Commands

/-- The boot command of a routine is executed. -/
def Boots (dpu : RoutineDpu) (o : Outcomes) : Prop :=
  o.routine.switchMux.status = .ok ∧
    (o.routine.switchMux.recorded = .dpu dpu.memberId ∨ o.routine.threadSelect.status = .ok) ∧
    o.routine.boot.reached = true

instance : Decidable (Boots dpu o) := by
  unfold Boots
  infer_instance

/-- The program of a routine is booted and found stopped. -/
def Waits (dpu : RoutineDpu) (o : Outcomes) : Prop :=
  o.routine.switchMux.status = .ok ∧
    (o.routine.switchMux.recorded = .dpu dpu.memberId ∨ o.routine.threadSelect.status = .ok) ∧
    o.routine.boot.status = .ok ∧ o.routine.wait = .ok

instance : Decidable (Waits dpu o) := by
  unfold Waits
  infer_instance

/-- What booting the program leaves in the memories. -/
def booted (dpu : RoutineDpu) (o : Outcomes) (m : DpuMemories) : DpuMemories :=
  if Boots dpu o then o.routine.run.exec m else m

section Routine
variable (enabled : dpu.enabled = true)
include enabled

theorem leaves_selectAndBoot (known : s.sliceTarget = .dpu dpu.memberId → s.hardware.selected = .dpu dpu.memberId) :
    Leaves dpu (do
        let on ← ufiSelectDpu dpu o.routine.threadSelect
        ufiThreadBoot on o.routine.boot o.routine.run) s
      ((s.sliceTarget = .dpu dpu.memberId ∨ o.routine.threadSelect.status = .ok) ∧ o.routine.boot.status = .ok)
      (if s.sliceTarget = .dpu dpu.memberId ∨ o.routine.threadSelect.status = .ok then
        if o.routine.boot.reached then o.routine.run.exec (s.memories dpu.memberId) else s.memories dpu.memberId
      else s.memories dpu.memberId) := by
  have select := leaves_ufiSelectDpu enabled known o.routine.threadSelect
  refine select.bind fun on t returned => ?_
  obtain ⟨_, memories, ready⟩ := select.returned returned
  rw [ufiSelectDpu_on enabled returned, ← memories]
  exact leaves_ufiThreadBoot ready _ _

theorem leaves_ciStartThreadDpu :
    Leaves dpu (ciStartThreadDpu dpu o) s (o.routine.switchMux.status = .ok ∧
      (o.routine.switchMux.recorded = .dpu dpu.memberId ∨ o.routine.threadSelect.status = .ok) ∧
        o.routine.boot.status = .ok)
      (booted dpu o (s.memories dpu.memberId)) := by
  unfold ciStartThreadDpu dpuSwitchMuxForDpuLine
  simp only [bind_assoc]
  refine Leaves.modify_bind ?_
  refine Leaves.congr (Leaves.ff_bind fun switched => leaves_selectAndBoot enabled fun recorded => ?_) Iff.rfl ?_
  · exact (o.routine.switchMux.agree switched).trans recorded
  · rw [booted]
    dsimp only
    split_ifs <;> simp_all [Boots]

theorem leaves_dpuBootAndWaitForDpu (ready : s.Ready dpu) :
    Leaves dpu (dpuBootAndWaitForDpu dpu o) s (Waits dpu o) (booted dpu o (s.memories dpu.memberId)) := by
  unfold dpuBootAndWaitForDpu
  refine Leaves.select_bind enabled ready _ ?_
  have start : Leaves dpu (ciStartThreadDpu dpu o) s _ _ := leaves_ciStartThreadDpu enabled
  have wait : ∀ r t, Returns (ciStartThreadDpu dpu o) s r t →
      Leaves dpu (ff o.routine.wait) t (o.routine.wait = .ok) (booted dpu o (s.memories dpu.memberId)) := by
    intro r t started
    obtain ⟨_, memories, ready⟩ := start.returned started
    exact (leaves_ff ready o.routine.wait).congr Iff.rfl memories
  refine (start.bind_same wait).congr ?_ rfl
  rw [Waits]
  tauto

/-- What a routine does when it succeeds. -/
def Succeeds (dpu : RoutineDpu) (o : Outcomes) : Routine → Prop
  | .extractContext => Waits dpu o ∧ o.routine.wramRead = .ok
  | .restoreContext => o.routine.wramWrite.status = .ok ∧ Waits dpu o

/-- What a routine leaves in the memories, given the buffer of `raw_context`. -/
def leftBy (dpu : RoutineDpu) (o : Outcomes) (context : RegisterContext) (buffer : Nat → BitVec 32)
    (m : DpuMemories) :
    Routine → DpuMemories
  | .extractContext => booted dpu o m
  | .restoreContext =>
    let filled := m.writeWram (formatContext dpu context buffer) (o.routine.wramWrite.count contextSizeInWords)
    if o.routine.wramWrite.status = .ok then booted dpu o filled else filled

theorem leaves_exec (ready : s.Ready dpu) (routine : Routine) (buffer : Nat → BitVec 32) :
    Leaves dpu (routine.exec dpu o buffer) s (Succeeds dpu o routine)
      (leftBy dpu o s.context buffer (s.memories dpu.memberId) routine) := by
  cases routine with
  | extractContext =>
    have wait : Leaves dpu (dpuBootAndWaitForDpu dpu o) s _ _ := leaves_dpuBootAndWaitForDpu enabled ready
    have fetch : ∀ r t, Returns (dpuBootAndWaitForDpu dpu o) s r t → Leaves dpu (do
        let on ← ufiSelectDpu dpu o.routine.wramSelect
        let raw ← ufiWramRead o on buffer contextSizeInWords o.routine.wramRead
        modify fun s => { s with context := parseContext dpu raw s.context }) t (o.routine.wramRead = .ok)
        (booted dpu o (s.memories dpu.memberId)) := by
      intro r t waited
      obtain ⟨_, memories, ready⟩ := wait.returned waited
      refine Leaves.select_bind enabled ready _ ?_
      have read := leaves_ufiWramRead (o := o) ready true buffer contextSizeInWords o.routine.wramRead
      have parse : ∀ raw u, Returns (ufiWramRead o true buffer contextSizeInWords o.routine.wramRead) t raw u →
          Leaves dpu (modify fun s => { s with context := parseContext dpu raw s.context }) u True
            (t.memories dpu.memberId) := by
        intro raw u returned
        obtain ⟨_, memories, ready⟩ := read.returned returned
        exact (leaves_modify ⟨ready.recorded, ready.selected⟩).congr Iff.rfl memories
      exact (read.bind_same parse).congr (and_iff_left trivial) memories
    exact wait.bind_same fetch
  | restoreContext =>
    refine Leaves.get_bind (Leaves.select_bind enabled ready _ ?_)
    have write :=
      leaves_ufiWramWrite ready (formatContext dpu s.context buffer) contextSizeInWords o.routine.wramWrite
    refine write.bind fun _ t written => ?_
    obtain ⟨_, memories, ready⟩ := write.returned written
    rw [← memories]
    exact leaves_dpuBootAndWaitForDpu enabled ready

end Routine

/-- The steps up to the one that loads the program succeed. -/
structure Saves (dpu : RoutineDpu) (o : Outcomes) (s : SliceState) : Prop where
  startEvent : o.startEvent = .ok
  program : o.program.isSome = true
  iramBackup : o.iramBackup.isSome = true
  select : s.sliceTarget = .dpu dpu.memberId ∨ o.select.status = .ok
  iramRead : o.iramRead = .ok
  wramBackup : o.wramBackup.isSome = true
  wramRead : o.wramRead = .ok

section Save
variable (enabled : dpu.enabled = true)

theorem leaves_ufiIramRead (ready : s.Ready dpu) (on : Bool) (buffer : Nat → BitVec 64) (len : Nat)
    (status : DpuError) :
    Leaves dpu (ufiIramRead o on buffer len status) s (status = .ok) (s.memories dpu.memberId) := by
  unfold ufiIramRead
  refine (Leaves.ff_bind fun _ => ?_).congr (and_iff_left trivial) (ite_self _)
  exact Leaves.get_bind (leaves_pure ready _)

include enabled

theorem leaves_saveMemories (known : s.sliceTarget = .dpu dpu.memberId → s.hardware.selected = .dpu dpu.memberId) :
    Leaves dpu (saveMemories dpu o) s (Saves dpu o s) (s.memories dpu.memberId) := by
  have select := leaves_ufiSelectDpu enabled known o.select
  have steps : Leaves dpu (saveMemories dpu o) s (o.startEvent = .ok ∧ o.program.isSome = true ∧
    o.iramBackup.isSome = true ∧
      (s.sliceTarget = .dpu dpu.memberId ∨ o.select.status = .ok) ∧ o.iramRead = .ok ∧ o.wramBackup.isSome = true ∧
      o.wramRead = .ok ∧ True) (s.memories dpu.memberId) := by
    unfold saveMemories
    refine (Leaves.ff_bind fun _ => Leaves.allocate_bind fun program _ => Leaves.allocate_bind fun iramBuffer _ =>
      select.bind_same fun on t selected => ?_).congr Iff.rfl (ite_self _)
    obtain ⟨_, memories, ready⟩ := select.returned selected
    rw [← memories]
    refine (leaves_ufiIramRead ready on iramBuffer program.2.toNat o.iramRead).bind_same fun iram u read => ?_
    obtain ⟨_, memories, ready⟩ := (leaves_ufiIramRead ready on iramBuffer program.2.toNat o.iramRead).returned read
    rw [← memories]
    refine Leaves.allocate_bind fun wramBuffer _ => ?_
    refine (leaves_ufiWramRead ready on wramBuffer contextSizeInWords o.wramRead).bind_same fun wram v read => ?_
    obtain ⟨_, memories, ready⟩ :=
      (leaves_ufiWramRead ready on wramBuffer contextSizeInWords o.wramRead).returned read
    rw [← memories]
    exact Leaves.get_bind (leaves_pure ready _)
  refine steps.congr ⟨?_, fun saves => ?_⟩ rfl
  · rintro ⟨startEvent, program, iramBackup, select, iramRead, wramBackup, wramRead, _⟩
    exact ⟨startEvent, program, iramBackup, select, iramRead, wramBackup, wramRead⟩
  · exact ⟨saves.startEvent, saves.program, saves.iramBackup, saves.select, saves.iramRead,
      saves.wramBackup, saves.wramRead,
      trivial⟩

theorem ufiSelectDpu_context {outcome : CommandOutcome} {on : Bool}
    (returned : Returns (ufiSelectDpu dpu outcome) s on t) :
    t.context = s.context := by
  unfold ufiSelectDpu at returned
  rw [if_neg (by simp [enabled]), returns_get_bind] at returned
  split at returned
  · rw [← (returns_pure.mp returned).2]
  · rw [returns_modify_bind] at returned
    simp only [returns_bind, returns_ff, returns_pure] at returned
    obtain ⟨_, _, ⟨_, rfl⟩, _, rfl⟩ := returned
    rfl

/-- What is saved when the steps succeed. -/
structure SavedRight (dpu : RoutineDpu) (s : SliceState) (fetched : (Nat → BitVec 64) × BitVec 16)
    (saved : Saved) : Prop where
  on : saved.on = true
  size : saved.size = fetched.2
  program : saved.program = insertPcs dpu s.context fetched.2 fetched.1
  iram : ∀ address < fetched.2.toNat, saved.iram address = ((s.memories dpu.memberId).iram address).setWidth 64
  wram : ∀ address < contextSizeInWords, saved.wram address = (s.memories dpu.memberId).wram address

theorem saveMemories_saved (known : s.sliceTarget = .dpu dpu.memberId → s.hardware.selected = .dpu dpu.memberId)
    {fetched : (Nat → BitVec 64) × BitVec 16} (fetches : o.program = some fetched) {saved : Saved}
    (returned : Returns (saveMemories dpu o) s saved t) : SavedRight dpu s fetched saved ∧
      t.context = s.context := by
  simp only [saveMemories, ufiIramRead, ufiWramRead, returns_bind, returns_ff, returns_allocate,
    returns_get, returns_pure,
    fetches] at returned
  obtain ⟨_, _, ⟨_, rfl⟩, ⟨_, _⟩, _, ⟨is, rfl⟩, _, _, ⟨_, rfl⟩, on, u, selected, _, _,
    ⟨_, _, ⟨_, rfl⟩, _, _, ⟨rfl, rfl⟩, rfl, rfl⟩,
    _, _, ⟨_, rfl⟩, _, _, ⟨_, _, ⟨_, rfl⟩, _, _, ⟨rfl, rfl⟩, rfl, rfl⟩, _, _, ⟨rfl, rfl⟩, rfl, rfl⟩ := returned
  obtain ⟨_, memories, ready⟩ := (leaves_ufiSelectDpu enabled known o.select).returned selected
  have context := ufiSelectDpu_context enabled selected
  obtain rfl := Option.some.inj is
  obtain rfl := ufiSelectDpu_on enabled selected
  rw [if_pos rfl, if_pos rfl, ready.answers, memories, context]
  exact ⟨⟨rfl, rfl, rfl, fun address inside => if_pos inside, fun address inside => if_pos inside⟩, rfl⟩

end Save

/-- The write-backs of a routine succeed. -/
structure WritesBack (o : Outcomes) : Prop where
  wram : o.wramRestore.status = .ok
  iram : o.iramRestore.status = .ok

/-- A DPU with what its memories hold. -/
def Transparent (dpu : RoutineDpu) (s t : SliceState) : Prop := t.memories dpu.memberId = s.memories dpu.memberId

/-- The memories once the program is loaded, as far as it is. -/
def loaded (dpu : RoutineDpu) (o : Outcomes) (s : SliceState) (fetched : (Nat → BitVec 64) × BitVec 16) :
    DpuMemories :=
  (s.memories dpu.memberId).writeIram (insertPcs dpu s.context fetched.2 fetched.1)
    (o.programWrite.count fetched.2.toNat)

theorem overwrite_back {α : Type} {memory changed source : Nat → α} {count : Nat}
    (saved : ∀ address < count, source address = memory address)
    (outside : ∀ address, count ≤ address → changed address = memory address) :
    overwrite changed source count = memory := by
  funext address
  rw [overwrite]
  split
  · rename_i inside
    exact saved address inside
  · rename_i out
    exact outside address (by omega)

theorem overwrite_outside {α : Type} {memory source : Nat → α} {count address : Nat} (out : count ≤ address) :
    overwrite memory source count address = memory address := if_neg (by omega)

theorem writeIram_outside (m : DpuMemories) (source : Nat → BitVec 64) {count address : Nat}
    (out : count ≤ address) :
    (m.writeIram source count).iram address = m.iram address := by
  rw [DpuMemories.writeIram]
  exact if_neg (by omega)

theorem WriteOutcome.count_ok {outcome : WriteOutcome} (succeeds : outcome.status = .ok) (len : Nat) :
    outcome.count len = len := if_pos succeeds

theorem booted_iram (m : DpuMemories) : (booted dpu o m).iram = m.iram := by
  unfold booted
  split <;> rfl

theorem booted_wram (m : DpuMemories) {address : Nat} (out : contextSizeInWords ≤ address) :
    (booted dpu o m).wram address = m.wram address := by
  unfold booted
  split
  · exact o.routine.run.outside m address out
  · rfl

/-- A routine only changes the place of the context. -/
theorem leftBy_outside (dpu : RoutineDpu) (o : Outcomes) (context : RegisterContext) (buffer : Nat → BitVec 32)
    (m : DpuMemories) (routine : Routine) :
    (leftBy dpu o context buffer m routine).iram = m.iram ∧
      ∀ address, contextSizeInWords ≤ address →
      (leftBy dpu o context buffer m routine).wram address = m.wram address := by
  cases routine with
  | extractContext => exact ⟨booted_iram m, fun address out => booted_wram m out⟩
  | restoreContext =>
    have filled {address : Nat} (out : contextSizeInWords ≤ address) :
      (m.writeWram (formatContext dpu context buffer)
        (o.routine.wramWrite.count contextSizeInWords)).wram address = m.wram address := by
      refine overwrite_outside ?_
      rw [WriteOutcome.count]
      split <;> omega
    rw [leftBy]
    split
    · exact ⟨booted_iram _, fun address out => (booted_wram _ out).trans (filled out)⟩
    · exact ⟨rfl, fun address out => filled out⟩

theorem writeBack_eq {fetched : (Nat → BitVec 64) × BitVec 16} {saved : Saved}
    (right : SavedRight dpu s fetched saved)
    {m : DpuMemories}
    (iram : ∀ address, fetched.2.toNat ≤ address → m.iram address = (s.memories dpu.memberId).iram address)
    (wram : ∀ address, contextSizeInWords ≤ address → m.wram address = (s.memories dpu.memberId).wram address) :
    (m.writeWram saved.wram contextSizeInWords).writeIram saved.iram fetched.2.toNat = s.memories dpu.memberId := by
  refine DpuMemories.ext (overwrite_back (fun address inside => ?_) iram) (overwrite_back right.wram wram)
  rw [right.iram address inside, BitVec.setWidth_setWidth_of_le _ (by decide), BitVec.setWidth_eq]

section Transparent
variable {fetched : (Nat → BitVec 64) × BitVec 16} {saved : Saved} (right : SavedRight dpu s fetched saved)
include right

theorem leaves_writeBack (back : WritesBack o) (ready : t.Ready dpu)
    (iram : ∀ address, fetched.2.toNat ≤ address →
      (t.memories dpu.memberId).iram address = (s.memories dpu.memberId).iram address)
    (wram : ∀ address, contextSizeInWords ≤ address →
      (t.memories dpu.memberId).wram address = (s.memories dpu.memberId).wram address) :
    Leaves dpu (do
        ufiWramWrite saved.on saved.wram contextSizeInWords o.wramRestore
        ufiIramWrite saved.on saved.iram saved.size.toNat o.iramRestore
        ff o.endEvent) t (o.endEvent = .ok) (s.memories dpu.memberId) := by
  rw [right.on, right.size]
  have first := leaves_ufiWramWrite ready saved.wram contextSizeInWords o.wramRestore
  refine first.step back.wram fun _ u written => ?_
  obtain ⟨_, memories, ready⟩ := first.returned written
  have second := leaves_ufiIramWrite ready saved.iram fetched.2.toNat o.iramRestore
  refine second.step back.iram fun _ v written => ?_
  obtain ⟨_, restored, ready⟩ := second.returned written
  rw [memories, WriteOutcome.count_ok back.wram, WriteOutcome.count_ok back.iram,
    writeBack_eq right iram wram] at restored
  exact (leaves_ff ready o.endEvent).congr Iff.rfl restored

theorem leaves_load (ready : t.Ready dpu) (same : t.memories dpu.memberId = s.memories dpu.memberId) :
    Leaves dpu (ufiIramWrite saved.on saved.program saved.size.toNat o.programWrite) t (o.programWrite.status = .ok)
      (loaded dpu o s fetched) := by
  rw [right.on, right.size, right.program, loaded, ← same]
  exact leaves_ufiIramWrite ready _ _ _

/-- A call that fails before its routine leaves the program in IRAM, as far as it is loaded. -/
theorem leaves_executeSaved_load (ready : t.Ready dpu) (same : t.memories dpu.memberId = s.memories dpu.memberId)
    (routine : Routine) (failed : o.programWrite.status ≠ .ok ∨ o.rawContext = none) :
    Leaves dpu (executeSaved dpu o routine saved) t False (loaded dpu o s fetched) := by
  have load := leaves_load (o := o) right ready same
  by_cases succeeds : o.programWrite.status = .ok
  · have empty : o.rawContext = none := failed.resolve_left (not_not.mpr succeeds)
    refine load.step succeeds fun _ u written => ?_
    obtain ⟨_, memories, _⟩ := load.returned written
    rw [empty, ← memories]
    exact Leaves.failed rfl
  · exact load.stop succeeds

variable {buffer : Nat → BitVec 32}

/-- A routine that fails is not undone. -/
theorem leaves_executeSaved_failed (enabled : dpu.enabled = true) (ready : t.Ready dpu)
    (same : t.memories dpu.memberId = s.memories dpu.memberId) (context : t.context = s.context) (routine : Routine)
    (succeeds : o.programWrite.status = .ok) (allocated : o.rawContext = some buffer)
    (fails : ¬Succeeds dpu o routine) :
    Leaves dpu (executeSaved dpu o routine saved) t False
      (leftBy dpu o s.context buffer (loaded dpu o s fetched) routine) := by
  have load := leaves_load (o := o) right ready same
  refine load.step succeeds fun _ u written => ?_
  obtain ⟨_, memories, ready⟩ := load.returned written
  rw [allocated, ← memories, ← context, ← ufiIramWrite_context written]
  exact (leaves_exec enabled ready routine buffer).stop fails

/-- A routine that succeeds is undone. -/
theorem leaves_executeSaved (enabled : dpu.enabled = true) (back : WritesBack o) (ready : t.Ready dpu)
    (same : t.memories dpu.memberId = s.memories dpu.memberId) (routine : Routine)
    (succeeds : o.programWrite.status = .ok) (allocated : o.rawContext = some buffer)
    (runs : Succeeds dpu o routine) :
    Leaves dpu (executeSaved dpu o routine saved) t (o.endEvent = .ok) (s.memories dpu.memberId) := by
  have load := leaves_load (o := o) right ready same
  refine load.step succeeds fun _ u written => ?_
  obtain ⟨_, memories, ready⟩ := load.returned written
  rw [allocated]
  have run := leaves_exec (o := o) enabled ready routine buffer
  refine run.step runs fun _ v ran => ?_
  obtain ⟨_, left, ready⟩ := run.returned ran
  have outside := leftBy_outside dpu o u.context buffer (loaded dpu o s fetched) routine
  rw [memories] at left
  refine leaves_writeBack right back ready (fun address out => ?_) fun address out => ?_
  · have unwritten : o.programWrite.count fetched.2.toNat ≤ address := by
      rw [WriteOutcome.count_ok succeeds]
      exact out
    rw [left, outside.1]
    exact writeIram_outside _ _ unwritten
  · rw [left, outside.2 address out]
    rfl

end Transparent

section Disabled
variable {memories : Nat → DpuMemories} (disabled : dpu.enabled = false)

theorem ufiSelectDpu_disabled (disabled : dpu.enabled = false) (outcome : CommandOutcome) :
    ufiSelectDpu dpu outcome = pure false := by
  unfold ufiSelectDpu
  rw [if_pos (by simp [disabled])]

theorem keeps_ff (status : DpuError) : Keeps (fun t : SliceState => t.memories = memories) (ff status) := by
  rw [ff]
  split
  · exact keeps_pure
  · exact keeps_throw

theorem keeps_allocate {α : Type} (result : Option α) :
    Keeps (fun t : SliceState => t.memories = memories) (allocate result : RoutineM α) := by
  cases result with
  | none => exact keeps_throw
  | some buffer => exact keeps_pure

theorem keeps_ufiIramRead (on : Bool) (buffer : Nat → BitVec 64) (len : Nat) (status : DpuError) :
    Keeps (fun t : SliceState => t.memories = memories) (ufiIramRead o on buffer len status) :=
  keeps_bind (keeps_ff _) fun _ => keeps_bind keeps_get fun _ => keeps_pure

theorem keeps_ufiWramRead (on : Bool) (buffer : Nat → BitVec 32) (len : Nat) (status : DpuError) :
    Keeps (fun t : SliceState => t.memories = memories) (ufiWramRead o on buffer len status) :=
  keeps_bind (keeps_ff _) fun _ => keeps_bind keeps_get fun _ => keeps_pure

theorem keeps_ufiIramWrite_off (source : Nat → BitVec 64) (len : Nat) (outcome : WriteOutcome) :
    Keeps (fun t : SliceState => t.memories = memories) (ufiIramWrite false source len outcome) :=
  keeps_bind (keeps_modify fun _ kept => kept) fun _ => keeps_ff _

theorem keeps_ufiWramWrite_off (source : Nat → BitVec 32) (len : Nat) (outcome : WriteOutcome) :
    Keeps (fun t : SliceState => t.memories = memories) (ufiWramWrite false source len outcome) :=
  keeps_bind (keeps_modify fun _ kept => kept) fun _ => keeps_ff _

include disabled

theorem keeps_ufiSelectDpu_off (outcome : CommandOutcome) :
    Keeps (fun t : SliceState => t.memories = memories) (ufiSelectDpu dpu outcome) := by
  rw [ufiSelectDpu_disabled disabled]
  exact keeps_pure

theorem keeps_dpuBootAndWaitForDpu_off :
    Keeps (fun t : SliceState => t.memories = memories) (dpuBootAndWaitForDpu dpu o) := by
  have switch (outcome : MuxOutcome) :
      Keeps (fun t : SliceState => t.memories = memories) (dpuSwitchMuxForDpuLine outcome) :=
    keeps_bind (keeps_modify fun _ kept => kept) fun _ => keeps_ff _
  have boot :
      Keeps (fun t : SliceState => t.memories = memories) (ufiThreadBoot false o.routine.boot o.routine.run) :=
    keeps_bind (keeps_modify fun _ kept => kept) fun _ => keeps_ff _
  unfold dpuBootAndWaitForDpu ciStartThreadDpu
  simp only [ufiSelectDpu_disabled disabled, pure_bind]
  exact keeps_bind (keeps_bind (switch _) fun _ => boot) fun _ => keeps_ff _

theorem keeps_exec_off (routine : Routine) (buffer : Nat → BitVec 32) :
    Keeps (fun t : SliceState => t.memories = memories) (routine.exec dpu o buffer) := by
  cases routine with
  | extractContext =>
    refine keeps_bind (keeps_dpuBootAndWaitForDpu_off disabled) fun _ =>
      keeps_bind (keeps_ufiSelectDpu_off disabled _) fun on => ?_
    exact keeps_bind (keeps_ufiWramRead on _ _ _) fun _ => keeps_modify fun _ kept => kept
  | restoreContext =>
    unfold Routine.exec dpuRestoreContextForDpuRoutine
    simp only [ufiSelectDpu_disabled disabled, pure_bind]
    refine keeps_bind keeps_get fun _ => ?_
    exact keeps_bind (keeps_ufiWramWrite_off _ _ _) fun _ => keeps_dpuBootAndWaitForDpu_off disabled

/-- No memory is changed through a mask without the control interface. -/
theorem keeps_dpuExecuteRoutineForDpu_off (routine : Routine) :
    Keeps (fun t : SliceState => t.memories = memories) (dpuExecuteRoutineForDpu dpu o routine) := by
  unfold dpuExecuteRoutineForDpu saveMemories executeSaved
  simp only [ufiSelectDpu_disabled disabled, pure_bind, bind_assoc]
  refine keeps_bind (keeps_ff _) fun _ => keeps_bind (keeps_allocate _) fun _ =>
    keeps_bind (keeps_allocate _) fun _ =>
    keeps_bind (keeps_ufiIramRead _ _ _ _) fun _ => keeps_bind (keeps_allocate _) fun _ =>
    keeps_bind (keeps_ufiWramRead _ _ _ _) fun _ => keeps_bind keeps_get fun _ => ?_
  refine keeps_bind (keeps_ufiIramWrite_off _ _ _) fun _ => keeps_bind (keeps_allocate _) fun _ =>
    keeps_bind (keeps_exec_off disabled routine _) fun _ => ?_
  exact keeps_bind (keeps_ufiWramWrite_off _ _ _) fun _ =>
    keeps_bind (keeps_ufiIramWrite_off _ _ _) fun _ => keeps_ff _

end Disabled

def Routine.call (dpu : RoutineDpu) (o : Outcomes) : Routine → RoutineM PUnit
  | .extractContext => ciDebugExtractContextDpu dpu o
  | .restoreContext => ciDebugRestoreContextDpu dpu o

theorem Routine.call_eq (routine : Routine) : routine.call dpu o = dpuExecuteRoutineForDpu dpu o routine := by
  cases routine <;> rfl

/-- When the load of the program, the allocation after it or the routine fails, what has been written is what the
memories held. -/
structure FailsUnchanged (dpu : RoutineDpu) (o : Outcomes) (s : SliceState) (routine : Routine)
    (fetched : (Nat → BitVec 64) × BitVec 16) : Prop where
  load : o.programWrite.status ≠ .ok ∨ o.rawContext = none → loaded dpu o s fetched = s.memories dpu.memberId
  routine : o.programWrite.status = .ok → ∀ buffer, o.rawContext = some buffer → ¬Succeeds dpu o routine →
    leftBy dpu o s.context buffer (loaded dpu o s fetched) routine = s.memories dpu.memberId

section Iff
variable {routine : Routine}

theorem executeSaved_transparent_iff (enabled : dpu.enabled = true) (back : WritesBack o)
    {fetched : (Nat → BitVec 64) × BitVec 16} {saved : Saved} (right : SavedRight dpu s fetched saved)
    (ready : t.Ready dpu) (same : t.memories dpu.memberId = s.memories dpu.memberId)
    (context : t.context = s.context) :
    Transparent dpu s (exec (executeSaved dpu o routine saved) t).2 ↔ FailsUnchanged dpu o s routine fetched := by
  rw [Transparent]
  by_cases failed : o.programWrite.status ≠ .ok ∨ o.rawContext = none
  · rw [(leaves_executeSaved_load right ready same routine failed).memories]
    refine ⟨fun unchanged => ⟨fun _ => unchanged,
      fun succeeds buffer allocated => ?_⟩, fun unchanged => unchanged.load failed⟩
    rcases failed with failed | empty
    · exact absurd succeeds failed
    · cases empty.symm.trans allocated
  · push Not at failed
    obtain ⟨succeeds, allocated⟩ := failed
    obtain ⟨buffer, allocated⟩ := Option.ne_none_iff_exists'.mp allocated
    have load : ¬(o.programWrite.status ≠ .ok ∨ o.rawContext = none) := by simp [succeeds, allocated]
    by_cases runs : Succeeds dpu o routine
    · rw [(leaves_executeSaved right enabled back ready same routine succeeds allocated runs).memories]
      exact ⟨fun _ => ⟨fun failed => absurd failed load, fun _ _ _ fails => absurd runs fails⟩, fun _ => rfl⟩
    · rw [(leaves_executeSaved_failed right enabled ready same context routine succeeds allocated runs).memories]
      refine ⟨fun unchanged => ⟨fun failed => absurd failed load, fun _ other is _ => ?_⟩,
        fun unchanged => unchanged.routine succeeds buffer allocated runs⟩
      cases allocated.symm.trans is
      exact unchanged

theorem dpuExecuteRoutineForDpu_transparent_iff (enabled : dpu.enabled = true)
    (known : s.sliceTarget = .dpu dpu.memberId → s.hardware.selected = .dpu dpu.memberId) (back : WritesBack o) :
    Transparent dpu s (exec (dpuExecuteRoutineForDpu dpu o routine) s).2 ↔
      (Saves dpu o s → ∀ fetched, o.program = some fetched → FailsUnchanged dpu o s routine fetched) := by
  have save := leaves_saveMemories (o := o) enabled known
  rw [dpuExecuteRoutineForDpu, exec_bind]
  cases result : exec (saveMemories dpu o) s with
  | mk value t =>
    cases value with
    | error e =>
      have failed : ¬Saves dpu o s := fun saves => by
        obtain ⟨saved, u, returned⟩ := save.succeeds.mpr saves
        cases result.symm.trans returned
      have unchanged : Transparent dpu s t := by
        rw [Transparent, ← save.memories, result]
      exact ⟨fun _ saves => absurd saves failed, fun _ => unchanged⟩
    | ok saved =>
      obtain ⟨saves, same, ready⟩ := save.returned result
      obtain ⟨fetched, fetches⟩ := Option.isSome_iff_exists.mp saves.program
      obtain ⟨right, context⟩ := saveMemories_saved enabled known fetches result
      dsimp only
      rw [executeSaved_transparent_iff enabled back right ready same context]
      refine ⟨fun unchanged _ other is => ?_, fun unchanged => unchanged saves fetched fetches⟩
      cases fetches.symm.trans is
      exact unchanged

/-- From a selection that is known, a routine of the debugger is transparent exactly if
it does not fail between the load of its program and the write-back, or has changed
nothing by then. -/
theorem call_transparent_iff (known : s.sliceTarget = .dpu dpu.memberId → s.hardware.selected = .dpu dpu.memberId)
    (back : WritesBack o) :
    Transparent dpu s (exec (routine.call dpu o) s).2 ↔ (dpu.enabled = true → Saves dpu o s →
      ∀ fetched, o.program = some fetched → FailsUnchanged dpu o s routine fetched) := by
  rw [Routine.call_eq]
  by_cases enabled : dpu.enabled = true
  · rw [dpuExecuteRoutineForDpu_transparent_iff enabled known back]
    exact ⟨fun unchanged _ => unchanged, fun unchanged => unchanged enabled⟩
  · have kept := keeps_dpuExecuteRoutineForDpu_off (o := o) (Bool.eq_false_iff.mpr enabled) routine s rfl
    exact ⟨fun _ is => absurd is enabled, fun _ => congrFun kept dpu.memberId⟩

end Iff

def debuggedDpu : RoutineDpu := ⟨2, true, 256, 24, 24⟩

/-- A control interface that selects all its DPUs, with empty memories. -/
def emptySlice : SliceState :=
  { sliceTarget := .all
    hardware := ⟨0#64, .all, fun _ => 0⟩
    memories := fun _ => ⟨fun _ => 0#48, fun _ => 0#32⟩
    context := ⟨fun _ => false, fun _ => 0#32, fun _ => false, fun _ => false, fun _ => 0x10#16⟩ }

def fineCommand : CommandOutcome := ⟨.ok, true, fun _ => rfl⟩

/-- A call in which only the allocation of `raw_context` fails. -/
def lacksRawContext : Outcomes :=
  { startEvent := .ok
    program := some (fun _ => 0x7e6320000000#64, 288#16)
    iramBackup := some fun _ => 0#64
    select := fineCommand
    iramRead := .ok
    wramBackup := some fun _ => 0#32
    wramRead := .ok
    programWrite := ⟨.ok, 0⟩
    rawContext := none
    routine :=
      { bootSelect := fineCommand
        switchMux := ⟨.ok, .dpu 2, .dpu 2, fun _ => rfl⟩
        threadSelect := fineCommand
        boot := fineCommand
        run := ⟨fun memories => memories.wram, fun _ _ _ => rfl⟩
        wait := .ok
        wramSelect := fineCommand
        wramRead := .ok
        wramWrite := ⟨.ok, 0⟩ }
    wramRestore := ⟨.ok, 0⟩
    iramRestore := ⟨.ok, 0⟩
    endEvent := .ok
    mixed := ⟨fun _ => 0#48, fun _ => 0#32⟩ }

theorem call_transparent_iff_lacksRawContext :
    Transparent debuggedDpu emptySlice
      (exec (Routine.extractContext.call debuggedDpu lacksRawContext) emptySlice).2 ↔
      (debuggedDpu.enabled = true → Saves debuggedDpu lacksRawContext emptySlice → ∀ fetched,
        lacksRawContext.program = some fetched →
          FailsUnchanged debuggedDpu lacksRawContext emptySlice .extractContext fetched) :=
  call_transparent_iff (fun recorded => absurd recorded (by decide)) ⟨rfl, rfl⟩

/-- A program that stays in IRAM because a buffer could not be allocated. -/
theorem lacksRawContext_not_transparent : WritesBack lacksRawContext ∧ ¬Transparent debuggedDpu emptySlice
    (exec (ciDebugExtractContextDpu debuggedDpu lacksRawContext) emptySlice).2 := by
  refine ⟨⟨rfl, rfl⟩, fun transparent => ?_⟩
  have left := congrArg (fun memories => memories.iram 0) transparent
  revert left
  decide

end Upmem.DebugRoutine
