import Upmem.Lib.Transitions
import Upmem.UfiFrames

namespace Upmem.Ufi
open Ci StatusChain

/-- The DPUs of a control interface are partitioned as it assigns them to groups. -/
structure GroupsAgree (nrDpus : Nat) (cache : SliceCache) (hardware : CiHardware) : Prop where
  inside : ∀ dpu < nrDpus, hardware.group dpu < DPU_MAX_NR_GROUPS
  same : ∀ group < DPU_MAX_NR_GROUPS, ∀ dpu < nrDpus,
    (cache.dpusPerGroup group).getLsbD dpu = decide (hardware.group dpu = group)

/-- The recorded selection is a selection that the control interface has. -/
structure SelectionKnown (cache : SliceCache) (hardware : CiHardware) : Prop where
  selected : cache.sliceTarget = .none ∨ hardware.selected = cache.sliceTarget
  inside : ∀ group, cache.sliceTarget = .group group → group < DPU_MAX_NR_GROUPS

/-- The caches of a control interface agree with it. -/
structure CiCoherent (nrDpus : Nat) (cache : SliceCache) (hardware : CiHardware) : Prop where
  selection : SelectionKnown cache hardware
  known : StructureKnown cache hardware
  groups : GroupsAgree nrDpus cache hardware

/-- The caches of all control interfaces agree with them. -/
structure UfiState.Coherent (s : UfiState) : Prop where
  each : ∀ ci < s.rank.nrCis, CiCoherent s.rank.nrDpusPerCi (s.cache ci) (s.hardware ci)
  settled : s.Settled

section Steps
variable {misread : Misread} {outcome : Outcome} {outcomes : FrameOutcomes} {s t : UfiState} {mask : BitVec 8}
  {structure_ : BitVec 64} {frames : Nat → Option (BitVec 64 × Frame)}

theorem UfiState.Coherent.known (coherent : s.Coherent) : s.StructuresKnown :=
  fun ci inside => (coherent.each ci inside).known

/-- Frames that change neither selection nor groups keep the caches coherent. -/
theorem FrameDone.coherent_other (coherent : s.Coherent)
    (idle : ∀ ci structure_ frame, frames ci = some (structure_, frame) → ∃ word, frame = .other word)
    (done : FrameDone frames s t) : t.Coherent := by
  refine ⟨fun ci inside => ?_, done.settled⟩
  rw [done.rank] at inside ⊢
  have before := coherent.each ci inside
  rw [done.hardware ci inside, done.cache ci]
  cases given : frames ci with
  | none => exact before
  | some entry =>
    obtain ⟨word, other⟩ := idle ci entry.1 entry.2 given
    simp only [other, CiHardware.perform_other]
    exact ⟨⟨before.selection.selected, before.selection.inside⟩, .inr rfl,
      ⟨before.groups.inside, before.groups.same⟩⟩

theorem keptMask_getLsbD {want : Want} {ci : Nat} (inside : ci < 8) : (s.keptMask want mask).getLsbD ci =
    (mask.getLsbD ci && !(decide (ci < s.rank.nrCis) && (s.wanted want ci).isNone)) := by
  unfold UfiState.keptMask
  induction s.rank.nrCis with
  | zero => simp
  | succ n ih =>
    rw [List.range_succ, List.foldl_append, List.foldl_cons, List.foldl_nil]
    by_cases same : ci = n
    · subst same
      have below : decide (ci < ci) = false := by simp
      have here : decide (ci < ci + 1) = true := by simp
      cases removed : (s.wanted want ci).isNone with
      | false => rw [if_neg (by simp), ih, removed, below, here]
                 rfl
      | true =>
        rw [if_pos rfl, BitVec.getLsbD_and, BitVec.getLsbD_not,
          show ciMaskOne ci = dpuMaskOne ci from rfl, dpuMaskOne_getLsbD inside]
        simp
    · have bound : decide (ci < n + 1) = decide (ci < n) := decide_eq_decide.mpr (by omega)
      rw [bound, ← ih]
      split
      · rw [BitVec.getLsbD_and, BitVec.getLsbD_not, show ciMaskOne n = dpuMaskOne n from rfl,
          dpuMaskOne_getLsbD inside]
        simp [inside, same]
      · rfl

theorem on_keptMask {want : Want} (ci : Nat) :
    s.on (s.keptMask want mask) ci = (s.on mask ci && (s.wanted want ci).isSome) := by
  by_cases inside : ci < s.rank.nrCis
  · have small : ci < 8 := inside.trans_le s.rank.description.topology.cis_le
    rw [UfiState.on, UfiState.on, ciMaskOn, ciMaskOn, keptMask_getLsbD small]
    cases (s.wanted want ci) <;> simp [inside]
  · simp [UfiState.on, ciMaskOn, inside]

theorem toSelect_eq_none {want : Want} {ci : Nat} : s.toSelect want mask ci = none ↔
    ∀ target, s.on mask ci = true → s.wanted want ci = some target → (s.cache ci).sliceTarget = target := by
  unfold UfiState.toSelect
  cases s.on mask ci <;> cases s.wanted want ci <;> simp [Option.filter]

theorem toSelect_eq_some {want : Want} {ci : Nat} {target : SliceTarget} : s.toSelect want mask ci = some target ↔
    s.on mask ci = true ∧ s.wanted want ci = some target ∧ (s.cache ci).sliceTarget ≠ target := by
  unfold UfiState.toSelect
  cases s.on mask ci <;> cases given : s.wanted want ci <;> simp [Option.filter]
  grind

theorem doSelect_eq_false {want : Want} : s.doSelect want mask = false ↔
    ∀ ci < s.rank.nrCis, s.toSelect want mask ci = none := by
  simp [UfiState.doSelect]

theorem selectStruct_ne {target : SliceTarget} (given : target ≠ .none) : selectStruct target ≠ CI_EMPTY := by
  cases target with
  | none => exact absurd rfl given
  | dpu dpuId => exact (by decide : CI_SELECT_DPU_STRUCT ≠ CI_EMPTY)
  | all => exact (by decide : CI_SELECT_ALL_STRUCT ≠ CI_EMPTY)
  | group groupId => exact (by decide : CI_SELECT_GROUP_STRUCT ≠ CI_EMPTY)

/-- A target that a control interface can be asked to select. -/
def Selectable (target : SliceTarget) : Prop :=
  target ≠ .none ∧ ∀ group, target = .group group → group < DPU_MAX_NR_GROUPS

/-- The frames that select a target on some control interfaces. -/
def selectFrames (targets : Nat → Option SliceTarget) (ci : Nat) : Option (BitVec 64 × Frame) :=
  (targets ci).map fun target => (selectStruct target, .select target)

section Selection
variable {targets : Nat → Option SliceTarget}

theorem selectFrames_structures : structuresOf (selectFrames targets) = fun ci =>
      (targets ci).map selectStruct := by
  funext ci
  unfold structuresOf selectFrames
  cases targets ci <;> rfl

@[simp] theorem recordTargets_structureValue (ci : Nat) :
    ((s.recordTargets targets).cache ci).structureValue = (s.cache ci).structureValue := by
  unfold UfiState.recordTargets
  dsimp only
  split <;> rfl

@[simp] theorem recordTargets_rank : (s.recordTargets targets).rank = s.rank := rfl

@[simp] theorem recordTargets_hardware : (s.recordTargets targets).hardware = s.hardware := rfl

@[simp] theorem recordTargets_on (ci : Nat) : (s.recordTargets targets).on mask ci = s.on mask ci := rfl

@[simp] theorem recordTargets_mustWrite (structures : Nat → Option (BitVec 64)) :
    (s.recordTargets targets).mustWrite structures = s.mustWrite structures := by
  simp [UfiState.mustWrite, structuresDiffer]

theorem recordTargets_known (known : s.StructuresKnown) : (s.recordTargets targets).StructuresKnown := by
  intro ci inside
  unfold StructureKnown
  rw [recordTargets_structureValue]
  exact known ci inside

/-- Frames that select the targets recorded for their control interfaces. -/
theorem FrameDone.selects (coherent : s.Coherent)
    (selectable : ∀ ci target, targets ci = some target → Selectable target)
    (done : FrameDone (selectFrames targets) (s.recordTargets targets) t) :
    t.Coherent ∧ ∀ ci < s.rank.nrCis, (t.hardware ci).selected = (targets ci).getD (s.hardware ci).selected := by
  have after : ∀ ci < s.rank.nrCis, t.hardware ci =
      ((targets ci).map fun target => ((s.hardware ci).load (selectStruct target)).perform (.select target)).getD
        (s.hardware ci) := by
    intro ci inside
    rw [done.hardware ci inside, selectFrames]
    cases targets ci <;> rfl
  refine ⟨⟨fun ci inside => ?_, done.settled⟩, fun ci inside => ?_⟩
  · have inside : ci < s.rank.nrCis := done.rank ▸ inside
    have before := coherent.each ci inside
    rw [done.rank, after ci inside, done.cache ci]
    simp only [UfiState.recordTargets, selectFrames]
    cases given : targets ci with
    | none => exact before
    | some target =>
      exact ⟨⟨.inr rfl, (selectable ci target given).2⟩, .inr rfl, ⟨before.groups.inside, before.groups.same⟩⟩
  · rw [after ci inside]
    cases targets ci <;> rfl

/-- Where no frame is sent nothing changes. -/
theorem frame_done_none (settled : s.Settled) (nothing : ∀ ci, targets ci = none) :
    FrameDone (selectFrames targets) s s where
  rank := rfl
  cache := fun ci => by simp [selectFrames, nothing ci]
  hardware := fun ci _ => by simp [selectFrames, nothing ci]
  settled := settled
  matched := id

end Selection

/-- How a select goes about its targets. -/
inductive SelectKind
  | each (want : Want)
  | one (target : SliceTarget) (keeps : SliceInfo → SliceCache → Bool)
  | uncached (target : SliceTarget)

def SelectKind.want : SelectKind → Want
  | .each want => want
  | .one target keeps => fun info cache => if keeps info cache then some target else none
  | .uncached target => fun _ _ => some target

def SelectKind.exec (misread : Misread) : SelectKind → FrameOutcomes → BitVec 8 → UfiState → DpuError × UfiState
  | .each want => selectEach misread want
  | .one target keeps => selectOne misread target keeps
  | .uncached target => selectUncached misread target

/-- The targets for which a select sends frames. -/
def SelectKind.targets (kind : SelectKind) (s : UfiState) (mask : BitVec 8) : Nat → Option SliceTarget :=
  match kind with
  | .each want => s.toSelect want mask
  | .one target keeps =>
    let want := (SelectKind.one target keeps).want
    if s.doSelect want mask then s.onMask (s.keptMask want mask) target else fun _ => none
  | .uncached target => s.onMask mask target

/-- The control interfaces that a select returns. -/
def SelectKind.returned (kind : SelectKind) (s : UfiState) (mask : BitVec 8) : BitVec 8 :=
  match kind with
  | .uncached _ => mask
  | _ => s.keptMask kind.want mask

/-- The structures of a select are sent with success if at all, and its frames
reach every control interface that does not have the target selected already. -/
structure SelectKind.Arrives (kind : SelectKind) (s : UfiState) (mask : BitVec 8)
    (outcomes : FrameOutcomes) : Prop where
  struct : s.mustWrite (structuresOf (selectFrames (kind.targets s mask))) = true → outcomes.struct.status = .ok
  frame : s.Takes (selectFrames (kind.targets s mask)) outcomes.frame

theorem toSelect_eq_none_outside {want : Want} (unchanged : s.doSelect want mask = false) (ci : Nat) :
    s.toSelect want mask ci = none := by
  by_cases inside : ci < s.rank.nrCis
  · exact doSelect_eq_false.mp unchanged ci inside
  · simp [UfiState.toSelect, UfiState.on, ciMaskOn, inside]

theorem recordTargets_none {targets : Nat → Option SliceTarget} (nothing : ∀ ci, targets ci = none) :
    s.recordTargets targets = s := by
  simp [UfiState.recordTargets, nothing]

/-- The entries of `rank->cmds` once a select has filled those of its targets. -/
def UfiState.fillSelects (s : UfiState) (targets : Nat → Option SliceTarget) : UfiState :=
  { s.recordTargets targets with
    cmds := fun ci =>
      match targets ci with
      | some target => .frame (selectStruct target) (.select target)
      | none => s.cmds ci
    built := fun ci => (targets ci).isSome || s.built ci }

@[simp] theorem fillSelects_on {targets : Nat → Option SliceTarget} (ci : Nat) :
    (s.fillSelects targets).on mask ci = s.on mask ci := rfl

@[simp] theorem fillSelects_mustWrite {targets : Nat → Option SliceTarget} (structures : Nat → Option (BitVec 64)) :
    (s.fillSelects targets).mustWrite structures = s.mustWrite structures :=
  show (s.recordTargets targets).mustWrite structures = _ from recordTargets_mustWrite structures

theorem selectEach_sent {want : Want} (changed : s.doSelect want mask = true) :
    selectEach misread want outcomes mask s =
      execVoidFrames misread outcomes (s.keptMask want mask) (fun ci => (s.toSelect want mask ci).map selectStruct)
        (s.fillSelects (s.toSelect want mask)) := by
  simp only [selectEach, changed, if_true]
  rfl

theorem selectEach_unchanged {want : Want} (unchanged : s.doSelect want mask = false) :
    selectEach misread want outcomes mask s = (.ok, s) := by
  simp [selectEach, unchanged, toSelect_eq_none_outside unchanged, UfiState.recordTargets]

/-- The frames of the targets of a select, with settled commands elsewhere. -/
theorem execVoidFrames_done {targets : Nat → Option SliceTarget} (coherent : s.Coherent)
    (selectable : ∀ ci target, targets ci = some target → Selectable target)
    (covers : ∀ ci, targets ci ≠ none → s.on mask ci = true)
    (succeeds : s.mustWrite (structuresOf (selectFrames targets)) = true → outcomes.struct.status = .ok)
    (takes : s.Takes (selectFrames targets) outcomes.frame) :
    FrameDone (selectFrames targets) (s.recordTargets targets)
      (execVoidFrames misread outcomes mask (fun ci => (targets ci).map selectStruct)
        (s.fillSelects targets)).2 := by
  rw [← selectFrames_structures]
  have known : (s.fillSelects targets).StructuresKnown := recordTargets_known coherent.known
  have nonempty : ∀ ci structure_, structuresOf (selectFrames targets) ci = some structure_ →
      structure_ ≠ CI_EMPTY := by
    intro ci structure_ given
    rw [selectFrames_structures] at given
    obtain ⟨target, wanted, rfl⟩ := Option.map_eq_some_iff.mp given
    exact selectStruct_ne (selectable ci target wanted).1
  have masked : ∀ ci, structuresOf (selectFrames targets) ci ≠ none →
      (s.fillSelects targets).on mask ci = true := by
    intro ci given
    refine covers ci fun nothing => given ?_
    simp [selectFrames_structures, nothing]
  obtain ⟨passed, written, same⟩ := execWriteStructures_written misread known nonempty masked
    fun must => succeeds (fillSelects_mustWrite _ ▸ must)
  rw [execVoidFrames, andThen_ok passed]
  refine StructuresWritten.frame_done (s := s.recordTargets targets)
    ⟨written.rank, written.cache, written.hardware, written.executed⟩ ?_ ?_ takes
  · intro ci _ structure_ frame given
    obtain ⟨target, wanted, entry⟩ := Option.map_eq_some_iff.mp given
    obtain ⟨rfl, rfl⟩ := Prod.mk.inj entry
    have filled : (s.fillSelects targets).cmds ci = .frame (selectStruct target) (.select target) := by
      simp [UfiState.fillSelects, wanted]
    exact (congrFun same ci).trans filled
  · intro ci inside given
    have nothing : targets ci = none := Option.map_eq_none_iff.mp given
    have kept : (s.fillSelects targets).cmds ci = s.cmds ci := by simp [UfiState.fillSelects, nothing]
    rw [same, kept]
    exact coherent.settled ci inside

/-- A select with a frame for each control interface. -/
theorem selectEach_done {want : Want} (coherent : s.Coherent)
    (selectable : ∀ ci target, s.toSelect want mask ci = some target → Selectable target)
    (arrives : (SelectKind.each want).Arrives s mask outcomes) :
    FrameDone (selectFrames (s.toSelect want mask)) (s.recordTargets (s.toSelect want mask))
      (selectEach misread want outcomes mask s).2 := by
  cases changed : s.doSelect want mask with
  | false =>
    have nothing := toSelect_eq_none_outside changed
    rw [selectEach_unchanged changed, recordTargets_none nothing]
    exact frame_done_none coherent.settled nothing
  | true =>
    rw [selectEach_sent changed]
    refine execVoidFrames_done coherent selectable ?_ arrives.struct arrives.frame
    intro ci given
    obtain ⟨target, wanted⟩ := Option.ne_none_iff_exists'.mp given
    obtain ⟨on, known, -⟩ := toSelect_eq_some.mp wanted
    rw [on_keptMask, on, known]
    rfl

theorem selectFrames_onMask {target : SliceTarget} :
    selectFrames (s.onMask mask target) = s.framesOn mask (selectStruct target) fun _ => .select target := by
  funext ci
  unfold selectFrames UfiState.framesOn UfiState.onMask
  cases s.on mask ci <;> rfl

/-- A frame that selects a target on all control interfaces of a mask, for which it has been recorded. -/
theorem execFrame_select_done {target : SliceTarget} (coherent : s.Coherent) (selectable : Selectable target)
    (succeeds : s.mustWrite (structuresOf (selectFrames (s.onMask mask target))) = true →
      outcomes.struct.status = .ok)
    (takes : s.Takes (selectFrames (s.onMask mask target)) outcomes.frame) :
    FrameDone (selectFrames (s.onMask mask target)) (s.recordTargets (s.onMask mask target))
      (execFrame misread outcomes mask (selectStruct target) (.select target)
        (s.recordTargets (s.onMask mask target))).2 := by
  rw [selectFrames_onMask] at succeeds takes ⊢
  refine execFrame_done (recordTargets_known coherent.known) (selectStruct_ne selectable.1) ?_ takes
  intro must
  refine succeeds ?_
  rw [framesOn_structures]
  exact (recordTargets_mustWrite _).symm.trans must

/-- Recording a target where it is recorded already changes nothing. -/
theorem recordTargets_kept {target : SliceTarget} {keeps : SliceInfo → SliceCache → Bool} :
    s.recordTargets (s.toSelect (SelectKind.one target keeps).want mask) =
      s.recordTargets (s.onMask (s.keptMask (SelectKind.one target keeps).want mask) target) := by
  have cache_eq (ci : Nat) : (s.recordTargets (s.toSelect (SelectKind.one target keeps).want mask)).cache ci =
      (s.recordTargets (s.onMask (s.keptMask (SelectKind.one target keeps).want mask) target)).cache ci := by
    simp only [UfiState.recordTargets, UfiState.onMask, on_keptMask, UfiState.toSelect, UfiState.wanted,
      SelectKind.want]
    cases s.on mask ci with
    | false => rfl
    | true =>
      cases keeps (s.rank.sliceInfo ci) (s.cache ci) with
      | false => rfl
      | true =>
        by_cases same : (s.cache ci).sliceTarget = target
        · simp [Option.filter, ← same]
        · simp [Option.filter, same]
  have caches := funext cache_eq
  unfold UfiState.recordTargets at caches ⊢
  rw [UfiState.mk.injEq]
  exact ⟨rfl, caches, rfl, rfl, rfl, rfl, rfl⟩

/-- The effect of a select whose commands arrive. -/
theorem SelectKind.exec_done (misread : Misread) {kind : SelectKind} (coherent : s.Coherent)
    (selectable : ∀ info cache target, kind.want info cache = some target → Selectable target)
    (arrives : kind.Arrives s mask outcomes) :
    FrameDone (selectFrames (kind.targets s mask)) (s.recordTargets (kind.targets s mask))
      (kind.exec misread outcomes mask s).2 := by
  cases kind with
  | each want =>
    exact selectEach_done coherent
      (fun ci target given => selectable _ _ target (toSelect_eq_some.mp given).2.1) arrives
  | uncached target =>
    exact execFrame_select_done coherent
      (selectable (s.rank.sliceInfo 0) (s.cache 0) target rfl) arrives.struct arrives.frame
  | one target keeps =>
    cases changed : s.doSelect (SelectKind.one target keeps).want mask with
    | false =>
      have nothing : ∀ ci, (SelectKind.one target keeps).targets s mask ci = none := by
        simp [SelectKind.targets, changed]
      have unchanged : (SelectKind.one target keeps).exec misread outcomes mask s = (.ok, s) := by
        have same : s.recordTargets (s.toSelect (SelectKind.one target keeps).want mask) = s :=
          recordTargets_none (toSelect_eq_none_outside changed)
        simp only [SelectKind.want] at changed same
        simp [SelectKind.exec, selectOne, changed, same]
      rw [unchanged, recordTargets_none nothing]
      exact frame_done_none coherent.settled nothing
    | true =>
      have selected : Selectable target := by
        obtain ⟨ci, -, wants⟩ := List.any_eq_true.mp changed
        obtain ⟨given, wanted⟩ := Option.isSome_iff_exists.mp wants
        obtain ⟨-, kept, -⟩ := toSelect_eq_some.mp wanted
        have same : given = target := by
          simp only [UfiState.wanted, SelectKind.want] at kept
          split at kept
          · exact (Option.some.inj kept).symm
          · cases kept
        exact same ▸ selectable _ _ given kept
      have targets_eq : (SelectKind.one target keeps).targets s mask =
          s.onMask (s.keptMask (SelectKind.one target keeps).want mask) target := by
        simp [SelectKind.targets, changed]
      have sent : (SelectKind.one target keeps).exec misread outcomes mask s =
          execFrame misread outcomes (s.keptMask (SelectKind.one target keeps).want mask) (selectStruct target)
            (.select target) (s.recordTargets (s.toSelect (SelectKind.one target keeps).want mask)) := by
        simp only [SelectKind.want] at changed ⊢
        simp [SelectKind.exec, selectOne, changed]
      obtain ⟨struct, frame⟩ := arrives
      rw [targets_eq] at struct frame ⊢
      rw [sent, recordTargets_kept]
      exact execFrame_select_done coherent selected struct frame

theorem wanted_one {target given : SliceTarget} {keeps : SliceInfo → SliceCache → Bool} {ci : Nat}
    (wanted : s.wanted (SelectKind.one target keeps).want ci = some given) : given = target := by
  simp only [UfiState.wanted, SelectKind.want] at wanted
  split at wanted
  · exact (Option.some.inj wanted).symm
  · cases wanted

theorem onMask_isSome {α : Type} {value other : α} {ci : Nat} (given : s.onMask mask value ci = some other) :
    s.on mask ci = true := by
  unfold UfiState.onMask at given
  split at given
  next on => exact on
  next => cases given

/-- A select sends frames for targets that it wants. -/
theorem SelectKind.targets_wanted {kind : SelectKind} {ci : Nat} {target : SliceTarget}
    (given : kind.targets s mask ci = some target) : s.wanted kind.want ci = some target := by
  cases kind with
  | each want => exact (toSelect_eq_some.mp given).2.1
  | uncached target' => exact congrArg some (onMask_some given).symm
  | one target' keeps =>
    simp only [SelectKind.targets] at given
    split at given
    · have on := onMask_isSome given
      rw [on_keptMask] at on
      obtain ⟨wanted, kept⟩ := Option.isSome_iff_exists.mp (Bool.and_eq_true_iff.mp on).2
      rw [kept, wanted_one kept, onMask_some given]
    · cases given

/-- On the control interfaces that a select returns it wants a target, for which it sends
a frame if it is not recorded. -/
theorem SelectKind.returned_wanted {kind : SelectKind} {ci : Nat}
    (returned : s.on (kind.returned s mask) ci = true) :
    ∃ target, s.wanted kind.want ci = some target ∧
      (kind.targets s mask ci = some target ∨ kind.targets s mask ci = none ∧
        (s.cache ci).sliceTarget = target) := by
  cases kind with
  | uncached target =>
    have on : s.on mask ci = true := returned
    exact ⟨target, rfl, .inl (by simp [SelectKind.targets, UfiState.onMask, on])⟩
  | each want =>
    simp only [SelectKind.returned, on_keptMask, Bool.and_eq_true] at returned
    obtain ⟨target, wanted⟩ := Option.isSome_iff_exists.mp returned.2
    refine ⟨target, wanted, ?_⟩
    cases given : s.toSelect want mask ci with
    | none => exact .inr ⟨given, toSelect_eq_none.mp given target returned.1 wanted⟩
    | some other =>
      have same : other = target := Option.some.inj ((toSelect_eq_some.mp given).2.1.symm.trans wanted)
      exact .inl (same ▸ given)
  | one target keeps =>
    have on := returned
    simp only [SelectKind.returned, on_keptMask, Bool.and_eq_true] at returned
    obtain ⟨given, wanted⟩ := Option.isSome_iff_exists.mp returned.2
    obtain rfl := wanted_one wanted
    refine ⟨given, wanted, ?_⟩
    cases changed : s.doSelect (SelectKind.one given keeps).want mask with
    | true =>
      refine .inl ?_
      simp only [SelectKind.targets, changed, if_true, UfiState.onMask]
      exact if_pos on
    | false =>
      refine .inr ⟨by simp [SelectKind.targets, changed], ?_⟩
      exact toSelect_eq_none.mp (toSelect_eq_none_outside changed ci) given returned.1 wanted

/-- A select whose commands arrive leaves the requested selection on the control interfaces that it returns. -/
theorem SelectKind.exec_selects (misread : Misread) {kind : SelectKind} (coherent : s.Coherent)
    (selectable : ∀ info cache target, kind.want info cache = some target → Selectable target)
    (arrives : kind.Arrives s mask outcomes) :
    (kind.exec misread outcomes mask s).2.Coherent ∧ ∀ ci, s.on (kind.returned s mask) ci = true →
      s.wanted kind.want ci = some ((kind.exec misread outcomes mask s).2.hardware ci).selected := by
  obtain ⟨after, selected⟩ := (SelectKind.exec_done misread coherent selectable arrives).selects coherent
    fun ci target given => selectable _ _ target (kind.targets_wanted given)
  refine ⟨after, fun ci returned => ?_⟩
  have inside : ci < s.rank.nrCis := by simpa using (Bool.and_eq_true_iff.mp returned).1
  obtain ⟨target, wanted, sent | ⟨unsent, recorded⟩⟩ := kind.returned_wanted returned
  · rw [wanted, selected ci inside, sent]
    rfl
  · rcases (coherent.each ci inside).selection.selected with never | known
    · exact absurd (recorded.symm.trans never) (selectable _ _ target wanted).1
    · rw [wanted, selected ci inside, unsent]
      exact congrArg some (recorded.symm.trans known.symm)

section Groups

/-- The recorded selection is the set of the addressed DPUs. -/
theorem selectedDpuMask_getLsbD {nrDpus : Nat} (bounded : nrDpus ≤ 8) {cache : SliceCache} {hardware : CiHardware}
    (known : SelectionKnown cache hardware) (agree : GroupsAgree nrDpus cache hardware) {dpuMask : BitVec 8}
    (filled : ciFillSelectedDpuMask nrDpus cache.toSliceSelection = some dpuMask) {dpu : Nat}
    (inside : dpu < nrDpus) :
    dpuMask.getLsbD dpu = decide (hardware.Addressed dpu) := by
  have small : dpu < 8 := inside.trans_le bounded
  obtain ⟨selected, bound⟩ := known
  unfold ciFillSelectedDpuMask at filled
  rcases selected with never | same
  · simp [never] at filled
  · simp only [CiHardware.Addressed]
    cases target : cache.sliceTarget with
    | none => simp [target] at filled
    | all =>
      rw [target] at filled same
      obtain rfl := Option.some.inj filled
      simp [same, dpuMaskAll_getLsbD bounded, inside]
    | dpu dpuId =>
      rw [target] at filled same
      obtain rfl := Option.some.inj filled
      simp [same, dpuMaskOne_getLsbD small]
    | group groupId =>
      rw [target] at filled same
      obtain rfl := Option.some.inj filled
      simp [same, agree.same groupId (bound groupId target) dpu inside]

/-- The groups of a control interface once its selected DPUs have moved. -/
def SliceCache.regrouped (cache : SliceCache) (nrDpus group : Nat) : SliceCache :=
  match ciFillSelectedDpuMask nrDpus cache.toSliceSelection with
  | some dpuMask => cache.regroup dpuMask group
  | none => cache

theorem ciFillSelectedDpuMask_isSome (nrDpus : Nat) {info : SliceSelection} (selected : info.sliceTarget ≠ .none) :
    ∃ dpuMask, ciFillSelectedDpuMask nrDpus info = some dpuMask := by
  unfold ciFillSelectedDpuMask
  cases target : info.sliceTarget with
  | none => exact absurd target selected
  | _ => exact ⟨_, rfl⟩

theorem regroup_getLsbD {cache : SliceCache} {dpuMask : BitVec 8} {group eachGroup dpu : Nat} (fits : dpu < 8) :
    ((cache.regroup dpuMask group).dpusPerGroup eachGroup).getLsbD dpu =
      if dpuMask.getLsbD dpu then decide (eachGroup = group) else (cache.dpusPerGroup eachGroup).getLsbD dpu := by
  simp only [SliceCache.regroup]
  by_cases here : eachGroup = group
  · rw [if_pos here, BitVec.getLsbD_or, BitVec.getLsbD_and, BitVec.getLsbD_not]
    cases dpuMask.getLsbD dpu <;> simp [fits, here]
  · rw [if_neg here, BitVec.getLsbD_and, BitVec.getLsbD_not]
    cases dpuMask.getLsbD dpu <;> simp [fits, here]

/-- Moving the selected DPUs to a group in the record is what writing the group does. -/
theorem regrouped_agree {nrDpus group : Nat} (bounded : nrDpus ≤ 8) (given : group < DPU_MAX_NR_GROUPS)
    {cache : SliceCache}
    {hardware : CiHardware} (known : SelectionKnown cache hardware) (agree : GroupsAgree nrDpus cache hardware)
    (selected : cache.sliceTarget ≠ .none) :
    GroupsAgree nrDpus (cache.regrouped nrDpus group) (hardware.perform (.writeGroup group)) := by
  obtain ⟨dpuMask, filled⟩ := ciFillSelectedDpuMask_isSome nrDpus selected
  have member {dpu : Nat} (inside : dpu < nrDpus) := selectedDpuMask_getLsbD bounded known agree filled inside
  constructor
  · intro dpu inside
    simp only [CiHardware.perform]
    split
    · exact given
    · exact agree.inside dpu inside
  · intro eachGroup small dpu inside
    have before := agree.same eachGroup small dpu inside
    have fits : dpu < 8 := inside.trans_le bounded
    simp only [SliceCache.regrouped, filled, regroup_getLsbD fits, CiHardware.perform, member inside]
    by_cases moved : hardware.Addressed dpu
    · simp only [moved, decide_true, if_true]
      exact decide_eq_decide.mpr eq_comm
    · simpa only [moved, decide_false, Bool.false_eq_true, if_false] using before

def UfiState.regroupCis (s : UfiState) (group : Nat) (cis : List Nat) : UfiState :=
  { s with cache := fun ci => if ci ∈ cis then (s.cache ci).regrouped s.rank.nrDpusPerCi group else s.cache ci }

/-- The loop of `ufi_write_group` moves the selected DPUs of each control interface. -/
theorem writeGroup_loop {group : Nat} {cis : List Nat} (distinct : cis.Nodup)
    (selected : ∀ ci ∈ cis, (s.cache ci).sliceTarget ≠ .none) :
    loop .ok (writeGroupTurn group) cis s = (.ok, s.regroupCis group cis) := by
  induction cis generalizing s with
  | nil => simp [loop, UfiState.regroupCis]
  | cons ci rest ih =>
    obtain ⟨fresh, distinct⟩ := List.nodup_cons.mp distinct
    obtain ⟨dpuMask, filled⟩ := ciFillSelectedDpuMask_isSome s.rank.nrDpusPerCi
      (selected ci List.mem_cons_self)
    have turn : writeGroupTurn group ci s =
        (.ok, { s with cache := Function.update s.cache ci ((s.cache ci).regroup dpuMask group) }) := by
      simp [writeGroupTurn, filled]
    have others : ∀ other ∈ rest,
        ((Function.update s.cache ci ((s.cache ci).regroup dpuMask group)) other).sliceTarget ≠ .none := by
      intro other member
      have different : other ≠ ci := fun same => fresh (same ▸ member)
      rw [Function.update_of_ne different]
      exact selected other (List.mem_cons_of_mem _ member)
    rw [loop, turn, if_pos rfl, ih distinct others]
    simp only [UfiState.regroupCis, Prod.mk.injEq, true_and, UfiState.mk.injEq, and_true]
    funext other
    by_cases same : other = ci
    · subst same
      simp [fresh, SliceCache.regrouped, filled]
    · simp [same]

/-- The write of a group is refused before anything is recorded: the first
control interface of the mask has no selection. -/
def UfiState.GroupRefused (s : UfiState) (mask : BitVec 8) : Prop :=
  ∃ ci rest, ((List.range s.rank.nrCis).filter fun ci => s.on mask ci) = ci :: rest ∧
    (s.cache ci).sliceTarget = .none

/-- Every control interface of the mask has a selection, the structure of the
write of a group is sent with success if at all, and the frame reaches every
control interface that it changes. -/
structure UfiState.GroupArrives (s : UfiState) (group : Nat) (mask : BitVec 8)
    (outcomes : FrameOutcomes) : Prop where
  selected : ∀ ci, s.on mask ci = true → (s.cache ci).sliceTarget ≠ .none
  struct : s.mustWrite (s.onMask mask CI_WRITE_GROUP_STRUCT) = true → outcomes.struct.status = .ok
  frame : s.Takes (s.framesOn mask CI_WRITE_GROUP_STRUCT fun _ => .writeGroup group) outcomes.frame

theorem ufiWriteGroup_refused {group : Nat} (refused : s.GroupRefused mask) :
    ufiWriteGroup misread group outcomes mask s = (.internal, s) := by
  obtain ⟨ci, rest, cis, never⟩ := refused
  have turn : writeGroupTurn group ci s = (.internal, s) := by
    simp [writeGroupTurn, ciFillSelectedDpuMask, never]
  have stopped : loop .ok (writeGroupTurn group) (ci :: rest) s = (.internal, s) := by
    simp [loop, turn]
  rw [ufiWriteGroup, cis, andThen_failed (by rw [stopped]; simp), stopped]

@[simp] theorem regrouped_structureValue {cache : SliceCache} {nrDpus group : Nat} :
    (cache.regrouped nrDpus group).structureValue = cache.structureValue := by
  unfold SliceCache.regrouped
  split <;> rfl

@[simp] theorem regrouped_sliceTarget {cache : SliceCache} {nrDpus group : Nat} :
    (cache.regrouped nrDpus group).sliceTarget = cache.sliceTarget := by
  unfold SliceCache.regrouped
  split <;> rfl

theorem regroupCis_structureValue {group ci : Nat} {cis : List Nat} :
    ((s.regroupCis group cis).cache ci).structureValue = (s.cache ci).structureValue := by
  simp only [UfiState.regroupCis]
  split <;> simp

/-- Groups that are written on control interfaces with a selection stay those that are recorded. -/
theorem ufiWriteGroup_coherent (misread : Misread) {group : Nat} (given : group < DPU_MAX_NR_GROUPS)
    (coherent : s.Coherent)
    (arrives : s.GroupArrives group mask outcomes) :
    (ufiWriteGroup misread group outcomes mask s).2.Coherent ∧
      (s.Matched → (ufiWriteGroup misread group outcomes mask s).2.Matched) := by
  let cis := (List.range s.rank.nrCis).filter fun ci => s.on mask ci
  have mem_cis (ci : Nat) : ci ∈ cis ↔ s.on mask ci = true := by
    simp [cis, UfiState.on, ciMaskOn]
  have recorded : loop .ok (writeGroupTurn group) cis s = (.ok, s.regroupCis group cis) :=
    writeGroup_loop (List.nodup_range.filter _) fun ci member => arrives.selected ci ((mem_cis ci).mp member)
  have known : (s.regroupCis group cis).StructuresKnown := by
    intro ci inside
    unfold StructureKnown
    rw [regroupCis_structureValue]
    exact coherent.known ci inside
  have done : FrameDone (s.framesOn mask CI_WRITE_GROUP_STRUCT fun _ => .writeGroup group) (s.regroupCis group cis)
      (ufiWriteGroup misread group outcomes mask s).2 := by
    rw [ufiWriteGroup, andThen_ok (by rw [recorded]), recorded]
    refine execFrame_done known (by decide) (fun must => arrives.struct ?_) arrives.frame
    have same : (s.regroupCis group cis).mustWrite (s.onMask mask CI_WRITE_GROUP_STRUCT) =
        s.mustWrite (s.onMask mask CI_WRITE_GROUP_STRUCT) := by
      simp only [UfiState.mustWrite, structuresDiffer, regroupCis_structureValue]
      rfl
    exact same ▸ must
  refine ⟨⟨fun ci inside => ?_, done.settled⟩, done.matched⟩
  have inside : ci < s.rank.nrCis := done.rank ▸ inside
  have before := coherent.each ci inside
  have nrDpus : (ufiWriteGroup misread group outcomes mask s).2.rank.nrDpusPerCi = s.rank.nrDpusPerCi := by
    rw [done.rank]
    rfl
  rw [nrDpus, done.hardware ci inside, done.cache ci]
  cases on : s.on mask ci with
  | false =>
    have untouched : (s.regroupCis group cis).cache ci = s.cache ci := by
      simp [UfiState.regroupCis, mem_cis, on]
    rw [framesOn_off on, untouched]
    exact before
  | true =>
    have moved : (s.regroupCis group cis).cache ci = (s.cache ci).regrouped s.rank.nrDpusPerCi group := by
      simp [UfiState.regroupCis, mem_cis, on]
    rw [framesOn_on on, moved]
    have agree :=
      regrouped_agree s.rank.nrDpusPerCi_le given before.selection before.groups (arrives.selected ci on)
    have selected : (((s.hardware ci).load CI_WRITE_GROUP_STRUCT).perform (.writeGroup group)).selected =
        (s.hardware ci).selected := rfl
    exact ⟨⟨by simpa [SliceCache.withStructure, selected, UfiState.regroupCis] using before.selection.selected,
      by simpa [SliceCache.withStructure] using before.selection.inside⟩, .inr rfl, ⟨agree.inside, agree.same⟩⟩

end Groups

end Steps

end Upmem.Ufi
