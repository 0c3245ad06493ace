import Upmem.CiColors

namespace Upmem.CiColors
open Ci Ufi StatusChain Transitions

def TIMEOUT_COLOR : Nat := 100000

def CI_IDENTITY : BitVec 64 := 0x01FF000000000000

/-- The byte [63:56] of a result, which a command clears and a NOP sets. -/
def cmdType (result : BitVec 64) : BitVec 8 := (result >>> 56).setWidth 8

/-- The byte [39:32] of a result. -/
def valid (result : BitVec 64) : BitVec 8 := ((result &&& 0xFF00000000#64) >>> 32).setWidth 8

/-- What is read, or a failure. -/
abbrev Reading := Except { status : DpuError // status ≠ .ok }

def Reading.status {α : Type} : Reading α → DpuError
  | .ok _ => .ok
  | .error error => error.1

/-- The loops that read the results of all control interfaces until they are stable,
from the read numbered `read` on, with the number of reads made and the results read
last. What is stable at the last read allowed is a timeout too. -/
def readStable (stable : BitVec 64 → Bool) (nrCis : Nat) (responses : Responses) :
    Nat → Nat → Reading (Nat × (Nat → BitVec 64))
  | 0, _ => .error ⟨.timeout, by decide⟩
  | timeout + 1, read =>
    match responses read with
    | .error error => .error error
    | .ok data =>
      if timeout = 0 then .error ⟨.timeout, by decide⟩
      else if (List.range nrCis).all fun ci => stable (data ci) then .ok (read + 1, data)
      else readStable stable nrCis responses timeout (read + 1)

section Debugger
variable (misread : Misread)

/-- What `ci_get_color` reads of the control interfaces, with the results that it takes the colors from. A control
interface that shows a NOP is sent an identity command, of which the library knows nothing. -/
def readColors (dummy : Outcome) (responses : Responses) (s : ColorState) :
    Reading (Nat → BitVec 64) × ColorState :=
  match readStable (fun result => cmdType result = 0xFF || cmdType result = 0 && valid result = 0xFF) s.rank.nrCis
      responses TIMEOUT_COLOR 0 with
  | .error error => (.error error, s)
  | .ok (reads, _) =>
    match responses reads with
    | .error error => (.error error, s)
    | .ok data =>
      let s := { s with debug := { s.debug with result := fun ci => (data ci).setWidth 32 } }
      let dummyCommandIsNeeded := (List.range reads).any fun read =>
        match responses read with
        | .error _ => false
        | .ok data => (List.range s.rank.nrCis).any fun ci => cmdType (data ci) = 0xFF
      if dummyCommandIsNeeded then
        let sent := s.commit misread dummy.reached fun ci =>
          if cmdType (data ci) = 0xFF then .direct CI_IDENTITY else .empty
        if failed : dummy.status ≠ .ok then (.error ⟨dummy.status, failed⟩, sent)
        else
          match readStable (fun result => cmdType result = 0) s.rank.nrCis responses TIMEOUT_COLOR (reads + 1) with
          | .error error => (.error error, sent)
          | .ok (_, data) => (.ok data, sent)
      else (.ok data, s)

/-- The color that a result shows. -/
def shownColor (result : BitVec 64) : Bool := decide (popcount (Ci.color result) ≤ 3)

/-- The colors of the rank's control interfaces in `rank->runtime.control_interface.color`. -/
def recordColors (nrCis : Nat) (shown : Nat → Bool) (color : BitVec 8) : BitVec 8 :=
  (List.range nrCis).foldl
    (fun color ci => if shown ci then color ||| ciMaskOne ci else color &&& ~~~ciMaskOne ci) color

def ciGetColor (dummy : Outcome) (responses : Responses) (s : ColorState) : DpuError × ColorState :=
  match readColors misread dummy responses s with
  | (.error error, t) => (error.1, t)
  | (.ok data, t) => (.ok, { t with color := recordColors t.rank.nrCis (fun ci => shownColor (data ci)) t.color })

def ciDebugSaveContextRank (dummy : Outcome) (responses : Responses) : ColorState → DpuError × ColorState :=
  andThen .ok (ciGetColor misread dummy responses) fun s =>
    (.ok, { s with debug := { s.debug with color := s.color } })

/-- `ufi_select_dpu_uncached`, `ufi_select_group_uncached` and `ufi_select_all_uncached`. -/
def ufiSelectUncached (target : SliceTarget) (outcomes : FrameOutcomes) (mask : BitVec 8) (s : ColorState) :
    DpuError × ColorState :=
  execFrame misread outcomes mask (selectStruct target) (.select target)
    (s.recordSelections fun ci selection => if s.on mask ci then { selection with sliceTarget :=
      target } else selection)

/-- The last target of the debuggee is selected again. -/
def restoreTarget (outcomes : FrameOutcomes) (ci : Nat) (s : ColorState) : DpuError × ColorState :=
  let target := (s.debug.sliceInfo ci).sliceTarget
  if target ≠ .none then ufiSelectUncached misread target outcomes (ciMaskOne ci) s else (.ok, s)

/-- The control interfaces that have the color of the debuggee. -/
def ColorState.identityMask (s : ColorState) : BitVec 8 :=
  (List.range s.rank.nrCis).foldl
    (fun mask ci =>
      if s.color &&& ciMaskOne ci = s.debug.color &&& ciMaskOne ci then mask ||| ciMaskOne ci else mask) 0#8

def restoreColors (outcome : Outcome) (s : ColorState) : DpuError × ColorState :=
  if s.identityMask ≠ 0 then execDirect misread outcome s.identityMask CI_IDENTITY s else (.ok, s)

/-- The word of a structure value, which a commit takes as it is. -/
def structureWord (value : BitVec 64) : Word := if value = CI_EMPTY then .empty else .command (.struct value)

/-- The structures of the debuggee are recorded and sent, also where there is none. -/
def restoreStructures (outcome : Outcome) (s : ColorState) : DpuError × ColorState :=
  (outcome.status,
    { s with cache := fun ci =>
        if ci < s.rank.nrCis then (s.cache ci).withStructure (s.debug.sliceInfo ci).structureValue
          else s.cache ci }.commit
      misread outcome.reached fun ci => structureWord (s.debug.sliceInfo ci).structureValue)

/-- The color is inverted for the structures, and the results of the debuggee are shown. -/
def restoreResults (outcome : Outcome) (s : ColorState) : DpuError × ColorState :=
  (outcome.status,
    { s with color := s.color ^^^ BitVec.ofNat 8 (1 <<< s.rank.nrCis - 1) }.commit misread outcome.reached fun ci =>
      .nop (s.debug.result ci))

/-- How the commands and the reads of a restore end. -/
structure RestoreOutcomes where
  results : Responses
  targets : Nat → FrameOutcomes
  identity : Outcome
  structures : Outcome
  structuresRead : Responses
  nop : Outcome

def ciDebugRestoreContextRank (outcomes : RestoreOutcomes) : ColorState → DpuError × ColorState :=
  andThen .ok
    (fun s =>
      ((readStable (fun result => cmdType result = 0) s.rank.nrCis outcomes.results TIMEOUT_COLOR 0).status, s))
    (andThen .ok
      (fun s => loop .ok (fun ci => restoreTarget misread (outcomes.targets ci) ci) (List.range s.rank.nrCis) s)
      (andThen .ok (restoreColors misread outcomes.identity)
        (andThen .ok (restoreStructures misread outcomes.structures)
          (andThen .ok
            (fun s =>
              ((readStable (fun result => cmdType result = 0 && valid result = 0xFF) s.rank.nrCis
                outcomes.structuresRead
                TIMEOUT_COLOR 0).status, s))
            (restoreResults misread outcomes.nop)))))

end Debugger

/-- The results show the colors of the control interfaces. -/
def ColorState.Shows (s : ColorState) (data : Nat → BitVec 64) : Prop :=
  ∀ ci < s.rank.nrCis, shownColor (data ci) = (s.hardware ci).color

/-- A control interface is as the debugger found it: the color that is recorded and its own are the color of the
debuggee, and so are the structure and the selection where the debuggee has them. -/
structure HandedBackCi (debug : DebugInfo) (t : ColorState) (ci : Nat) : Prop where
  recorded : t.color.getLsbD ci = debug.color.getLsbD ci
  color : (t.hardware ci).color = debug.color.getLsbD ci
  structure_ : (debug.sliceInfo ci).structureValue ≠ CI_EMPTY →
    (t.hardware ci).loaded = (debug.sliceInfo ci).structureValue
  selection : (debug.sliceInfo ci).sliceTarget ≠ .none → (t.hardware ci).selected = (debug.sliceInfo ci).sliceTarget

def HandedBack (debug : DebugInfo) (t : ColorState) : Prop := ∀ ci < t.rank.nrCis, HandedBackCi debug t ci

variable {misread : Misread} {s t : ColorState}

section Save
variable {dummy : Outcome} {responses : Responses}

/-- What reading the colors leaves as it is. -/
structure KeepsRecords (s t : ColorState) : Prop where
  rank : t.rank = s.rank
  cache : t.cache = s.cache
  cmds : t.cmds = s.cmds
  sliceInfo : t.debug.sliceInfo = s.debug.sliceInfo
  loaded : ∀ ci, (t.hardware ci).loaded = (s.hardware ci).loaded

theorem readColors_keeps : KeepsRecords s (readColors misread dummy responses s).2 := by
  unfold readColors
  split
  · exact ⟨rfl, rfl, rfl, rfl, fun _ => rfl⟩
  · split
    · exact ⟨rfl, rfl, rfl, rfl, fun _ => rfl⟩
    · have sent (result : Nat → BitVec 32) (data : Nat → BitVec 64) :
          KeepsRecords s
          ({ s with debug := { s.debug with result := result } }.commit misread dummy.reached fun ci =>
            if cmdType (data ci) = 0xFF then .direct CI_IDENTITY else .empty) := by
        refine ⟨rfl, rfl, rfl, rfl, fun ci => ?_⟩
        unfold ColorState.commit
        dsimp only
        split_ifs <;> rfl
      dsimp only
      split_ifs
      · exact sent _ _
      · split <;> exact sent _ _
      · exact ⟨rfl, rfl, rfl, rfl, fun _ => rfl⟩

theorem recordColors_getLsbD {nrCis ci : Nat} (small : ci < 8) (shown : Nat → Bool) (color : BitVec 8) :
    (recordColors nrCis shown color).getLsbD ci = if ci < nrCis then shown ci else color.getLsbD ci := by
  induction nrCis with
  | zero => simp [recordColors]
  | succ n ih =>
    rw [recordColors] at ih
    rw [recordColors, List.range_succ, List.foldl_append, List.foldl_cons, List.foldl_nil]
    have one : (ciMaskOne n).getLsbD ci = decide (ci = n) := dpuMaskOne_getLsbD small
    by_cases here : ci = n
    · subst here
      rw [if_pos (Nat.lt_succ_self ci)]
      split_ifs with shows <;> simp only [BitVec.getLsbD_and, BitVec.getLsbD_or, BitVec.getLsbD_not, one]
        <;> simp [shows]
    · have later : (ci < n + 1) = (ci < n) := propext (by omega)
      simp only [later, ← ih]
      split_ifs <;> simp only [BitVec.getLsbD_and, BitVec.getLsbD_or, BitVec.getLsbD_not, one]
        <;> simp [here, small]

/-- A save that succeeds records the colors that the control interfaces have, and nothing else of them. -/
theorem ciDebugSaveContextRank_inStep (known : s.Known) (latches : s.Latches)
    (shown : ∀ data u, readColors misread dummy responses s = (.ok data, u) → u.Shows data)
    (saved : ciDebugSaveContextRank misread dummy responses s = (.ok, t)) :
    t.InStep ∧ t.rank = s.rank ∧ t.debug.sliceInfo = s.debug.sliceInfo := by
  obtain ⟨u, got, copied⟩ := andThen_inv saved
  obtain rfl : { u with debug := { u.debug with color := u.color } } = t := congrArg Prod.snd copied
  have keeps := @readColors_keeps misread s dummy responses
  rw [ciGetColor] at got
  cases reading : readColors misread dummy responses s with
  | mk read v =>
    rw [reading] at got keeps
    cases read with
    | error error => exact absurd (congrArg Prod.fst got) error.property
    | ok data =>
      obtain rfl : { v with color := recordColors v.rank.nrCis (fun ci => shownColor (data ci)) v.color } = u :=
        congrArg Prod.snd got
      refine ⟨⟨fun ci inside => ?_, fun ci inside => ?_, fun ci inside => ?_⟩, keeps.rank, keeps.sliceInfo⟩
      · have inside : ci < v.rank.nrCis := inside
        have color := @recordColors_getLsbD v.rank.nrCis ci (inside.trans_le v.nrCis_le)
          (fun ci => shownColor (data ci)) v.color
        rw [if_pos inside, shown data v reading ci inside] at color
        rw [ColorState.differs, color, Bool.xor_self]
      · refine (known ci (keeps.rank ▸ inside)).imp (fun never => ?_) fun loaded => ?_
        · exact (congrArg SliceCache.structureValue (congrFun keeps.cache ci)).trans never
        · exact (keeps.loaded ci).trans
            (loaded.trans (congrArg SliceCache.structureValue (congrFun keeps.cache ci)).symm)
      · have latched := (latches ci (keeps.rank ▸ inside)).of_loaded (keeps.loaded ci)
        rwa [← keeps.cmds] at latched

end Save

section Restore
variable {outcome : Outcome}

/-- The targets of the control interfaces before `done` are selected again. -/
structure Reselected (s : ColorState) (done : Nat) (t : ColorState) : Prop where
  steady : Steady s t
  selected : ∀ ci < s.rank.nrCis, ci < done → (s.debug.sliceInfo ci).sliceTarget ≠ .none →
    (t.hardware ci).selected = (s.debug.sliceInfo ci).sliceTarget

theorem restoreTarget_reselected {u : ColorState} {outcomes : FrameOutcomes} {ci : Nat} (inside : ci < s.rank.nrCis)
    (before : Reselected s ci t) (passed : restoreTarget misread outcomes ci t = (.ok, u)) :
    Reselected s (ci + 1) u := by
  have info : t.debug.sliceInfo = s.debug.sliceInfo := congrArg DebugInfo.sliceInfo before.steady.keeps.debug
  rw [restoreTarget, info] at passed
  split_ifs at passed with target
  · have recorded (change : Nat → SliceSelection → SliceSelection) : Keeps t (t.recordSelections change) :=
      ⟨rfl, rfl, fun _ _ => rfl⟩
    rw [ufiSelectUncached] at passed
    obtain ⟨steady, hardware⟩ := execFrame_ok (show (t.recordSelections _).Known from before.steady.known)
      (selectStruct_ne target) passed
    refine ⟨(steady.after (recorded _)).after before.steady.keeps, fun other inside within given => ?_⟩
    have inside : other < t.rank.nrCis := before.steady.keeps.rank.symm ▸ inside
    have here : (t.on (ciMaskOne ci) other = true) ↔ other = ci := by
      rw [on_iff inside, show ciMaskOne ci = dpuMaskOne ci from rfl,
        dpuMaskOne_getLsbD (inside.trans_le t.nrCis_le),
        decide_eq_true_eq]
    have performed := congrArg CiHardware.selected (hardware other inside)
    rcases Nat.lt_succ_iff_lt_or_eq.mp within with earlier | rfl
    · have off : ¬ t.on (ciMaskOne ci) other = true := fun on => absurd (here.mp on) earlier.ne
      exact performed.trans
        ((congrArg CiHardware.selected (if_neg off)).trans (before.selected other ‹_› earlier given))
    · exact performed.trans (congrArg CiHardware.selected (if_pos (here.mpr rfl)))
  · obtain rfl : t = u := congrArg Prod.snd passed
    refine ⟨before.steady, fun other inside within given => ?_⟩
    rcases Nat.lt_succ_iff_lt_or_eq.mp within with earlier | rfl
    · exact before.selected other inside earlier given
    · exact absurd (not_not.mp target) given

theorem and_ciMaskOne_eq {x y : BitVec 8} {ci : Nat} (small : ci < 8) :
    x &&& ciMaskOne ci = y &&& ciMaskOne ci ↔ x.getLsbD ci = y.getLsbD ci := by
  have one (i : Nat) (below : i < 8) : (ciMaskOne ci).getLsbD i = decide (i = ci) := dpuMaskOne_getLsbD below
  constructor
  · intro same
    have bits := congrArg (BitVec.getLsbD · ci) same
    simpa only [BitVec.getLsbD_and, one ci small, decide_true, Bool.and_true] using bits
  · intro same
    refine BitVec.eq_of_getLsbD_eq fun i below => ?_
    rw [BitVec.getLsbD_and, BitVec.getLsbD_and, one i below]
    by_cases here : i = ci
    · rw [here, same]
    · simp [here]

theorem identityMask_getLsbD {ci : Nat} (inside : ci < s.rank.nrCis) :
    s.identityMask.getLsbD ci = decide (s.color.getLsbD ci = s.debug.color.getLsbD ci) := by
  rw [ColorState.identityMask, foldl_ciMaskOne_getLsbD _ s.nrCis_le inside]
  exact decide_eq_decide.mpr (and_ciMaskOne_eq (inside.trans_le s.nrCis_le))

/-- Before the structures are sent, no control interface has the color of the debuggee. -/
theorem restoreColors_ok (passed : restoreColors misread outcome s = (.ok, t)) :
    Keeps s t ∧ ∀ ci < s.rank.nrCis, t.color.getLsbD ci = !s.debug.color.getLsbD ci ∧
      (t.hardware ci).toCiHardware = (s.hardware ci).toCiHardware := by
  unfold restoreColors at passed
  split_ifs at passed with some_
  · have all : ∀ ci, outcome.reached ci = true := outcome.all_reached (congrArg Prod.fst passed)
    obtain rfl : (execDirect misread outcome s.identityMask CI_IDENTITY s).2 = t := congrArg Prod.snd passed
    have words (ci : Nat) : (ciPrepareMask s.identityMask (.direct CI_IDENTITY) s).cmds ci =
        if s.identityMask.getLsbD ci = true then .direct CI_IDENTITY else .empty := rfl
    have plain (ci : Nat) : ((ciPrepareMask s.identityMask (.direct CI_IDENTITY) s).cmds ci).Plain := by
      rw [words ci]
      split_ifs <;> trivial
    have prepared : Keeps s (ciPrepareMask s.identityMask (.direct CI_IDENTITY) s) := ⟨rfl, rfl, fun _ _ => rfl⟩
    refine ⟨prepared.trans (execCmd_keeps all fun ci _ => plain ci), fun ci inside => ⟨?_, ?_⟩⟩
    · refine (execCmd_color (s := ciPrepareMask s.identityMask (.direct CI_IDENTITY) s) inside).trans ?_
      change (s.color.getLsbD ci ^^ _) = _
      have mask := identityMask_getLsbD inside
      rw [words ci, mask]
      cases s.color.getLsbD ci <;> cases s.debug.color.getLsbD ci <;> simp [Word.empty]
    · refine (congrArg ColoredCi.toCiHardware
        (execCmd_hardware (s := ciPrepareMask s.identityMask (.direct CI_IDENTITY) s) all inside)).trans ?_
      rw [words ci]
      split_ifs <;> rfl
  · obtain rfl : s = t := congrArg Prod.snd passed
    refine ⟨Keeps.refl s, fun ci inside => ⟨?_, rfl⟩⟩
    have clear : s.identityMask.getLsbD ci = false := by
      rw [not_not.mp some_]
      exact BitVec.getLsbD_zero
    rw [identityMask_getLsbD inside, decide_eq_false_iff_not] at clear
    exact Bool.eq_not.mpr clear

theorem structureWord_ne_empty {value : BitVec 64} : structureWord value ≠ .empty ↔ value ≠ CI_EMPTY := by
  unfold structureWord
  split_ifs with never <;> simp [never, Word.empty]

/-- The structures go to the control interfaces without a color. -/
theorem restoreStructures_ok (passed : restoreStructures misread outcome s = (.ok, t)) :
    t.rank = s.rank ∧ t.debug = s.debug ∧ t.color = s.color ∧ ∀ ci < s.rank.nrCis,
      (t.hardware ci).color = ((s.hardware ci).color ^^ decide ((s.debug.sliceInfo ci).structureValue ≠ CI_EMPTY)) ∧
      (t.hardware ci).selected = (s.hardware ci).selected ∧
      ((s.debug.sliceInfo ci).structureValue ≠ CI_EMPTY →
        (t.hardware ci).loaded = (s.debug.sliceInfo ci).structureValue) := by
  have all : ∀ ci, outcome.reached ci = true := outcome.all_reached (congrArg Prod.fst passed)
  obtain rfl : (restoreStructures misread outcome s).2 = t := congrArg Prod.snd passed
  refine ⟨rfl, rfl, rfl, fun ci inside => ?_⟩
  have executed : (restoreStructures misread outcome s).2.hardware ci =
      (s.hardware ci).execute misread (structureWord (s.debug.sliceInfo ci).structureValue) :=
      if_pos ⟨inside, all ci⟩
  have plain : (structureWord (s.debug.sliceInfo ci).structureValue).Plain := by
    unfold structureWord
    split_ifs <;> trivial
  rw [executed, ColoredCi.execute_color plain]
  refine ⟨?_, ?_, fun given => ?_⟩
  · simp only [structureWord_ne_empty]
  · unfold structureWord
    split_ifs <;> rfl
  · rw [structureWord, if_neg given]
    rfl

/-- The color is inverted for every control interface, whatever it was sent. -/
theorem restoreResults_ok (passed : restoreResults misread outcome s = (.ok, t)) :
    t.rank = s.rank ∧ t.debug = s.debug ∧ t.hardware = s.hardware ∧
      ∀ ci < s.rank.nrCis, t.color.getLsbD ci = !s.color.getLsbD ci := by
  obtain rfl : (restoreResults misread outcome s).2 = t := congrArg Prod.snd passed
  refine ⟨rfl, rfl, funext fun ci => ?_, fun ci inside => ?_⟩
  · exact ite_self _
  · have inverted : (restoreResults misread outcome s).2.color = s.color ^^^ dpuMaskAll s.rank.nrCis := rfl
    rw [inverted, BitVec.getLsbD_xor, dpuMaskAll_getLsbD s.nrCis_le, decide_eq_true inside, Bool.xor_true]

/-- What a restore makes of the control interfaces. Their color is the one that is
recorded if a structure was sent to them exactly where the two were the same
before. -/
structure RestoredCi (s t : ColorState) (ci : Nat) : Prop where
  recorded : t.color.getLsbD ci = s.debug.color.getLsbD ci
  color : (t.hardware ci).color =
    (s.debug.color.getLsbD ci ^^ s.differs ci ^^ decide ((s.debug.sliceInfo ci).structureValue = CI_EMPTY))
  structure_ : (s.debug.sliceInfo ci).structureValue ≠ CI_EMPTY →
    (t.hardware ci).loaded = (s.debug.sliceInfo ci).structureValue
  selection : (s.debug.sliceInfo ci).sliceTarget ≠ .none →
    (t.hardware ci).selected = (s.debug.sliceInfo ci).sliceTarget

theorem ciDebugRestoreContextRank_ok {outcomes : RestoreOutcomes} (known : s.Known) (latches : s.Latches)
    (passed : ciDebugRestoreContextRank misread outcomes s = (.ok, t)) :
    t.rank = s.rank ∧ ∀ ci < s.rank.nrCis, RestoredCi s t ci := by
  obtain ⟨before, stable, passed⟩ := andThen_inv passed
  obtain rfl : s = before := congrArg Prod.snd stable
  obtain ⟨targeted, selects, passed⟩ := andThen_inv passed
  obtain ⟨recolored, colors, passed⟩ := andThen_inv passed
  obtain ⟨loaded, structures, passed⟩ := andThen_inv passed
  obtain ⟨waited, valid_, results⟩ := andThen_inv passed
  obtain rfl : loaded = waited := congrArg Prod.snd valid_
  have reselected : Reselected s s.rank.nrCis targeted := by
    refine loop_range_inv ⟨⟨Keeps.refl s, known, latches⟩,
      fun _ _ none_ => absurd none_ (Nat.not_lt_zero _)⟩ ?_ selects
    intro ci inside u v before passed
    exact restoreTarget_reselected inside before passed
  obtain ⟨kept, recoloredEach⟩ := restoreColors_ok colors
  obtain ⟨loadedRank, loadedDebug, loadedColor, loadedEach⟩ := restoreStructures_ok structures
  obtain ⟨shownRank, shownDebug, shownHardware, shownEach⟩ := restoreResults_ok results
  have keeps : Keeps s recolored := reselected.steady.keeps.trans kept
  refine ⟨shownRank.trans (loadedRank.trans keeps.rank), fun ci inside => ?_⟩
  have atTargeted : ci < targeted.rank.nrCis := reselected.steady.keeps.rank.symm ▸ inside
  have atRecolored : ci < recolored.rank.nrCis := keeps.rank.symm ▸ inside
  obtain ⟨inverse, same⟩ := recoloredEach ci atTargeted
  obtain ⟨color, selected, structure_⟩ := loadedEach ci atRecolored
  have shown := shownEach ci (loadedRank.symm ▸ atRecolored)
  rw [reselected.steady.keeps.debug] at inverse
  rw [keeps.debug] at color structure_
  refine ⟨?_, ?_, fun given => ?_, fun given => ?_⟩
  · rw [shown, loadedColor, inverse, Bool.not_not]
  · have differs := keeps.differs ci inside
    rw [ColorState.differs, inverse] at differs
    rw [shownHardware, color, ← differs]
    by_cases never : (s.debug.sliceInfo ci).structureValue = CI_EMPTY <;>
      cases s.debug.color.getLsbD ci <;> cases (recolored.hardware ci).color <;> simp [never]
  · rw [shownHardware]
    exact structure_ given
  · rw [shownHardware, selected, same]
    exact reselected.selected ci inside inside given

theorem RestoredCi.back_iff {ci : Nat} (restored : RestoredCi s t ci) (agree : s.differs ci = false) :
    HandedBackCi s.debug t ci ↔ (s.debug.sliceInfo ci).structureValue ≠ CI_EMPTY := by
  have color := restored.color
  rw [agree, Bool.xor_false] at color
  constructor
  · intro back never
    have same := color.symm.trans back.color
    rw [decide_eq_true never, Bool.xor_true] at same
    exact Bool.not_ne_self _ same
  · intro given
    rw [decide_eq_false given, Bool.xor_false] at color
    exact ⟨restored.recorded, color, restored.structure_, restored.selection⟩

end Restore

section Handover
variable {start saved : ColorState} {history : List (Transition ColorState TurnAction)} {dummy : Outcome}
  {responses : Responses} {outcomes : RestoreOutcomes}

/-- A debugger whose commands are executed hands the control interfaces back exactly if
each of them has a structure of the debuggee. -/
theorem handedBack_iff (known : start.Known) (latches : start.Latches)
    (shown : ∀ data s, readColors misread dummy responses start = (.ok data, s) → s.Shows data)
    (attached : ciDebugSaveContextRank misread dummy responses start = (.ok, saved))
    (run : Run (turnStep misread) saved history s) (executed : ∀ τ ∈ history, Executed τ.before τ.action)
    (detached : ciDebugRestoreContextRank misread outcomes s = (.ok, t)) :
    HandedBack saved.debug t ↔ ∀ ci < start.rank.nrCis, (start.debug.sliceInfo ci).structureValue ≠ CI_EMPTY := by
  obtain ⟨before, sameRank, sameInfo⟩ := ciDebugSaveContextRank_inStep known latches shown attached
  obtain ⟨inStep, keeps⟩ := run_steady run before executed
  obtain ⟨rank, restored⟩ := ciDebugRestoreContextRank_ok inStep.known inStep.latches detached
  rw [HandedBack, rank, keeps.rank, ← sameRank, ← sameInfo, ← keeps.debug]
  refine forall₂_congr fun ci inside => ?_
  have inside : ci < s.rank.nrCis := keeps.rank.symm ▸ inside
  exact (restored ci inside).back_iff (inStep.agree ci inside)

end Handover

section Example

/-- The first DPU is selected where there is a structure. -/
def usedTarget (structure_ : BitVec 64) : SliceTarget := if structure_ = CI_EMPTY then .none else .dpu 0

/-- A rank whose debuggee has these structures, and whose colors are set. -/
def debuggee (structures : Nat → BitVec 64) : ColorState where
  rank := pairedRank
  cache := fun _ => ⟨⟨.none, fun _ => 0#8⟩, CI_EMPTY⟩
  cmds := fun _ => .empty
  color := 0#8
  debug := ⟨0#8, fun _ => 0#32, fun ci => ⟨structures ci, usedTarget (structures ci)⟩⟩
  hardware := fun ci => ⟨⟨structures ci, usedTarget (structures ci), fun _ => 0⟩, true⟩

/-- Results that are valid and show colors that are set. -/
def validResults : Responses := fun _ => .ok fun _ => 0xFF00000000#64

def allSucceed : RestoreOutcomes :=
  ⟨validResults, fun _ => ⟨success, success⟩, success, success, validResults, success⟩

theorem readStable_first {stable : BitVec 64 → Bool} {responses : Responses} {data : Nat → BitVec 64}
    {nrCis timeout read : Nat}
    (answer : responses read = .ok data) (settled : ∀ ci, stable (data ci) = true) :
    readStable stable nrCis responses (timeout + 2) read = .ok (read + 1, data) := by
  simp [readStable, answer, settled]

theorem execFrame_passes {struct frame : Outcome} (structPasses : struct.status = .ok)
    (framePasses : frame.status = .ok)
    {mask : BitVec 8} {structure_ : BitVec 64} {word : Frame} :
    (execFrame misread ⟨struct, frame⟩ mask structure_ word s).1 = .ok := by
  refine andThen_passes ?_ fun _ => framePasses
  rw [execWriteStructure]
  split_ifs
  · exact structPasses
  · rfl

theorem allSucceed_passes (s : ColorState) : (ciDebugRestoreContextRank misread allSucceed s).1 = .ok := by
  have settled (stable : BitVec 64 → Bool) (settles : stable 0xFF00000000#64 = true) (nrCis : Nat) :
      (readStable stable nrCis validResults TIMEOUT_COLOR 0).status = .ok :=
    congrArg Reading.status (@readStable_first stable validResults _ nrCis 99998 0 rfl fun _ => settles)
  refine andThen_passes (settled _ (by decide) _) fun s =>
    andThen_passes (loop_passes (fun ci s => ?_) _ _) fun s =>
    andThen_passes ?_ fun s => andThen_passes rfl fun s => andThen_passes (settled _ (by decide) _) fun s => rfl
  · rw [restoreTarget]
    split_ifs
    · exact execFrame_passes rfl rfl
    · rfl
  · rw [restoreColors]
    split_ifs <;> rfl

/-- The debuggee after the debugger has read its colors. -/
def attachedTo (structures : Nat → BitVec 64) : ColorState :=
  { debuggee structures with
    color := recordColors 2 (fun _ => true) 0#8
    debug := ⟨recordColors 2 (fun _ => true) 0#8, fun _ => 0#32,
      fun ci => ⟨structures ci, usedTarget (structures ci)⟩⟩ }

/-- Valid results are read without a dummy command. -/
theorem readColors_valid {dummy : Outcome} {responses : Responses} {data : Nat → BitVec 64}
    (answers : ∀ read, responses read = .ok data) (settled : ∀ ci, cmdType (data ci) = 0 ∧ valid (data ci) = 0xFF) :
    readColors misread dummy responses s =
      (.ok data, { s with debug := { s.debug with result := fun ci => (data ci).setWidth 32 } }) := by
  have first := @readStable_first (fun result => cmdType result = 0xFF || cmdType result = 0 && valid result = 0xFF)
    responses data s.rank.nrCis 99998 0 (answers 0) (fun ci => by simp [settled ci])
  rw [readColors, show TIMEOUT_COLOR = 99998 + 2 from rfl, first]
  simp [answers, settled]

theorem debuggee_known {structures : Nat → BitVec 64} : (debuggee structures).Known := fun _ _ => .inl rfl

theorem debuggee_latches {structures : Nat → BitVec 64} : (debuggee structures).Latches := fun _ _ => trivial

theorem readColors_debuggee {structures : Nat → BitVec 64} :
    readColors misread success validResults (debuggee structures) =
      (.ok fun _ => 0xFF00000000#64, debuggee structures) :=
  readColors_valid (fun _ => rfl) fun _ => by decide

theorem debuggee_attached {structures : Nat → BitVec 64} :
    ciDebugSaveContextRank misread success validResults (debuggee structures) = (.ok, attachedTo structures) := by
  rw [ciDebugSaveContextRank, andThen, ciGetColor, readColors_debuggee]
  rfl

theorem debuggee_shows {structures : Nat → BitVec 64} {data : Nat → BitVec 64}
    (read : readColors misread success validResults (debuggee structures) = (.ok data, s)) : s.Shows data := by
  rw [readColors_debuggee] at read
  obtain ⟨same, rfl⟩ := Prod.mk.inj read
  obtain rfl := Except.ok.inj same
  exact fun _ _ => show shownColor 0xFF00000000#64 = true by decide

/-- The debugger selects all DPUs of one control interface. -/
def selectAllOne (structures : Nat → BitVec 64) : Transition ColorState TurnAction :=
  let select : TurnAction :=
    ⟨.frame ⟨CI_SELECT_ALL_STRUCT, by decide⟩ (.select .all), 0b01#8, ⟨success, success⟩⟩
  ⟨attachedTo structures, select, (select.exec (fun _ _ hardware => hardware) (attachedTo structures)).2⟩

theorem handedBack_iff_recorded :
    HandedBack (attachedTo fun _ => CI_SELECT_DPU_STRUCT).debug
      (ciDebugRestoreContextRank (fun _ _ hardware => hardware) allSucceed
        (selectAllOne fun _ => CI_SELECT_DPU_STRUCT).after).2 := by
  have executed : Executed (selectAllOne fun _ => CI_SELECT_DPU_STRUCT).before
      (selectAllOne fun _ => CI_SELECT_DPU_STRUCT).action :=
    ⟨fun _ => rfl, fun _ => rfl, fun _ same => Turn.noConfusion same, False.elim⟩
  refine (handedBack_iff debuggee_known debuggee_latches (fun _ _ => debuggee_shows) debuggee_attached
    (Run.start.next rfl) (List.forall_mem_singleton.mpr executed) (Prod.ext (allSucceed_passes _) rfl)).mpr ?_
  exact fun _ _ => show CI_SELECT_DPU_STRUCT ≠ CI_EMPTY by decide

/-- The structures of a debuggee that has not used its second control interface. -/
def halfUsed (ci : Nat) : BitVec 64 := if ci = 0 then CI_SELECT_DPU_STRUCT else CI_EMPTY

/-- The color of a control interface without a structure is inverted by the library only. -/
theorem halfUsed_not_handedBack : ¬ ∀ (misread : Misread) (start saved s t : ColorState)
    (history : List (Transition ColorState TurnAction)) (dummy : Outcome) (responses : Responses)
    (outcomes : RestoreOutcomes),
    start.Known → start.Latches →
    (∀ data s, readColors misread dummy responses start = (.ok data, s) → s.Shows data) →
    ciDebugSaveContextRank misread dummy responses start = (.ok, saved) →
    Run (turnStep misread) saved history s → (∀ τ ∈ history, Executed τ.before τ.action) →
    ciDebugRestoreContextRank misread outcomes s = (.ok, t) → HandedBack saved.debug t := by
  intro always
  have detached :
      ciDebugRestoreContextRank (fun _ _ hardware => hardware) allSucceed (attachedTo halfUsed) = (.ok, _) :=
    Prod.ext (allSucceed_passes _) rfl
  have known : (attachedTo halfUsed).Known := fun _ _ => .inl rfl
  have latches : (attachedTo halfUsed).Latches := fun _ _ => trivial
  obtain ⟨rank, restored⟩ := ciDebugRestoreContextRank_ok known latches detached
  have back := always _ _ _ _ _ _ _ _ _ debuggee_known debuggee_latches (fun _ _ => debuggee_shows)
    debuggee_attached .start (by simp) detached
  have second : 1 < (attachedTo halfUsed).rank.nrCis := by decide
  have agree : (attachedTo halfUsed).differs 1 = false := by decide
  exact ((restored 1 second).back_iff agree).mp (back 1 (rank.symm ▸ second)) rfl

end Example

end Upmem.CiColors
