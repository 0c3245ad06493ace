import Upmem.Rank

namespace Upmem.Ci

def NB_RETRY_FOR_VALID_RESULT : Nat := 100

def CI_EMPTY : BitVec 64 := 0
def CI_NOP : BitVec 64 := 0xFF00000000000000

/-- The DPUs of a control interface that a command addresses. -/
inductive SliceTarget
  | none
  | dpu (dpuId : Nat)
  | all
  | group (groupId : Nat)
  deriving DecidableEq

/-- The part of `struct dpu_configuration_slice_info_t` that `exec_cmd` reads. -/
structure SliceSelection where
  sliceTarget : SliceTarget
  dpusPerGroup : Nat → BitVec 8

/-- `struct dpu_control_interface_context`. -/
structure CiContext where
  faultDecode : BitVec 8
  faultCollide : BitVec 8
  color : BitVec 8
  sliceInfo : Nat → SliceSelection

/-- There is no mask, and an internal error, when nothing is selected. -/
def ciFillSelectedDpuMask (nrDpus : Nat) (info : SliceSelection) : Option (BitVec 8) :=
  match info.sliceTarget with
  | .all => some (dpuMaskAll nrDpus)
  | .dpu dpuId => some (dpuMaskOne dpuId)
  | .group groupId => some (info.dpusPerGroup groupId)
  | .none => none

/-- What `compute_masks` fills. -/
structure Masks where
  resultMask : Nat → BitVec 64
  expected : Nat → BitVec 64
  ciMask : BitVec 8
  isDone : Nat → Bool

def ciMaskOne (ci : Nat) : BitVec 8 := 1#8 <<< ci

def computeMasks (topology : Topology) (context : CiContext) (commands : Nat → BitVec 64) (addSelectMask : Bool) :
    Option Masks :=
  (List.range topology.nrOfControlInterfaces).foldlM
    (fun masks eachCi =>
      if commands eachCi = CI_EMPTY then
        some { masks with isDone := Function.update masks.isDone eachCi true }
      else if addSelectMask then
        (ciFillSelectedDpuMask topology.nrOfDpusPerControlInterface (context.sliceInfo eachCi)).map fun dpuMask =>
          { masks with
            ciMask := masks.ciMask ||| ciMaskOne eachCi
            resultMask := Function.update masks.resultMask eachCi
              (0xFF0000FF00000000#64 ||| BitVec.ofNat 64 (1 <<< topology.nrOfDpusPerControlInterface - 1))
            expected := Function.update masks.expected eachCi (0x000000FF00000000#64 ||| dpuMask.setWidth 64) }
      else
        some
          { masks with
            ciMask := masks.ciMask ||| ciMaskOne eachCi
            resultMask := Function.update masks.resultMask eachCi 0xFF0000FF00000000#64
            expected := Function.update masks.expected eachCi 0x000000FF00000000#64 })
    ⟨fun _ => 0, fun _ => 0, 0, fun _ => false⟩

/-- What a poll changes. -/
structure Progress where
  isDone : Nat → Bool
  faultDecode : BitVec 8
  faultCollide : BitVec 8

def color (result : BitVec 64) : BitVec 8 :=
  ((result &&& 0x00FF000000000000#64) >>> 48).setWidth 8

/-- The loop of `determine_if_commands_are_finished` over the control interfaces that are left. -/
def determineIfCommandsAreFinished (masks : Masks) (expectedColor : BitVec 8) (data : Nat → BitVec 64) :
    List Nat → Progress → Bool × Progress
  | [], progress => (true, progress)
  | eachCi :: rest, progress =>
    let result := data eachCi
    let nbBitsSet := popcount (color result)
    let ciMask := ciMaskOne eachCi
    let ciColor := expectedColor &&& ciMask
    let settled : Progress := { progress with isDone := Function.update progress.isDone eachCi true }
    if progress.isDone eachCi = true then determineIfCommandsAreFinished masks expectedColor data rest progress
    else if result &&& masks.resultMask eachCi ≠ masks.expected eachCi ∧ result &&& CI_NOP ≠ CI_NOP then
      (false, progress)
    else if ciColor ≠ 0 ∧ nbBitsSet ≤ 3 ∨ ciColor = 0 ∧ 5 ≤ nbBitsSet then (false, progress)
    else
      match if ciColor ≠ 0 then 8 - nbBitsSet else nbBitsSet with
      | 0 => determineIfCommandsAreFinished masks expectedColor data rest settled
      | 1 =>
        determineIfCommandsAreFinished masks expectedColor data rest
          { settled with faultDecode := settled.faultDecode ||| ciMask }
      | 2 =>
        determineIfCommandsAreFinished masks expectedColor data rest
          { settled with faultCollide := settled.faultCollide ||| ciMask }
      | 3 =>
        determineIfCommandsAreFinished masks expectedColor data rest
          { settled with
            faultCollide := settled.faultCollide ||| ciMask
            faultDecode := settled.faultDecode ||| ciMask }
      | _ => (false, settled)

/-- What the control interfaces answer to a read of their results. -/
abbrev Responses := Nat → Except { status : DpuError // status ≠ .ok } (Nat → BitVec 64)

/-- The polls of `exec_cmd`, from the poll numbered `poll` on: the status, the number of
polls made and what they have changed. -/
def pollCommands (topology : Topology) (responses : Responses) (masks : Masks) (expectedColor : BitVec 8) :
    Nat → Nat → Progress → DpuError × Nat × Progress
  | nrRetries, poll, progress =>
    match responses poll with
    | .error error => (error.1, poll, progress)
    | .ok data =>
      let (finished, polled) := determineIfCommandsAreFinished masks expectedColor data
        (List.range topology.nrOfControlInterfaces) progress
      if finished = true then (.ok, poll + 1, polled)
      else
        match nrRetries with
        | 0 => (.timeout, poll + 1, polled)
        | nrRetries + 1 => pollCommands topology responses masks expectedColor nrRetries (poll + 1) polled

/-- How `exec_cmd` ends: its status, the context and the number of polls whose results it has looked at. -/
structure ExecResult where
  status : DpuError
  context : CiContext
  polls : Nat

def execCmd (topology : Topology) (isChipV14 : Bool) (context : CiContext) (commands : Nat → BitVec 64)
    (addSelectMask : Bool) (commit : DpuError) (responses : Responses) : ExecResult :=
  match computeMasks topology context commands addSelectMask with
  | none => ⟨.internal, context, 0⟩
  | some masks =>
    let inverted := { context with color := context.color ^^^ masks.ciMask }
    if commit ≠ .ok then ⟨commit, inverted, 0⟩
    else
      let (status, polls, progress) := pollCommands topology responses masks (context.color &&& masks.ciMask)
        NB_RETRY_FOR_VALID_RESULT 0 ⟨masks.isDone, context.faultDecode, context.faultCollide⟩
      let polled :=
        { inverted with
          faultDecode := progress.faultDecode
          faultCollide := progress.faultCollide }
      if status = .ok ∧ isChipV14 = false then
        match responses polls with
        | .error error => ⟨error.1, polled, polls⟩
        | .ok _ => ⟨.ok, polled, polls⟩
      else ⟨status, polled, polls⟩

section Verdicts
variable (masks : Masks) (expectedColor : BitVec 8) (data : Nat → BitVec 64)

/-- The response has the expected value, or the debugger has restored it. -/
def Matched (ci : Nat) : Prop :=
  data ci &&& masks.resultMask ci = masks.expected ci ∨ data ci &&& CI_NOP = CI_NOP

/-- The number of color bits that differ from the expected color. -/
def differing (ci : Nat) : Nat :=
  if expectedColor &&& ciMaskOne ci ≠ 0 then 8 - popcount (color (data ci)) else popcount (color (data ci))

/-- A response that completes the command. -/
def Acceptable (ci : Nat) : Prop :=
  Matched masks data ci ∧ differing expectedColor data ci ≤ 3

/-- A response that matches with a color in the middle between the two. -/
def Undecided (ci : Nat) : Prop :=
  Matched masks data ci ∧ differing expectedColor data ci = 4

instance (ci : Nat) : Decidable (Matched masks data ci) :=
  inferInstanceAs (Decidable (_ = _ ∨ _ = _))

instance (ci : Nat) : Decidable (Acceptable masks expectedColor data ci) :=
  inferInstanceAs (Decidable (_ ∧ _ ≤ 3))

/-- What an examined response changes. -/
def Progress.accept (progress : Progress) (ci : Nat) : Progress where
  isDone := Function.update progress.isDone ci true
  faultDecode :=
    if differing expectedColor data ci ∈ [1, 3] then progress.faultDecode ||| ciMaskOne ci else progress.faultDecode
  faultCollide :=
    if differing expectedColor data ci ∈ [2, 3] then progress.faultCollide ||| ciMaskOne ci
    else progress.faultCollide

variable {masks expectedColor data}

theorem popcount_le {w : Nat} (bits : BitVec w) : popcount bits ≤ w :=
  List.countP_le_length.trans_eq List.length_range

theorem color_rejected_iff (ci : Nat) :
    (expectedColor &&& ciMaskOne ci ≠ 0 ∧ popcount (color (data ci)) ≤ 3 ∨
      expectedColor &&& ciMaskOne ci = 0 ∧ 5 ≤ popcount (color (data ci))) ↔
      5 ≤ differing expectedColor data ci := by
  have few := popcount_le (color (data ci))
  rw [differing]
  split
  · rename_i set
    simp only [set, not_false_eq_true, true_and, false_and, or_false, ne_eq]
    omega
  · rename_i clear
    simp only [not_not] at clear
    simp [clear]

theorem determine_done {ci : Nat} {rest : List Nat} {progress : Progress} (done : progress.isDone ci = true) :
    determineIfCommandsAreFinished masks expectedColor data (ci :: rest) progress =
      determineIfCommandsAreFinished masks expectedColor data rest progress := by
  rw [determineIfCommandsAreFinished]
  exact if_pos done

theorem determine_rejected {ci : Nat} {rest : List Nat} {progress : Progress} (waits : progress.isDone ci = false)
    (rejected : ¬ Acceptable masks expectedColor data ci) (decided : ¬ Undecided masks expectedColor data ci) :
    determineIfCommandsAreFinished masks expectedColor data (ci :: rest) progress = (false, progress) := by
  rw [determineIfCommandsAreFinished]
  simp only [waits, Bool.false_eq_true, if_false]
  by_cases matched : Matched masks data ci
  · have far : 5 ≤ differing expectedColor data ci := by
      have notFew : ¬ differing expectedColor data ci ≤ 3 := fun few => rejected ⟨matched, few⟩
      have notFour : differing expectedColor data ci ≠ 4 := fun four => decided ⟨matched, four⟩
      omega
    rw [if_neg (not_and_or.mpr (matched.imp not_not.mpr not_not.mpr)), if_pos ((color_rejected_iff ci).mpr far)]
  · rw [if_pos (not_or.mp matched)]

theorem determine_examined {ci : Nat} {rest : List Nat} {progress : Progress} (waits : progress.isDone ci = false)
    (matched : Matched masks data ci) (near : differing expectedColor data ci ≤ 4) :
    determineIfCommandsAreFinished masks expectedColor data (ci :: rest) progress =
      if differing expectedColor data ci = 4 then (false, progress.accept expectedColor data ci)
      else determineIfCommandsAreFinished masks expectedColor data rest
      (progress.accept expectedColor data ci) := by
  rw [determineIfCommandsAreFinished]
  simp only [waits, Bool.false_eq_true, if_false]
  rw [if_neg (not_and_or.mpr (matched.imp not_not.mpr not_not.mpr)),
    if_neg (mt (color_rejected_iff ci).mp (by omega))]
  rw [show (if expectedColor &&& ciMaskOne ci ≠ 0 then 8 - popcount (color (data ci)) else
    popcount (color (data ci))) = differing expectedColor data ci from rfl, Progress.accept]
  rcases Nat.lt_or_ge (differing expectedColor data ci) 4 with few | four
  · interval_cases differing expectedColor data ci <;> rfl
  · have same : differing expectedColor data ci = 4 := by omega
    rw [same]
    rfl

end Verdicts

section Poll
variable {masks : Masks} {expectedColor : BitVec 8} {data : Nat → BitVec 64}

/-- The loop goes on past a control interface. -/
def Passes (masks : Masks) (expectedColor : BitVec 8) (data : Nat → BitVec 64) (progress : Progress)
    (ci : Nat) : Prop :=
  progress.isDone ci = true ∨ Acceptable masks expectedColor data ci

/-- The loop that starts at `start` comes to a control interface whose flag is not set, and
examines its response. -/
structure Examined (masks : Masks) (expectedColor : BitVec 8) (data : Nat → BitVec 64) (start count : Nat)
    (progress : Progress) (ci : Nat) : Prop where
  lower : start ≤ ci
  upper : ci < start + count
  reached : ∀ c, start ≤ c → c < ci → Passes masks expectedColor data progress c
  waits : progress.isDone ci = false
  accepted : Acceptable masks expectedColor data ci ∨ Undecided masks expectedColor data ci

/-- What one poll does. -/
structure Polled (masks : Masks) (expectedColor : BitVec 8) (data : Nat → BitVec 64) (start count : Nat)
    (before : Progress) (after : Bool × Progress) : Prop where
  finished : after.1 = true ↔ ∀ ci, start ≤ ci → ci < start + count → Passes masks expectedColor data before ci
  isDone : ∀ ci, after.2.isDone ci = true ↔
    before.isDone ci = true ∨ Examined masks expectedColor data start count before ci
  faultDecode : ∀ ci < 8, after.2.faultDecode.getLsbD ci = true ↔ before.faultDecode.getLsbD ci = true ∨
    Examined masks expectedColor data start count before ci ∧ differing expectedColor data ci ∈ [1, 3]
  faultCollide : ∀ ci < 8, after.2.faultCollide.getLsbD ci = true ↔ before.faultCollide.getLsbD ci = true ∨
    Examined masks expectedColor data start count before ci ∧ differing expectedColor data ci ∈ [2, 3]

variable {start count ci : Nat} {progress : Progress}

theorem examined_succ : Examined masks expectedColor data start (count + 1) progress ci ↔
    ci = start ∧ progress.isDone ci = false ∧
        (Acceptable masks expectedColor data ci ∨ Undecided masks expectedColor data ci) ∨
      Passes masks expectedColor data progress start ∧
        Examined masks expectedColor data (start + 1) count progress ci := by
  constructor
  · intro examined
    by_cases first : ci = start
    · exact Or.inl ⟨first, examined.waits, examined.accepted⟩
    · have lower := examined.lower
      have upper := examined.upper
      exact Or.inr ⟨examined.reached start le_rfl (by omega), by omega, by omega,
        fun c above => examined.reached c (by omega), examined.waits, examined.accepted⟩
  · rintro (⟨rfl, waits, accepted⟩ | ⟨passes, examined⟩)
    · exact ⟨le_rfl, by omega, fun c above below => by omega, waits, accepted⟩
    · have lower := examined.lower
      have upper := examined.upper
      refine ⟨by omega, by omega, fun c above below => ?_, examined.waits, examined.accepted⟩
      by_cases first : c = start
      · exact first ▸ passes
      · exact examined.reached c (by omega) below

theorem accept_isDone_of_ne {other : Nat} (differ : other ≠ ci) :
    (progress.accept expectedColor data ci).isDone other = progress.isDone other :=
  Function.update_of_ne differ _ _

theorem examined_accept : Examined masks expectedColor data (start + 1) count
    (progress.accept expectedColor data start) ci ↔
      Examined masks expectedColor data (start + 1) count progress ci := by
  have same (c : Nat) (above : start + 1 ≤ c) :
      (progress.accept expectedColor data start).isDone c = progress.isDone c := accept_isDone_of_ne (by omega)
  constructor
  all_goals
    intro examined
    refine ⟨examined.lower, examined.upper, fun c above below => ?_, ?_, examined.accepted⟩
    · simpa only [Passes, same c above] using examined.reached c above below
    · simpa only [same ci examined.lower] using examined.waits

theorem accept_isDone {other : Nat} : (progress.accept expectedColor data ci).isDone other = true ↔
    progress.isDone other = true ∨ other = ci := by
  by_cases same : other = ci
  · subst same
    simp [Progress.accept]
  · rw [accept_isDone_of_ne same]
    simp [same]

theorem or_ciMaskOne {bits : BitVec 8} {other : Nat} (inside : other < 8) :
    (bits ||| ciMaskOne ci).getLsbD other = true ↔ bits.getLsbD other = true ∨ other = ci := by
  rw [BitVec.getLsbD_or, show ciMaskOne ci = dpuMaskOne ci from rfl, dpuMaskOne_getLsbD inside]
  simp

theorem accept_faultDecode {other : Nat} (inside : other < 8) :
    (progress.accept expectedColor data ci).faultDecode.getLsbD other = true ↔
      progress.faultDecode.getLsbD other = true ∨ other = ci ∧ differing expectedColor data other ∈ [1, 3] := by
  simp only [Progress.accept]
  split
  · rename_i recorded
    rw [or_ciMaskOne inside]
    exact or_congr_right ⟨fun same => ⟨same, same ▸ recorded⟩, And.left⟩
  · rename_i clear
    refine (or_iff_left ?_).symm
    rintro ⟨rfl, recorded⟩
    exact clear recorded

theorem accept_faultCollide {other : Nat} (inside : other < 8) :
    (progress.accept expectedColor data ci).faultCollide.getLsbD other = true ↔
      progress.faultCollide.getLsbD other = true ∨ other = ci ∧ differing expectedColor data other ∈ [2, 3] := by
  simp only [Progress.accept]
  split
  · rename_i recorded
    rw [or_ciMaskOne inside]
    exact or_congr_right ⟨fun same => ⟨same, same ▸ recorded⟩, And.left⟩
  · rename_i clear
    refine (or_iff_left ?_).symm
    rintro ⟨rfl, recorded⟩
    exact clear recorded

theorem forall_passes_succ :
    (∀ c, start ≤ c → c < start + (count + 1) → Passes masks expectedColor data progress c) ↔
    Passes masks expectedColor data progress start ∧
      ∀ c, start + 1 ≤ c → c < start + 1 + count → Passes masks expectedColor data progress c := by
  constructor
  · intro all
    exact ⟨all start le_rfl (by omega), fun c above below => all c (by omega) (by omega)⟩
  · rintro ⟨first, others⟩ c above below
    by_cases same : c = start
    · exact same ▸ first
    · exact others c (by omega) (by omega)

/-- The loop over the control interfaces from `start` on. -/
theorem determine_polled (start count : Nat) (progress : Progress) :
    Polled masks expectedColor data start count progress
      (determineIfCommandsAreFinished masks expectedColor data (List.range' start count) progress) := by
  induction count generalizing start progress with
  | zero =>
    have none : ∀ ci, ¬ Examined masks expectedColor data start 0 progress ci := by
      intro ci examined
      have lower := examined.lower
      have upper := examined.upper
      omega
    refine ⟨iff_of_true rfl fun ci above below => by omega, fun ci => ?_, fun ci _ => ?_, fun ci _ => ?_⟩
    all_goals simp [determineIfCommandsAreFinished, none]
  | succ count ih =>
    rw [List.range'_succ]
    cases done : progress.isDone start with
    | true =>
      have passes : Passes masks expectedColor data progress start := Or.inl done
      have examined (ci : Nat) : Examined masks expectedColor data start (count + 1) progress ci ↔
          Examined masks expectedColor data (start + 1) count progress ci := by
        rw [examined_succ]
        refine ⟨fun either => ?_, fun later => Or.inr ⟨passes, later⟩⟩
        rcases either with ⟨rfl, waits, -⟩ | ⟨-, later⟩
        · rw [done] at waits
          cases waits
        · exact later
      have polled := ih (start + 1) progress
      rw [determine_done done]
      refine ⟨?_, fun ci => ?_, fun ci inside => ?_, fun ci inside => ?_⟩
      · rw [polled.finished, forall_passes_succ, and_iff_right passes]
      · rw [polled.isDone, examined]
      · rw [polled.faultDecode ci inside, examined]
      · rw [polled.faultCollide ci inside, examined]
    | false =>
      by_cases undecided : Undecided masks expectedColor data start
      · have fails : ¬ Passes masks expectedColor data progress start := by
          rintro (set | acceptable)
          · rw [done] at set
            cases set
          · exact absurd (undecided.2 ▸ acceptable.2) (by decide)
        have examined (ci : Nat) : Examined masks expectedColor data start (count + 1) progress ci ↔
            ci = start := by
          rw [examined_succ]
          refine ⟨fun either => either.elim And.left fun later => absurd later.1 fails, ?_⟩
          rintro rfl
          exact Or.inl ⟨rfl, done, Or.inr undecided⟩
        rw [determine_examined done undecided.1 undecided.2.le, if_pos undecided.2]
        refine ⟨?_, fun ci => ?_, fun ci inside => ?_, fun ci inside => ?_⟩
        · rw [forall_passes_succ]
          exact iff_of_false Bool.false_ne_true fun all => fails all.1
        · rw [examined, accept_isDone]
        · rw [examined, accept_faultDecode inside]
        · rw [examined, accept_faultCollide inside]
      · by_cases acceptable : Acceptable masks expectedColor data start
        · have passes : Passes masks expectedColor data progress start := Or.inr acceptable
          have examined (ci : Nat) : Examined masks expectedColor data start (count + 1) progress ci ↔
              ci = start ∨ Examined masks expectedColor data (start + 1) count progress ci := by
            rw [examined_succ]
            constructor
            · exact Or.imp And.left And.right
            · rintro (rfl | later)
              · exact Or.inl ⟨rfl, done, Or.inl acceptable⟩
              · exact Or.inr ⟨passes, later⟩
          have later (c : Nat) (above : start + 1 ≤ c) :
              Passes masks expectedColor data (progress.accept expectedColor data start) c ↔
                Passes masks expectedColor data progress c := by
            rw [Passes, accept_isDone_of_ne (by omega)]
            rfl
          have polled := ih (start + 1) (progress.accept expectedColor data start)
          have few := acceptable.2
          rw [determine_examined done acceptable.1 (by omega), if_neg (by omega)]
          refine ⟨?_, fun ci => ?_, fun ci inside => ?_, fun ci inside => ?_⟩
          · rw [polled.finished, forall_passes_succ, and_iff_right passes]
            exact forall_congr' fun c => forall_congr' fun above => forall_congr' fun _ => later c above
          · rw [polled.isDone, accept_isDone, examined_accept, examined, or_assoc]
          · rw [polled.faultDecode ci inside, accept_faultDecode inside, examined_accept, examined]
            tauto
          · rw [polled.faultCollide ci inside, accept_faultCollide inside, examined_accept, examined]
            tauto
        · have fails : ¬ Passes masks expectedColor data progress start := by
            rintro (set | accepts)
            · rw [done] at set
              cases set
            · exact acceptable accepts
          have none (ci : Nat) : ¬ Examined masks expectedColor data start (count + 1) progress ci := by
            rw [examined_succ]
            rintro (⟨rfl, -, accepted⟩ | ⟨passes, -⟩)
            · exact accepted.elim acceptable undecided
            · exact fails passes
          rw [determine_rejected done acceptable undecided]
          refine ⟨?_, fun ci => ?_, fun ci inside => ?_, fun ci inside => ?_⟩
          · rw [forall_passes_succ]
            exact iff_of_false Bool.false_ne_true fun all => fails all.1
          all_goals simp [none]

end Poll

section Polls
variable (topology : Topology) (masks : Masks) (expectedColor : BitVec 8) (data : Nat → Nat → BitVec 64)

/-- What the first polls have changed. -/
def progressAfter (start : Progress) : Nat → Progress
  | 0 => start
  | polls + 1 =>
    (determineIfCommandsAreFinished masks expectedColor (data polls) (List.range topology.nrOfControlInterfaces)
      (progressAfter start polls)).2

/-- One of the first `polls` responses of a control interface is acceptable when all
those before it have had an acceptable one. -/
def SettledBefore (addressed : Nat → Prop) (ci polls : Nat) : Prop :=
  ∃ poll < polls, Acceptable masks expectedColor (data poll) ci ∧
    ∀ c, c < ci → addressed c → SettledBefore addressed c (poll + 1)
termination_by ci

theorem progressAfter_polled (start : Progress) (polls : Nat) :
    Polled masks expectedColor (data polls) 0 topology.nrOfControlInterfaces
      (progressAfter topology masks expectedColor data start polls)
      (determineIfCommandsAreFinished masks expectedColor (data polls) (List.range topology.nrOfControlInterfaces)
        (progressAfter topology masks expectedColor data start polls)) := by
  rw [List.range_eq_range']
  exact determine_polled 0 _ _

variable {topology masks expectedColor data}

variable {responses : Responses}

/-- How the polls end: after at most `nrRetries + 1` of them, each of whose reads has
succeeded; when they succeed every flag is set, and when they stop early for another reason a
read has failed. -/
structure PollsEnd (topology : Topology) (masks : Masks) (expectedColor : BitVec 8) (data : Nat → Nat → BitVec 64)
    (responses : Responses) (nrRetries first : Nat) (start : Progress)
    (result : DpuError × Nat × Progress) : Prop where
  progress : result.2.2 = progressAfter topology masks expectedColor data start result.2.1
  from_first : first ≤ result.2.1
  few : result.2.1 ≤ first + nrRetries + 1
  read : ∀ poll, first ≤ poll → poll < result.2.1 → ∃ values, responses poll = .ok values
  ended : result.1 = .ok ∧ first < result.2.1 ∧ (∀ ci < topology.nrOfControlInterfaces,
        Passes masks expectedColor (data (result.2.1 - 1))
          (progressAfter topology masks expectedColor data start (result.2.1 - 1)) ci) ∨
      result.1 ≠ .ok ∧ (result.2.1 = first + nrRetries + 1 ∨ ∃ error, responses result.2.1 = .error error)

section Steps
variable {nrRetries first : Nat} {start : Progress}

theorem pollCommands_error {error : { status : DpuError // status ≠ .ok }} {progress : Progress}
    (read : responses first = .error error) :
    pollCommands topology responses masks expectedColor nrRetries first progress = (error.1, first, progress) := by
  unfold pollCommands
  rw [read]

theorem pollCommands_ok (read : responses first = .ok (data first)) :
    pollCommands topology responses masks expectedColor nrRetries first
        (progressAfter topology masks expectedColor data start first) =
      if (determineIfCommandsAreFinished masks expectedColor (data first)
        (List.range topology.nrOfControlInterfaces)
        (progressAfter topology masks expectedColor data start first)).1 = true then
        (.ok, first + 1, progressAfter topology masks expectedColor data start (first + 1))
      else
        match nrRetries with
        | 0 => (.timeout, first + 1, progressAfter topology masks expectedColor data start (first + 1))
        | nrRetries + 1 => pollCommands topology responses masks expectedColor nrRetries (first + 1)
            (progressAfter topology masks expectedColor data start (first + 1)) := by
  conv_lhs => unfold pollCommands
  rw [read]
  rfl

end Steps

theorem pollCommands_ends (reads : ∀ poll values, responses poll = .ok values → data poll = values)
    (nrRetries first : Nat) (start : Progress) :
    PollsEnd topology masks expectedColor data responses nrRetries first start
      (pollCommands topology responses masks expectedColor nrRetries first
        (progressAfter topology masks expectedColor data start first)) := by
  induction nrRetries generalizing first with
  | zero =>
    cases read : responses first with
    | error error =>
      rw [pollCommands_error read]
      exact ⟨rfl, le_rfl, by simp, fun poll above below => absurd above (Nat.not_le_of_lt below),
        Or.inr ⟨error.2, Or.inr ⟨error, read⟩⟩⟩
    | ok values =>
      obtain rfl := reads first values read
      have polled := progressAfter_polled topology masks expectedColor data start first
      have only (poll : Nat) (above : first ≤ poll) (below : poll < first + 1) : ∃ values,
          responses poll = .ok values :=
        ⟨data first, (show poll = first by omega) ▸ read⟩
      rw [pollCommands_ok read]
      split
      · rename_i finished
        exact ⟨rfl, Nat.le_succ first, by simp, only, Or.inl ⟨rfl, Nat.lt_succ_self first, fun ci inside =>
          polled.finished.mp finished ci (Nat.zero_le ci) (by omega)⟩⟩
      · exact ⟨rfl, Nat.le_succ first, by simp, only, Or.inr ⟨DpuError.noConfusion, Or.inl rfl⟩⟩
  | succ nrRetries ih =>
    cases read : responses first with
    | error error =>
      rw [pollCommands_error read]
      exact ⟨rfl, le_rfl, by simp; omega, fun poll above below => absurd above (Nat.not_le_of_lt below),
        Or.inr ⟨error.2, Or.inr ⟨error, read⟩⟩⟩
    | ok values =>
      obtain rfl := reads first values read
      have polled := progressAfter_polled topology masks expectedColor data start first
      rw [pollCommands_ok read]
      split
      · rename_i finished
        have only (poll : Nat) (above : first ≤ poll) (below : poll < first + 1) :
            ∃ values, responses poll = .ok values :=
          ⟨data first, (show poll = first by omega) ▸ read⟩
        exact ⟨rfl, Nat.le_succ first, by simp, only, Or.inl ⟨rfl, Nat.lt_succ_self first, fun ci inside =>
          polled.finished.mp finished ci (Nat.zero_le ci) (by omega)⟩⟩
      · change PollsEnd _ _ _ _ _ _ _ _
          (pollCommands topology responses masks expectedColor nrRetries (first + 1) _)
        have later := ih (first + 1)
        have above := later.from_first
        refine ⟨later.progress, by omega, by have := later.few; omega, fun poll lower upper => ?_, ?_⟩
        · by_cases same : poll = first
          · exact ⟨_, same ▸ read⟩
          · exact later.read poll (by omega) upper
        · refine later.ended.imp (fun ended => ⟨ended.1, by omega, ended.2.2⟩) fun ended => ⟨ended.1, ?_⟩
          exact ended.2.imp (fun all => by omega) id

variable {addressed : Nat → Prop} {polls ci : Nat} {start : Progress}

theorem settledBefore_succ : SettledBefore masks expectedColor data addressed ci (polls + 1) ↔
    SettledBefore masks expectedColor data addressed ci polls ∨
      Acceptable masks expectedColor (data polls) ci ∧
        ∀ c, c < ci → addressed c → SettledBefore masks expectedColor data addressed c (polls + 1) := by
  constructor
  · intro settled
    rw [SettledBefore] at settled
    obtain ⟨poll, below, acceptable, others⟩ := settled
    by_cases last : poll = polls
    · exact Or.inr ⟨last ▸ acceptable, last ▸ others⟩
    · left
      rw [SettledBefore]
      exact ⟨poll, by omega, acceptable, others⟩
  · intro either
    rw [SettledBefore]
    rcases either with settled | ⟨acceptable, others⟩
    · rw [SettledBefore] at settled
      obtain ⟨poll, below, rest⟩ := settled
      exact ⟨poll, by omega, rest⟩
    · exact ⟨polls, Nat.lt_succ_self polls, acceptable, others⟩

/-- The flags are set as the responses settle the control interfaces. -/
def FlagsSettled (topology : Topology) (masks : Masks) (expectedColor : BitVec 8) (data : Nat → Nat → BitVec 64)
    (addressed : Nat → Prop) (progress : Progress) (polls : Nat) : Prop :=
  ∀ ci < topology.nrOfControlInterfaces,
    progress.isDone ci = true ↔ (addressed ci → SettledBefore masks expectedColor data addressed ci polls)

theorem FlagsSettled.reached_iff {progress : Progress}
    (flags : FlagsSettled topology masks expectedColor data addressed progress polls)
    (inside : ci ≤ topology.nrOfControlInterfaces) :
    (∀ c, c < ci → Passes masks expectedColor (data polls) progress c) ↔
      ∀ c, c < ci → addressed c → SettledBefore masks expectedColor data addressed c (polls + 1) := by
  induction ci with
  | zero =>
    exact iff_of_true (fun c none => absurd none (Nat.not_lt_zero c)) fun c none => absurd none (Nat.not_lt_zero c)
  | succ ci ih =>
    have lower := ih (by omega)
    have here : (∀ c, c < ci → addressed c → SettledBefore masks expectedColor data addressed c (polls + 1)) →
        (Passes masks expectedColor (data polls) progress ci ↔
          (addressed ci → SettledBefore masks expectedColor data addressed ci (polls + 1))) := by
      intro others
      rw [Passes, flags ci (by omega), settledBefore_succ, and_iff_left others]
      tauto
    rw [Nat.forall_lt_succ_right, Nat.forall_lt_succ_right, lower]
    exact and_congr_right here

theorem FlagsSettled.next
    (flags : FlagsSettled topology masks expectedColor data addressed
      (progressAfter topology masks expectedColor data start polls) polls)
    (good : ∀ ci, Examined masks expectedColor (data polls) 0 topology.nrOfControlInterfaces
      (progressAfter topology masks expectedColor data start polls) ci →
        Acceptable masks expectedColor (data polls) ci) :
    FlagsSettled topology masks expectedColor data addressed
      (progressAfter topology masks expectedColor data start (polls + 1)) (polls + 1) := by
  intro ci inside
  have polled := progressAfter_polled topology masks expectedColor data start polls
  have reached := flags.reached_iff (show ci ≤ topology.nrOfControlInterfaces by omega)
  rw [progressAfter, polled.isDone, settledBefore_succ, flags ci inside]
  constructor
  · rintro (settled | examined) asked
    · exact Or.inl (settled asked)
    · exact Or.inr ⟨good ci examined, reached.mp fun c below => examined.reached c (Nat.zero_le c) below⟩
  · intro settled
    by_cases waits : addressed ci → SettledBefore masks expectedColor data addressed ci polls
    · exact Or.inl waits
    · obtain ⟨asked, unsettled⟩ := Classical.not_imp.mp waits
      obtain ⟨acceptable, others⟩ := (settled asked).resolve_left unsettled
      refine Or.inr ⟨Nat.zero_le ci, by omega, fun c _ below => reached.mpr others c below, ?_, Or.inl acceptable⟩
      exact Bool.eq_false_iff.mpr fun set => waits ((flags ci inside).mp set)

/-- No response with a color in the middle is examined among the first `polls`. -/
def Decided (topology : Topology) (masks : Masks) (expectedColor : BitVec 8) (data : Nat → Nat → BitVec 64)
    (start : Progress) (polls : Nat) : Prop :=
  ∀ poll < polls, ∀ ci, Examined masks expectedColor (data poll) 0 topology.nrOfControlInterfaces
    (progressAfter topology masks expectedColor data start poll) ci → ¬ Undecided masks expectedColor (data poll) ci

theorem flagsSettled (flags : FlagsSettled topology masks expectedColor data addressed start 0)
    (decided : Decided topology masks expectedColor data start polls) :
    FlagsSettled topology masks expectedColor data addressed
      (progressAfter topology masks expectedColor data start polls) polls := by
  induction polls with
  | zero => exact flags
  | succ polls ih =>
    refine (ih fun poll below => decided poll (by omega)).next fun ci examined => ?_
    exact examined.accepted.resolve_right (decided polls (Nat.lt_succ_self polls) ci examined)

/-- A flag is set by the poll that examines its response. -/
theorem examined_iff (poll ci : Nat) : Examined masks expectedColor (data poll) 0 topology.nrOfControlInterfaces
    (progressAfter topology masks expectedColor data start poll) ci ↔
      (progressAfter topology masks expectedColor data start poll).isDone ci = false ∧
        (progressAfter topology masks expectedColor data start (poll + 1)).isDone ci = true := by
  have polled := progressAfter_polled topology masks expectedColor data start poll
  rw [progressAfter, polled.isDone]
  constructor
  · intro examined
    exact ⟨examined.waits, Or.inr examined⟩
  · rintro ⟨waits, set | examined⟩
    · rw [waits] at set
      cases set
    · exact examined

theorem progressAfter_faultDecode {ci : Nat} (inside : ci < 8) (polls : Nat) :
    (progressAfter topology masks expectedColor data start polls).faultDecode.getLsbD ci = true ↔
      start.faultDecode.getLsbD ci = true ∨ ∃ poll < polls,
        ((progressAfter topology masks expectedColor data start poll).isDone ci = false ∧
          (progressAfter topology masks expectedColor data start (poll + 1)).isDone ci = true) ∧
        differing expectedColor (data poll) ci ∈ [1, 3] := by
  induction polls with
  | zero => simp [progressAfter]
  | succ polls ih =>
    have polled := progressAfter_polled topology masks expectedColor data start polls
    simp only [Nat.exists_lt_succ_right]
    rw [← or_assoc, ← ih, ← examined_iff]
    exact polled.faultDecode ci inside

theorem progressAfter_faultCollide {ci : Nat} (inside : ci < 8) (polls : Nat) :
    (progressAfter topology masks expectedColor data start polls).faultCollide.getLsbD ci = true ↔
      start.faultCollide.getLsbD ci = true ∨ ∃ poll < polls,
        ((progressAfter topology masks expectedColor data start poll).isDone ci = false ∧
          (progressAfter topology masks expectedColor data start (poll + 1)).isDone ci = true) ∧
        differing expectedColor (data poll) ci ∈ [2, 3] := by
  induction polls with
  | zero => simp [progressAfter]
  | succ polls ih =>
    have polled := progressAfter_polled topology masks expectedColor data start polls
    simp only [Nat.exists_lt_succ_right]
    rw [← or_assoc, ← ih, ← examined_iff]
    exact polled.faultCollide ci inside

end Polls

section Run
variable (topology : Topology) (isChipV14 : Bool) (context : CiContext) (commands : Nat → BitVec 64)
  (addSelectMask : Bool) (commit : DpuError) (responses : Responses)

theorem computeMasks_isDone {masks : Masks}
    (computed : computeMasks topology context commands addSelectMask = some masks) (ci : Nat) :
    masks.isDone ci = true ↔ ci < topology.nrOfControlInterfaces ∧ commands ci = CI_EMPTY := by
  unfold computeMasks at computed
  generalize topology.nrOfControlInterfaces = count at computed ⊢
  induction count generalizing masks with
  | zero =>
    cases computed
    simp
  | succ count ih =>
    rw [List.range_succ, List.foldlM_append, Option.bind_eq_bind, Option.bind_eq_some_iff] at computed
    obtain ⟨before, earlier, last⟩ := computed
    have flags := ih earlier
    rw [List.foldlM_cons, Option.bind_eq_bind, Option.bind_eq_some_iff] at last
    obtain ⟨after, step, same⟩ := last
    rw [List.foldlM_nil] at same
    cases same
    have other (kept : masks.isDone = before.isDone) (sent : commands count ≠ CI_EMPTY) :
        masks.isDone ci = true ↔ ci < count + 1 ∧ commands ci = CI_EMPTY := by
      rw [kept, flags]
      refine and_congr_left fun empty => ?_
      have differ : ci ≠ count := fun same => sent (same ▸ empty)
      omega
    split at step
    · rename_i empty
      cases step
      by_cases same : ci = count
      · subst same
        simp [empty]
      · change Function.update before.isDone count true ci = true ↔ _
        rw [Function.update_of_ne same, flags]
        exact and_congr_left fun _ => by omega
    · rename_i sent
      split at step
      · obtain ⟨dpuMask, -, rfl⟩ := Option.map_eq_some_iff.mp step
        exact other rfl sent
      · cases step
        exact other rfl sent

/-- The results as they are read; a read that fails has none. -/
def dataOf (responses : Responses) (poll : Nat) : Nat → BitVec 64 :=
  match responses poll with
  | .ok values => values
  | .error _ => fun _ => 0

/-- What `is_done` and the faults are after some polls of a call. -/
def callProgress (masks : Masks) (polls : Nat) : Progress :=
  progressAfter topology masks (context.color &&& masks.ciMask) (dataOf responses)
    ⟨masks.isDone, context.faultDecode, context.faultCollide⟩ polls

/-- The flag of a control interface is set in a poll. -/
def Completes (masks : Masks) (poll ci : Nat) : Prop :=
  (callProgress topology context responses masks poll).isDone ci = false ∧
    (callProgress topology context responses masks (poll + 1)).isDone ci = true

/-- A call succeeds only when each addressed control interface has given an acceptable
response; only such a response completes a command, and it is all that records a fault. -/
structure Protocol (masks : Masks) (result : ExecResult) : Prop where
  succeeds : result.status = .ok → ∀ ci < topology.nrOfControlInterfaces, commands ci ≠ CI_EMPTY →
    ∃ poll < result.polls, Acceptable masks (context.color &&& masks.ciMask) (dataOf responses poll) ci
  completes : ∀ poll < result.polls, ∀ ci, Completes topology context responses masks poll ci →
    Acceptable masks (context.color &&& masks.ciMask) (dataOf responses poll) ci
  faultDecode : ∀ ci < 8, result.context.faultDecode.getLsbD ci = true ↔ context.faultDecode.getLsbD ci = true ∨
    ∃ poll < result.polls, Completes topology context responses masks poll ci ∧
      differing (context.color &&& masks.ciMask) (dataOf responses poll) ci ∈ [1, 3]
  faultCollide : ∀ ci < 8, result.context.faultCollide.getLsbD ci = true ↔ context.faultCollide.getLsbD ci = true ∨
    ∃ poll < result.polls, Completes topology context responses masks poll ci ∧
      differing (context.color &&& masks.ciMask) (dataOf responses poll) ci ∈ [2, 3]

/-- The protocol of a call; without masks it fails and changes nothing. -/
def FollowsProtocol (result : ExecResult) : Prop :=
  match computeMasks topology context commands addSelectMask with
  | none => result.status ≠ .ok ∧ result.context = context
  | some masks => Protocol topology context commands responses masks result

/-- No response that matches has exactly four color bits that differ, when it is the
turn of its control interface: all before it have given an acceptable response, and it has not. -/
def NoUndecided (masks : Masks) : Prop :=
  ∀ poll ≤ NB_RETRY_FOR_VALID_RESULT, (∀ earlier ≤ poll, ∃ values, responses earlier = .ok values) →
    ∀ ci < topology.nrOfControlInterfaces, commands ci ≠ CI_EMPTY →
      (∀ c, c < ci → commands c ≠ CI_EMPTY →
        SettledBefore masks (context.color &&& masks.ciMask) (dataOf responses) (commands · ≠ CI_EMPTY) c
          (poll + 1)) →
      ¬ SettledBefore masks (context.color &&& masks.ciMask) (dataOf responses) (commands · ≠ CI_EMPTY) ci poll →
      ¬ Undecided masks (context.color &&& masks.ciMask) (dataOf responses poll) ci

variable {topology isChipV14 context commands addSelectMask commit responses}

theorem callProgress_settled {masks : Masks} {polls : Nat}
    (computed : computeMasks topology context commands addSelectMask = some masks)
    (decided : Decided topology masks (context.color &&& masks.ciMask) (dataOf responses)
      ⟨masks.isDone, context.faultDecode, context.faultCollide⟩ polls) :
    FlagsSettled topology masks (context.color &&& masks.ciMask) (dataOf responses) (commands · ≠ CI_EMPTY)
      (callProgress topology context responses masks polls) polls := by
  refine flagsSettled (fun ci inside => ?_) decided
  have never :
      ¬ SettledBefore masks (context.color &&& masks.ciMask) (dataOf responses) (commands · ≠ CI_EMPTY) ci 0 := by
    rw [SettledBefore]
    rintro ⟨poll, none, -⟩
    exact absurd none (Nat.not_lt_zero poll)
  change masks.isDone ci = true ↔ _
  rw [computeMasks_isDone topology context commands addSelectMask computed, and_iff_right inside]
  tauto

variable (isChipV14 responses)

/-- What a call with masks whose commands are sent does. -/
theorem execCmd_polls {masks : Masks}
    (computed : computeMasks topology context commands addSelectMask = some masks) :
    ∃ result : DpuError × Nat × Progress,
      PollsEnd topology masks (context.color &&& masks.ciMask)
    (dataOf responses) responses NB_RETRY_FOR_VALID_RESULT 0
        ⟨masks.isDone, context.faultDecode, context.faultCollide⟩ result ∧
      ((execCmd topology isChipV14 context commands addSelectMask .ok responses).status = .ok → result.1 = .ok) ∧
      (execCmd topology isChipV14 context commands addSelectMask .ok responses).polls = result.2.1 ∧
      (execCmd topology isChipV14 context commands addSelectMask .ok responses).context.faultDecode =
        result.2.2.faultDecode ∧
      (execCmd topology isChipV14 context commands addSelectMask .ok responses).context.faultCollide =
        result.2.2.faultCollide := by
  have reads : ∀ poll values, responses poll = .ok values → dataOf responses poll = values := by
    intro poll values read
    rw [dataOf, read]
  refine ⟨_, pollCommands_ends reads NB_RETRY_FOR_VALID_RESULT 0 _, ?_⟩
  simp only [execCmd, computed, ne_eq, not_true_eq_false, if_false, progressAfter]
  split
  · rename_i ended
    split
    · exact ⟨fun _ => ended.1, rfl, rfl, rfl⟩
    · exact ⟨fun _ => ended.1, rfl, rfl, rfl⟩
  · exact ⟨id, rfl, rfl, rfl⟩

variable {isChipV14 responses}

theorem SettledBefore.mono {masks : Masks} {expectedColor : BitVec 8} {data : Nat → Nat → BitVec 64}
    {addressed : Nat → Prop} {ci polls polls' : Nat}
    (settled : SettledBefore masks expectedColor data addressed ci polls) (later : polls ≤ polls') :
    SettledBefore masks expectedColor data addressed ci polls' := by
  rw [SettledBefore] at settled ⊢
  obtain ⟨poll, below, rest⟩ := settled
  exact ⟨poll, by omega, rest⟩

/-- A flag that is set has been set by a poll. -/
theorem exists_completes {masks : Masks} {ci polls : Nat} (asked : masks.isDone ci = false)
    (set : (callProgress topology context responses masks polls).isDone ci = true) :
    ∃ poll < polls, Completes topology context responses masks poll ci := by
  induction polls with
  | zero =>
    rw [show (callProgress topology context responses masks 0).isDone ci = masks.isDone ci from rfl, asked] at set
    cases set
  | succ polls ih =>
    cases before : (callProgress topology context responses masks polls).isDone ci with
    | false => exact ⟨polls, Nat.lt_succ_self polls, before, set⟩
    | true =>
      obtain ⟨poll, below, completes⟩ := ih before
      exact ⟨poll, Nat.lt_succ_of_lt below, completes⟩

section Call
variable {masks : Masks} {result : DpuError × Nat × Progress}
  (computed : computeMasks topology context commands addSelectMask = some masks)
  (ends : PollsEnd topology masks (context.color &&& masks.ciMask) (dataOf responses) responses
    NB_RETRY_FOR_VALID_RESULT 0 ⟨masks.isDone, context.faultDecode, context.faultCollide⟩ result)
include computed ends

/-- When only acceptable responses complete commands, no response in the middle is met in its turn. -/
theorem noUndecided_of_completes
    (completes : ∀ poll < result.2.1, ∀ ci, Completes topology context responses masks poll ci →
      Acceptable masks (context.color &&& masks.ciMask) (dataOf responses poll) ci) :
    NoUndecided topology context commands responses masks := by
  have decided (polls : Nat) (few : polls ≤ result.2.1) : Decided topology masks (context.color &&& masks.ciMask)
      (dataOf responses) ⟨masks.isDone, context.faultDecode, context.faultCollide⟩ polls := by
    intro poll below ci examined undecided
    have acceptable := completes poll (by omega) ci ((examined_iff poll ci).mp examined)
    exact absurd (undecided.2 ▸ acceptable.2) (by decide)
  intro poll bound read ci inside asked reached unsettled undecided
  by_cases polled : poll < result.2.1
  · have flags := callProgress_settled computed (decided poll polled.le)
    have waits : (callProgress topology context responses masks poll).isDone ci = false :=
      Bool.eq_false_iff.mpr fun set => unsettled ((flags ci inside).mp set asked)
    exact decided _ le_rfl poll polled ci
      ⟨Nat.zero_le ci, by omega, fun c _ below => (flags.reached_iff inside.le).mpr reached c below, waits,
        Or.inr undecided⟩ undecided
  · rcases ends.ended with ⟨-, some, passes⟩ | ⟨-, all | ⟨error, failed⟩⟩
    · have flags := callProgress_settled computed (decided (result.2.1 - 1) (by omega))
      have settled := (flags.reached_iff le_rfl).mp (fun c below => passes c below) ci inside asked
      exact unsettled (settled.mono (by omega))
    · rw [all] at polled
      omega
    · obtain ⟨values, same⟩ := read result.2.1 (by omega)
      rw [same] at failed
      cases failed

theorem completes_of_noUndecided (noUndecided : NoUndecided topology context commands responses masks) :
    ∀ poll < result.2.1, ∀ ci, Completes topology context responses masks poll ci →
      Acceptable masks (context.color &&& masks.ciMask) (dataOf responses poll) ci := by
  have decided (polls : Nat) (few : polls ≤ result.2.1) : Decided topology masks (context.color &&& masks.ciMask)
      (dataOf responses) ⟨masks.isDone, context.faultDecode, context.faultCollide⟩ polls := by
    induction polls with
    | zero => exact fun poll none => absurd none (Nat.not_lt_zero poll)
    | succ polls ih =>
      intro poll below ci examined
      by_cases last : poll = polls
      · subst last
        have flags := callProgress_settled computed (ih (by omega))
        have inside : ci < topology.nrOfControlInterfaces := by simpa using examined.upper
        have waits := mt (flags ci inside).mpr (Bool.eq_false_iff.mp examined.waits)
        obtain ⟨asked, unsettled⟩ := Classical.not_imp.mp waits
        have few' := ends.few
        exact noUndecided poll (by omega)
          (fun earlier before => ends.read earlier (Nat.zero_le _) (by omega)) ci inside
          asked ((flags.reached_iff inside.le).mp fun c => examined.reached c (Nat.zero_le c)) unsettled
      · exact ih (by omega) poll (by omega) ci examined
  intro poll below ci completes
  have examined := (examined_iff poll ci).mpr completes
  exact examined.accepted.resolve_right (decided _ le_rfl poll below ci examined)

theorem succeeds_of_completes
    (completes : ∀ poll < result.2.1, ∀ ci, Completes topology context responses masks poll ci →
      Acceptable masks (context.color &&& masks.ciMask) (dataOf responses poll) ci) (ok : result.1 = .ok) :
    ∀ ci < topology.nrOfControlInterfaces, commands ci ≠ CI_EMPTY →
      ∃ poll < result.2.1, Acceptable masks (context.color &&& masks.ciMask) (dataOf responses poll) ci := by
  intro ci inside asked
  obtain ⟨-, some, passes⟩ := ends.ended.resolve_right fun failed => failed.1 ok
  rcases passes ci inside with set | acceptable
  · have waits : masks.isDone ci = false := by
      refine Bool.eq_false_iff.mpr fun empty => asked ?_
      exact ((computeMasks_isDone topology context commands addSelectMask computed ci).mp empty).2
    obtain ⟨poll, below, done⟩ := exists_completes waits set
    exact ⟨poll, by omega, completes poll (by omega) ci done⟩
  · exact ⟨result.2.1 - 1, by omega, acceptable⟩

end Call

/-- A call follows the protocol when no response with exactly four differing color
bits is met in the turn of its control interface. -/
theorem followsProtocol_iff (topology : Topology) (isChipV14 : Bool) (context : CiContext)
    (commands : Nat → BitVec 64) (addSelectMask : Bool) (commit : DpuError) (responses : Responses) :
    FollowsProtocol topology context commands addSelectMask responses
        (execCmd topology isChipV14 context commands addSelectMask commit responses) ↔
      ∀ masks, computeMasks topology context commands addSelectMask = some masks → commit = .ok →
        NoUndecided topology context commands responses masks := by
  cases computed : computeMasks topology context commands addSelectMask with
  | none =>
    refine iff_of_true ?_ fun masks none => by cases none
    simp only [FollowsProtocol, computed, execCmd]
    exact ⟨DpuError.noConfusion, trivial⟩
  | some masks =>
    simp only [FollowsProtocol, computed, Option.some.injEq, forall_eq']
    by_cases sent : commit = .ok
    · subst sent
      obtain ⟨result, ends, ok, polls, decode, collide⟩ := execCmd_polls isChipV14 responses computed
      rw [forall_prop_of_true rfl]
      constructor
      · intro protocol
        exact noUndecided_of_completes computed ends (polls ▸ protocol.completes)
      · intro noUndecided
        have completes := completes_of_noUndecided computed ends noUndecided
        refine ⟨fun status => ?_, polls ▸ completes, fun ci inside => ?_, fun ci inside => ?_⟩
        · rw [polls]
          exact succeeds_of_completes computed ends completes (ok status)
        · rw [polls, decode, ends.progress]
          exact progressAfter_faultDecode inside result.2.1
        · rw [polls, collide, ends.progress]
          exact progressAfter_faultCollide inside result.2.1
    · refine iff_of_true ?_ fun same => absurd same sent
      simp only [execCmd, computed, ne_eq, sent, not_false_eq_true, if_true]
      exact ⟨fun same => absurd same sent, fun poll none => absurd none (Nat.not_lt_zero poll), by simp, by simp⟩

section Example

def oneCi : Topology := ⟨1, 8, by decide, by decide⟩

def freshContext : CiContext := ⟨0, 0, 0, fun _ => ⟨.all, fun _ => 0⟩⟩

/-- The first response matches with four color bits set, the second one does not match. -/
def noisyResponses : Responses :=
  fun poll => if poll = 0 then .ok fun _ => 0x000F00FF00000000 else .ok fun _ => 0

/-- The call succeeds in its second poll though it has read no acceptable response. -/
theorem noisyResponses_not_followsProtocol :
    ¬ FollowsProtocol oneCi freshContext (fun _ => CI_NOP) false noisyResponses
      (execCmd oneCi true freshContext (fun _ => CI_NOP) false .ok noisyResponses) := by
  intro protocol
  change Protocol _ _ _ _ _ _ at protocol
  obtain ⟨poll, below, acceptable⟩ := protocol.succeeds (by decide) 0 (by decide) (by decide)
  have polls : (execCmd oneCi true freshContext (fun _ => CI_NOP) false .ok noisyResponses).polls = 2 := by decide
  rw [polls] at below
  interval_cases poll
  · revert acceptable
    decide
  · revert acceptable
    decide

end Example

end Run

end Upmem.Ci
