import Upmem.MramCopy
import Upmem.MuxCoherence

namespace Upmem.MramCopy
open StatusChain Mux

section Matrix
variable {rank : Rank} {matrix : TransferMatrix} {ci dpu : Nat}

/-- An enabled DPU has a transfer. -/
def wants (rank : Rank) (matrix : TransferMatrix) (ci dpu : Nat) : Bool :=
  (rank.dpus ci dpu).enabled && matrix.hasTransfer rank ci dpu

/-- Some enabled DPU of a line has a transfer. -/
def LineWanted (rank : Rank) (matrix : TransferMatrix) (dpu : Nat) : Prop :=
  ∃ ci < rank.nrCis, wants rank matrix ci dpu = true

/-- The other line of a pair. -/
def friend (dpu : Nat) : Nat := if dpu % 2 = 0 then dpu + 1 else dpu - 1

theorem getMuxMask_getLsbD (inside : ci < rank.nrCis) :
    (getMuxMask rank matrix dpu).getLsbD ci = wants rank matrix ci dpu := by
  rw [getMuxMask, foldl_maskOne_getLsbD (inside.trans_le rank.description.topology.cis_le)]
  simp [inside, wants]

theorem getMuxMask_outside (outside : ¬ ci < rank.nrCis) : (getMuxMask rank matrix dpu).getLsbD ci = false := by
  by_cases small : ci < 8
  · rw [getMuxMask, foldl_maskOne_getLsbD small]
    simp [outside]
  · exact BitVec.getLsbD_of_ge _ _ (not_lt.mp small)

theorem getMuxMask_eq_zero : getMuxMask rank matrix dpu = 0#8 ↔ ¬ LineWanted rank matrix dpu := by
  constructor
  · rintro none ⟨ci, inside, wanted⟩
    rw [← getMuxMask_getLsbD inside, none] at wanted
    simp at wanted
  · intro unwanted
    refine BitVec.eq_of_getLsbD_eq fun ci _ => ?_
    by_cases inside : ci < rank.nrCis
    · rw [getMuxMask_getLsbD inside, BitVec.getLsbD_zero]
      exact Bool.eq_false_iff.mpr fun wanted => unwanted ⟨ci, inside, wanted⟩
    · rw [getMuxMask_outside inside, BitVec.getLsbD_zero]

theorem getMuxMask_eq {other : Nat} : getMuxMask rank matrix dpu = getMuxMask rank matrix other ↔
    ∀ ci < rank.nrCis, wants rank matrix ci dpu = wants rank matrix ci other := by
  constructor
  · intro same ci inside
    rw [← getMuxMask_getLsbD inside, same, getMuxMask_getLsbD inside]
  · intro same
    refine BitVec.eq_of_getLsbD_eq fun ci _ => ?_
    by_cases inside : ci < rank.nrCis
    · rw [getMuxMask_getLsbD inside, getMuxMask_getLsbD inside, same ci inside]
    · rw [getMuxMask_outside inside, getMuxMask_outside inside]

/-- Both lines of a pair are wanted, but not by the same control interfaces. -/
def Conflict (rank : Rank) (matrix : TransferMatrix) (dpu : Nat) : Prop :=
  LineWanted rank matrix dpu ∧ LineWanted rank matrix (dpu + 1) ∧
    ∃ ci < rank.nrCis, wants rank matrix ci dpu ≠ wants rank matrix ci (dpu + 1)

instance : Decidable (LineWanted rank matrix dpu) := inferInstanceAs (Decidable (∃ ci < rank.nrCis, _))

theorem mem_firstLines : dpu ∈ firstLines rank ↔ dpu % 2 = 0 ∧ dpu < rank.nrDpusPerCi := by
  simp only [firstLines, List.mem_map, List.mem_range]
  constructor
  · rintro ⟨k, bound, rfl⟩
    omega
  · rintro ⟨even, inside⟩
    exact ⟨dpu / 2, by omega, by omega⟩

theorem getTransferMatrixIndex_inj {otherCi other : Nat} (inside : ci < rank.nrCis)
    (otherInside : otherCi < rank.nrCis) :
    getTransferMatrixIndex rank ci dpu = getTransferMatrixIndex rank otherCi other ↔ ci = otherCi ∧
      dpu = other := by
  constructor
  · intro same
    have line := congrArg (· / rank.nrCis) same
    have slice := congrArg (· % rank.nrCis) same
    simp only [getTransferMatrixIndex, Nat.mul_comm _ rank.nrCis, Nat.mul_add_mod, Nat.mod_eq_of_lt inside,
      Nat.mod_eq_of_lt otherInside] at slice
    subst slice
    exact ⟨rfl, Nat.eq_of_mul_eq_mul_right (Nat.zero_lt_of_lt inside) (Nat.add_right_cancel same)⟩
  · rintro ⟨rfl, rfl⟩
    rfl

/-- The buffers after buffers of a matrix have been added to another one. -/
theorem foldl_addDpu_buffer {line : Nat → Nat} (inside : ci < rank.nrCis) (cells : List (Nat × Nat))
    {target : TransferMatrix}
    (cellsInside : ∀ cell ∈ cells, cell.1 < rank.nrCis) :
    (cells.foldl (fun target cell => dpuTransferMatrixAddDpu rank cell.1 (line cell.2)
      (matrix.buffer rank cell.1 (line cell.2)) target) target).buffer rank ci dpu =
        if ∃ cell ∈ cells, cell.1 = ci ∧ line cell.2 = dpu then matrix.buffer rank ci dpu
        else target.buffer rank ci dpu := by
  induction cells generalizing target with
  | nil => simp
  | cons cell rest ih =>
    obtain ⟨cellInside, restInside⟩ := List.forall_mem_cons.mp cellsInside
    rw [List.foldl_cons, ih restInside]
    by_cases later : ∃ cell ∈ rest, cell.1 = ci ∧ line cell.2 = dpu
    · rw [if_pos later, if_pos]
      obtain ⟨other, member, here⟩ := later
      exact ⟨other, List.mem_cons_of_mem cell member, here⟩
    · rw [if_neg later]
      by_cases here : cell.1 = ci ∧ line cell.2 = dpu
      · rw [if_pos ⟨cell, List.mem_cons_self, here⟩]
        obtain ⟨rfl, rfl⟩ := here
        simp [dpuTransferMatrixAddDpu, TransferMatrix.buffer]
      · rw [if_neg]
        · have other : ¬ getTransferMatrixIndex rank ci dpu = getTransferMatrixIndex rank cell.1 (line cell.2) := by
            rw [getTransferMatrixIndex_inj inside cellInside]
            exact fun same => here ⟨same.1.symm, same.2.symm⟩
          simp [dpuTransferMatrixAddDpu, TransferMatrix.buffer, other]
        · rintro ⟨other, member, found⟩
          rcases List.mem_cons.mp member with rfl | member
          · exact here found
          · exact later ⟨other, member, found⟩

theorem mem_firstDpus {cell : Nat × Nat} : cell ∈ firstDpus rank ↔ cell.1 < rank.nrCis ∧
      cell.2 ∈ firstLines rank := by
  obtain ⟨ci, dpu⟩ := cell
  simp only [firstDpus, List.mem_flatMap, List.mem_map, List.mem_range, Prod.mk.injEq]
  constructor
  · rintro ⟨_, first, _, inside, rfl, rfl⟩
    exact ⟨inside, first⟩
  · rintro ⟨inside, first⟩
    exact ⟨dpu, first, ci, inside, rfl, rfl⟩

/-- The two matrices of a duplication: the buffers of the even lines and those of the odd lines. -/
theorem duplicateTransferMatrix_buffers (even : rank.nrDpusPerCi % 2 = 0) (inside : ci < rank.nrCis)
    (small : dpu < rank.nrDpusPerCi) (needed : isDuplicationNeeded rank matrix = true) :
    (duplicateTransferMatrix rank matrix dpuTransferMatrixClearAll dpuTransferMatrixClearAll).2.1.buffer
        rank ci dpu = (if dpu % 2 = 0 then matrix.buffer rank ci dpu else none) ∧
      (duplicateTransferMatrix rank matrix dpuTransferMatrixClearAll dpuTransferMatrixClearAll).2.2.buffer
        rank ci dpu = (if dpu % 2 = 1 then matrix.buffer rank ci dpu else none) := by
  have cellsInside : ∀ cell ∈ firstDpus rank, cell.1 < rank.nrCis := fun cell member => (mem_firstDpus.mp member).1
  have evenLines : (∃ cell ∈ firstDpus rank, cell.1 = ci ∧ cell.2 = dpu) ↔ dpu % 2 = 0 := by
    constructor
    · rintro ⟨cell, member, rfl, rfl⟩
      exact (mem_firstLines.mp (mem_firstDpus.mp member).2).1
    · exact fun first => ⟨(ci, dpu), mem_firstDpus.mpr ⟨inside, mem_firstLines.mpr ⟨first, small⟩⟩, rfl, rfl⟩
  have oddLines : (∃ cell ∈ firstDpus rank, cell.1 = ci ∧ cell.2 + 1 = dpu) ↔ dpu % 2 = 1 := by
    constructor
    · rintro ⟨cell, member, rfl, rfl⟩
      have first := (mem_firstLines.mp (mem_firstDpus.mp member).2).1
      omega
    · intro odd
      exact ⟨(ci, dpu - 1), mem_firstDpus.mpr ⟨inside, mem_firstLines.mpr ⟨by simp; omega, by simp; omega⟩⟩, rfl,
        by simp; omega⟩
  have empty : dpuTransferMatrixClearAll.buffer rank ci dpu = none := rfl
  rw [duplicateTransferMatrix, if_pos needed]
  refine ⟨?_, ?_⟩
  · have added :=
      @foldl_addDpu_buffer rank matrix ci dpu id inside (firstDpus rank) dpuTransferMatrixClearAll cellsInside
    simp only [id, evenLines, empty] at added
    exact added
  · have added :=
      @foldl_addDpu_buffer rank matrix ci dpu (· + 1) inside (firstDpus rank) dpuTransferMatrixClearAll cellsInside
    simp only [oddLines, empty] at added
    exact added

/-- Only one DPU of a pair of enabled DPUs has a transfer. -/
def Split (rank : Rank) (matrix : TransferMatrix) (ci dpu : Nat) : Prop :=
  pairEnabled rank ci dpu = true ∧ matrix.hasTransfer rank ci dpu ≠ matrix.hasTransfer rank ci (dpu + 1)

/-- Both DPUs of a pair are enabled and have a transfer. -/
def Both (rank : Rank) (matrix : TransferMatrix) (ci dpu : Nat) : Prop :=
  pairEnabled rank ci dpu = true ∧ matrix.hasTransfer rank ci dpu = true ∧
    matrix.hasTransfer rank ci (dpu + 1) = true

/-- The two lines of some pair are split at a control interface, and before
the first such one there is one at which both DPUs have a transfer. -/
def Duplicates (rank : Rank) (matrix : TransferMatrix) : Prop :=
  ∃ dpu ∈ firstLines rank, (∃ ci < rank.nrCis, Split rank matrix ci dpu) ∧
    ∃ both < rank.nrCis, Both rank matrix both dpu ∧ ∀ ci < both, ¬ Split rank matrix ci dpu

/-- The pass over a pair asks for a duplication when it has met both lines before its first conflict. -/
theorem scanPair_spec {cis : List Nat} (sorted : cis.Pairwise (· < ·)) (met : Bool) :
    ((scanPair rank matrix dpu cis met met).1 && (scanPair rank matrix dpu cis met met).2.1 &&
        (scanPair rank matrix dpu cis met met).2.2) = true ↔
      (∃ ci ∈ cis, Split rank matrix ci dpu) ∧
        (met = true ∨ ∃ both ∈ cis, Both rank matrix both dpu ∧ ∀ ci ∈ cis, ci < both →
          ¬ Split rank matrix ci dpu) := by
  induction cis generalizing met with
  | nil => simp [scanPair]
  | cons ci rest ih =>
    obtain ⟨below, sorted⟩ := List.pairwise_cons.mp sorted
    -- a control interface that is not split leaves the rest of the pass as it is
    have skip (whole : ¬ Split rank matrix ci dpu) (met : Bool) (next : Bool)
        (grows : next = true ↔ met = true ∨ Both rank matrix ci dpu) :
        ((∃ ci ∈ rest, Split rank matrix ci dpu) ∧ (next = true ∨ ∃ both ∈ rest, Both rank matrix both dpu ∧
            ∀ ci ∈ rest, ci < both → ¬ Split rank matrix ci dpu)) ↔
          (∃ each ∈ ci :: rest, Split rank matrix each dpu) ∧ (met = true ∨ ∃ both ∈ ci :: rest,
            Both rank matrix both dpu ∧ ∀ each ∈ ci :: rest, each < both → ¬ Split rank matrix each dpu) := by
      have noneBefore : ∀ each ∈ rest, each < ci → ¬ Split rank matrix each dpu := fun each member early =>
        absurd (below each member) (by omega)
      simp only [List.exists_mem_cons_iff, List.forall_mem_cons, whole, false_or, grows, or_assoc, true_and,
        not_false_iff, implies_true]
      exact and_congr_right fun _ => or_congr_right (or_congr_left (iff_self_and.mpr fun _ => noneBefore))
    rw [scanPair]
    by_cases enabled : pairEnabled rank ci dpu = true
    · rw [if_pos enabled]
      dsimp only
      by_cases same : matrix.hasTransfer rank ci dpu = matrix.hasTransfer rank ci (dpu + 1)
      · have whole : ¬ Split rank matrix ci dpu := fun split => split.2 same
        rw [if_neg (by simp [same]), ← same, ih sorted]
        refine skip whole met _ ?_
        simp [Both, enabled, ← same]
      · have split : Split rank matrix ci dpu := ⟨enabled, same⟩
        rw [if_pos (by simpa using same)]
        have one : ((met || matrix.hasTransfer rank ci dpu) &&
            (met || matrix.hasTransfer rank ci (dpu + 1)) && true) = met := by
          revert same
          cases met <;> cases matrix.hasTransfer rank ci dpu <;> cases matrix.hasTransfer rank ci (dpu + 1) <;> simp
        dsimp only
        rw [one]
        constructor
        · exact fun already => ⟨⟨ci, List.mem_cons_self, split⟩, .inl already⟩
        · rintro ⟨-, already | ⟨both, member, given, before⟩⟩
          · exact already
          · rcases List.mem_cons.mp member with rfl | later
            · exact absurd (given.2.1.trans given.2.2.symm) same
            · exact absurd split (before ci List.mem_cons_self (below both later))
    · have whole : ¬ Split rank matrix ci dpu := fun split => enabled split.1
      rw [if_neg enabled, ih sorted]
      refine skip whole met met ?_
      simp [Both, enabled]

theorem isDuplicationNeeded_iff (even : rank.nrDpusPerCi % 2 = 0)
    (must : rank.description.apiMustSwitchMramMux = true) :
    isDuplicationNeeded rank matrix = true ↔ Duplicates rank matrix := by
  have sorted : (List.range rank.nrCis).Pairwise (· < ·) := List.pairwise_lt_range
  have pass (dpu : Nat) := @scanPair_spec rank matrix dpu (List.range rank.nrCis) sorted false
  simp only [List.mem_range, Bool.false_eq_true, false_or] at pass
  simp only [isDuplicationNeeded, Duplicates, Bool.and_eq_true, decide_eq_true_eq, List.any_eq_true, must]
  simp only [Bool.and_eq_true] at pass
  constructor
  · rintro ⟨-, dpu, first, scanned⟩
    obtain ⟨split, both, inside, given, before⟩ := (pass dpu).mp scanned
    exact ⟨dpu, first, split, both, inside, given, fun ci early => before ci (early.trans inside) early⟩
  · rintro ⟨dpu, first, split, both, inside, given, before⟩
    have place := mem_firstLines.mp first
    exact ⟨⟨by omega, trivial⟩, dpu, first,
      (pass dpu).mpr ⟨split, both, inside, given, fun ci _ early => before ci early⟩⟩

end Matrix

section Access
variable {unchecked : Bool} {s t : MuxState} {matrix : TransferMatrix} {dpuId : Nat} {mask : BitVec 8}

/-- The commands of an access succeed and the muxes follow in time. -/
structure AccessSucceeds (answers : AccessAnswers) : Prop where
  select : answers.select = .ok
  setMux : answers.setMux = .ok
  check : answers.check = .ok
  read : ∀ dpu i, answers.read dpu i = .ok
  delay : ∀ ci dpu, answers.delay ci dpu + 1 < TIMEOUT_MUX_STATUS

theorem AccessSucceeds.passes {answers : AccessAnswers} (succeeds : AccessSucceeds answers) (expected : Nat → Bool)
    (s : MuxState) (dpu : Nat) : AccessPasses unchecked answers expected s dpu where
  select := succeeds.select
  setMux := succeeds.setMux
  check := succeeds.check
  reads := by
    refine .inl ⟨TIMEOUT_MUX_STATUS - 2, by decide, fun i _ => succeeds.read dpu i, fun ci _ => .inr ?_⟩
    have soon := succeeds.delay ci dpu
    omega

theorem AccessSucceeds.arrives {answers : AccessAnswers} (succeeds : AccessSucceeds answers) (dpus : List Nat)
    (expected : Nat → Bool) (s : MuxState) : AccessArrives answers dpus expected s :=
  fun ci _ dpu _ => .inr ⟨succeeds.select, Nat.lt_of_succ_lt (succeeds.delay ci dpu)⟩

theorem linesArrive_of_succeeds {answers : Nat → AccessAnswers} (succeeds : ∀ line, AccessSucceeds (answers line))
    (expected : Nat → Bool) (s : MuxState) (lines : List Nat) : LinesArrive unchecked answers expected s lines := by
  induction lines with
  | nil => exact trivial
  | cons line rest ih =>
    exact ⟨(succeeds line).arrives [line] expected s, fun _ => ih,
      fun fails => absurd ((succeeds line).passes expected s line) fails⟩

/-- The muxes of a rank on which no DPU runs and each control interface has an
enabled DPU, with the records in agreement with the hardware. -/
structure MuxReady (s : MuxState) : Prop where
  agrees : s.Agrees
  idle : s.rank.runContext.nbDpuRunning = 0
  stopped : ∀ ci < s.rank.nrCis, s.rank.runContext.dpuRunning ci = dpuMaskEmpty
  talks : ∀ ci < s.rank.nrCis, s.rank.talks ci = true

theorem MuxReady.of_same (ready : MuxReady s) (same : SameButMux s.rank t.rank) (agrees : t.Agrees) :
    MuxReady t where
  agrees := agrees
  idle := by rw [same.runContext]; exact ready.idle
  stopped := by rw [same.runContext, Rank.nrCis, same.description]; exact ready.stopped
  talks := fun ci inside => by
    rw [Rank.nrCis, same.description] at inside
    rw [same.talks]
    exact ready.talks ci inside

theorem MuxReady.runningOn_eq_zero (ready : MuxReady s) (lines : List Nat) : runningOn lines s.rank = 0 := by
  rw [runningOn, Rank.sumCis_eq_zero]
  intro ci inside
  rw [ready.stopped ci inside]
  exact popcount_eq_zero.mpr (BitVec.zero_and)

/-- A switch of a pair of lines whose commands succeed. -/
theorem switchLine_spec {answers : Nat → AccessAnswers} (ready : MuxReady s) (given : dpuId < s.rank.nrDpusPerCi)
    (succeeds : ∀ line, AccessSucceeds (answers line)) :
    (dpuSwitchMuxForDpuLine unchecked dpuId mask answers s).1 = .ok ∧
      MuxReady (dpuSwitchMuxForDpuLine unchecked dpuId mask answers s).2 ∧
      ∀ ci < s.rank.nrCis, ∀ dpu < s.rank.nrDpusPerCi,
        (dpuSwitchMuxForDpuLine unchecked dpuId mask answers s).2.mux ci dpu =
          if dpuPairBaseId dpu = dpuPairBaseId dpuId then mask.getLsbD ci else s.mux ci dpu := by
  have arrives (lines : List Nat) : LinesArrive unchecked answers (fun ci => mask.getLsbD ci) s lines :=
    linesArrive_of_succeeds succeeds _ s lines
  obtain ⟨agrees, position⟩ := dpuSwitchMuxForDpuLine_agrees ready.agrees given fun _ => arrives _
  have idle (lines : List Nat) : ¬ 0 < runningOn lines s.rank := by
    rw [ready.runningOn_eq_zero]
    exact lt_irrefl 0
  have passes : (dpuSwitchMuxForDpuLine unchecked dpuId mask answers s).1 = .ok := by
    unfold dpuSwitchMuxForDpuLine
    dsimp only
    split
    · rfl
    · rw [if_neg (idle _)]
      split
      · rfl
      · exact loop_passes (fun line t => hostHandleAccess_ok.mpr ((succeeds line).passes _ t line)) _ _
  have other : ∀ ci dpu, dpuPairBaseId dpu ≠ dpuPairBaseId dpuId →
      (dpuSwitchMuxForDpuLine unchecked dpuId mask answers s).2.mux ci dpu = s.mux ci dpu := by
    intro ci dpu apart
    have absent : dpu ∉ linesToSwitch dpuId mask s.rank := by
      intro member
      refine apart ?_
      rcases (mem_linesToSwitch.mp member).1 with base | ⟨second, -⟩
      · rw [base, dpuPairBaseId, dpuPairBaseId]
        omega
      · rw [second, dpuPairBaseId, dpuPairBaseId]
        omega
    unfold dpuSwitchMuxForDpuLine
    dsimp only
    split
    · rfl
    · rw [if_neg (idle _)]
      split
      · rfl
      · rw [(accessLines_spec linesToSwitch_nodup (linesArrive_of_succeeds succeeds _ _ _)).2,
          if_neg fun both => absent both.2]
  refine ⟨passes, ready.of_same dpuSwitchMuxForDpuLine_same agrees, fun ci inside dpu small => ?_⟩
  split
  next pair => exact position passes ci (ready.talks ci inside) dpu small pair
  next apart => exact other ci dpu apart

theorem wants_same {before after : Rank} (same : SameButMux before after) :
    wants after matrix = wants before matrix := by
  funext ci dpu
  simp only [wants, TransferMatrix.hasTransfer, TransferMatrix.buffer, getTransferMatrixIndex,
    Rank.nrCis, same.dpus,
    same.description]

theorem lineWanted_same {before after : Rank} (same : SameButMux before after) :
    LineWanted after matrix = LineWanted before matrix := by
  funext dpu
  simp only [LineWanted, wants_same same, Rank.nrCis, same.description]

theorem conflict_same {before after : Rank} (same : SameButMux before after) :
    Conflict after matrix = Conflict before matrix := by
  funext dpu
  simp only [Conflict, lineWanted_same same, wants_same same, Rank.nrCis, same.description]

/-- The assertion on a pair holds when there is no conflict. -/
theorem masks_compatible {rank : Rank} {dpu : Nat} :
    (getMuxMask rank matrix dpu = 0#8 ∨ getMuxMask rank matrix (dpu + 1) = 0#8 ∨
      getMuxMask rank matrix dpu = getMuxMask rank matrix (dpu + 1)) ↔ ¬ Conflict rank matrix dpu := by
  simp only [getMuxMask_eq_zero, getMuxMask_eq, Conflict]
  push Not
  tauto

/-- The position of the muxes after the access for a matrix: a pair that is
wanted has them at the side of the host where a DPU of the pair is wanted. -/
def accessMux (rank : Rank) (matrix : TransferMatrix) (mux : Nat → Nat → Bool) (ci dpu : Nat) : Bool :=
  if LineWanted rank matrix dpu ∨ LineWanted rank matrix (friend dpu) then
    wants rank matrix ci dpu || wants rank matrix ci (friend dpu)
  else mux ci dpu

/-- The switches of both lines of a pair. -/
theorem switchPair_spec {answers : Nat → Nat → AccessAnswers} (ready : MuxReady s) (first : dpuId % 2 = 0)
    (given : dpuId + 1 < s.rank.nrDpusPerCi) (succeeds : ∀ dpu line, AccessSucceeds (answers dpu line)) :
    let switched := andThen .ok (dpuSwitchMuxForDpuLine unchecked dpuId mask (answers dpuId))
      (dpuSwitchMuxForDpuLine unchecked (dpuId + 1) mask (answers (dpuId + 1))) s
    switched.1 = .ok ∧ MuxReady switched.2 ∧ SameButMux s.rank switched.2.rank ∧
      ∀ ci < s.rank.nrCis, ∀ dpu < s.rank.nrDpusPerCi,
        switched.2.mux ci dpu = if dpuPairBaseId dpu = dpuId then mask.getLsbD ci else s.mux ci dpu := by
  intro switched
  obtain ⟨firstPasses, firstReady, firstMux⟩ := @switchLine_spec unchecked s dpuId mask (answers dpuId) ready
    (Nat.lt_of_succ_lt given) (succeeds dpuId)
  have same : SameButMux s.rank (dpuSwitchMuxForDpuLine unchecked dpuId mask (answers dpuId) s).2.rank :=
    dpuSwitchMuxForDpuLine_same
  obtain ⟨secondPasses, secondReady, secondMux⟩ :=
    @switchLine_spec unchecked _ (dpuId + 1) mask (answers (dpuId + 1)) firstReady
    (given.trans_eq same.nrDpusPerCi.symm) (succeeds (dpuId + 1))
  have result : switched = dpuSwitchMuxForDpuLine unchecked (dpuId + 1) mask (answers (dpuId + 1))
      (dpuSwitchMuxForDpuLine unchecked dpuId mask (answers dpuId) s).2 := andThen_ok firstPasses
  have firstBase : dpuPairBaseId dpuId = dpuId := by
    unfold dpuPairBaseId
    omega
  have secondBase : dpuPairBaseId (dpuId + 1) = dpuId := by
    unfold dpuPairBaseId
    omega
  rw [result]
  refine ⟨secondPasses, secondReady, same.trans dpuSwitchMuxForDpuLine_same, fun ci inside dpu small => ?_⟩
  rw [secondMux ci (inside.trans_eq same.nrCis.symm) dpu (small.trans_eq same.nrDpusPerCi.symm),
    firstMux ci inside dpu small, firstBase, secondBase]
  split <;> rfl

/-- The access for a matrix fails at its assertion exactly when some pair of
its lines is in conflict, and else switches the muxes of all wanted pairs. -/
theorem getAccessForPairs_spec {answers : TransferAnswers} (ready : MuxReady s) (even : s.rank.nrDpusPerCi % 2 = 0)
    (succeeds : ∀ dpu line, AccessSucceeds (answers.line dpu line)) {firsts : List Nat}
    (places : ∀ dpu ∈ firsts, dpu % 2 = 0 ∧ dpu < s.rank.nrDpusPerCi) (distinct : firsts.Nodup) :
    ((∃ dpu ∈ firsts, Conflict s.rank matrix dpu) → getAccessForPairs unchecked answers matrix firsts s = none) ∧
      ((∀ dpu ∈ firsts, ¬ Conflict s.rank matrix dpu) → ∃ t,
        getAccessForPairs unchecked answers matrix firsts s = some (.ok, t) ∧
        MuxReady t ∧ SameButMux s.rank t.rank ∧ ∀ ci < s.rank.nrCis, ∀ dpu < s.rank.nrDpusPerCi, t.mux ci dpu =
          if dpuPairBaseId dpu ∈ firsts then accessMux s.rank matrix s.mux ci dpu else s.mux ci dpu) := by
  induction firsts generalizing s with
  | nil => exact ⟨by simp, fun _ => ⟨s, rfl, ready, .refl _, by simp⟩⟩
  | cons first rest ih =>
    obtain ⟨⟨firstEven, firstSmall⟩, places⟩ := List.forall_mem_cons.mp places
    obtain ⟨fresh, distinct⟩ := List.nodup_cons.mp distinct
    rw [getAccessForPairs]
    dsimp only
    simp only [List.exists_mem_cons_iff, List.forall_mem_cons]
    have pair : ∀ dpu, dpuPairBaseId dpu = first ↔ dpu = first ∨ dpu = first + 1 := by
      intro dpu
      unfold dpuPairBaseId
      omega
    have friends : friend first = first + 1 ∧ friend (first + 1) = first := by
      have odd : ¬ (first + 1) % 2 = 0 := by omega
      simp [friend, firstEven, odd]
    by_cases zero : getMuxMask s.rank matrix first = 0#8 ∧ getMuxMask s.rank matrix (first + 1) = 0#8
    · rw [if_pos zero]
      have unwanted := zero.imp getMuxMask_eq_zero.mp getMuxMask_eq_zero.mp
      have whole : ¬ Conflict s.rank matrix first := fun conflict => unwanted.1 conflict.1
      obtain ⟨fails, passes⟩ := ih ready even places distinct
      simp only [whole, not_false_eq_true, false_or, true_and]
      refine ⟨fails, fun compatible => ?_⟩
      obtain ⟨t, access, readyAfter, same, mux⟩ := passes compatible
      refine ⟨t, access, readyAfter, same, fun ci inside dpu small => ?_⟩
      rw [mux ci inside dpu small]
      by_cases here : dpuPairBaseId dpu = first
      · have idle : accessMux s.rank matrix s.mux ci dpu = s.mux ci dpu := by
          rw [accessMux, if_neg]
          rcases (pair dpu).mp here with rfl | rfl
          · simpa [friends] using unwanted
          · simpa [friends] using unwanted.symm
        simp [here, fresh, idle]
      · simp [here]
    rw [if_neg zero]
    by_cases conflict : Conflict s.rank matrix first
    · rw [if_pos (masks_compatible.not.mpr (not_not.mpr conflict))]
      simp [conflict]
    rw [if_neg (not_not.mpr (masks_compatible.mpr conflict))]
    have pairSwitched := @switchPair_spec unchecked s first
      (getMuxMask s.rank matrix first ||| getMuxMask s.rank matrix (first + 1)) answers.line ready firstEven
        (by omega) succeeds
    dsimp only at pairSwitched
    generalize andThen DpuError.ok _ _ s = switched at pairSwitched ⊢
    obtain ⟨pairPasses, pairReady, pairSame, pairMux⟩ := pairSwitched
    rw [if_pos pairPasses]
    have evenAfter : switched.2.rank.nrDpusPerCi % 2 = 0 := by rwa [pairSame.nrDpusPerCi]
    have placesAfter : ∀ dpu ∈ rest, dpu % 2 = 0 ∧ dpu < switched.2.rank.nrDpusPerCi := by
      rwa [pairSame.nrDpusPerCi]
    obtain ⟨fails, passes⟩ := ih pairReady evenAfter placesAfter distinct
    rw [conflict_same pairSame] at fails passes
    simp only [conflict, not_false_eq_true, false_or, true_and]
    refine ⟨fails, fun compatible => ?_⟩
    obtain ⟨t, access, readyAfter, same, mux⟩ := passes compatible
    refine ⟨t, access, readyAfter, pairSame.trans same, fun ci inside dpu small => ?_⟩
    rw [mux ci (inside.trans_eq pairSame.nrCis.symm) dpu (small.trans_eq pairSame.nrDpusPerCi.symm)]
    have wanted : LineWanted s.rank matrix first ∨ LineWanted s.rank matrix (first + 1) := by
      by_contra neither
      exact zero ((not_or.mp neither).imp getMuxMask_eq_zero.mpr getMuxMask_eq_zero.mpr)
    have access : accessMux switched.2.rank matrix = accessMux s.rank matrix := by
      funext mux ci dpu
      simp only [accessMux, lineWanted_same pairSame, wants_same pairSame]
    rw [access]
    by_cases here : dpuPairBaseId dpu = first
    · have position : accessMux s.rank matrix s.mux ci dpu =
          (wants s.rank matrix ci first || wants s.rank matrix ci (first + 1)) := by
        rcases (pair dpu).mp here with rfl | rfl
        · simp [accessMux, friends, wanted]
        · simp [accessMux, friends, wanted.symm, Bool.or_comm]
      rw [if_neg (here ▸ fresh), pairMux ci inside dpu small, if_pos here, BitVec.getLsbD_or,
        getMuxMask_getLsbD inside,
        getMuxMask_getLsbD inside, if_pos (by simp [here]), position]
    · have untouched := pairMux ci inside dpu small
      rw [if_neg here] at untouched
      simp only [accessMux, untouched, List.mem_cons, here, false_or]

end Access

end Upmem.MramCopy
