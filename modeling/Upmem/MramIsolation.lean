import Upmem.MramAccess
import Upmem.MuxRuns

namespace Upmem.MramCopy
open StatusChain Mux

section Cells

/-- The words of an MRAM after words have been written to it. -/
def overwrite (offset size : Nat) (data old : Nat → BitVec 64) (word : Nat) : BitVec 64 :=
  if offset / 8 ≤ word ∧ word < offset / 8 + size / 8 then data (word - offset / 8) else old word

/-- What an MRAM should hold after a transfer. -/
def intended (offset size : Nat) (buffer : Option (Nat → BitVec 64)) (old : Nat → BitVec 64) : Nat → BitVec 64 :=
  match buffer with
  | some words => overwrite offset size words old
  | none => old

theorem overwrite_short {offset size : Nat} (short : size < 8) (data old : Nat → BitVec 64) :
    overwrite offset size data old = old := by
  funext word
  rw [overwrite, if_neg (by omega)]

/-- An MRAM keeps or gets what it should, whatever it holds, when the write
reaches it exactly if there is a buffer for it. -/
theorem cell_iff {offset size : Nat} {reached : Bool} {buffer : Option (Nat → BitVec 64)}
    {stale : Nat → BitVec 64} :
    (∀ old, (if reached then overwrite offset size (buffer.getD stale) old else old) =
      intended offset size buffer old) ↔
      (8 ≤ size → reached = buffer.isSome) := by
  -- a write of at least one word changes some contents
  have changes (words : Nat → BitVec 64) (long : 8 ≤ size) : ∃ old, overwrite offset size words old ≠ old := by
    refine ⟨fun word => words (word - offset / 8) + 1#64, fun same => ?_⟩
    have first := congrFun same (offset / 8)
    rw [overwrite, if_pos ⟨le_refl _, by omega⟩] at first
    exact absurd first (by simp)
  cases buffer with
  | some words =>
    cases reached with
    | true => simp [intended]
    | false =>
      simp only [intended, Bool.false_eq_true, if_false, Option.isSome_some, imp_false]
      constructor
      · intro same long
        obtain ⟨old, changed⟩ := changes words long
        exact changed (same old).symm
      · intro short old
        rw [overwrite_short (not_le.mp short)]
  | none =>
    cases reached with
    | false => simp [intended]
    | true =>
      simp only [intended, if_true, Option.isSome_none, Bool.true_eq_false, imp_false]
      constructor
      · intro same long
        obtain ⟨old, changed⟩ := changes stale long
        exact changed (same old)
      · intro short old
        rw [overwrite_short (not_le.mp short)]

end Cells

section Writes
variable {stale : Nat → Nat → Nat → BitVec 64} {matrix : TransferMatrix} {s : MramState} {ci dpu : Nat}

theorem cacheLine_eq {rank : Rank} :
    cacheLine stale matrix rank ci dpu = (matrix.buffer rank ci dpu).getD (stale ci dpu) := by
  funext i
  unfold cacheLine
  split <;> simp [*]

/-- Some DPU of a line has a transfer, even if it is disabled. -/
def lineHas (rank : Rank) (matrix : TransferMatrix) (dpu : Nat) : Bool :=
  (List.range rank.nrCis).any fun ci => matrix.hasTransfer rank ci dpu

theorem lineHas_iff {rank : Rank} : lineHas rank matrix dpu = true ↔ ∃ ci < rank.nrCis,
      matrix.hasTransfer rank ci dpu = true := by
  simp [lineHas]

/-- The write of a line. -/
theorem writeLine_spec (line n : Nat) :
    ((List.range n).foldl (fun s i => writeWord stale matrix line i s) s).muxes = s.muxes ∧
      ∀ ci dpu word, ((List.range n).foldl (fun s i => writeWord stale matrix line i s) s).mram ci dpu word =
        if (dpu = line ∧ ci < s.muxes.rank.nrCis ∧ s.muxes.mux ci line = true) ∧
            matrix.offset / 8 ≤ word ∧ word < matrix.offset / 8 + n
        then cacheLine stale matrix s.muxes.rank ci line (word - matrix.offset / 8) else s.mram ci dpu word := by
  induction n with
  | zero =>
    refine ⟨rfl, fun ci dpu word => ?_⟩
    rw [if_neg (by omega)]
    rfl
  | succ n ih =>
    obtain ⟨muxes, mram⟩ := ih
    rw [List.range_succ, List.foldl_append, List.foldl_cons, List.foldl_nil]
    refine ⟨muxes, fun ci dpu word => ?_⟩
    rw [writeWord]
    dsimp only
    rw [muxes, mram]
    by_cases here : dpu = line ∧ ci < s.muxes.rank.nrCis ∧ s.muxes.mux ci line = true
    · by_cases last : word = (n * 8 + matrix.offset) / 8
      · have place : word - matrix.offset / 8 = n := by omega
        rw [if_pos ⟨here.1, here.2.1, here.2.2, last⟩, if_pos ⟨here, by omega, by omega⟩, place]
      · rw [if_neg (fun all => last all.2.2.2)]
        refine if_congr (and_congr_right fun _ => ?_) rfl rfl
        omega
    · rw [if_neg (fun all => here ⟨all.1, all.2.1, all.2.2.1⟩), if_neg (fun all => here all.1),
        if_neg (fun all => here all.1)]

/-- The write of some lines overwrites the MRAMs that it reaches. -/
theorem writeLines_spec {lines : List Nat} (distinct : lines.Nodup) :
    (lines.foldl
      (fun s dpu => if (List.range s.muxes.rank.nrCis).any fun ci => matrix.hasTransfer s.muxes.rank ci dpu then
        (List.range (matrix.size / 8)).foldl (fun s i => writeWord stale matrix dpu i s) s
          else s) s).muxes = s.muxes ∧
      ∀ ci < s.muxes.rank.nrCis, ∀ dpu,
        (lines.foldl
          (fun s dpu => if (List.range s.muxes.rank.nrCis).any fun ci => matrix.hasTransfer s.muxes.rank ci dpu then
          (List.range (matrix.size / 8)).foldl (fun s i => writeWord stale matrix dpu i s) s
            else s) s).mram ci dpu =
        if dpu ∈ lines ∧ (lineHas s.muxes.rank matrix dpu && s.muxes.mux ci dpu) = true
        then overwrite matrix.offset matrix.size (cacheLine stale matrix s.muxes.rank ci dpu) (s.mram ci dpu)
        else s.mram ci dpu := by
  induction lines generalizing s with
  | nil => simp
  | cons line rest ih =>
    obtain ⟨fresh, distinct⟩ := List.nodup_cons.mp distinct
    rw [List.foldl_cons]
    by_cases has : lineHas s.muxes.rank matrix line = true
    · rw [if_pos (by exact has)]
      obtain ⟨muxes, mram⟩ := @writeLine_spec stale matrix s line (matrix.size / 8)
      generalize (List.range (matrix.size / 8)).foldl (fun s i => writeWord stale matrix line i s) s =
        written at muxes mram ⊢
      obtain ⟨muxesAfter, mramAfter⟩ := @ih written distinct
      rw [muxes] at muxesAfter mramAfter
      refine ⟨muxesAfter, fun ci inside dpu => ?_⟩
      rw [mramAfter ci inside dpu]
      by_cases here : dpu = line
      · subst here
        simp only [fresh, false_and, if_false, List.mem_cons_self, true_and, has, Bool.true_and]
        funext word
        rw [mram]
        by_cases host : s.muxes.mux ci dpu = true
        · simp only [inside, host, if_true, true_and, overwrite]
        · simp [host]
      · have untouched : written.mram ci dpu = s.mram ci dpu := by
          funext word
          rw [mram, if_neg fun all => here all.1.1]
        simp only [untouched, List.mem_cons, here, false_or]
    · rw [if_neg (by exact has)]
      obtain ⟨muxesAfter, mramAfter⟩ := @ih s distinct
      refine ⟨muxesAfter, fun ci inside dpu => ?_⟩
      rw [mramAfter ci inside dpu]
      by_cases here : dpu = line
      · subst here
        simp [fresh, has]
      · simp only [List.mem_cons, here, false_or]

/-- What a transfer writes to the MRAMs. -/
theorem doMramTransfer_spec : (doMramTransfer stale matrix s).muxes = s.muxes ∧
    ∀ ci < s.muxes.rank.nrCis, ∀ dpu < s.muxes.rank.nrDpusPerCi, (doMramTransfer stale matrix s).mram ci dpu =
      if lineHas s.muxes.rank matrix dpu && s.muxes.mux ci dpu
      then overwrite matrix.offset matrix.size (cacheLine stale matrix s.muxes.rank ci dpu) (s.mram ci dpu)
      else s.mram ci dpu := by
  unfold doMramTransfer
  split
  next empty =>
    refine ⟨rfl, fun ci _ dpu small => ?_⟩
    have without : lineHas s.muxes.rank matrix dpu = false := by
      refine Bool.eq_false_iff.mpr fun has => ?_
      obtain ⟨ci, inside, transfer⟩ := lineHas_iff.mp has
      have bounded : getTransferMatrixIndex s.muxes.rank ci dpu < MAX_NR_DPUS_PER_RANK := by
        have dpus := s.muxes.rank.description.topology.dpus_le
        have cis := s.muxes.rank.description.topology.cis_le
        have line : dpu * s.muxes.rank.nrCis ≤ 7 * s.muxes.rank.nrCis := Nat.mul_le_mul_right _ (by
          have : s.muxes.rank.nrDpusPerCi ≤ 8 := dpus
          omega)
        have width : s.muxes.rank.nrCis ≤ 8 := cis
        simp only [getTransferMatrixIndex, MAX_NR_DPUS_PER_RANK]
        omega
      have null := List.all_eq_true.mp empty _ (List.mem_range.mpr bounded)
      rw [TransferMatrix.hasTransfer, TransferMatrix.buffer, Option.isSome_iff_exists] at transfer
      obtain ⟨words, given⟩ := transfer
      simp [given] at null
    simp [without]
  next =>
    unfold writeToRank
    split
    next none =>
      refine ⟨rfl, fun ci _ dpu _ => ?_⟩
      rw [overwrite_short (by omega), ite_self]
    next =>
      obtain ⟨muxes, mram⟩ := @writeLines_spec stale matrix s (List.range s.muxes.rank.nrDpusPerCi) List.nodup_range
      refine ⟨muxes, fun ci inside dpu small => ?_⟩
      simp only [mram ci inside dpu, List.mem_range.mpr small, true_and]

end Writes

section Phases
variable {unchecked : Bool} {stale : Nat → Nat → Nat → BitVec 64} {matrix : TransferMatrix} {ci dpu : Nat}

theorem AccessSucceeds.hostHandleAccess_ok {answers : AccessAnswers} (succeeds : AccessSucceeds answers)
    (dpus : List Nat)
    (expected : Nat → Bool) (s : MuxState) : (hostHandleAccess unchecked answers dpus expected s).1 = .ok := by
  simp only [hostHandleAccess, succeeds.select, succeeds.setMux, ne_eq, not_true_eq_false, if_false,
    dpuCheckWavegenMuxStatus, succeeds.check]
  cases found : dpus.findSome? fun dpu =>
      checkReads unchecked (answers.read dpu) (shouldRetry answers expected s dpu) TIMEOUT_MUX_STATUS 0 with
  | none => rfl
  | some status =>
    obtain ⟨dpu, -, read⟩ := List.exists_of_findSome?_eq_some found
    have passes := (@AccessSucceeds.passes unchecked answers succeeds expected s dpu).reads
    have ends :=
      (@checkReads_ok unchecked (answers.read dpu) (shouldRetry answers expected s dpu) TIMEOUT_MUX_STATUS 0).mpr
      (.inr (by simpa only [Nat.zero_add, shouldRetry_eq_false] using passes))
    rwa [read] at ends

/-- A switch of the whole rank to the host whose commands succeed. -/
theorem switchRank_spec {answers : AccessAnswers} {s : MuxState} (ready : MuxReady s)
    (succeeds : AccessSucceeds answers) :
    ∃ t, Mux.dpuSwitchMuxForRank unchecked true answers s = (.ok, t) ∧ SameButMux s.rank t.rank ∧
      ∀ ci < s.rank.nrCis, ∀ dpu < s.rank.nrDpusPerCi, t.mux ci dpu = true := by
  obtain ⟨-, position⟩ := @dpuSwitchMuxForRank_agrees unchecked s true answers ready.agrees fun _ =>
    succeeds.arrives _ (fun _ => true) s
  have passes : (Mux.dpuSwitchMuxForRank unchecked true answers s).1 = .ok := by
    have access := @AccessSucceeds.hostHandleAccess_ok unchecked answers succeeds (List.range s.rank.nrDpusPerCi)
      (fun _ => true) s
    simp only [Mux.dpuSwitchMuxForRank, Upmem.dpuSwitchMuxForRank, ready.idle, access, lt_irrefl,
      if_false, ite_self]
    split <;> rfl
  have same : SameButMux s.rank (Mux.dpuSwitchMuxForRank unchecked true answers s).2.rank := by
    rcases @dpuSwitchMuxForRank_cases unchecked s true answers ready.agrees.must with
      ⟨-, busy⟩ | ⟨-, nothing⟩ | ⟨-, result⟩
    · rw [busy]
      exact .refl _
    · rw [nothing]
      exact .refl _
    · rw [result]
      exact recordMuxForRank_same
  exact ⟨_, Prod.ext passes rfl, same,
    fun ci inside dpu small => position passes ci (ready.talks ci inside) dpu small⟩

theorem buffer_same {before after : Rank} (same : SameButMux before after) :
    matrix.buffer after = matrix.buffer before := by
  funext ci dpu
  simp only [TransferMatrix.buffer, getTransferMatrixIndex, same.nrCis]

theorem lineHas_same {before after : Rank} (same : SameButMux before after) :
    lineHas after matrix = lineHas before matrix := by
  funext dpu
  simp only [lineHas, TransferMatrix.hasTransfer, buffer_same same, same.nrCis]

/-- What a transfer does once the muxes have been switched. -/
theorem transferAfter_spec {access : MuxState → Option (DpuError × MuxState)} {s : MramState} {t : MuxState}
    (granted : access s.muxes = some (.ok, t)) (same : SameButMux s.muxes.rank t.rank) :
    ∃ after, transferAfter stale matrix access s = some (.ok, after) ∧ after.muxes = t ∧
      ∀ ci < s.muxes.rank.nrCis, ∀ dpu < s.muxes.rank.nrDpusPerCi, after.mram ci dpu =
        if lineHas s.muxes.rank matrix dpu && t.mux ci dpu
        then overwrite matrix.offset matrix.size ((matrix.buffer s.muxes.rank ci dpu).getD (stale ci dpu))
        (s.mram ci dpu) else s.mram ci dpu := by
  obtain ⟨muxes, mram⟩ := @doMramTransfer_spec stale matrix { s with muxes := t }
  refine ⟨doMramTransfer stale matrix { s with muxes := t }, by simp [transferAfter, granted], muxes, ?_⟩
  intro ci inside dpu small
  rw [mram ci (inside.trans_eq same.nrCis.symm) dpu (small.trans_eq same.nrDpusPerCi.symm), cacheLine_eq,
    lineHas_same same,
    buffer_same same]

/-- The write reaches an enabled DPU of a line exactly if there is a buffer
for it, unless the line is written for disabled DPUs alone. -/
theorem reached_iff {rank : Rank} {mux : Bool} (inside : ci < rank.nrCis)
    (enabled : (rank.dpus ci dpu).enabled = true)
    (position : LineWanted rank matrix dpu → mux = wants rank matrix ci dpu) :
    ((lineHas rank matrix dpu && mux) = matrix.hasTransfer rank ci dpu) ↔
      (lineHas rank matrix dpu = true → ¬ LineWanted rank matrix dpu → mux = false) := by
  have wantsTransfer : wants rank matrix ci dpu = matrix.hasTransfer rank ci dpu := by simp [wants, enabled]
  by_cases wanted : LineWanted rank matrix dpu
  · obtain ⟨other, otherInside, otherWants⟩ := wanted
    have has : lineHas rank matrix dpu = true :=
      lineHas_iff.mpr ⟨other, otherInside, (Bool.and_eq_true_iff.mp otherWants).2⟩
    have wanted : LineWanted rank matrix dpu := ⟨other, otherInside, otherWants⟩
    simp [has, wanted, position wanted, wantsTransfer]
  · have without : matrix.hasTransfer rank ci dpu = false := by
      rw [← wantsTransfer]
      exact Bool.eq_false_iff.mpr fun given => wanted ⟨ci, inside, given⟩
    cases has : lineHas rank matrix dpu <;> simp [without, wanted]

end Phases

section Isolation
variable {unchecked : Bool} {stale : Nat → Nat → Nat → BitVec 64} {muxes : MuxState} {matrix : TransferMatrix}
  {answers : CopyAnswers}

/-- A rank with an even number of DPUs on each control interface of which at
least one is enabled and none runs, with the recorded muxes those of the
hardware. -/
structure Ready (s : MuxState) : Prop where
  agrees : s.Agrees
  idle : s.rank.runContext.nbDpuRunning = 0
  stopped : ∀ ci < s.rank.nrCis, s.rank.runContext.dpuRunning ci = dpuMaskEmpty
  even : s.rank.nrDpusPerCi % 2 = 0
  enabled : s.rank.Agrees
  populated : ∀ ci < s.rank.nrCis, ∃ dpu < s.rank.nrDpusPerCi, (s.rank.dpus ci dpu).enabled = true

theorem Ready.muxReady (ready : Ready muxes) : MuxReady muxes where
  agrees := ready.agrees
  idle := ready.idle
  stopped := ready.stopped
  talks := fun ci inside => by
    obtain ⟨dpu, small, enabled⟩ := ready.populated ci inside
    have bit := ready.enabled.mask ci inside dpu
    rw [Rank.enabledSet, enabled, decide_eq_true small] at bit
    have selected : (muxes.rank.sliceInfo ci).enabledDpus ≠ 0#32 := by
      intro none
      rw [none] at bit
      simp at bit
    simp [Rank.talks, inside, selected]

/-- All commands of the accesses of a copy succeed. -/
structure CopySucceeds (answers : CopyAnswers) : Prop where
  rank : AccessSucceeds answers.whole.rank
  whole : ∀ dpu line, AccessSucceeds (answers.whole.line dpu line)
  even : ∀ dpu line, AccessSucceeds (answers.even.line dpu line)
  odd : ∀ dpu line, AccessSucceeds (answers.odd.line dpu line)

/-- Whatever the MRAMs hold, the copy passes its assertions and succeeds, and
the MRAM of each enabled DPU holds the words of its buffer where it has one
and is unchanged where it has none. -/
def Isolated (unchecked : Bool) (stale : Nat → Nat → Nat → BitVec 64) (answers : CopyAnswers)
    (matrix : TransferMatrix)
    (muxes : MuxState) : Prop :=
  ∀ mram, ∃ after, copyMramForDpus unchecked stale answers matrix ⟨muxes, mram⟩ = some (.ok, after) ∧
    ∀ ci < muxes.rank.nrCis, ∀ dpu < muxes.rank.nrDpusPerCi, (muxes.rank.dpus ci dpu).enabled = true →
      after.mram ci dpu = intended matrix.offset matrix.size (matrix.buffer muxes.rank ci dpu) (mram ci dpu)

/-- All enabled DPUs have a buffer. -/
def Full (rank : Rank) (matrix : TransferMatrix) : Prop :=
  ∀ ci < rank.nrCis, ∀ dpu < rank.nrDpusPerCi, (rank.dpus ci dpu).enabled = true →
    matrix.hasTransfer rank ci dpu = true

instance (rank : Rank) (ci dpu : Nat) : Decidable (Split rank matrix ci dpu) := inferInstanceAs (Decidable (_ ∧ _))

instance (rank : Rank) (ci dpu : Nat) : Decidable (Both rank matrix ci dpu) :=
  inferInstanceAs (Decidable (_ ∧ _ ∧ _))

instance (rank : Rank) : Decidable (Duplicates rank matrix) :=
  inferInstanceAs (Decidable (∃ dpu ∈ firstLines rank, (∃ ci < rank.nrCis, _) ∧ ∃ both < rank.nrCis, _))

/-- Where a line that is written for disabled DPUs alone finds a mux: where
the wanted other line of the pair needs it, if that has been accessed before,
and else where it was. -/
def strayMux (rank : Rank) (matrix : TransferMatrix) (ci dpu : Nat) : Bool :=
  if LineWanted rank matrix (friend dpu) ∧ (¬ Duplicates rank matrix ∨ dpu % 2 = 1) then
    wants rank matrix ci (friend dpu)
  else dpuGetHostMuxMramState rank ci dpu

/-- All enabled DPUs have a buffer; or no pair of lines is in conflict, unless
the matrix is duplicated, and a line with buffers of disabled DPUs alone is
written with the muxes of its enabled DPUs at the side of the DPUs. -/
def IsolatesWhen (rank : Rank) (matrix : TransferMatrix) : Prop :=
  Full rank matrix ∨
    (Duplicates rank matrix ∨ ∀ dpu ∈ firstLines rank, ¬ Conflict rank matrix dpu) ∧
      ∀ ci < rank.nrCis, ∀ dpu < rank.nrDpusPerCi, (rank.dpus ci dpu).enabled = true → 8 ≤ matrix.size →
        lineHas rank matrix dpu = true → ¬ LineWanted rank matrix dpu → strayMux rank matrix ci dpu = false

theorem isTransferMatrixFull_iff {rank : Rank} (agrees : rank.Agrees) :
    isTransferMatrixFull rank matrix = true ↔ Full rank matrix := by
  simp only [isTransferMatrixFull, Full, List.all_eq_true, List.mem_range]
  refine forall₂_congr fun ci inside => forall₂_congr fun dpu small => ?_
  rw [agrees.mask ci inside dpu, Rank.enabledSet]
  cases (rank.dpus ci dpu).enabled <;> simp [small]

theorem friend_lt {n dpu : Nat} (even : n % 2 = 0) (small : dpu < n) : friend dpu < n := by
  unfold friend
  split <;> omega

/-- A full matrix is not duplicated. -/
theorem Full.not_duplicates {rank : Rank} (even : rank.nrDpusPerCi % 2 = 0) (full : Full rank matrix) :
    ¬ Duplicates rank matrix := by
  rintro ⟨dpu, first, ⟨ci, inside, enabled, differs⟩, -⟩
  obtain ⟨firstEven, small⟩ := mem_firstLines.mp first
  obtain ⟨firstEnabled, secondEnabled⟩ := Bool.and_eq_true_iff.mp enabled
  exact differs
    ((full ci inside dpu small firstEnabled).trans (full ci inside (dpu + 1) (by omega) secondEnabled).symm)

/-- A copy that reaches the MRAMs of some DPUs is isolated when those among
the enabled ones are the DPUs with a buffer. -/
theorem isolated_iff_reached {reached : Nat → Nat → Bool}
    (copies : ∀ mram, ∃ after, copyMramForDpus unchecked stale answers matrix ⟨muxes, mram⟩ = some (.ok, after) ∧
      ∀ ci < muxes.rank.nrCis, ∀ dpu < muxes.rank.nrDpusPerCi, after.mram ci dpu =
        if reached ci dpu
        then overwrite matrix.offset matrix.size ((matrix.buffer muxes.rank ci dpu).getD (stale ci dpu))
        (mram ci dpu) else mram ci dpu) :
    Isolated unchecked stale answers matrix muxes ↔ ∀ ci < muxes.rank.nrCis, ∀ dpu < muxes.rank.nrDpusPerCi,
      (muxes.rank.dpus ci dpu).enabled = true → 8 ≤ matrix.size →
      reached ci dpu = matrix.hasTransfer muxes.rank ci dpu := by
  constructor
  · intro isolated ci inside dpu small enabled
    refine (@cell_iff matrix.offset _ _ _ (stale ci dpu)).mp fun old => ?_
    obtain ⟨after, copied, mram⟩ := copies fun _ _ => old
    obtain ⟨same, copiedToo, intends⟩ := isolated fun _ _ => old
    obtain rfl : after = same := by
      rw [copied] at copiedToo
      exact (Prod.mk.inj (Option.some.inj copiedToo)).2
    rw [← mram ci inside dpu small, intends ci inside dpu small enabled]
  · intro exactly mram
    obtain ⟨after, copied, mramAfter⟩ := copies mram
    refine ⟨after, copied, fun ci inside dpu small enabled => ?_⟩
    rw [mramAfter ci inside dpu small]
    exact cell_iff.mpr (exactly ci inside dpu small enabled) (mram ci dpu)

/-- The access for a matrix without conflicts. -/
theorem hostGetAccess_spec {s : MuxState} {answers : TransferAnswers} (ready : MuxReady s)
    (even : s.rank.nrDpusPerCi % 2 = 0) (succeeds : ∀ dpu line, AccessSucceeds (answers.line dpu line))
    (compatible : ∀ dpu ∈ firstLines s.rank, ¬ Conflict s.rank matrix dpu) :
    ∃ t, hostGetAccessForTransferMatrix unchecked answers matrix s = some (.ok, t) ∧ MuxReady t ∧
      SameButMux s.rank t.rank ∧
      ∀ ci < s.rank.nrCis, ∀ dpu < s.rank.nrDpusPerCi, t.mux ci dpu = accessMux s.rank matrix s.mux ci dpu := by
  have distinct : (firstLines s.rank).Nodup := List.nodup_range.map fun _ _ same =>
    Nat.eq_of_mul_eq_mul_left two_pos same
  obtain ⟨t, access, readyAfter, same, mux⟩ :=
    (@getAccessForPairs_spec unchecked s matrix answers ready even succeeds _
      (fun _ => mem_firstLines.mp) distinct).2 compatible
  refine ⟨t, access, readyAfter, same, fun ci inside dpu small => ?_⟩
  rw [mux ci inside dpu small, if_pos (mem_firstLines.mpr ?_)]
  unfold dpuPairBaseId
  omega

/-- A wanted line of a pair without conflict has its muxes where its buffers are. -/
theorem accessMux_wanted {rank : Rank} {mux : Nat → Nat → Bool} {ci dpu : Nat} (even : rank.nrDpusPerCi % 2 = 0)
    (compatible : ∀ dpu ∈ firstLines rank, ¬ Conflict rank matrix dpu) (inside : ci < rank.nrCis)
    (small : dpu < rank.nrDpusPerCi) (wanted : LineWanted rank matrix dpu) :
    accessMux rank matrix mux ci dpu = wants rank matrix ci dpu := by
  rw [accessMux, if_pos (.inl wanted)]
  by_cases other : LineWanted rank matrix (friend dpu)
  · have same : wants rank matrix ci dpu = wants rank matrix ci (friend dpu) := by
      by_contra differs
      by_cases first : dpu % 2 = 0
      · have next : friend dpu = dpu + 1 := if_pos first
        rw [next] at other differs
        exact compatible dpu (mem_firstLines.mpr ⟨first, small⟩) ⟨wanted, other, ci, inside, differs⟩
      · have previous : friend dpu = dpu - 1 := if_neg first
        have back : dpu - 1 + 1 = dpu := by omega
        rw [previous] at other differs
        refine compatible (dpu - 1) (mem_firstLines.mpr ⟨by omega, by omega⟩)
          ⟨other, back.symm ▸ wanted, ci, inside, ?_⟩
        rw [back]
        exact fun same => differs same.symm
    rw [← same, Bool.or_self]
  · have without : wants rank matrix ci (friend dpu) = false :=
      Bool.eq_false_iff.mpr fun given => other ⟨ci, inside, given⟩
    rw [without, Bool.or_false]

/-- The muxes of a line that is not wanted follow the other line of the pair. -/
theorem accessMux_unwanted {rank : Rank} {mux : Nat → Nat → Bool} {ci dpu : Nat} (inside : ci < rank.nrCis)
    (unwanted : ¬ LineWanted rank matrix dpu) : accessMux rank matrix mux ci dpu =
      if LineWanted rank matrix (friend dpu) then wants rank matrix ci (friend dpu) else mux ci dpu := by
  have without : wants rank matrix ci dpu = false := Bool.eq_false_iff.mpr fun given => unwanted ⟨ci, inside, given⟩
  simp only [accessMux, unwanted, false_or, without, Bool.false_or]

theorem Full.isolated (ready : Ready muxes) (succeeds : CopySucceeds answers) (full : Full muxes.rank matrix) :
    Isolated unchecked stale answers matrix muxes := by
  have notNeeded : isDuplicationNeeded muxes.rank matrix = false := Bool.eq_false_iff.mpr fun needed =>
    full.not_duplicates ready.even ((isDuplicationNeeded_iff ready.even ready.agrees.must).mp needed)
  obtain ⟨t, switched, same, position⟩ := @switchRank_spec unchecked _ muxes ready.muxReady succeeds.rank
  have granted : hostGetAccessForTransfer unchecked answers.whole matrix muxes = some (.ok, t) := by
    rw [hostGetAccessForTransfer, if_pos ((isTransferMatrixFull_iff ready.enabled).mpr full), switched]
  refine (@isolated_iff_reached unchecked stale muxes matrix answers
    (fun ci dpu => lineHas muxes.rank matrix dpu && t.mux ci dpu) fun mram => ?_).mpr
    fun ci inside dpu small enabled _ => ?_
  · obtain ⟨after, copied, -, written⟩ := @transferAfter_spec stale matrix _ ⟨muxes, mram⟩ t granted same
    exact ⟨after, by simpa [copyMramForDpus, duplicateTransferMatrix, notNeeded] using copied, written⟩
  · have has := full ci inside dpu small enabled
    rw [position ci inside dpu small, has, Bool.and_true]
    exact lineHas_iff.mpr ⟨ci, inside, has⟩

/-- A copy of a matrix that is neither full nor duplicated. -/
theorem isolated_iff_single (ready : Ready muxes) (succeeds : CopySucceeds answers)
    (part : ¬ Full muxes.rank matrix)
    (single : ¬ Duplicates muxes.rank matrix) : Isolated unchecked stale answers matrix muxes ↔
      (∀ dpu ∈ firstLines muxes.rank, ¬ Conflict muxes.rank matrix dpu) ∧ ∀ ci < muxes.rank.nrCis,
        ∀ dpu < muxes.rank.nrDpusPerCi, (muxes.rank.dpus ci dpu).enabled = true → 8 ≤ matrix.size →
          lineHas muxes.rank matrix dpu = true → ¬ LineWanted muxes.rank matrix dpu →
            strayMux muxes.rank matrix ci dpu = false := by
  have notNeeded : isDuplicationNeeded muxes.rank matrix = false := Bool.eq_false_iff.mpr fun needed =>
    single ((isDuplicationNeeded_iff ready.even ready.agrees.must).mp needed)
  have access : hostGetAccessForTransfer unchecked answers.whole matrix muxes =
      hostGetAccessForTransferMatrix unchecked answers.whole matrix muxes := by
    rw [hostGetAccessForTransfer, if_neg fun full => part ((isTransferMatrixFull_iff ready.enabled).mp full)]
  by_cases compatible : ∀ dpu ∈ firstLines muxes.rank, ¬ Conflict muxes.rank matrix dpu
  swap
  · refine iff_of_false (fun isolated => ?_) fun both => compatible both.1
    have distinct : (firstLines muxes.rank).Nodup :=
      List.nodup_range.map fun _ _ same => Nat.eq_of_mul_eq_mul_left two_pos same
    push Not at compatible
    have fails :=
      (@getAccessForPairs_spec unchecked muxes matrix answers.whole ready.muxReady ready.even succeeds.whole _
      (fun _ => mem_firstLines.mp) distinct).1 compatible
    obtain ⟨after, copied, -⟩ := isolated fun _ _ _ => 0#64
    simp [copyMramForDpus, duplicateTransferMatrix, notNeeded, transferAfter, access,
      hostGetAccessForTransferMatrix,
      fails] at copied
  obtain ⟨t, granted, -, same, mux⟩ :=
    @hostGetAccess_spec unchecked matrix muxes answers.whole ready.muxReady ready.even succeeds.whole compatible
  rw [@isolated_iff_reached unchecked stale muxes matrix answers
    (fun ci dpu => lineHas muxes.rank matrix dpu && t.mux ci dpu) fun mram => ?_]
  swap
  · obtain ⟨after, copied, -, written⟩ :=
      @transferAfter_spec stale matrix _ ⟨muxes, mram⟩ t (access.trans granted) same
    exact ⟨after, by simpa [copyMramForDpus, duplicateTransferMatrix, notNeeded] using copied, written⟩
  refine Iff.trans ?_ (and_iff_right compatible).symm
  refine forall₂_congr fun ci inside => forall₂_congr fun dpu small => forall₂_congr fun enabled _ => ?_
  rw [mux ci inside dpu small, reached_iff inside enabled (accessMux_wanted ready.even compatible inside small)]
  refine forall₂_congr fun _ unwanted => ?_
  have recorded := ready.agrees.same ci (ready.muxReady.talks ci inside) dpu small
  rw [accessMux_unwanted inside unwanted, strayMux, recorded]
  simp [single]

section Halves
variable {rank : Rank} {half : TransferMatrix} {parity ci dpu : Nat}
  (halved : ∀ ci < rank.nrCis, ∀ dpu < rank.nrDpusPerCi,
    half.buffer rank ci dpu = if dpu % 2 = parity then matrix.buffer rank ci dpu else none)
include halved

theorem half_wants (inside : ci < rank.nrCis) (small : dpu < rank.nrDpusPerCi) :
    wants rank half ci dpu = (decide (dpu % 2 = parity) && wants rank matrix ci dpu) := by
  rw [wants, wants, TransferMatrix.hasTransfer, halved ci inside dpu small, TransferMatrix.hasTransfer]
  split
  next here => simp [here]
  next elsewhere => simp [elsewhere]

theorem half_lineWanted (small : dpu < rank.nrDpusPerCi) :
    LineWanted rank half dpu ↔ dpu % 2 = parity ∧ LineWanted rank matrix dpu := by
  constructor
  · rintro ⟨ci, inside, wanted⟩
    rw [half_wants halved inside small, Bool.and_eq_true, decide_eq_true_eq] at wanted
    exact ⟨wanted.1, ci, inside, wanted.2⟩
  · rintro ⟨here, ci, inside, wanted⟩
    refine ⟨ci, inside, ?_⟩
    rw [half_wants halved inside small, here, wanted]
    simp

theorem half_lineHas (here : dpu % 2 = parity) (small : dpu < rank.nrDpusPerCi) :
    lineHas rank half dpu = lineHas rank matrix dpu := by
  rw [Bool.eq_iff_iff, lineHas_iff, lineHas_iff]
  refine exists_congr fun ci => and_congr_right fun inside => ?_
  rw [TransferMatrix.hasTransfer, halved ci inside dpu small, if_pos here, TransferMatrix.hasTransfer]

theorem half_lineHas_other (other : dpu % 2 ≠ parity) (small : dpu < rank.nrDpusPerCi) :
    lineHas rank half dpu = false := by
  refine Bool.eq_false_iff.mpr fun has => ?_
  obtain ⟨ci, inside, transfer⟩ := lineHas_iff.mp has
  rw [TransferMatrix.hasTransfer, halved ci inside dpu small, if_neg other] at transfer
  cases transfer

theorem half_compatible (even : rank.nrDpusPerCi % 2 = 0) : ∀ dpu ∈ firstLines rank, ¬ Conflict rank half dpu := by
  rintro dpu first ⟨wanted, other, -⟩
  obtain ⟨firstEven, small⟩ := mem_firstLines.mp first
  have here := ((half_lineWanted halved small).mp wanted).1
  have there := ((half_lineWanted halved (by omega)).mp other).1
  omega

/-- The access for a half of the matrix follows the lines of that half. -/
theorem half_accessMux {mux : Nat → Nat → Bool} (even : rank.nrDpusPerCi % 2 = 0) (inside : ci < rank.nrCis)
    (small : dpu < rank.nrDpusPerCi) : accessMux rank half mux ci dpu =
      if dpu % 2 = parity then if LineWanted rank matrix dpu then wants rank matrix ci dpu else mux ci dpu
      else if (friend dpu) % 2 = parity ∧ LineWanted rank matrix (friend dpu) then wants rank matrix ci (friend dpu)
      else mux ci dpu := by
  have friendSmall := friend_lt even small
  have apart : (friend dpu) % 2 ≠ dpu % 2 := by
    unfold friend
    split <;> omega
  simp only [accessMux, half_lineWanted halved small, half_lineWanted halved friendSmall,
    half_wants halved inside small,
    half_wants halved inside friendSmall]
  by_cases here : dpu % 2 = parity
  · have there : ¬ (friend dpu) % 2 = parity := fun same => apart (same.trans here.symm)
    simp [here, there]
  · by_cases there : (friend dpu) % 2 = parity
    · simp [here, there]
    · simp [here, there]

end Halves

/-- A copy of a matrix that is duplicated. -/
theorem isolated_iff_duplicated (ready : Ready muxes) (succeeds : CopySucceeds answers)
    (duplicates : Duplicates muxes.rank matrix) : Isolated unchecked stale answers matrix muxes ↔
      ∀ ci < muxes.rank.nrCis, ∀ dpu < muxes.rank.nrDpusPerCi, (muxes.rank.dpus ci dpu).enabled = true →
        8 ≤ matrix.size → lineHas muxes.rank matrix dpu = true → ¬ LineWanted muxes.rank matrix dpu →
          strayMux muxes.rank matrix ci dpu = false := by
  have needed : isDuplicationNeeded muxes.rank matrix = true :=
    (isDuplicationNeeded_iff ready.even ready.agrees.must).mpr duplicates
  let duplicated := duplicateTransferMatrix muxes.rank matrix dpuTransferMatrixClearAll dpuTransferMatrixClearAll
  let even : TransferMatrix := { duplicated.2.1 with size := matrix.size, offset := matrix.offset }
  let odd : TransferMatrix := { duplicated.2.2 with size := matrix.size, offset := matrix.offset }
  have evenLines : ∀ ci < muxes.rank.nrCis, ∀ dpu < muxes.rank.nrDpusPerCi,
      even.buffer muxes.rank ci dpu = if dpu % 2 = 0 then matrix.buffer muxes.rank ci dpu else none :=
    fun ci inside dpu small => (duplicateTransferMatrix_buffers ready.even inside small needed).1
  have oddLines : ∀ ci < muxes.rank.nrCis, ∀ dpu < muxes.rank.nrDpusPerCi,
      odd.buffer muxes.rank ci dpu = if dpu % 2 = 1 then matrix.buffer muxes.rank ci dpu else none :=
    fun ci inside dpu small => (duplicateTransferMatrix_buffers ready.even inside small needed).2
  obtain ⟨t, evenAccess, evenReady, evenSame, evenMux⟩ :=
    @hostGetAccess_spec unchecked even muxes answers.even ready.muxReady
    ready.even succeeds.even (half_compatible evenLines ready.even)
  have evenAfter : t.rank.nrDpusPerCi % 2 = 0 := by
    rw [evenSame.nrDpusPerCi]
    exact ready.even
  have oddCompatible : ∀ dpu ∈ firstLines t.rank, ¬ Conflict t.rank odd dpu := by
    rw [conflict_same evenSame, firstLines, evenSame.nrDpusPerCi]
    exact half_compatible oddLines ready.even
  obtain ⟨u, oddAccess, -, oddSame, oddMux⟩ := @hostGetAccess_spec unchecked odd t answers.odd evenReady evenAfter
    succeeds.odd oddCompatible
  have oddAccessMux : accessMux t.rank odd = accessMux muxes.rank odd := by
    funext mux ci dpu
    simp only [accessMux, lineWanted_same evenSame, wants_same evenSame]
  rw [@isolated_iff_reached unchecked stale muxes matrix answers
    (fun ci dpu => lineHas muxes.rank matrix dpu && if dpu % 2 = 0 then t.mux ci dpu else u.mux ci dpu)
      fun mram => ?_]
  swap
  · obtain ⟨middle, first, middleMuxes, firstWrites⟩ :=
      @transferAfter_spec stale even _ ⟨muxes, mram⟩ t evenAccess evenSame
    have oddGranted : hostGetAccessForTransferMatrix unchecked answers.odd odd middle.muxes = some (.ok, u) := by
      rw [middleMuxes]
      exact oddAccess
    obtain ⟨after, second, -, secondWrites⟩ :=
      @transferAfter_spec stale odd _ middle u oddGranted (by rwa [middleMuxes])
    rw [middleMuxes, evenSame.nrCis, evenSame.nrDpusPerCi, lineHas_same evenSame,
      buffer_same evenSame] at secondWrites
    refine ⟨after, ?_, fun ci inside dpu small => ?_⟩
    · have both : duplicated.1 = true := by simp [duplicated, duplicateTransferMatrix, needed]
      simp only [copyMramForDpus]
      rw [if_neg (by simpa [duplicated] using both)]
      simp only [even, duplicated] at first
      rw [first]
      exact second
    · rw [secondWrites ci inside dpu small, firstWrites ci inside dpu small, evenLines ci inside dpu small,
        oddLines ci inside dpu small]
      rcases Nat.mod_two_eq_zero_or_one dpu with here | here
      · have other : dpu % 2 ≠ 1 := by omega
        rw [half_lineHas evenLines here small, half_lineHas_other oddLines other small]
        simp [here, even]
      · have other : dpu % 2 ≠ 0 := by omega
        rw [half_lineHas oddLines here small, half_lineHas_other evenLines other small]
        simp [here, odd]
  refine forall₂_congr fun ci inside => forall₂_congr fun dpu small => forall₂_congr fun enabled _ => ?_
  have recorded := ready.agrees.same ci (ready.muxReady.talks ci inside) dpu small
  have evenPosition := (evenMux ci inside dpu small).trans (half_accessMux evenLines ready.even inside small)
  have oddPosition :=
    (oddMux ci (inside.trans_eq evenSame.nrCis.symm) dpu (small.trans_eq evenSame.nrDpusPerCi.symm)).trans
    ((congrFun₃ oddAccessMux t.mux ci dpu).trans (half_accessMux oddLines ready.even inside small))
  rcases Nat.mod_two_eq_zero_or_one dpu with here | here
  · simp only [here, if_true] at evenPosition ⊢
    rw [reached_iff inside enabled fun wanted => by rw [evenPosition, if_pos wanted]]
    refine forall₂_congr fun _ unwanted => ?_
    rw [evenPosition, if_neg unwanted, strayMux, recorded]
    simp [duplicates, here]
  · have friendEven : (friend dpu) % 2 = 0 := by
      unfold friend
      split <;> omega
    simp only [here, one_ne_zero, if_true, if_false, friendEven, true_and] at evenPosition oddPosition ⊢
    rw [reached_iff inside enabled fun wanted => by rw [oddPosition, if_pos wanted]]
    refine forall₂_congr fun _ unwanted => ?_
    rw [oddPosition, if_neg unwanted, evenPosition, strayMux, recorded]
    simp [here]

end Isolation

section Example

theorem dpuSideState_ready : Ready dpuSideState where
  agrees := dpuSideState_agrees
  idle := rfl
  stopped := fun _ _ => rfl
  even := rfl
  enabled :=
    { mask := fun ci _ dpu => by
        have bits : (BitVec.ofNat 32 (2 ^ 2 - 1)).getLsbD dpu = (decide (dpu < 2) && true) := by
          rw [BitVec.getLsbD_ofNat, Nat.testBit_two_pow_sub_one, Bool.and_true, ← Bool.decide_and]
          exact decide_eq_decide.mpr (by omega)
        exact bits
      all := fun _ _ => iff_of_true rfl fun _ _ => rfl }
  populated := fun _ _ => ⟨0, by decide, rfl⟩

theorem prompt_succeeds : AccessSucceeds prompt where
  select := rfl
  setMux := rfl
  check := rfl
  read := fun _ _ => rfl
  delay := fun _ _ => (by decide : 0 + 1 < TIMEOUT_MUX_STATUS)

/-- Accesses of which each succeeds at once. -/
def promptAnswers : CopyAnswers :=
  let answers : TransferAnswers := ⟨prompt, fun _ _ => prompt⟩
  ⟨answers, answers, answers⟩

theorem promptAnswers_succeeds : CopySucceeds promptAnswers :=
  ⟨prompt_succeeds, fun _ _ => prompt_succeeds, fun _ _ => prompt_succeeds, fun _ _ => prompt_succeeds⟩

/-- A matrix of one word for the DPUs of the paired rank with some indices. -/
def matrixOf (indices : List Nat) : TransferMatrix :=
  ⟨fun index => if index ∈ indices then some fun _ => 1#64 else none, 0, 8⟩

end Example

section Copies
variable {unchecked : Bool} {stale : Nat → Nat → Nat → BitVec 64} {muxes : MuxState} {matrix : TransferMatrix}
  {answers : CopyAnswers}

/-- When a copy to the MRAMs is isolated. -/
theorem copyMramForDpus_isolated_iff (ready : Ready muxes) (succeeds : CopySucceeds answers) :
    Isolated unchecked stale answers matrix muxes ↔ IsolatesWhen muxes.rank matrix := by
  unfold IsolatesWhen
  by_cases full : Full muxes.rank matrix
  · exact iff_of_true (full.isolated ready succeeds) (.inl full)
  · by_cases duplicates : Duplicates muxes.rank matrix
    · rw [isolated_iff_duplicated ready succeeds duplicates]
      simp [full, duplicates]
    · rw [isolated_iff_single ready succeeds full duplicates]
      simp [full, duplicates]

theorem copyMramForDpus_isolated_firstLine :
    Isolated false (fun _ _ _ => 0#64) promptAnswers (matrixOf [0, 1]) dpuSideState := by
  refine (copyMramForDpus_isolated_iff dpuSideState_ready promptAnswers_succeeds).mpr (.inr ⟨.inr ?_, ?_⟩)
  · unfold Conflict
    decide
  · have wanted : ∀ dpu < 2, lineHas dpuSideState.rank (matrixOf [0, 1]) dpu = true →
        LineWanted dpuSideState.rank (matrixOf [0, 1]) dpu := by decide
    exact fun ci _ dpu small _ _ has unwanted => absurd (wanted dpu small has) unwanted

/-- Two DPUs of a pair with buffers, on a control interface after one of which only the first DPU has one. -/
theorem lateConflict_not_isolated :
    ¬ ∀ (unchecked : Bool) (stale : Nat → Nat → Nat → BitVec 64) (answers : CopyAnswers)
    (matrix : TransferMatrix) (muxes : MuxState), Ready muxes → CopySucceeds answers →
      Isolated unchecked stale answers matrix muxes := by
  intro isolated
  obtain ⟨after, copied, -⟩ := isolated false (fun _ _ _ => 0#64) promptAnswers (matrixOf [0, 1, 3]) dpuSideState
    dpuSideState_ready promptAnswers_succeeds fun _ _ _ => 0#64
  have fails : (copyMramForDpus false (fun _ _ _ => 0#64) promptAnswers (matrixOf [0, 1, 3])
      ⟨dpuSideState, fun _ _ _ => 0#64⟩).isSome = false := by decide
  rw [copied] at fails
  cases fails

end Copies

end Upmem.MramCopy
