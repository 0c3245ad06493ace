import Upmem.Mux

namespace Upmem.Mux
open StatusChain Transitions

section Masks
variable {rank : Rank} {ci dpu : Nat}

/-- The bits of a mask that is filled control interface by control interface. -/
theorem foldl_maskOne_getLsbD {p : Nat → Bool} {n i : Nat} (small : i < 8) :
    ((List.range n).foldl (fun mask ci => if p ci then mask ||| 1#8 <<< ci else mask) 0#8).getLsbD i =
      (decide (i < n) && p i) := by
  induction n with
  | zero => simp
  | succ n ih =>
    rw [List.range_succ, List.foldl_append, List.foldl_cons, List.foldl_nil]
    by_cases here : i = n
    · subst here
      cases set : p i with
      | true => simp [small]
      | false => rw [if_neg (by simp), ih, set]; simp
    · have bound : decide (i < n + 1) = decide (i < n) := decide_eq_decide.mpr (by omega)
      rw [bound, ← ih]
      split
      · rw [BitVec.getLsbD_or, show 1#8 <<< n = dpuMaskOne n from rfl, dpuMaskOne_getLsbD small]
        simp [here]
      · rfl

/-- The recorded muxes of a line are those of a mask. -/
theorem muxMramMask_eq {mask : BitVec 8} (same : muxMramMask rank dpu = mask) (inside : ci < rank.nrCis) :
    dpuGetHostMuxMramState rank ci dpu = mask.getLsbD ci := by
  have small : ci < 8 := inside.trans_le rank.description.topology.cis_le
  rw [← same, muxMramMask, foldl_maskOne_getLsbD small]
  simp [inside]

end Masks

/-- Everything but the recorded muxes is the same in two ranks. -/
structure SameButMux (before after : Rank) : Prop where
  description : after.description = before.description
  runContext : after.runContext = before.runContext
  dpus : after.dpus = before.dpus
  enabledDpus : ∀ ci, (after.sliceInfo ci).enabledDpus = (before.sliceInfo ci).enabledDpus

theorem SameButMux.refl (rank : Rank) : SameButMux rank rank := ⟨rfl, rfl, rfl, fun _ => rfl⟩

theorem SameButMux.trans {first second third : Rank} (before : SameButMux first second)
    (after : SameButMux second third) :
    SameButMux first third :=
  ⟨after.description.trans before.description, after.runContext.trans before.runContext,
    after.dpus.trans before.dpus,
    fun ci => (after.enabledDpus ci).trans (before.enabledDpus ci)⟩

theorem SameButMux.nrCis {before after : Rank} (same : SameButMux before after) : after.nrCis = before.nrCis := by
  rw [Rank.nrCis, same.description]

theorem SameButMux.nrDpusPerCi {before after : Rank} (same : SameButMux before after) :
    after.nrDpusPerCi = before.nrDpusPerCi := by
  rw [Rank.nrDpusPerCi, same.description]

theorem SameButMux.talks {before after : Rank} (same : SameButMux before after) (ci : Nat) :
    after.talks ci = before.talks ci := by
  simp only [Rank.talks, Rank.nrCis, same.description, same.enabledDpus ci]

section Recording
variable {rank : Rank} {ci dpu : Nat} {lines : List Nat} {mask : BitVec 8}

theorem dpuSetHostMuxMramState_same {set : Bool} : SameButMux rank (dpuSetHostMuxMramState ci dpu set rank) := by
  refine ⟨rfl, rfl, rfl, fun eachCi => ?_⟩
  simp only [dpuSetHostMuxMramState]
  split
  next here => rw [here]
  next => rfl

theorem dpuSetHostMuxMramState_get {set : Bool} {eachCi eachDpu : Nat} (small : eachDpu < 8) :
    dpuGetHostMuxMramState (dpuSetHostMuxMramState ci dpu set rank) eachCi eachDpu =
      if eachCi = ci ∧ eachDpu = dpu then set else dpuGetHostMuxMramState rank eachCi eachDpu := by
  simp only [dpuGetHostMuxMramState, dpuSetHostMuxMramState]
  by_cases here : eachCi = ci
  · subst here
    cases set with
    | true =>
      rw [if_pos rfl, if_pos rfl, BitVec.getLsbD_or, dpuMaskOne_getLsbD small]
      by_cases same : eachDpu = dpu <;> simp [same]
    | false =>
      rw [if_pos rfl, if_neg (by simp), BitVec.getLsbD_and, BitVec.getLsbD_not, dpuMaskOne_getLsbD small]
      by_cases same : eachDpu = dpu <;> simp [same, small]
  · simp [here]

/-- Recording the muxes of some lines on one control interface. -/
theorem recordLines_spec {set : Bool} :
    SameButMux rank (lines.foldl (fun rank dpu => dpuSetHostMuxMramState ci dpu set rank) rank) ∧
    ∀ eachCi, ∀ eachDpu < 8,
    dpuGetHostMuxMramState (lines.foldl (fun rank dpu => dpuSetHostMuxMramState ci dpu set rank) rank)
      eachCi eachDpu = if eachCi = ci ∧ eachDpu ∈ lines then set
      else dpuGetHostMuxMramState rank eachCi eachDpu := by
  induction lines generalizing rank with
  | nil => exact ⟨.refl rank, by simp⟩
  | cons dpu rest ih =>
    obtain ⟨same, recorded⟩ := @ih (dpuSetHostMuxMramState ci dpu set rank)
    refine ⟨dpuSetHostMuxMramState_same.trans same, fun eachCi eachDpu small => ?_⟩
    rw [List.foldl_cons, recorded eachCi eachDpu small, dpuSetHostMuxMramState_get small]
    by_cases here : eachCi = ci
    · by_cases first : eachDpu = dpu <;> simp [here, first]
    · simp [here]

theorem recordMuxForLines_spec : SameButMux rank (recordMuxForLines lines mask rank) ∧
    ∀ eachCi, ∀ eachDpu < 8, dpuGetHostMuxMramState (recordMuxForLines lines mask rank) eachCi eachDpu =
      if eachCi < rank.nrCis ∧ eachDpu ∈ lines then mask.getLsbD eachCi
      else dpuGetHostMuxMramState rank eachCi eachDpu := by
  unfold recordMuxForLines
  induction rank.nrCis with
  | zero => exact ⟨.refl rank, by simp⟩
  | succ n ih =>
    rw [List.range_succ, List.foldl_append, List.foldl_cons, List.foldl_nil]
    obtain ⟨same, recorded⟩ := ih
    obtain ⟨more, line⟩ := @recordLines_spec ((List.range n).foldl
      (fun rank ci => lines.foldl (fun rank dpu => dpuSetHostMuxMramState ci dpu (mask.getLsbD ci) rank) rank)
        rank) n lines
      (mask.getLsbD n)
    refine ⟨same.trans more, fun eachCi eachDpu small => ?_⟩
    rw [line eachCi eachDpu small, recorded eachCi eachDpu small]
    by_cases here : eachCi = n
    · subst here
      by_cases member : eachDpu ∈ lines <;> simp [member]
    · have bound : eachCi < n + 1 ↔ eachCi < n := by omega
      simp [here, bound]

theorem recordMuxForRank_same {setMuxForHost : Bool} : SameButMux rank (recordMuxForRank setMuxForHost rank) := by
  refine ⟨rfl, rfl, rfl, fun ci => ?_⟩
  simp only [recordMuxForRank]
  split <;> rfl

theorem recordMuxForRank_get {setMuxForHost : Bool} (inside : ci < rank.nrCis) :
    dpuGetHostMuxMramState (recordMuxForRank setMuxForHost rank) ci dpu =
      (setMuxForHost && decide (dpu < rank.nrDpusPerCi)) := by
  simp only [dpuGetHostMuxMramState, recordMuxForRank, inside, if_true]
  cases setMuxForHost with
  | false => simp
  | true =>
    simp only [if_true, Bool.true_and, dpuMaskAll, Nat.shiftLeft_eq, one_mul, BitVec.getLsbD_ofNat,
      Nat.testBit_two_pow_sub_one]
    have bound := rank.nrDpusPerCi_le
    by_cases small : dpu < rank.nrDpusPerCi
    · have fits : dpu < 8 := by omega
      simp [small, fits]
    · simp [small]

end Recording

section Access
variable {unchecked : Bool} {answers : AccessAnswers} {dpus : List Nat} {expected : Nat → Bool} {s : MuxState}

theorem forall_read_succ {read : Nat → DpuError} {attempt n : Nat} : (∀ i < n + 1, read (attempt + i) = .ok) ↔
    read attempt = .ok ∧ ∀ i < n, read (attempt + 1 + i) = .ok := by
  rw [Nat.forall_lt_succ_left]
  simp only [Nat.add_zero, Nat.add_assoc, Nat.add_comm 1]

/-- The reads for a DPU end well when one of them but the last is as expected
after reads that succeed, or when checks are off and no read fails. -/
theorem checkReads_ok {read : Nat → DpuError} {retry : Nat → Bool} (timeout attempt : Nat) :
    (checkReads unchecked read retry timeout attempt).getD .ok = .ok ↔
      timeout = 0 ∨ (∃ n, n + 1 < timeout ∧ (∀ i < n + 1, read (attempt + i) = .ok) ∧ retry (attempt + n) = false) ∨
        unchecked = true ∧ ∀ i < timeout, read (attempt + i) = .ok := by
  induction timeout generalizing attempt with
  | zero => simp [checkReads]
  | succ timeout ih =>
    simp only [checkReads, forall_read_succ]
    by_cases passed : read attempt = .ok
    swap
    · simp [passed]
    simp only [passed, ne_eq, not_true_eq_false, if_false, true_and, Nat.succ_ne_zero, false_or]
    by_cases last : timeout = 0
    · cases unchecked <;> simp [last]
    · rw [if_neg last]
      cases again : retry attempt with
      | false => exact iff_of_true rfl (.inl ⟨0, by omega, by simp, again⟩)
      | true =>
        rw [if_pos rfl, ih]
        simp only [last, false_or]
        refine or_congr_left ⟨?_, ?_⟩
        · rintro ⟨n, early, reads, stops⟩
          refine ⟨n + 1, by omega, reads, ?_⟩
          rwa [Nat.add_comm n 1, ← Nat.add_assoc]
        · rintro ⟨n, early, reads, stops⟩
          cases n with
          | zero => simp [again] at stops
          | succ n =>
            refine ⟨n, by omega, reads, ?_⟩
            rwa [Nat.add_assoc, Nat.add_comm 1 n]

@[simp] theorem hostHandleAccess_rank : (hostHandleAccess unchecked answers dpus expected s).2.rank = s.rank := by
  unfold hostHandleAccess
  split
  · rfl
  · dsimp only
    split <;> rfl

theorem hostHandleAccess_mux (ci dpu : Nat) : (hostHandleAccess unchecked answers dpus expected s).2.mux ci dpu =
    if answers.select = .ok ∧ s.rank.talks ci = true ∧ dpu ∈ dpus ∧ answers.delay ci dpu < TIMEOUT_MUX_STATUS
    then expected ci else s.mux ci dpu := by
  unfold hostHandleAccess
  by_cases selected : answers.select = .ok
  · simp only [selected, ne_eq, not_true_eq_false, if_false, true_and]
    split <;> rfl
  · simp [selected]

/-- The commands of an access arrive at every mux that is not in its position. -/
def AccessArrives (answers : AccessAnswers) (dpus : List Nat) (expected : Nat → Bool) (s : MuxState) : Prop :=
  ∀ ci, s.rank.talks ci = true → ∀ dpu ∈ dpus,
    s.mux ci dpu = expected ci ∨ answers.select = .ok ∧ answers.delay ci dpu < TIMEOUT_MUX_STATUS

theorem AccessArrives.mux (arrives : AccessArrives answers dpus expected s) {ci dpu : Nat}
    (talks : s.rank.talks ci = true)
    (covered : dpu ∈ dpus) : (hostHandleAccess unchecked answers dpus expected s).2.mux ci dpu = expected ci := by
  rw [hostHandleAccess_mux]
  rcases arrives ci talks dpu covered with already | ⟨selected, soon⟩
  · split
    · rfl
    · exact already
  · rw [if_pos ⟨selected, talks, covered, soon⟩]

/-- The muxes of a DPU are in position. -/
def InPlace (expected : Nat → Bool) (s : MuxState) (dpu : Nat) : Prop :=
  ∀ ci, s.rank.talks ci = true → s.mux ci dpu = expected ci

/-- The access to a DPU succeeds: no command fails, and a read of its muxes
but the last finds them in position, or the checks are off. -/
structure AccessPasses (unchecked : Bool) (answers : AccessAnswers) (expected : Nat → Bool) (s : MuxState)
    (dpu : Nat) : Prop where
  select : answers.select = .ok
  setMux : answers.setMux = .ok
  check : answers.check = .ok
  reads : (∃ n, n + 1 < TIMEOUT_MUX_STATUS ∧ (∀ i < n + 1, answers.read dpu i = .ok) ∧
      ∀ ci, s.rank.talks ci = true → s.mux ci dpu = expected ci ∨ answers.delay ci dpu ≤ n) ∨
    unchecked = true ∧ ∀ i < TIMEOUT_MUX_STATUS, answers.read dpu i = .ok

theorem shouldRetry_eq_false {dpu attempt : Nat} : shouldRetry answers expected s dpu attempt = false ↔
    ∀ ci, s.rank.talks ci = true → s.mux ci dpu = expected ci ∨ answers.delay ci dpu ≤ attempt := by
  simp only [shouldRetry, List.any_eq_false, List.mem_range]
  constructor
  · intro settled ci talks
    have inside : ci < s.rank.nrCis := of_decide_eq_true (Bool.and_eq_true_iff.mp talks).1
    simpa [talks, or_iff_not_imp_left] using settled ci inside
  · intro settled ci _
    cases talks : s.rank.talks ci with
    | false => simp
    | true => simpa [or_iff_not_imp_left] using settled ci talks

theorem hostHandleAccess_ok {dpu : Nat} : (hostHandleAccess unchecked answers [dpu] expected s).1 = .ok ↔
    AccessPasses unchecked answers expected s dpu := by
  have check :
    (List.findSome? (fun dpu => checkReads unchecked (answers.read dpu) (shouldRetry answers expected s dpu)
      TIMEOUT_MUX_STATUS 0) [dpu]).getD .ok =
        (checkReads unchecked (answers.read dpu) (shouldRetry answers expected s dpu)
      TIMEOUT_MUX_STATUS 0).getD .ok := by
    cases given : checkReads unchecked (answers.read dpu)
      (shouldRetry answers expected s dpu) TIMEOUT_MUX_STATUS 0 <;>
      simp [given]
  have reads :=
    @checkReads_ok unchecked (answers.read dpu) (shouldRetry answers expected s dpu) TIMEOUT_MUX_STATUS 0
  simp only [Nat.zero_add, shouldRetry_eq_false] at reads
  rw [← check] at reads
  unfold hostHandleAccess dpuCheckWavegenMuxStatus
  constructor
  · intro passed
    by_cases select : answers.select = .ok
    swap
    · simp [select] at passed
    by_cases setMux : answers.setMux = .ok
    swap
    · simp [select, setMux] at passed
    by_cases checked : answers.check = .ok
    swap
    · simp [select, setMux, checked] at passed
    simp only [select, setMux, checked, ne_eq, not_true_eq_false, if_false] at passed
    exact ⟨select, setMux, checked, (reads.mp passed).resolve_left (by decide)⟩
  · rintro ⟨select, setMux, checked, read⟩
    simp only [select, setMux, checked, ne_eq, not_true_eq_false, if_false]
    exact reads.mpr (.inr read)

end Access

/-- The recorded muxes are where the hardware has them, on all control interfaces that commands are sent to. -/
structure MuxState.Agrees (s : MuxState) : Prop where
  must : s.rank.description.apiMustSwitchMramMux = true
  below : ∀ ci < s.rank.nrCis, ∀ dpu, s.rank.nrDpusPerCi ≤ dpu → dpuGetHostMuxMramState s.rank ci dpu = false
  same : ∀ ci, s.rank.talks ci = true → ∀ dpu < s.rank.nrDpusPerCi,
    dpuGetHostMuxMramState s.rank ci dpu = s.mux ci dpu

section Switches
variable {unchecked : Bool} {s : MuxState} {setMuxForHost : Bool} {answers : AccessAnswers}

theorem popcount_le_of_below {w n : Nat} {m : BitVec w} (below : ∀ i, n ≤ i → m.getLsbD i = false) :
    popcount m ≤ n := by
  have counted (k : Nat) : (List.range k).countP (fun i => m.getLsbD i) ≤ n := by
    induction k with
    | zero => simp
    | succ k ih =>
      rw [List.range_succ, List.countP_append, List.countP_singleton]
      split
      next set =>
        have inside : k < n := by
          by_contra outside
          rw [below k (not_lt.mp outside)] at set
          cases set
        have all : (List.range k).countP (fun i => m.getLsbD i) ≤ k := by
          simpa using List.countP_le_length (p := fun i => m.getLsbD i) (l := List.range k)
        omega
      next => simpa using ih
  exact counted w

/-- A bitfield of `n` DPUs with `n` bits set has them all set. -/
theorem getLsbD_of_popcount {m : DpuBitfield} {n dpu : Nat} (bounded : n ≤ 8)
    (below : ∀ i, n ≤ i → m.getLsbD i = false)
    (full : n ≤ popcount m) (small : dpu < n) : m.getLsbD dpu = true := by
  by_contra clear
  have fits : dpu < 8 := small.trans_le bounded
  have more := popcount_or_dpuMaskOne fits (Bool.eq_false_iff.mpr clear)
  have atMost : popcount (m ||| dpuMaskOne dpu) ≤ n := by
    refine popcount_le_of_below fun i outside => ?_
    by_cases high : i < 8
    · rw [getLsbD_or_dpuMaskOne_of_ne high (by omega), below i outside]
    · exact BitVec.getLsbD_of_ge _ _ (not_lt.mp high)
  omega

/-- When no mux has to be switched all of them are recorded in the direction asked for. -/
theorem muxMustSwitch_eq_false {rank : Rank}
    (below : ∀ ci < rank.nrCis, ∀ dpu, rank.nrDpusPerCi ≤ dpu → dpuGetHostMuxMramState rank ci dpu = false)
    (settled : muxMustSwitch setMuxForHost rank = false) {ci dpu : Nat} (inside : ci < rank.nrCis)
    (small : dpu < rank.nrDpusPerCi) :
    dpuGetHostMuxMramState rank ci dpu = setMuxForHost := by
  simp only [muxMustSwitch, List.any_eq_false, List.mem_range] at settled
  have now := settled ci inside
  cases setMuxForHost with
  | false =>
    have zero : (rank.sliceInfo ci).hostMuxMramState = 0#8 := by simpa using now
    simp [dpuGetHostMuxMramState, zero]
  | true =>
    have full : rank.nrDpusPerCi ≤ popcount (rank.sliceInfo ci).hostMuxMramState := by simpa using now
    exact getLsbD_of_popcount rank.nrDpusPerCi_le (below ci inside) full small

/-- How a switch of a rank ends: busy, without anything to do, or with the muxes recorded and then switched. -/
theorem dpuSwitchMuxForRank_cases (must : s.rank.description.apiMustSwitchMramMux = true) :
    (0 < s.rank.runContext.nbDpuRunning ∧ dpuSwitchMuxForRank unchecked setMuxForHost answers s = (.mramBusy, s)) ∨
      (muxMustSwitch setMuxForHost s.rank = false ∧
        dpuSwitchMuxForRank unchecked setMuxForHost answers s = (.ok, s)) ∨
      (switchesRank setMuxForHost s.rank = true ∧
        (dpuSwitchMuxForRank unchecked setMuxForHost answers s).2 = ⟨recordMuxForRank setMuxForHost s.rank,
          (hostHandleAccess unchecked answers (List.range s.rank.nrDpusPerCi)
            (fun _ => setMuxForHost) s).2.mux⟩) := by
  by_cases running : 0 < s.rank.runContext.nbDpuRunning
  · refine .inl ⟨running, ?_⟩
    have none_switched : switchesRank setMuxForHost s.rank = false := by
      simp [switchesRank, running.ne']
    simp [dpuSwitchMuxForRank, Upmem.dpuSwitchMuxForRank, running, none_switched]
  · have idle : s.rank.runContext.nbDpuRunning = 0 := Nat.eq_zero_of_not_pos running
    cases needed : muxMustSwitch setMuxForHost s.rank with
    | false =>
      exact .inr (.inl ⟨rfl, by simp [dpuSwitchMuxForRank, Upmem.dpuSwitchMuxForRank, idle, needed, switchesRank]⟩)
    | true =>
      refine .inr (.inr ⟨by simp [switchesRank, idle, needed, must], ?_⟩)
      simp [dpuSwitchMuxForRank, Upmem.dpuSwitchMuxForRank, idle, needed, switchesRank, must]

/-- A switch of a rank keeps the agreement when its commands arrive, and all muxes are as
asked for when it succeeds. -/
theorem dpuSwitchMuxForRank_agrees (agrees : s.Agrees)
    (arrives : switchesRank setMuxForHost s.rank = true →
      AccessArrives answers (List.range s.rank.nrDpusPerCi) (fun _ => setMuxForHost) s) :
    (dpuSwitchMuxForRank unchecked setMuxForHost answers s).2.Agrees ∧
      ((dpuSwitchMuxForRank unchecked setMuxForHost answers s).1 = .ok → ∀ ci, s.rank.talks ci = true →
        ∀ dpu < s.rank.nrDpusPerCi,
          (dpuSwitchMuxForRank unchecked setMuxForHost answers s).2.mux ci dpu = setMuxForHost) := by
  rcases @dpuSwitchMuxForRank_cases unchecked s setMuxForHost answers agrees.must with
    ⟨-, busy⟩ | ⟨settled, nothing⟩ | ⟨switches, result⟩
  · rw [busy]
    exact ⟨agrees, fun passed => by cases passed⟩
  · rw [nothing]
    refine ⟨agrees, fun _ ci talks dpu small => ?_⟩
    have inside : ci < s.rank.nrCis := of_decide_eq_true (Bool.and_eq_true_iff.mp talks).1
    rw [← agrees.same ci talks dpu small]
    exact muxMustSwitch_eq_false agrees.below settled inside small
  · have arrived := arrives switches
    rw [result]
    have same : SameButMux s.rank (recordMuxForRank setMuxForHost s.rank) := recordMuxForRank_same
    refine ⟨⟨by rw [same.description]; exact agrees.must, ?_, ?_⟩, ?_⟩
    · intro ci inside dpu outside
      have outside : ¬ dpu < s.rank.nrDpusPerCi := not_lt.mpr outside
      have inside : ci < s.rank.nrCis := inside
      simp [recordMuxForRank_get inside, outside]
    · intro ci talks dpu small
      have small : dpu < s.rank.nrDpusPerCi := small
      have talks : s.rank.talks ci = true := (same.talks ci).symm.trans talks
      have inside : ci < s.rank.nrCis := of_decide_eq_true (Bool.and_eq_true_iff.mp talks).1
      simp [recordMuxForRank_get inside, small, arrived.mux talks (List.mem_range.mpr small)]
    · intro _ ci talks dpu small
      exact arrived.mux talks (List.mem_range.mpr small)

section Lines
variable {lines : List Nat} {mask : BitVec 8} {dpuId : Nat} {lineAnswers : Nat → AccessAnswers}
  {expected : Nat → Bool}

/-- The commands of the accesses to some lines arrive: each access arrives at
its line if the one before it passes, and else the lines left over are in
position already. -/
def LinesArrive (unchecked : Bool) (answers : Nat → AccessAnswers) (expected : Nat → Bool) (s : MuxState) :
    List Nat → Prop
  | [] => True
  | dpu :: rest =>
    AccessArrives (answers dpu) [dpu] expected s ∧
      (AccessPasses unchecked (answers dpu) expected s dpu → LinesArrive unchecked answers expected s rest) ∧
      (¬ AccessPasses unchecked (answers dpu) expected s dpu → ∀ other ∈ rest, InPlace expected s other)

/-- Two states with the same muxes of some DPUs. -/
def SameMuxes (dpus : List Nat) (s t : MuxState) : Prop :=
  (∀ ci, t.rank.talks ci = s.rank.talks ci) ∧ ∀ ci, ∀ dpu ∈ dpus, t.mux ci dpu = s.mux ci dpu

theorem SameMuxes.symm {dpus : List Nat} {t : MuxState} (same : SameMuxes dpus s t) : SameMuxes dpus t s :=
  ⟨fun ci => (same.1 ci).symm, fun ci dpu member => (same.2 ci dpu member).symm⟩

theorem AccessArrives.congr {dpus : List Nat} {t : MuxState} (same : SameMuxes dpus s t)
    (arrives : AccessArrives answers dpus expected s) : AccessArrives answers dpus expected t := by
  intro ci talks dpu member
  rw [same.2 ci dpu member]
  exact arrives ci ((same.1 ci).symm.trans talks) dpu member

theorem AccessPasses.congr {dpu : Nat} {t : MuxState} (same : SameMuxes [dpu] s t)
    (passes : AccessPasses unchecked answers expected s dpu) : AccessPasses unchecked answers expected t dpu := by
  refine ⟨passes.select, passes.setMux, passes.check, passes.reads.imp_left ?_⟩
  rintro ⟨n, early, reads, position⟩
  refine ⟨n, early, reads, fun ci talks => ?_⟩
  rw [same.2 ci dpu (List.mem_singleton_self dpu)]
  exact position ci ((same.1 ci).symm.trans talks)

theorem SameMuxes.subset {dpus fewer : List Nat} {t : MuxState} (same : SameMuxes dpus s t) (sub : fewer ⊆ dpus) :
    SameMuxes fewer s t :=
  ⟨same.1, fun ci dpu member => same.2 ci dpu (sub member)⟩

theorem LinesArrive.congr {t : MuxState} (same : SameMuxes lines s t)
    (arrives : LinesArrive unchecked lineAnswers expected s lines) :
    LinesArrive unchecked lineAnswers expected t lines := by
  induction lines with
  | nil => exact trivial
  | cons dpu rest ih =>
    have first : SameMuxes [dpu] s t := same.subset (by simp)
    have later : SameMuxes rest s t := same.subset (List.subset_cons_self dpu rest)
    obtain ⟨arrived, passed, failed⟩ := arrives
    refine ⟨arrived.congr first, fun passes => ih later (passed (passes.congr first.symm)), ?_⟩
    intro fails other member ci talks
    rw [later.2 ci other member]
    exact failed (fun passes => fails (passes.congr first)) other member ci ((later.1 ci).symm.trans talks)

/-- After the accesses to some lines, which arrive, their muxes are in position and the others are as before. -/
theorem accessLines_spec (distinct : lines.Nodup) (arrives : LinesArrive unchecked lineAnswers expected s lines) :
    (loop .ok (fun dpu => hostHandleAccess unchecked (lineAnswers dpu) [dpu] expected) lines s).2.rank = s.rank ∧
      ∀ ci dpu,
      (loop .ok (fun dpu => hostHandleAccess unchecked (lineAnswers dpu) [dpu] expected) lines s).2.mux ci dpu =
        if s.rank.talks ci = true ∧ dpu ∈ lines then expected ci else s.mux ci dpu := by
  induction lines generalizing s with
  | nil => simp [loop]
  | cons line rest ih =>
    obtain ⟨fresh, distinct⟩ := List.nodup_cons.mp distinct
    obtain ⟨arrived, passed, failed⟩ := arrives
    have rank : (hostHandleAccess unchecked (lineAnswers line) [line] expected s).2.rank = s.rank :=
      hostHandleAccess_rank
    have moved (ci dpu : Nat) : (hostHandleAccess unchecked (lineAnswers line) [line] expected s).2.mux ci dpu =
        if s.rank.talks ci = true ∧ dpu = line then expected ci else s.mux ci dpu := by
      split
      next here => exact arrived.mux here.1 (List.mem_singleton.mpr here.2)
      next elsewhere =>
        rw [hostHandleAccess_mux, if_neg]
        rintro ⟨-, talks, covered, -⟩
        exact elsewhere ⟨talks, List.mem_singleton.mp covered⟩
    by_cases passes : (hostHandleAccess unchecked (lineAnswers line) [line] expected s).1 = .ok
    · have untouched : SameMuxes rest s (hostHandleAccess unchecked (lineAnswers line) [line] expected s).2 := by
        refine ⟨fun ci => by rw [rank], fun ci dpu member => ?_⟩
        have other : dpu ≠ line := fun same => fresh (same ▸ member)
        simp [moved, other]
      obtain ⟨rankAfter, muxAfter⟩ := ih distinct ((passed (hostHandleAccess_ok.mp passes)).congr untouched)
      rw [loop, if_pos passes]
      refine ⟨rankAfter.trans rank, fun ci dpu => ?_⟩
      rw [muxAfter, moved, rank]
      by_cases talks : s.rank.talks ci = true
      · by_cases here : dpu = line
        · simp [talks, here]
        · simp [talks, here]
      · simp [talks]
    · have inPlace := failed fun accessed => passes (hostHandleAccess_ok.mpr accessed)
      rw [loop, if_neg passes]
      refine ⟨rank, fun ci dpu => ?_⟩
      rw [moved]
      by_cases talks : s.rank.talks ci = true
      · by_cases here : dpu = line
        · simp [talks, here]
        · by_cases later : dpu ∈ rest
          · simp [talks, here, later, inPlace dpu later ci talks]
          · simp [here, later]
      · simp [talks]

theorem mem_linesToSwitch {dpu : Nat} {rank : Rank} : dpu ∈ linesToSwitch dpuId mask rank ↔
    (dpu = dpuPairBaseId dpuId ∨ dpu = dpuPairBaseId dpuId + 1 ∧ dpu < rank.nrDpusPerCi) ∧
    muxMramMask rank dpu ≠ mask := by
  unfold linesToSwitch
  dsimp only
  rw [List.mem_append]
  constructor
  · rintro (base | friend)
    · split at base
      next differs =>
        obtain rfl := List.mem_singleton.mp base
        exact ⟨.inl rfl, differs⟩
      next => cases base
    · split at friend
      next differs =>
        obtain rfl := List.mem_singleton.mp friend
        exact ⟨.inr ⟨rfl, differs.1⟩, differs.2⟩
      next => cases friend
  · rintro ⟨rfl | ⟨rfl, inside⟩, differs⟩
    · exact .inl (by simp [differs])
    · exact .inr (by simp [differs, inside])

theorem linesToSwitch_nodup {rank : Rank} : (linesToSwitch dpuId mask rank).Nodup := by
  unfold linesToSwitch
  dsimp only
  split <;> split <;> simp

/-- The two lines of a pair. -/
theorem line_of_pair {dpu : Nat} (pair : dpuPairBaseId dpu = dpuPairBaseId dpuId) :
    dpu = dpuPairBaseId dpuId ∨ dpu = dpuPairBaseId dpuId + 1 := by
  unfold dpuPairBaseId at *
  omega

theorem dpuSwitchMuxForDpuLine_same :
    SameButMux s.rank (dpuSwitchMuxForDpuLine unchecked dpuId mask lineAnswers s).2.rank := by
  unfold dpuSwitchMuxForDpuLine
  dsimp only
  have recorded := (@recordMuxForLines_spec s.rank (linesToSwitch dpuId mask s.rank) mask).1
  split_ifs
  · exact .refl _
  · exact .refl _
  · exact recorded
  · exact loop_invariant (P := fun (t : MuxState) => SameButMux s.rank t.rank)
      (fun _ _ before => by rw [hostHandleAccess_rank]; exact before) _ recorded

/-- A switch of a pair of lines keeps the agreement when its commands arrive,
and the muxes of the pair are as the mask says when it succeeds. -/
theorem dpuSwitchMuxForDpuLine_agrees (agrees : s.Agrees) (given : dpuId < s.rank.nrDpusPerCi)
    (arrives : runningOn (linesToSwitch dpuId mask s.rank) s.rank = 0 →
      LinesArrive unchecked lineAnswers (fun ci => mask.getLsbD ci) s (linesToSwitch dpuId mask s.rank)) :
    (dpuSwitchMuxForDpuLine unchecked dpuId mask lineAnswers s).2.Agrees ∧
      ((dpuSwitchMuxForDpuLine unchecked dpuId mask lineAnswers s).1 = .ok → ∀ ci, s.rank.talks ci = true →
        ∀ dpu < s.rank.nrDpusPerCi, dpuPairBaseId dpu = dpuPairBaseId dpuId →
          (dpuSwitchMuxForDpuLine unchecked dpuId mask lineAnswers s).2.mux ci dpu = mask.getLsbD ci) := by
  -- a line of the pair that is not switched is recorded as the mask says, so it is there
  have settled : ∀ ci, s.rank.talks ci = true → ∀ dpu < s.rank.nrDpusPerCi,
    dpuPairBaseId dpu = dpuPairBaseId dpuId →
      dpu ∉ linesToSwitch dpuId mask s.rank → s.mux ci dpu = mask.getLsbD ci := by
    intro ci talks dpu small pair absent
    have inside : ci < s.rank.nrCis := of_decide_eq_true (Bool.and_eq_true_iff.mp talks).1
    have same : muxMramMask s.rank dpu = mask := by
      by_contra differs
      exact absent (mem_linesToSwitch.mpr ⟨(line_of_pair pair).imp_right fun friend => ⟨friend, small⟩, differs⟩)
    rw [← agrees.same ci talks dpu small, muxMramMask_eq same inside]
  unfold dpuSwitchMuxForDpuLine
  dsimp only
  by_cases none : linesToSwitch dpuId mask s.rank = []
  · rw [if_pos none]
    exact ⟨agrees, fun _ ci talks dpu small pair => settled ci talks dpu small pair (by simp [none])⟩
  rw [if_neg none]
  by_cases running : 0 < runningOn (linesToSwitch dpuId mask s.rank) s.rank
  · rw [if_pos running]
    exact ⟨agrees, fun passed => by cases passed⟩
  have small_line : ∀ dpu ∈ linesToSwitch dpuId mask s.rank, dpu < s.rank.nrDpusPerCi := by
    intro dpu member
    rcases (mem_linesToSwitch.mp member).1 with base | friend
    · rw [base]
      exact (Nat.div_mul_le_self dpuId 2).trans_lt given
    · exact friend.2
  obtain ⟨same, recorded⟩ := @recordMuxForLines_spec s.rank (linesToSwitch dpuId mask s.rank) mask
  have sameMuxes : SameMuxes (linesToSwitch dpuId mask s.rank) s
      { s with rank := recordMuxForLines (linesToSwitch dpuId mask s.rank) mask s.rank } :=
    ⟨same.talks, fun _ _ _ => rfl⟩
  obtain ⟨rank, mux⟩ :=
    accessLines_spec linesToSwitch_nodup ((arrives (Nat.eq_zero_of_not_pos running)).congr sameMuxes)
  rw [if_neg running, if_neg (by simp [agrees.must])]
  have nrCis := same.nrCis
  have nrDpus := same.nrDpusPerCi
  refine ⟨⟨?_, ?_, ?_⟩, ?_⟩
  · rw [rank, same.description]
    exact agrees.must
  · intro ci inside dpu outside
    rw [rank] at inside outside ⊢
    rw [nrCis] at inside
    rw [nrDpus] at outside
    by_cases fits : dpu < 8
    · have absent : dpu ∉ linesToSwitch dpuId mask s.rank := fun member =>
        absurd (small_line dpu member) (not_lt.mpr outside)
      rw [recorded ci dpu fits, if_neg fun both => absent both.2]
      exact agrees.below ci inside dpu outside
    · exact BitVec.getLsbD_of_ge _ _ (not_lt.mp fits)
  · intro ci talks dpu small
    rw [rank] at talks small
    rw [same.talks] at talks
    rw [nrDpus] at small
    have inside : ci < s.rank.nrCis := of_decide_eq_true (Bool.and_eq_true_iff.mp talks).1
    rw [rank, recorded ci dpu (small.trans_le s.rank.nrDpusPerCi_le), mux, same.talks]
    simp only [inside, talks, true_and]
    split
    · rfl
    · exact agrees.same ci talks dpu small
  · intro _ ci talks dpu small pair
    rw [mux, same.talks]
    split
    · rfl
    next elsewhere => exact settled ci talks dpu small pair fun member => elsewhere ⟨talks, member⟩

end Lines

end Switches

end Upmem.Mux
