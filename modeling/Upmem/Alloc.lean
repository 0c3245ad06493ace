import Upmem.DpuSet
import Upmem.ResetEnabled

namespace Upmem

def DPU_ALLOCATE_ALL : Nat := 2 ^ 32 - 1

/-- A rank that `dpu_get_rank_of_type` hands out, which refuses a rank without
enabled DPUs, and the answers to the commands of its reset. -/
structure Handout where
  rank : Rank
  disableResetOnAlloc : Bool
  call : ResetCall → DpuError
  agrees : rank.Agrees
  enabled : 0 < getNrOfDpusInRank rank

/-- A status other than success. -/
abbrev Failure := { status : DpuError // status ≠ .ok }

/-- The rank that an allocation takes: a handed out one, reset. -/
def Handout.reset (handout : Handout) : DpuError × Rank :=
  if !handout.disableResetOnAlloc then dpuResetRank handout.call handout.rank else (.ok, handout.rank)

/-- How `dpu_alloc` ends. -/
inductive AllocResult
  | failedAssertion
  | error (status : DpuError)
  | ok (set : List Rank)

/-- The end of the allocation loop when no rank is handed out. -/
def endWithoutRank (nrDpus : Nat) (dispatchOnAllRanks : Bool) (status : DpuError) (currentRanks : List Rank)
    (currentNrOfDpus : Nat) : Except DpuError (List Rank × Nat) :=
  if status = .allocation ∧ currentRanks ≠ [] ∧ (nrDpus = DPU_ALLOCATE_ALL ∨ dispatchOnAllRanks = true) then
    if dispatchOnAllRanks = true ∧ currentNrOfDpus < nrDpus then .error status
    else .ok (currentRanks, currentNrOfDpus)
  else .error status

/-- The loop of `dpu_alloc`. When the backend has no more ranks it answers `DPU_ERR_ALLOCATION`. -/
def allocLoop (nrDpus : Nat) (dispatchOnAllRanks : Bool) :
    List (Except Failure Handout) → List Rank → Nat → Except DpuError (List Rank × Nat)
  | [], currentRanks, currentNrOfDpus =>
    endWithoutRank nrDpus dispatchOnAllRanks .allocation currentRanks currentNrOfDpus
  | .error failure :: _, currentRanks, currentNrOfDpus =>
    endWithoutRank nrDpus dispatchOnAllRanks failure.val currentRanks currentNrOfDpus
  | .ok handout :: rest, currentRanks, currentNrOfDpus =>
    let (status, nextRank) := handout.reset
    if status ≠ .ok then .error status
    else
      let currentRanks := currentRanks ++ [nextRank]
      let currentNrOfDpus := currentNrOfDpus + getNrOfDpusInRank nextRank
      if currentRanks.length < nrDpus ∧ (dispatchOnAllRanks = true ∨ currentNrOfDpus < nrDpus) then
        allocLoop nrDpus dispatchOnAllRanks rest currentRanks currentNrOfDpus
      else .ok (currentRanks, currentNrOfDpus)

/-- What `disable_one_dpu` finds on a line: the number of disabled DPUs, the
last control interface with an enabled one and whether there is one. -/
def scanLine (rank : Rank) (line : Nat) : Nat × Nat × Bool :=
  (List.range rank.nrCis).foldl (fun (countDisabledOnLine, ciEnabled, oneEnabledOnLine) ci =>
    if (rank.dpus ci line).enabled then (countDisabledOnLine, ci, true)
    else (countDisabledOnLine + 1, ciEnabled, oneEnabledOnLine)) (0, 0, false)

/-- The local variables of `disable_one_dpu`. The target is a rank, a control interface and a line. -/
structure DisableSearch where
  target : Option (Nat × Nat × Nat)
  maxDisabledDpusOnLine : Nat
  maxEnabledDpusOnRank : Nat

def searchLine (rank : Rank) (eachRank : Nat) (search : DisableSearch) (line : Nat) : DisableSearch :=
  let (countDisabledOnLine, ciEnabled, oneEnabledOnLine) := scanLine rank line
  if oneEnabledOnLine = true ∧ (search.maxDisabledDpusOnLine < countDisabledOnLine ∨
      countDisabledOnLine = search.maxDisabledDpusOnLine ∧
        search.maxEnabledDpusOnRank ≤ getNrOfDpusInRank rank) then
    { target := some (eachRank, ciEnabled, line)
      maxDisabledDpusOnLine := countDisabledOnLine
      maxEnabledDpusOnRank := getNrOfDpusInRank rank }
  else search

def searchRank (search : DisableSearch) (rank : Rank × Nat) : DisableSearch :=
  if getNrOfDpusInRank rank.1 = 1 then search
  else (List.range rank.1.nrDpusPerCi).foldl (searchLine rank.1 rank.2) search

/-- `dpu_disable_one_dpu`, with the answer of the backend. -/
def dpuDisableOneDpu (disableDpu : DpuError) (sliceId dpuId : Nat) (rank : Rank) : DpuError × Rank :=
  if !(rank.dpus sliceId dpuId).enabled then (.dpuDisabled, rank)
  else if disableDpu ≠ .ok then (disableDpu, rank)
  else
    (.ok, { rank with
      dpus := fun ci dpu =>
        if ci = sliceId ∧ dpu = dpuId then { rank.dpus ci dpu with enabled := false } else rank.dpus ci dpu
      sliceInfo := fun ci =>
        if ci = sliceId then
          { rank.sliceInfo ci with
            enabledDpus := (rank.sliceInfo ci).enabledDpus &&& ~~~ (1#32 <<< dpuId)
            allDpusAreEnabled := false }
        else rank.sliceInfo ci })

def disableOneDpu (disableDpu : DpuError) (ranks : List Rank) : AllocResult :=
  match (ranks.zipIdx.foldl searchRank ⟨none, 0, 0⟩).target with
  | none => .failedAssertion
  | some (targetRank, targetCi, targetLine) =>
    match ranks[targetRank]? with
    | none => .failedAssertion
    | some rank =>
      let (status, rank) := dpuDisableOneDpu disableDpu targetCi targetLine rank
      if status ≠ .ok then .error status else .ok (ranks.set targetRank rank)

/-- The loop of `disable_unused_dpus`, with the DPUs it has disabled and has left to disable. -/
def disableLoop (disableDpu : Nat → DpuError) : Nat → Nat → List Rank → AllocResult
  | _, 0, ranks => .ok ranks
  | nrDisabledDpus, left + 1, ranks =>
    match disableOneDpu (disableDpu nrDisabledDpus) ranks with
    | .ok ranks => disableLoop disableDpu (nrDisabledDpus + 1) left ranks
    | result => result

def disableUnusedDpus (disableDpu : Nat → DpuError) (currentNrOfDpus nrDpus : Nat) (currentRanks : List Rank) :
    AllocResult :=
  if currentRanks = [] ∨ currentNrOfDpus < nrDpus then .failedAssertion
  else disableLoop disableDpu 0 (currentNrOfDpus - nrDpus) currentRanks

/-- `dpu_alloc`. The profile, if it is valid, tells whether to dispatch on all
ranks; `initSet` is the status of what remains when the DPUs have been chosen.
The numbers of ranks and DPUs stay below the bound of a `uint32_t`. -/
def dpuAlloc (nrDpus : Nat) (profile : Option Bool) (handouts : List (Except Failure Handout))
    (disableDpu : Nat → DpuError) (initSet : DpuError) : AllocResult :=
  if nrDpus = 0 then .error .allocation
  else match profile with
  | none => .error .invalidProfile
  | some dispatchOnAllRanks =>
    match allocLoop nrDpus (dispatchOnAllRanks && decide (nrDpus ≠ DPU_ALLOCATE_ALL)) handouts [] 0 with
    | .error status => .error status
    | .ok (currentRanks, currentNrOfDpus) =>
      let nrDpus := if nrDpus = DPU_ALLOCATE_ALL then currentNrOfDpus else nrDpus
      match disableUnusedDpus disableDpu currentNrOfDpus nrDpus currentRanks with
      | .ok set => if initSet ≠ .ok then .error initSet else .ok set
      | result => result

/-- The scan of a line finds an enabled DPU if there is one. -/
theorem scanLine_spec (rank : Rank) (line : Nat) :
    ((scanLine rank line).2.2 = true ↔ ∃ ci < rank.nrCis, rank.enabledSet ci line = true) ∧
      ((scanLine rank line).2.2 = true →
        (scanLine rank line).2.1 < rank.nrCis ∧ rank.enabledSet (scanLine rank line).2.1 line = true) := by
  unfold scanLine
  induction rank.nrCis with
  | zero => simp
  | succ n ih =>
    rw [List.range_succ, List.foldl_append, List.foldl_cons, List.foldl_nil]
    generalize (List.range n).foldl _ (0, 0, false) = scanned at ih ⊢
    obtain ⟨count, ciEnabled, one⟩ := scanned
    obtain ⟨found, inside⟩ := ih
    dsimp only at found inside ⊢
    by_cases enabled : (rank.dpus n line).enabled = true
    · rw [if_pos enabled]
      exact ⟨iff_of_true rfl ⟨n, Nat.lt_succ_self n, enabled⟩, fun _ => ⟨Nat.lt_succ_self n, enabled⟩⟩
    · rw [if_neg enabled]
      refine ⟨found.trans ⟨fun ⟨ci, below, at_ci⟩ => ⟨ci, Nat.lt_succ_of_lt below, at_ci⟩, ?_⟩, fun some => ?_⟩
      · rintro ⟨ci, below, at_ci⟩
        have other : ci ≠ n := fun same => enabled (same ▸ at_ci)
        exact ⟨ci, by omega, at_ci⟩
      · exact ⟨Nat.lt_succ_of_lt (inside some).1, (inside some).2⟩

/-- A target of the search is an enabled DPU of a rank that has another one,
and no search without a target has seen a candidate. -/
structure DisableSearch.Sound (ranks : List Rank) (search : DisableSearch) : Prop where
  enabled : ∀ r ci line, search.target = some (r, ci, line) → ∃ rank, ranks[r]? = some rank ∧
    getNrOfDpusInRank rank ≠ 1 ∧ ci < rank.nrCis ∧ line < rank.nrDpusPerCi ∧ rank.enabledSet ci line = true
  fresh : search.target = none → search.maxDisabledDpusOnLine = 0 ∧ search.maxEnabledDpusOnRank = 0

theorem DisableSearch.Sound.line {ranks : List Rank} {search : DisableSearch} (sound : search.Sound ranks)
    {r line : Nat} {rank : Rank} (here : ranks[r]? = some rank) (more : getNrOfDpusInRank rank ≠ 1)
    (inside : line < rank.nrDpusPerCi) :
    (searchLine rank r search line).Sound ranks ∧
      (search.target ≠ none ∨ (∃ ci < rank.nrCis, rank.enabledSet ci line = true) →
        (searchLine rank r search line).target ≠ none) := by
  obtain ⟨found, at_ci⟩ := scanLine_spec rank line
  unfold searchLine
  generalize scanLine rank line = scanned at found at_ci
  obtain ⟨count, ciEnabled, one⟩ := scanned
  dsimp only at found at_ci ⊢
  by_cases chosen : one = true ∧ (search.maxDisabledDpusOnLine < count ∨
      count = search.maxDisabledDpusOnLine ∧ search.maxEnabledDpusOnRank ≤ getNrOfDpusInRank rank)
  · rw [if_pos chosen]
    refine ⟨⟨fun r' ci' line' same => ?_, by simp⟩, by simp⟩
    obtain ⟨rfl, rfl, rfl⟩ : r = r' ∧ ciEnabled = ci' ∧ line = line' := by simpa using same
    exact ⟨rank, here, more, (at_ci chosen.1).1, inside, (at_ci chosen.1).2⟩
  · rw [if_neg chosen]
    refine ⟨sound, fun candidate => ?_⟩
    by_contra none
    obtain ⟨disabled, enabled⟩ := sound.fresh none
    have one : one = true := found.mpr (candidate.resolve_left (not_not.mpr none))
    exact chosen ⟨one, by omega⟩

theorem DisableSearch.Sound.rank {ranks : List Rank} {search : DisableSearch} (sound : search.Sound ranks)
    {r : Nat} {rank : Rank} (here : ranks[r]? = some rank) :
    (searchRank search (rank, r)).Sound ranks ∧
      (search.target ≠ none ∨ getNrOfDpusInRank rank ≠ 1 ∧
        (∃ ci < rank.nrCis, ∃ line < rank.nrDpusPerCi, rank.enabledSet ci line = true) →
        (searchRank search (rank, r)).target ≠ none) := by
  unfold searchRank
  by_cases single : getNrOfDpusInRank rank = 1
  · rw [if_pos single]
    exact ⟨sound, fun candidate => candidate.resolve_right fun both => both.1 single⟩
  · rw [if_neg single]
    have lines (n : Nat) (below : n ≤ rank.nrDpusPerCi) :
        ((List.range n).foldl (searchLine rank r) search).Sound ranks ∧
          (search.target ≠ none ∨ (∃ ci < rank.nrCis, ∃ line < n, rank.enabledSet ci line = true) →
            ((List.range n).foldl (searchLine rank r) search).target ≠ none) := by
      induction n with
      | zero => exact ⟨sound, fun candidate => candidate.resolve_right (by simp)⟩
      | succ n ih =>
        obtain ⟨before, earlier⟩ := ih (by omega)
        obtain ⟨after, later⟩ := before.line here single below
        rw [List.range_succ, List.foldl_append, List.foldl_cons, List.foldl_nil]
        refine ⟨after, ?_⟩
        rintro (some | ⟨ci, ciInside, line, lineInside, enabled⟩)
        · exact later (.inl (earlier (.inl some)))
        · by_cases last : line = n
          · exact later (.inr ⟨ci, ciInside, last ▸ enabled⟩)
          · exact later (.inl (earlier (.inr ⟨ci, ciInside, line, by omega, enabled⟩)))
    obtain ⟨after, found⟩ := lines rank.nrDpusPerCi le_rfl
    exact ⟨after, fun candidate => found (candidate.imp_right And.right)⟩

/-- The search finds a target if some rank has more than one enabled DPU. -/
theorem searchRanks_sound (ranks : List Rank) :
    (ranks.zipIdx.foldl searchRank ⟨none, 0, 0⟩).Sound ranks ∧
      ((∃ rank ∈ ranks, getNrOfDpusInRank rank ≠ 1 ∧
        (∃ ci < rank.nrCis, ∃ line < rank.nrDpusPerCi, rank.enabledSet ci line = true)) →
        (ranks.zipIdx.foldl searchRank ⟨none, 0, 0⟩).target ≠ none) := by
  have prefixes (seen : List Rank) (rest : List Rank) (split : ranks = seen ++ rest) :
      (seen.zipIdx.foldl searchRank ⟨none, 0, 0⟩).Sound ranks ∧
        ((∃ rank ∈ seen, getNrOfDpusInRank rank ≠ 1 ∧
          (∃ ci < rank.nrCis, ∃ line < rank.nrDpusPerCi, rank.enabledSet ci line = true)) →
          (seen.zipIdx.foldl searchRank ⟨none, 0, 0⟩).target ≠ none) := by
    induction seen using List.reverseRecOn generalizing rest with
    | nil => exact ⟨⟨by simp, by simp⟩, by simp⟩
    | append_singleton seen rank ih =>
      obtain ⟨before, earlier⟩ := ih (rank :: rest) (by rw [split, List.append_assoc]; rfl)
      have here : ranks[seen.length]? = some rank := by
        rw [split, List.append_assoc, List.getElem?_append_right le_rfl, Nat.sub_self]
        rfl
      obtain ⟨after, later⟩ := before.rank here
      rw [List.zipIdx_append, List.foldl_append, Nat.zero_add]
      refine ⟨after, ?_⟩
      rintro ⟨other, member, candidate⟩
      rcases List.mem_append.mp member with old | new
      · exact later (.inl (earlier ⟨other, old, candidate⟩))
      · obtain rfl := List.mem_singleton.mp new
        exact later (.inr candidate)
  exact prefixes ranks [] (List.append_nil ranks).symm

theorem getNrOfDpusInRank_eq_sum {rank : Rank} (agrees : rank.Agrees) :
    getNrOfDpusInRank rank = rank.sumCis fun ci => (List.range rank.nrDpusPerCi).countP (rank.enabledSet ci) :=
  Rank.sumCis_congr fun _ inside => agrees.count_ci inside

theorem exists_enabled {rank : Rank} (agrees : rank.Agrees) (some : 0 < getNrOfDpusInRank rank) :
    ∃ ci < rank.nrCis, ∃ line < rank.nrDpusPerCi, rank.enabledSet ci line = true := by
  by_contra none
  push Not at none
  have zero : getNrOfDpusInRank rank = 0 := by
    rw [getNrOfDpusInRank_eq_sum agrees, Rank.sumCis_eq_zero]
    intro ci inside
    exact List.countP_eq_zero.mpr fun line member => none ci inside line (List.mem_range.mp member)
  omega

/-- Taking one out of the numbers that a predicate counts. -/
theorem countP_range_remove {n line : Nat} (below : line < n) {p : Nat → Bool} (here : p line = true) :
    (List.range n).countP p = (List.range n).countP (fun d => p d && !decide (d = line)) + 1 := by
  induction n with
  | zero => exact absurd below (Nat.not_lt_zero line)
  | succ n ih =>
    rw [List.range_succ, List.countP_append, List.countP_append, List.countP_singleton, List.countP_singleton]
    by_cases last : line = n
    · subst last
      have same : (List.range line).countP (fun d => p d && !decide (d = line)) = (List.range line).countP p :=
        List.countP_congr fun d member => by simp [(List.mem_range.mp member).ne]
      simp [here, same]
    · rw [ih (by omega)]
      have kept : (p n && !decide (n = line)) = p n := by simp [Ne.symm last]
      rw [kept]
      omega

/-- The rank without one of its enabled DPUs. -/
def Rank.without (rank : Rank) (sliceId dpuId : Nat) : Rank :=
  rank.withEnabled fun ci dpu => rank.enabledSet ci dpu && !(decide (dpu = dpuId) && decide (ci = sliceId))

theorem Rank.without_agrees (rank : Rank) (sliceId dpuId : Nat) : (rank.without sliceId dpuId).Agrees :=
  rank.withEnabled_agrees _

section
variable {rank : Rank} {sliceId dpuId : Nat} (agrees : rank.Agrees) (ciInside : sliceId < rank.nrCis)
  (dpuInside : dpuId < rank.nrDpusPerCi) (enabled : rank.enabledSet sliceId dpuId = true)
include agrees ciInside dpuInside enabled

theorem dpuDisableOneDpu_eq (disableDpu : DpuError) : dpuDisableOneDpu disableDpu sliceId dpuId rank =
    (disableDpu, if disableDpu = .ok then rank.without sliceId dpuId else rank) := by
  have flag : (rank.dpus sliceId dpuId).enabled = true := enabled
  have marked : rank.without sliceId dpuId = rank.markUnrepairable dpuId fun ci => decide (ci = sliceId) := by
    have chain := Rank.markUnrepairable_withEnabled dpuInside rank.enabledSet fun ci => decide (ci = sliceId)
    rw [agrees.withEnabled_eq] at chain
    exact chain.symm
  have inside (ci : Nat) : ci < rank.nrCis ∧ decide (ci = sliceId) = true ↔ ci = sliceId := by
    rw [decide_eq_true_iff, and_iff_right_iff_imp]
    rintro rfl
    exact ciInside
  have both (ci dpu : Nat) : ci < rank.nrCis ∧ dpu = dpuId ∧ decide (ci = sliceId) = true ↔
      ci = sliceId ∧ dpu = dpuId := by
    rw [and_left_comm, inside, and_comm]
  by_cases ok : disableDpu = .ok
  · subst ok
    simp only [dpuDisableOneDpu, flag, marked, Rank.markUnrepairable, inside, both]
    rfl
  · simp [dpuDisableOneDpu, flag, ok]

theorem getNrOfDpusInRank_without :
    getNrOfDpusInRank rank = getNrOfDpusInRank (rank.without sliceId dpuId) + 1 := by
  have sets (ci : Nat) (inside : ci < rank.nrCis) :
      (List.range rank.nrDpusPerCi).countP ((rank.without sliceId dpuId).enabledSet ci) =
        (List.range rank.nrDpusPerCi).countP fun dpu =>
          rank.enabledSet ci dpu && !(decide (dpu = dpuId) && decide (ci = sliceId)) :=
    List.countP_congr fun dpu member => by
      rw [Rank.without, Rank.withEnabled_enabledSet inside (List.mem_range.mp member)]
  have after : getNrOfDpusInRank (rank.without sliceId dpuId) = rank.sumCis fun ci =>
      (List.range rank.nrDpusPerCi).countP fun dpu =>
        rank.enabledSet ci dpu && !(decide (dpu = dpuId) && decide (ci = sliceId)) := by
    rw [getNrOfDpusInRank_eq_sum (rank.without_agrees sliceId dpuId)]
    exact Rank.sumCis_congr sets
  rw [getNrOfDpusInRank_eq_sum agrees, after]
  refine Rank.sumCis_update ciInside ?_ fun ci other => ?_
  · rw [countP_range_remove dpuInside enabled]
    simp
  · simp [other]

end

/-- A rank of a set has lost one of at least two enabled DPUs. -/
structure OneDisabled (before after : List Rank) : Prop where
  length : after.length = before.length
  agrees : ∀ rank ∈ after, rank.Agrees
  sum : (after.map getNrOfDpusInRank).sum + 1 = (before.map getNrOfDpusInRank).sum
  nonempty : (∀ rank ∈ after, 0 < getNrOfDpusInRank rank) ↔ ∀ rank ∈ before, 0 < getNrOfDpusInRank rank

/-- As long as there are more enabled DPUs than ranks, one can be disabled. -/
theorem disableOneDpu_eq {ranks : List Rank} (agree : ∀ rank ∈ ranks, rank.Agrees)
    (more : ranks.length < (ranks.map getNrOfDpusInRank).sum) :
    ∃ after, OneDisabled ranks after ∧ ∀ disableDpu,
      disableOneDpu disableDpu ranks = if disableDpu = .ok then .ok after else .error disableDpu := by
  obtain ⟨sound, found⟩ := searchRanks_sound ranks
  obtain ⟨wide, member, several⟩ : ∃ rank ∈ ranks, 1 < getNrOfDpusInRank rank := by
    by_contra none
    push Not at none
    have least := List.sum_le_card_nsmul (ranks.map getNrOfDpusInRank) 1 (by simpa using none)
    rw [List.length_map, Nat.nsmul_eq_mul, Nat.mul_one] at least
    omega
  have target := found ⟨wide, member, several.ne', exists_enabled (agree wide member) (by omega)⟩
  obtain ⟨⟨r, ci, line⟩, at_target⟩ := Option.ne_none_iff_exists'.mp target
  obtain ⟨rank, here, not_single, ciInside, lineInside, enabled⟩ := sound.enabled r ci line at_target
  have own : rank.Agrees := agree rank (List.mem_of_getElem? here)
  obtain ⟨inside, at_rank⟩ := List.getElem?_eq_some_iff.mp here
  obtain ⟨front, back, split, place, replaced⟩ := @List.exists_of_set _ r (rank.without ci line) ranks inside
  rw [at_rank] at split
  have count := getNrOfDpusInRank_without own ciInside lineInside enabled
  refine ⟨ranks.set r (rank.without ci line), ⟨List.length_set, fun each member => ?_, ?_, ?_⟩,
    fun disableDpu => ?_⟩
  · rcases List.mem_or_eq_of_mem_set member with kept | rfl
    · exact agree each kept
    · exact rank.without_agrees ci line
  · rw [replaced, split]
    simp only [List.map_append, List.map_cons, List.sum_append, List.sum_cons, count]
    omega
  · have still : 0 < getNrOfDpusInRank (rank.without ci line) ↔ 0 < getNrOfDpusInRank rank := by omega
    rw [replaced, split]
    simp only [List.forall_mem_append, List.forall_mem_cons, still]
  · simp only [disableOneDpu, at_target, here, dpuDisableOneDpu_eq own ciInside lineInside enabled]
    by_cases ok : disableDpu = .ok <;> simp [ok]

/-- Some ranks of a set have lost `n` enabled DPUs together, and none its last one. -/
structure Disabled (n : Nat) (before after : List Rank) : Prop where
  sum : (after.map getNrOfDpusInRank).sum + n = (before.map getNrOfDpusInRank).sum
  nonempty : (∀ rank ∈ after, 0 < getNrOfDpusInRank rank) ↔ ∀ rank ∈ before, 0 < getNrOfDpusInRank rank

/-- Disabling ends well unless the backend refuses to disable a DPU. -/
theorem disableLoop_eq (left : Nat) {ranks : List Rank} (agree : ∀ rank ∈ ranks, rank.Agrees)
    (enough : ranks.length + left ≤ (ranks.map getNrOfDpusInRank).sum) :
    ∃ after, Disabled left ranks after ∧ ∀ disableDpu done,
      ((∀ k < left, disableDpu (done + k) = .ok) → disableLoop disableDpu done left ranks = .ok after) ∧
        ((∃ k < left, disableDpu (done + k) ≠ .ok) → ∃ status,
          disableLoop disableDpu done left ranks = .error status) := by
  induction left generalizing ranks with
  | zero => exact ⟨ranks, ⟨rfl, Iff.rfl⟩, fun disableDpu done => ⟨fun _ => rfl, by simp⟩⟩
  | succ left ih =>
    obtain ⟨next, one, disabled⟩ := disableOneDpu_eq agree (by omega)
    obtain ⟨after, later, rest⟩ := ih one.agrees (by rw [one.length]; have := one.sum; omega)
    refine ⟨after, ⟨by have := one.sum; have := later.sum; omega, later.nonempty.trans one.nonempty⟩,
      fun disableDpu done => ?_⟩
    obtain ⟨passes, fails⟩ := rest disableDpu (done + 1)
    simp only [disableLoop, disabled]
    constructor
    · intro all
      have first : disableDpu done = .ok := all 0 (Nat.succ_pos left)
      rw [if_pos first]
      refine passes fun k below => ?_
      rw [Nat.add_assoc, Nat.add_comm 1]
      exact all (k + 1) (Nat.succ_lt_succ below)
    · rintro ⟨k, below, failed⟩
      by_cases first : disableDpu done = .ok
      · rw [if_pos first]
        cases k with
        | zero => exact absurd first failed
        | succ k => exact fails ⟨k, Nat.lt_of_succ_lt_succ below, by rwa [Nat.add_assoc, Nat.add_comm 1]⟩
      · rw [if_neg first]
        exact ⟨_, rfl⟩

theorem dpuResetRank_agrees {rank : Rank} (agrees : rank.Agrees) (call : ResetCall → DpuError) :
    (dpuResetRank call rank).2.Agrees := by
  obtain ⟨base, _, left, _⟩ := ciResetRank_exit agrees call
  have restored : (ciResetRank call rank).2.Agrees := left ▸ base.withEnabled_agrees _
  simp only [dpuResetRank]
  split_ifs
  · exact agrees
  · exact restored
  · exact restored

theorem Handout.reset_agrees (handout : Handout) : handout.reset.2.Agrees := by
  unfold Handout.reset
  split_ifs
  · exact dpuResetRank_agrees handout.agrees handout.call
  · exact handout.agrees

/-- The ranks that are handed out before a request fails. -/
def handedOut : List (Except Failure Handout) → List Rank
  | .ok handout :: rest => handout.reset.2 :: handedOut rest
  | _ => []

/-- The ranks and the number of DPUs with which the allocation loop ends well. -/
structure AllocLoopDone (nrDpus : Nat) (dispatchOnAllRanks : Bool) (handed : List Rank) (currentRanks : List Rank)
    (currentNrOfDpus : Nat) : Prop where
  agrees : ∀ rank ∈ currentRanks, rank.Agrees
  sum : currentNrOfDpus = (currentRanks.map getNrOfDpusInRank).sum
  some : currentRanks ≠ []
  length : currentRanks.length ≤ nrDpus
  front : ∃ rest, handed = currentRanks ++ rest
  stopped : currentRanks.length = nrDpus ∨ dispatchOnAllRanks = false ∧ nrDpus ≤ currentNrOfDpus ∨
    currentRanks = handed ∧ (nrDpus = DPU_ALLOCATE_ALL ∨ dispatchOnAllRanks = true) ∧
      (dispatchOnAllRanks = true → nrDpus ≤ currentNrOfDpus)

theorem endWithoutRank_ok_iff {nrDpus : Nat} {dispatchOnAllRanks : Bool} {status : DpuError}
    {ranks ranks' : List Rank} {current current' : Nat} :
    endWithoutRank nrDpus dispatchOnAllRanks status ranks current = .ok (ranks', current') ↔
      ranks' = ranks ∧ current' = current ∧ status = .allocation ∧ ranks ≠ [] ∧
        (nrDpus = DPU_ALLOCATE_ALL ∨ dispatchOnAllRanks = true) ∧ (dispatchOnAllRanks = true → nrDpus ≤ current) := by
  unfold endWithoutRank
  constructor
  · intro ended
    split_ifs at ended with goes short
    cases ended
    obtain ⟨allocation, some, which⟩ := goes
    exact ⟨rfl, rfl, allocation, some, which, fun dispatch => not_lt.mp fun below => short ⟨dispatch, below⟩⟩
  · rintro ⟨rfl, rfl, allocation, some, which, enough⟩
    rw [if_pos ⟨allocation, some, which⟩, if_neg fun short => absurd (enough short.1) (not_le.mpr short.2)]

theorem allocLoop_done {nrDpus : Nat} {dispatchOnAllRanks : Bool} {handouts : List (Except Failure Handout)}
    {ranks ranks' : List Rank} {current current' : Nat}
    (run : allocLoop nrDpus dispatchOnAllRanks handouts ranks current = .ok (ranks', current'))
    (agree : ∀ rank ∈ ranks, rank.Agrees) (sum : current = (ranks.map getNrOfDpusInRank).sum)
    (below : ranks.length < nrDpus) :
    AllocLoopDone nrDpus dispatchOnAllRanks (ranks ++ handedOut handouts) ranks' current' := by
  induction handouts generalizing ranks current with
  | nil =>
    obtain ⟨rfl, rfl, -, some, all, enough⟩ := endWithoutRank_ok_iff.mp run
    exact ⟨agree, sum, some, below.le, ⟨[], rfl⟩, .inr (.inr ⟨(List.append_nil _).symm, all, enough⟩)⟩
  | cons request rest ih =>
    cases request with
    | error failure =>
      obtain ⟨rfl, rfl, -, some, all, enough⟩ := endWithoutRank_ok_iff.mp run
      exact ⟨agree, sum, some, below.le, ⟨[], rfl⟩, .inr (.inr ⟨(List.append_nil _).symm, all, enough⟩)⟩
    | ok handout =>
      simp only [allocLoop] at run
      split at run
      next => cases run
      next reset =>
        have agree' : ∀ rank ∈ ranks ++ [handout.reset.2], rank.Agrees := by
          simp only [List.forall_mem_append, List.forall_mem_singleton]
          exact ⟨agree, handout.reset_agrees⟩
        have sum' : current + getNrOfDpusInRank handout.reset.2 =
            ((ranks ++ [handout.reset.2]).map getNrOfDpusInRank).sum := by simp [sum]
        have handed : ranks ++ handedOut (.ok handout :: rest) = ranks ++ [handout.reset.2] ++ handedOut rest := by
          simp [handedOut]
        split at run
        next more =>
          rw [handed]
          exact ih run agree' sum' more.1
        next last =>
          cases run
          rw [handed]
          refine ⟨agree', sum', by simp, by simpa using below, ⟨_, rfl⟩, ?_⟩
          rw [List.length_append, List.length_singleton] at last ⊢
          cases dispatchOnAllRanks <;> simp at last ⊢ <;> omega

/-- What the caller of `dpu_alloc` relies on. -/
structure AllocSound (nrDpus : Nat) (handouts : List (Except Failure Handout)) (result : AllocResult) : Prop where
  asserted : result ≠ .failedAssertion
  exact : nrDpus ≠ DPU_ALLOCATE_ALL → ∀ set, result = .ok set → (set.map getNrOfDpusInRank).sum = nrDpus
  all : nrDpus = DPU_ALLOCATE_ALL → ((handedOut handouts).map getNrOfDpusInRank).sum < DPU_ALLOCATE_ALL →
    ∀ set, result = .ok set → set = handedOut handouts
  nonempty : ∀ set, result = .ok set → ∀ rank ∈ set, 0 < getNrOfDpusInRank rank

/-- The enabled DPUs of ranks that are taken. -/
def dpusOf (taken : List Handout) : Nat :=
  (taken.map fun handout => getNrOfDpusInRank handout.reset.2).sum

section
variable (nrDpus : Nat) (dispatchOnAllRanks : Bool)

/-- The call asks for another rank behind those that it has taken. -/
def AsksForMore (taken : List Handout) : Prop :=
  taken.length < nrDpus ∧ (dispatchOnAllRanks = true ∨ dpusOf taken < nrDpus)

instance (taken : List Handout) : Decidable (AsksForMore nrDpus dispatchOnAllRanks taken) :=
  inferInstanceAs (Decidable (_ ∧ _))

/-- The next request fails because the backend has no more ranks, and the call is content with those it has. -/
structure NoMore (requests : List (Except Failure Handout)) (taken : List Handout) : Prop where
  refused : ∀ request ∈ requests.head?, ∃ failure : Failure, request = .error failure ∧ failure.val = .allocation
  some : taken ≠ []
  content : (nrDpus = DPU_ALLOCATE_ALL ∨ dispatchOnAllRanks = true) ∧
    (dispatchOnAllRanks = true → nrDpus ≤ dpusOf taken)

/-- Behind some ranks that it has taken, the call takes those of `more`, the
first handouts that are left, and no others. -/
structure Takes (before : List Handout) (handouts : List (Except Failure Handout))
    (more : List Handout) : Prop where
  first : more.map .ok = handouts.take more.length
  reset : ∀ handout ∈ more, handout.reset.1 = .ok
  asks : ∀ n < more.length, 0 < n → AsksForMore nrDpus dispatchOnAllRanks (before ++ more.take n)
  ends : more ≠ [] ∧ ¬AsksForMore nrDpus dispatchOnAllRanks (before ++ more) ∨
    NoMore nrDpus dispatchOnAllRanks (handouts.drop more.length) (before ++ more)

end

/-- No rank that the call takes is left without enabled DPUs by its reset, or
the call fails when the DPUs have been counted. -/
def KeepsEveryRank (nrDpus : Nat) (profile : Option Bool) (handouts : List (Except Failure Handout))
    (disableDpu : Nat → DpuError) (initSet : DpuError) : Prop :=
  nrDpus ≠ 0 → ∀ dispatchOnAllRanks, profile = some dispatchOnAllRanks → ∀ taken,
    Takes nrDpus (dispatchOnAllRanks && decide (nrDpus ≠ DPU_ALLOCATE_ALL)) [] handouts taken →
      (∀ handout ∈ taken, 0 < getNrOfDpusInRank handout.reset.2) ∨
        (let wanted := if nrDpus = DPU_ALLOCATE_ALL then dpusOf taken else nrDpus
        wanted ≤ dpusOf taken ∧ ((∃ k < dpusOf taken - wanted, disableDpu k ≠ .ok) ∨ initSet ≠ .ok))

section
variable {nrDpus : Nat} {dispatchOnAllRanks : Bool} {handouts rest : List (Except Failure Handout)}
  {before taken more : List Handout} {handout : Handout} {ranks : List Rank} {current : Nat}

theorem dpusOf_append (before more : List Handout) : dpusOf (before ++ more) = dpusOf before + dpusOf more := by
  rw [dpusOf, List.map_append, List.sum_append]
  rfl

/-- When a request fails. -/
theorem endWithoutRank_noMore_iff (requests : List (Except Failure Handout)) {status : DpuError}
    (refused : status = .allocation ↔
      ∀ request ∈ requests.head?, ∃ failure : Failure, request = .error failure ∧ failure.val = .allocation) :
    endWithoutRank nrDpus dispatchOnAllRanks status (taken.map fun each => each.reset.2) (dpusOf taken) =
        .ok (ranks, current) ↔
      NoMore nrDpus dispatchOnAllRanks requests taken ∧ ranks = taken.map (fun each => each.reset.2) ∧
        current = dpusOf taken := by
  rw [endWithoutRank_ok_iff]
  constructor
  · rintro ⟨rfl, rfl, allocation, some, content⟩
    exact ⟨⟨refused.mp allocation, fun none => some (by rw [none]; rfl), content⟩, rfl, rfl⟩
  · rintro ⟨noMore, rfl, rfl⟩
    exact ⟨rfl, rfl, refused.mpr noMore.refused, mt List.map_eq_nil_iff.mp noMore.some, noMore.content⟩

theorem takes_nil_iff : Takes nrDpus dispatchOnAllRanks before handouts [] ↔
    NoMore nrDpus dispatchOnAllRanks handouts before :=
  ⟨fun takes => by simpa using takes.ends, fun none => ⟨rfl, by simp, by simp, .inr (by simpa using none)⟩⟩

theorem Takes.eq_nil (takes : Takes nrDpus dispatchOnAllRanks before handouts more)
    (refused : ∀ handout, handouts.head? ≠ some (.ok handout)) : more = [] := by
  cases more with
  | nil => rfl
  | cons handout more =>
    have first := congrArg List.head? takes.first
    rw [List.length_cons, List.head?_take, if_neg (Nat.succ_ne_zero _)] at first
    exact absurd first.symm (refused handout)

/-- The first of the handouts that a call takes. -/
theorem takes_cons_iff : Takes nrDpus dispatchOnAllRanks before (.ok handout :: rest) (handout :: more) ↔
    handout.reset.1 = .ok ∧
      if AsksForMore nrDpus dispatchOnAllRanks (before ++ [handout]) then
        Takes nrDpus dispatchOnAllRanks (before ++ [handout]) rest more
      else more = [] := by
  constructor
  · intro takes
    refine ⟨takes.reset handout List.mem_cons_self, ?_⟩
    split_ifs with asks
    · refine ⟨by simpa using takes.first, fun other member => takes.reset other (List.mem_cons_of_mem _ member),
        fun n below _ => ?_, ?_⟩
      · simpa using takes.asks (n + 1) (Nat.succ_lt_succ below) n.succ_pos
      · rcases takes.ends with ⟨_, ended⟩ | none
        · refine .inl ⟨?_, by simpa using ended⟩
          rintro rfl
          exact ended asks
        · exact .inr (by simpa using none)
    · by_contra some
      have second := takes.asks 1 (Nat.succ_lt_succ (List.length_pos_iff.mpr some)) Nat.one_pos
      exact asks (by simpa using second)
  · rintro ⟨reset, left⟩
    split_ifs at left with asks
    · refine ⟨by simp [left.first], List.forall_mem_cons.mpr ⟨reset, left.reset⟩, fun n below positive => ?_, ?_⟩
      · obtain ⟨n, rfl⟩ := Nat.exists_eq_succ_of_ne_zero positive.ne'
        cases n with
        | zero => simpa using asks
        | succ n => simpa using left.asks (n + 1) (Nat.lt_of_succ_lt_succ below) n.succ_pos
      · rcases left.ends with ⟨_, ended⟩ | none
        · exact .inl ⟨List.cons_ne_nil _ _, by simpa using ended⟩
        · exact .inr (by simpa using none)
    · subst left
      refine ⟨rfl, List.forall_mem_singleton.mpr reset,
        fun n below positive => ?_, .inl ⟨List.cons_ne_nil _ _, asks⟩⟩
      exact absurd (Nat.lt_one_iff.mp below) positive.ne'

/-- A call that is handed a rank takes it. -/
theorem exists_takes_iff {P : List Handout → Prop} :
    (∃ more, Takes nrDpus dispatchOnAllRanks before (.ok handout :: rest) more ∧ P (before ++ more)) ↔
      handout.reset.1 = .ok ∧ ∃ more, (if AsksForMore nrDpus dispatchOnAllRanks (before ++ [handout]) then
        Takes nrDpus dispatchOnAllRanks (before ++ [handout]) rest more else more = []) ∧
          P (before ++ [handout] ++ more) := by
  constructor
  · rintro ⟨more, takes, taken⟩
    cases more with
    | nil =>
      obtain ⟨_, refused, _⟩ := (takes_nil_iff.mp takes).refused _ rfl
      cases refused
    | cons other more =>
      obtain rfl : other = handout := by simpa using congrArg List.head? takes.first
      obtain ⟨reset, left⟩ := takes_cons_iff.mp takes
      exact ⟨reset, more, left, by simpa using taken⟩
  · rintro ⟨reset, more, left, taken⟩
    exact ⟨handout :: more, takes_cons_iff.mpr ⟨reset, left⟩, by simpa using taken⟩

/-- How the allocation loop ends well, from some ranks that it has taken. -/
theorem allocLoop_ok_iff :
    allocLoop nrDpus dispatchOnAllRanks handouts (before.map fun each => each.reset.2) (dpusOf before) =
        .ok (ranks, current) ↔
      ∃ more, Takes nrDpus dispatchOnAllRanks before handouts more ∧
        ranks = (before ++ more).map (fun each => each.reset.2) ∧ current = dpusOf (before ++ more) := by
  induction handouts generalizing before with
  | nil =>
    rw [allocLoop, endWithoutRank_noMore_iff [] (by simp), ← takes_nil_iff]
    refine ⟨fun ended => ⟨[], ended.1, by simpa using ended.2⟩, ?_⟩
    rintro ⟨more, takes, taken⟩
    obtain rfl := takes.eq_nil (by simp)
    exact ⟨takes, by simpa using taken⟩
  | cons request rest ih =>
    cases request with
    | error failure =>
      rw [allocLoop, endWithoutRank_noMore_iff (.error failure :: rest) (by simp [Subtype.ext_iff]),
        ← takes_nil_iff]
      refine ⟨fun ended => ⟨[], ended.1, by simpa using ended.2⟩, ?_⟩
      rintro ⟨more, takes, taken⟩
      obtain rfl := takes.eq_nil (by simp)
      exact ⟨takes, by simpa using taken⟩
    | ok handout =>
      have ranksOf : (before.map fun each => each.reset.2) ++ [handout.reset.2] =
          (before ++ [handout]).map fun each => each.reset.2 := by simp
      have dpus : dpusOf before + getNrOfDpusInRank handout.reset.2 = dpusOf (before ++ [handout]) := by
        rw [dpusOf_append]
        simp [dpusOf]
      have first := @exists_takes_iff nrDpus dispatchOnAllRanks rest before handout fun taken =>
        ranks = taken.map (fun each => each.reset.2) ∧ current = dpusOf taken
      rw [first, allocLoop]
      dsimp only
      by_cases reset : handout.reset.1 = .ok
      · rw [if_neg (not_not.mpr reset), ranksOf, dpus, and_iff_right reset]
        by_cases asks : AsksForMore nrDpus dispatchOnAllRanks (before ++ [handout])
        · have again := asks
          rw [AsksForMore] at again
          rw [List.length_map, if_pos again, ih]
          simp only [if_pos asks]
        · have last := asks
          rw [AsksForMore] at last
          rw [List.length_map, if_neg last]
          simp [if_neg asks, eq_comm]
      · rw [if_pos reset]
        exact iff_of_false (by simp) fun both => reset both.1
end

/-- The condition on the ranks and the number of DPUs with which the loop ends. -/
theorem keepsEveryRank_iff (nrDpus : Nat) (profile : Option Bool) (handouts : List (Except Failure Handout))
    (disableDpu : Nat → DpuError) (initSet : DpuError) :
    KeepsEveryRank nrDpus profile handouts disableDpu initSet ↔
      (nrDpus ≠ 0 → ∀ dispatchOnAllRanks, profile = some dispatchOnAllRanks → ∀ ranks current,
        allocLoop nrDpus (dispatchOnAllRanks && decide (nrDpus ≠ DPU_ALLOCATE_ALL)) handouts [] 0 =
            .ok (ranks, current) →
          (∀ rank ∈ ranks, 0 < getNrOfDpusInRank rank) ∨
            (let wanted := if nrDpus = DPU_ALLOCATE_ALL then current else nrDpus
            wanted ≤ current ∧ ((∃ k < current - wanted, disableDpu k ≠ .ok) ∨ initSet ≠ .ok))) := by
  refine forall_congr' fun _ => forall_congr' fun dispatchOnAllRanks => forall_congr' fun _ => ?_
  constructor
  · intro keeps ranks current run
    obtain ⟨taken, takes, rfl, rfl⟩ := (@allocLoop_ok_iff _ _ _ [] ranks current).mp run
    exact (keeps taken takes).imp_left fun each => List.forall_mem_map.mpr each
  · intro keeps taken takes
    have run := (@allocLoop_ok_iff _ _ _ [] _ _).mpr ⟨taken, takes, rfl, rfl⟩
    exact (keeps _ _ run).imp_left fun each handout member => each _ (List.mem_map_of_mem member)

theorem AllocSound.of_error (nrDpus : Nat) (handouts : List (Except Failure Handout)) (status : DpuError) :
    AllocSound nrDpus handouts (.error status) :=
  ⟨by simp, by simp, by simp, by simp⟩

section
variable {nrDpus : Nat} {handed ranks : List Rank} {dispatchOnAllRanks : Bool} {current : Nat}

theorem length_le_sum {ranks : List Rank} (nonempty : ∀ rank ∈ ranks, 0 < getNrOfDpusInRank rank) :
    ranks.length ≤ (ranks.map getNrOfDpusInRank).sum := by
  have least := List.card_nsmul_le_sum (ranks.map getNrOfDpusInRank) 1 (by simpa [Nat.one_le_iff_ne_zero,
    Nat.pos_iff_ne_zero] using nonempty)
  rwa [List.length_map, Nat.nsmul_eq_mul, Nat.mul_one] at least

/-- A loop that has found DPUs in every rank has found enough of them. -/
theorem AllocLoopDone.enough (done : AllocLoopDone nrDpus dispatchOnAllRanks handed ranks current)
    (nonempty : ∀ rank ∈ ranks, 0 < getNrOfDpusInRank rank) (bounded : nrDpus ≠ DPU_ALLOCATE_ALL) :
    nrDpus ≤ current := by
  have counted := length_le_sum nonempty
  have sum := done.sum
  rcases done.stopped with full | ⟨_, enough⟩ | ⟨_, all | dispatch, enough⟩
  · omega
  · exact enough
  · exact absurd all bounded
  · exact enough dispatch

/-- A loop that allocates all DPUs takes every rank that is handed out. -/
theorem AllocLoopDone.takes_all (done : AllocLoopDone DPU_ALLOCATE_ALL false handed ranks current)
    (nonempty : ∀ rank ∈ ranks, 0 < getNrOfDpusInRank rank)
    (few : (handed.map getNrOfDpusInRank).sum < DPU_ALLOCATE_ALL) : ranks = handed := by
  have counted := length_le_sum nonempty
  have sum := done.sum
  obtain ⟨rest, front⟩ := done.front
  rw [front, List.map_append, List.sum_append] at few
  rcases done.stopped with full | ⟨_, enough⟩ | ⟨all, _⟩
  · omega
  · omega
  · exact all

theorem disableUnusedDpus_all (disableDpu : Nat → DpuError) (some : ranks ≠ []) :
    disableUnusedDpus disableDpu current current ranks = .ok ranks := by
  simp [disableUnusedDpus, disableLoop, some]

/-- Enough counted DPUs can be brought down to the number that was asked for. -/
theorem AllocLoopDone.disable (done : AllocLoopDone nrDpus dispatchOnAllRanks handed ranks current)
    (enough : nrDpus ≤ current) :
    ∃ after, Disabled (current - nrDpus) ranks after ∧ ∀ disableDpu : Nat → DpuError,
      ((∀ k < current - nrDpus, disableDpu k = .ok) →
        disableUnusedDpus disableDpu current nrDpus ranks = .ok after) ∧
        ((∃ k < current - nrDpus, disableDpu k ≠ .ok) →
          ∃ status, disableUnusedDpus disableDpu current nrDpus ranks = .error status) := by
  have goes : ¬ (ranks = [] ∨ current < nrDpus) := not_or.mpr ⟨done.some, not_lt.mpr enough⟩
  have length := done.length
  have sum := done.sum
  obtain ⟨after, disabled, ends⟩ := disableLoop_eq (current - nrDpus) done.agrees (by omega)
  refine ⟨after, disabled, fun disableDpu => ?_⟩
  simpa only [disableUnusedDpus, if_neg goes, Nat.zero_add] using ends disableDpu 0

end

/-- Whatever the backend hands out, `dpu_alloc` gives what was asked for
exactly if no rank loses all of its DPUs to its reset. -/
theorem dpuAlloc_sound_iff (nrDpus : Nat) (profile : Option Bool) (handouts : List (Except Failure Handout))
    (disableDpu : Nat → DpuError) (initSet : DpuError) :
    AllocSound nrDpus handouts (dpuAlloc nrDpus profile handouts disableDpu initSet) ↔
      KeepsEveryRank nrDpus profile handouts disableDpu initSet := by
  rw [keepsEveryRank_iff]
  unfold dpuAlloc
  by_cases zero : nrDpus = 0
  · simp only [if_pos zero]
    exact iff_of_true (.of_error ..) fun some => absurd zero some
  simp only [if_neg zero]
  cases profile with
  | none => exact iff_of_true (.of_error ..) (by simp)
  | some dispatch =>
    simp only [Option.some.injEq, forall_eq', ne_eq, zero, not_false_eq_true, true_implies]
    cases run : allocLoop nrDpus (dispatch && decide (¬ nrDpus = DPU_ALLOCATE_ALL)) handouts [] 0 with
    | error status => exact iff_of_true (.of_error ..) (by simp)
    | ok allocated =>
      obtain ⟨ranks, current⟩ := allocated
      have done := allocLoop_done run (by simp) rfl (Nat.pos_of_ne_zero zero)
      rw [List.nil_append] at done
      have only {P : List Rank → Nat → Prop} :
        (∀ ranks' current', (Except.ok (ranks, current) : Except DpuError _) =
          .ok (ranks', current') → P ranks' current') ↔ P ranks current :=
        ⟨fun all => all ranks current rfl, fun here _ _ same => by cases same; exact here⟩
      rw [only]
      dsimp only
      by_cases all : nrDpus = DPU_ALLOCATE_ALL
      · subst all
        rw [show (dispatch && decide (¬ DPU_ALLOCATE_ALL = DPU_ALLOCATE_ALL)) = false by simp] at done
        rw [if_pos rfl, disableUnusedDpus_all disableDpu done.some]
        by_cases init : initSet = .ok
        · have given : ((∀ rank ∈ ranks, 0 < getNrOfDpusInRank rank) ∨
              current ≤ current ∧ ((∃ k < current - current, ¬ disableDpu k = .ok) ∨ ¬ initSet = .ok)) ↔
              ∀ rank ∈ ranks, 0 < getNrOfDpusInRank rank := by simp [init]
          rw [given]
          dsimp only
          rw [if_neg (not_not.mpr init)]
          refine ⟨fun sound => sound.nonempty ranks rfl, fun nonempty => ⟨by simp, by simp, ?_, ?_⟩⟩
          · rintro - few _ ⟨⟩
            exact done.takes_all nonempty few
          · rintro _ ⟨⟩
            exact nonempty
        · dsimp only
          rw [if_pos init]
          exact iff_of_true (.of_error ..) (.inr ⟨le_rfl, .inr init⟩)
      · rw [if_neg all]
        rcases lt_or_ge current nrDpus with short | enough
        · rw [disableUnusedDpus, if_pos (.inr short)]
          refine iff_of_false (fun sound => sound.asserted rfl) ?_
          rintro (nonempty | ⟨enough, _⟩)
          · exact absurd (done.enough nonempty all) (not_le.mpr short)
          · exact absurd enough (not_le.mpr short)
        · obtain ⟨after, disabled, ends⟩ := done.disable enough
          obtain ⟨passes, fails⟩ := ends disableDpu
          by_cases failing : ∃ k < current - nrDpus, disableDpu k ≠ .ok
          · obtain ⟨status, failed⟩ := fails failing
            rw [failed]
            exact iff_of_true (.of_error ..) (.inr ⟨enough, .inl failing⟩)
          rw [passes (by push Not at failing; exact failing)]
          by_cases init : initSet = .ok
          · have given : ((∀ rank ∈ ranks, 0 < getNrOfDpusInRank rank) ∨
                nrDpus ≤ current ∧ ((∃ k < current - nrDpus, ¬ disableDpu k = .ok) ∨ ¬ initSet = .ok)) ↔
                ∀ rank ∈ ranks, 0 < getNrOfDpusInRank rank :=
              or_iff_left fun ⟨_, other⟩ => other.elim failing (fun no => no init)
            rw [given, ← disabled.nonempty]
            dsimp only
            rw [if_neg (not_not.mpr init)]
            refine ⟨fun sound => sound.nonempty after rfl, fun nonempty => ⟨by simp, ?_,
              fun same => absurd same all, ?_⟩⟩
            · rintro - _ ⟨⟩
              have sum := done.sum
              have rest := disabled.sum
              omega
            · rintro _ ⟨⟩
              exact nonempty
          · dsimp only
            rw [if_pos init]
            exact iff_of_true (.of_error ..) (.inr ⟨enough, .inr init⟩)

/-- The half enabled rank, whose enabled DPU has more faulty IRAM words than can be repaired. -/
def faultyHandout : Handout where
  rank :=
    { halfEnabledRank 0 with
      description := { (halfEnabledRank 0).description with doIramRepair := true }
      dpus := fun ci dpu =>
        { (halfEnabledRank 0).dpus ci dpu with
          iramRepair :=
            { corruptedAddresses := fun _ => ⟨0#32, 0#64⟩, nrOfCorruptedAddresses := if dpu = 0 then 5 else 0 } } }
  disableResetOnAlloc := false
  call := fun _ => .ok
  agrees := ⟨(halfEnabledRank_agrees 0).1, (halfEnabledRank_agrees 0).2⟩
  enabled := by decide

/-- A rank that loses its only DPU to the reset makes the allocation of one DPU fail its assertion. -/
theorem unrepairable_rank_not_allocated :
    ¬ ∀ (nrDpus : Nat) (profile : Option Bool) (handouts : List (Except Failure Handout))
      (disableDpu : Nat → DpuError) (initSet : DpuError), 1 ≤ nrDpus →
      AllocSound nrDpus handouts (dpuAlloc nrDpus profile handouts disableDpu initSet) := by
  intro always
  have lost : faultyHandout.reset.1 = .ok ∧ getNrOfDpusInRank faultyHandout.reset.2 = 0 := by decide
  refine (always 1 (some false) [.ok faultyHandout] (fun _ => .ok) .ok le_rfl).asserted ?_
  simp [dpuAlloc, allocLoop, lost, disableUnusedDpus, DPU_ALLOCATE_ALL]

end Upmem
