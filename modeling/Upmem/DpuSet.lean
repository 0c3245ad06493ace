import Mathlib.Algebra.Order.BigOperators.Group.List
import Upmem.EnabledSet
import Upmem.Lib.Loops

namespace Upmem

/-- A rank of a set, whose records of its enabled DPUs agree. -/
structure SetRank where
  rank : Rank
  agrees : rank.Agrees

def getNrOfDpusInRank (rank : Rank) : Nat :=
  rank.sumCis fun eachCi =>
    if (rank.sliceInfo eachCi).allDpusAreEnabled then rank.nrDpusPerCi
    else popcount (rank.sliceInfo eachCi).enabledDpus

/-- `dpu_get_nr_dpus` of a set of ranks. -/
def dpuGetNrDpus (set : List SetRank) : Nat :=
  set.foldl (fun nrDpus each => nrDpus + getNrOfDpusInRank each.rank) 0

/-- `struct dpu_set_rank_iterator_t`, whose ranks are named by their index in the set. -/
structure RankIterator where
  count : Nat
  nextIdx : Nat
  hasNext : Bool
  next : Nat

def dpuSetRankIteratorFrom (set : List SetRank) : RankIterator where
  count := 0
  nextIdx := 1
  hasNext := set.length ≠ 0
  next := 0

def dpuSetRankIteratorNext (set : List SetRank) (iterator : RankIterator) : RankIterator :=
  let iterator := { iterator with count := iterator.count + 1 }
  if !iterator.hasNext then iterator
  else if iterator.nextIdx < set.length then
    { iterator with next := iterator.nextIdx, nextIdx := iterator.nextIdx + 1 }
  else { iterator with hasNext := false }

/-- The size of the array `rank->dpus`. -/
def Rank.nrDpus (rank : Rank) : Nat := rank.nrCis * rank.nrDpusPerCi

/-- Whether the DPU at an index of `rank->dpus` is enabled. -/
def Rank.enabledAt (rank : Rank) (dpuIdx : Nat) : Bool :=
  (rank.dpus (dpuIdx / rank.nrDpusPerCi) (dpuIdx % rank.nrDpusPerCi)).enabled

/-- `struct dpu_set_dpu_iterator_t`: a DPU is named by the index of its rank and its own. -/
structure DpuIterator where
  rankIterator : RankIterator
  count : Nat
  nextIdx : Nat
  hasNext : Bool
  next : Nat × Nat

theorem dpuSetRankIteratorNext_lt {set : List SetRank} {iterator : RankIterator}
    (next : (dpuSetRankIteratorNext set iterator).hasNext = true) :
    set.length - (dpuSetRankIteratorNext set iterator).nextIdx < set.length - iterator.nextIdx := by
  unfold dpuSetRankIteratorNext at *
  dsimp only at *
  split_ifs at * with ended inside
  · simp_all
  · dsimp only
    omega

/-- The loop of `advance_to_next_dpu_in_rank_list`, from DPU `dpuIdx` of the current rank on. -/
def advanceLoop (set : List SetRank) (nrDpus : Nat) (iterator : DpuIterator) (dpuIdx : Nat) : DpuIterator :=
  let found := set[iterator.rankIterator.next]?.bind fun each =>
    (List.range' dpuIdx (nrDpus - dpuIdx)).find? each.rank.enabledAt
  match found with
  | some dpuIdx =>
    { iterator with hasNext := true, nextIdx := dpuIdx + 1, next := (iterator.rankIterator.next, dpuIdx) }
  | none =>
    if _ : (dpuSetRankIteratorNext set iterator.rankIterator).hasNext = true then
      advanceLoop set nrDpus { iterator with rankIterator := dpuSetRankIteratorNext set iterator.rankIterator } 0
    else { iterator with rankIterator := dpuSetRankIteratorNext set iterator.rankIterator, hasNext := false }
termination_by set.length - iterator.rankIterator.nextIdx
decreasing_by exact dpuSetRankIteratorNext_lt ‹_›

/-- The loop keeps the number of DPUs of the rank at which it begins when it comes to others. -/
def advanceToNextDpuInRankList (set : List SetRank) (iterator : DpuIterator) (dpuIdx : Nat) : DpuIterator :=
  advanceLoop set (set[iterator.rankIterator.next]?.elim 0 fun each => each.rank.nrDpus) iterator dpuIdx

def dpuSetDpuIteratorFrom (set : List SetRank) : DpuIterator :=
  let iterator : DpuIterator :=
    { rankIterator := dpuSetRankIteratorFrom set, count := 0, nextIdx := 0, hasNext := false, next := (0, 0) }
  if !iterator.rankIterator.hasNext then iterator else advanceToNextDpuInRankList set iterator 0

def dpuSetDpuIteratorNext (set : List SetRank) (iterator : DpuIterator) : DpuIterator :=
  let iterator := { iterator with count := iterator.count + 1 }
  if !iterator.hasNext then iterator else advanceToNextDpuInRankList set iterator iterator.nextIdx

/-- The ranks of a set have the same number of DPUs, enabled or not. -/
def OneTopology (set : List SetRank) : Prop :=
  ∀ each ∈ set, ∀ other ∈ set, each.rank.nrDpus = other.rank.nrDpus

theorem oneTopology_single (each : SetRank) : OneTopology [each] := by simp [OneTopology]

/-- A set of ranks of a common topology. -/
structure RankSet where
  ranks : List SetRank
  oneTopology : OneTopology ranks

/-- The DPUs that a loop `DPU_FOREACH` visits in its first turns, each with its index. -/
def foreachFrom (set : List SetRank) : Nat → DpuIterator → List ((Nat × Nat) × Nat)
  | 0, _ => []
  | turns + 1, iterator =>
    if iterator.hasNext then
      (iterator.next, iterator.count) :: foreachFrom set turns (dpuSetDpuIteratorNext set iterator)
    else []

/-- `DPU_FOREACH`, which has no more turns than the ranks have DPUs. -/
def dpuForeach (set : List SetRank) : List ((Nat × Nat) × Nat) :=
  foreachFrom set ((set.map fun each => each.rank.nrDpus).sum + 1) (dpuSetDpuIteratorFrom set)

/-- The enabled DPUs of a rank from an index on. -/
def Rank.enabledFrom (rank : Rank) (dpuIdx : Nat) : List Nat :=
  (List.range' dpuIdx (rank.nrDpus - dpuIdx)).filter rank.enabledAt

/-- The enabled DPUs of ranks of which the first has index `r`. -/
def enabledDpus (r : Nat) : List SetRank → List (Nat × Nat)
  | [] => []
  | each :: rest => (each.rank.enabledFrom 0).map (r, ·) ++ enabledDpus (r + 1) rest

/-- The enabled DPUs of a set from DPU `dpuIdx` of rank `r` on. -/
def enabledAfter (set : List SetRank) (r dpuIdx : Nat) : List (Nat × Nat) :=
  match set.drop r with
  | [] => []
  | each :: rest => (each.rank.enabledFrom dpuIdx).map (r, ·) ++ enabledDpus (r + 1) rest

theorem enabledAfter_zero (set : List SetRank) (r : Nat) : enabledAfter set r 0 = enabledDpus r (set.drop r) := by
  rw [enabledAfter]
  cases set.drop r <;> rfl

theorem enabledAfter_of_getElem? {set : List SetRank} {r : Nat} {each : SetRank} (here : set[r]? = some each)
    (dpuIdx : Nat) :
    enabledAfter set r dpuIdx = (each.rank.enabledFrom dpuIdx).map (r, ·) ++ enabledAfter set (r + 1) 0 := by
  obtain ⟨inside, rfl⟩ := List.getElem?_eq_some_iff.mp here
  rw [enabledAfter_zero, enabledAfter, List.drop_eq_getElem_cons inside]

theorem Rank.enabledFrom_of_find? {rank : Rank} {dpuIdx found : Nat}
    (first : (List.range' dpuIdx (rank.nrDpus - dpuIdx)).find? rank.enabledAt = some found) :
    rank.enabledFrom dpuIdx = found :: rank.enabledFrom (found + 1) := by
  obtain ⟨enabled, inside, skipped⟩ := List.find?_range'_eq_some.mp first
  obtain ⟨lower, upper⟩ := List.mem_range'_1.mp inside
  have split : List.range' dpuIdx (rank.nrDpus - dpuIdx) =
      List.range' dpuIdx (found - dpuIdx) ++ found :: List.range' (found + 1) (rank.nrDpus - (found + 1)) := by
    have tail : found :: List.range' (found + 1) (rank.nrDpus - (found + 1)) =
        List.range' found (rank.nrDpus - found) := by
      rw [← List.range'_succ]
      congr 1
      omega
    have total : rank.nrDpus - dpuIdx = (found - dpuIdx) + (rank.nrDpus - found) := by omega
    rw [tail, total, ← List.range'_append_1, show dpuIdx + (found - dpuIdx) = found by omega]
  have none : (List.range' dpuIdx (found - dpuIdx)).filter rank.enabledAt = [] := by
    refine List.filter_eq_nil_iff.mpr fun i member => ?_
    obtain ⟨above, below⟩ := List.mem_range'_1.mp member
    simpa using skipped i above (by omega)
  rw [Rank.enabledFrom, split, List.filter_append, none, List.nil_append, List.filter_cons_of_pos enabled]
  rfl

theorem Rank.enabledFrom_of_none {rank : Rank} {dpuIdx : Nat}
    (none : (List.range' dpuIdx (rank.nrDpus - dpuIdx)).find? rank.enabledAt = none) :
    rank.enabledFrom dpuIdx = [] := by
  rw [Rank.enabledFrom, List.filter_eq_nil_iff]
  simpa using List.find?_eq_none.mp none

/-- The iterator on ranks is at rank `r`. -/
structure RankIterator.At (set : List SetRank) (iterator : RankIterator) (r : Nat) : Prop where
  hasNext : iterator.hasNext = true
  next : iterator.next = r
  nextIdx : iterator.nextIdx = r + 1
  inside : r < set.length

theorem RankIterator.At.step {set : List SetRank} {iterator : RankIterator} {r : Nat} (here : iterator.At set r) :
    if r + 1 < set.length then (dpuSetRankIteratorNext set iterator).At set (r + 1)
    else (dpuSetRankIteratorNext set iterator).hasNext = false := by
  obtain ⟨hasNext, next, nextIdx, inside⟩ := here
  simp only [dpuSetRankIteratorNext, hasNext, nextIdx, Bool.not_true, Bool.false_eq_true, if_false]
  split
  next another => exact ⟨rfl, rfl, rfl, another⟩
  next last => rfl

/-- The DPUs that an iterator has ahead. -/
def DpuIterator.Ahead (set : List SetRank) (iterator : DpuIterator) : List (Nat × Nat) → Prop
  | [] => iterator.hasNext = false
  | dpu :: rest => iterator.hasNext = true ∧ iterator.next = dpu ∧ iterator.rankIterator.At set dpu.1 ∧
      enabledAfter set dpu.1 iterator.nextIdx = rest

/-- The loop finds the next enabled DPU, in the current rank or a later one,
if its bound is the number of DPUs of all of them. -/
theorem advanceLoop_ahead {set : List SetRank} {nrDpus : Nat} (bound : ∀ each ∈ set, each.rank.nrDpus = nrDpus)
    {iterator : DpuIterator} {r : Nat} (here : iterator.rankIterator.At set r) (dpuIdx : Nat) :
    (advanceLoop set nrDpus iterator dpuIdx).Ahead set (enabledAfter set r dpuIdx) ∧
      (advanceLoop set nrDpus iterator dpuIdx).count = iterator.count := by
  obtain ⟨each, atRank⟩ : ∃ each, set[r]? = some each := ⟨_, List.getElem?_eq_getElem here.inside⟩
  have own := bound each (List.mem_of_getElem? atRank)
  rw [advanceLoop, here.next, atRank, enabledAfter_of_getElem? atRank, ← own]
  simp only [Option.bind_some]
  cases first : (List.range' dpuIdx (each.rank.nrDpus - dpuIdx)).find? each.rank.enabledAt with
  | some found =>
    rw [Rank.enabledFrom_of_find? first]
    exact ⟨⟨rfl, rfl, here, enabledAfter_of_getElem? atRank (found + 1)⟩, rfl⟩
  | none =>
    rw [Rank.enabledFrom_of_none first, List.map_nil, List.nil_append]
    have stepped := here.step
    by_cases another : r + 1 < set.length
    · rw [if_pos another] at stepped
      simp only [stepped.hasNext, dif_pos]
      exact advanceLoop_ahead (own ▸ bound) stepped 0
    · rw [if_neg another] at stepped
      have none_after : enabledAfter set (r + 1) 0 = [] := by
        rw [enabledAfter_zero, List.drop_of_length_le (not_lt.mp another)]
        rfl
      simp only [stepped, none_after]
      exact ⟨rfl, rfl⟩
termination_by set.length - r

theorem Rank.length_enabledFrom_le (rank : Rank) : (rank.enabledFrom 0).length ≤ rank.nrDpus := by
  refine (List.length_filter_le _ _).trans ?_
  rw [List.length_range', Nat.sub_zero]

theorem length_enabledDpus (r : Nat) (set : List SetRank) :
    (enabledDpus r set).length = (set.map fun each => (each.rank.enabledFrom 0).length).sum := by
  induction set generalizing r with
  | nil => rfl
  | cons each rest ih => rw [enabledDpus, List.length_append, List.length_map, ih, List.map_cons, List.sum_cons]

section
variable {set : List SetRank} (one : OneTopology set)
include one

/-- Advancing finds the next enabled DPU of a set of a common topology. -/
theorem advanceToNextDpuInRankList_ahead {iterator : DpuIterator} {r : Nat} (here : iterator.rankIterator.At set r)
    (dpuIdx : Nat) :
    (advanceToNextDpuInRankList set iterator dpuIdx).Ahead set (enabledAfter set r dpuIdx) ∧
      (advanceToNextDpuInRankList set iterator dpuIdx).count = iterator.count := by
  obtain ⟨each, atRank⟩ : ∃ each, set[r]? = some each := ⟨_, List.getElem?_eq_getElem here.inside⟩
  rw [advanceToNextDpuInRankList, here.next, atRank]
  exact advanceLoop_ahead (fun other member => one other member each (List.mem_of_getElem? atRank)) here dpuIdx

theorem dpuSetDpuIteratorFrom_ahead :
    (dpuSetDpuIteratorFrom set).Ahead set (enabledDpus 0 set) ∧ (dpuSetDpuIteratorFrom set).count = 0 := by
  cases set with
  | nil => exact ⟨rfl, rfl⟩
  | cons each rest =>
    have first : (dpuSetRankIteratorFrom (each :: rest)).At (each :: rest) 0 := ⟨rfl, rfl, rfl, Nat.zero_lt_succ _⟩
    have ahead := @advanceToNextDpuInRankList_ahead _ one ⟨_, 0, 0, false, (0, 0)⟩ 0 first 0
    rwa [enabledAfter_zero, List.drop_zero] at ahead

theorem DpuIterator.Ahead.step {iterator : DpuIterator} {dpu : Nat × Nat} {rest : List (Nat × Nat)}
    (ahead : iterator.Ahead set (dpu :: rest)) :
    (dpuSetDpuIteratorNext set iterator).Ahead set rest ∧
      (dpuSetDpuIteratorNext set iterator).count = iterator.count + 1 := by
  obtain ⟨hasNext, _, here, left⟩ := ahead
  rw [← left]
  simp only [dpuSetDpuIteratorNext, hasNext, Bool.not_true, Bool.false_eq_true, if_false]
  exact @advanceToNextDpuInRankList_ahead _ one
    { iterator with count := iterator.count + 1, hasNext := true } _ here _

/-- A loop visits the DPUs that its iterator has ahead. -/
theorem foreachFrom_eq {dpus : List (Nat × Nat)} {turns : Nat} (enough : dpus.length < turns)
    {iterator : DpuIterator} (ahead : iterator.Ahead set dpus) :
    foreachFrom set turns iterator = dpus.zipIdx iterator.count := by
  induction dpus generalizing turns iterator with
  | nil =>
    have ended : iterator.hasNext = false := ahead
    cases turns with
    | zero => rfl
    | succ turns => simp [foreachFrom, ended]
  | cons dpu rest ih =>
    obtain ⟨turns, rfl⟩ := Nat.exists_eq_succ_of_ne_zero (Nat.ne_zero_of_lt enough)
    obtain ⟨next, counted⟩ := ahead.step one
    rw [foreachFrom, if_pos ahead.1, ahead.2.1, ih (Nat.lt_of_succ_lt_succ enough) next, counted, List.zipIdx_cons]

/-- `DPU_FOREACH` visits the enabled DPUs of the set in order. -/
theorem dpuForeach_eq : dpuForeach set = (enabledDpus 0 set).zipIdx := by
  obtain ⟨ahead, counted⟩ := dpuSetDpuIteratorFrom_ahead one
  have enough : (enabledDpus 0 set).length < (set.map fun each => each.rank.nrDpus).sum + 1 := by
    rw [length_enabledDpus, Nat.lt_succ_iff]
    exact List.sum_le_sum fun each _ => each.rank.length_enabledFrom_le
  rw [dpuForeach, foreachFrom_eq one enough ahead, counted]

end

theorem countP_range_mul (C n : Nat) (p : Nat → Bool) :
    (List.range (C * n)).countP p =
      ((List.range C).map fun c => (List.range n).countP fun d => p (c * n + d)).sum := by
  induction C with
  | zero => simp
  | succ C ih =>
    rw [Nat.succ_mul, List.range_add, List.countP_append, ih, List.range_succ, List.map_append, List.sum_append,
      List.countP_map]
    simp [Function.comp_def]

theorem countP_range_lt {n m : Nat} (le : n ≤ m) (p : Nat → Bool) :
    (List.range m).countP (fun i => decide (i < n) && p i) = (List.range n).countP p := by
  obtain ⟨rest, rfl⟩ := Nat.exists_eq_add_of_le le
  have inside : (List.range n).countP (fun i => decide (i < n) && p i) = (List.range n).countP p :=
    List.countP_congr fun i member => by simp [List.mem_range.mp member]
  rw [List.range_add, List.countP_append, inside, List.countP_map]
  simp [Function.comp_def]

/-- Whether its flag or its mask is read, a control interface has the same number of enabled DPUs. -/
theorem Rank.Agrees.count_ci {rank : Rank} (agrees : rank.Agrees) {ci : Nat} (inside : ci < rank.nrCis) :
    (if (rank.sliceInfo ci).allDpusAreEnabled then rank.nrDpusPerCi else popcount (rank.sliceInfo ci).enabledDpus) =
      (List.range rank.nrDpusPerCi).countP (rank.enabledSet ci) := by
  split
  next all =>
    have each := (agrees.all ci inside).mp all
    rw [List.countP_eq_length.mpr fun dpu member => each dpu (List.mem_range.mp member), List.length_range]
  next =>
    have mask : popcount (rank.sliceInfo ci).enabledDpus =
        (List.range 32).countP fun dpu => decide (dpu < rank.nrDpusPerCi) && rank.enabledSet ci dpu := by
      simp only [popcount, agrees.mask ci inside]
    rw [mask, countP_range_lt (rank.nrDpusPerCi_le.trans (by decide))]

theorem Rank.enabledAt_eq {rank : Rank} {ci dpu : Nat} (inside : dpu < rank.nrDpusPerCi) :
    rank.enabledAt (ci * rank.nrDpusPerCi + dpu) = rank.enabledSet ci dpu := by
  have quotient : (ci * rank.nrDpusPerCi + dpu) / rank.nrDpusPerCi = ci := by
    rw [Nat.mul_comm, Nat.mul_add_div (Nat.zero_lt_of_lt inside), Nat.div_eq_of_lt inside, Nat.add_zero]
  rw [Rank.enabledAt, quotient, Nat.mul_comm, Nat.mul_add_mod, Nat.mod_eq_of_lt inside, Rank.enabledSet]

theorem Rank.length_enabledFrom (rank : Rank) : (rank.enabledFrom 0).length =
    rank.sumCis fun ci => (List.range rank.nrDpusPerCi).countP (rank.enabledSet ci) := by
  rw [Rank.enabledFrom, ← List.countP_eq_length_filter, Nat.sub_zero, ← List.range_eq_range', Rank.nrDpus,
    countP_range_mul, Rank.sumCis_eq_sum]
  refine congrArg List.sum (List.map_congr_left fun ci _ => List.countP_congr fun dpu member => ?_)
  rw [Rank.enabledAt_eq (List.mem_range.mp member)]

theorem getNrOfDpusInRank_eq {rank : Rank} (agrees : rank.Agrees) :
    getNrOfDpusInRank rank = (rank.enabledFrom 0).length := by
  rw [Rank.length_enabledFrom]
  exact Rank.sumCis_congr fun ci inside => agrees.count_ci inside

/-- `dpu_get_nr_dpus` counts the DPUs that `DPU_FOREACH` visits. -/
theorem dpuGetNrDpus_eq (set : List SetRank) : dpuGetNrDpus set = (enabledDpus 0 set).length := by
  rw [dpuGetNrDpus, Loops.foldl_add, Nat.zero_add, length_enabledDpus]
  exact congrArg List.sum (List.map_congr_left fun each _ => getNrOfDpusInRank_eq each.agrees)

end Upmem
