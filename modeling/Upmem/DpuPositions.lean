import Upmem.SgHandler

namespace Upmem

/-- The fields `dpu_offset` that `init_scatter_gather_transfer_buffer` fills in, from a number of DPUs on. -/
def dpuOffsets (nrDpus : Nat) : List SetRank → List Nat
  | [] => []
  | each :: rest => nrDpus :: dpuOffsets (nrDpus + getNrOfDpusInRank each.rank) rest

section Positions
variable {set : List SetRank} {r k dpu i : Nat}

theorem Rank.mem_enabledFrom {rank : Rank} :
    dpu ∈ rank.enabledFrom 0 ↔ dpu < rank.nrDpus ∧ rank.enabledAt dpu = true := by
  rw [Rank.enabledFrom, List.mem_filter, List.mem_range'_1]
  simp

theorem Rank.enabledFrom_sorted (rank : Rank) : (rank.enabledFrom 0).Pairwise (· < ·) :=
  (List.pairwise_lt_range' ..).filter _

/-- The ranks of the enabled DPUs begin with the first. -/
theorem le_of_mem_enabledDpus (member : (r, dpu) ∈ enabledDpus k set) : k ≤ r := by
  induction set generalizing k with
  | nil => cases member
  | cons each rest ih =>
    rcases List.mem_append.mp member with first | later
    · obtain ⟨_, _, same⟩ := List.mem_map.mp first
      exact (Prod.mk.inj same).1.le
    · exact (Nat.le_succ k).trans (ih later)

theorem enabledDpus_sorted (k : Nat) (set : List SetRank) :
    (enabledDpus k set).Pairwise fun a b => a.1 < b.1 ∨ a.1 = b.1 ∧ a.2 < b.2 := by
  induction set generalizing k with
  | nil => exact List.Pairwise.nil
  | cons each rest ih =>
    refine List.pairwise_append.mpr ⟨?_, ih (k + 1), fun a first b later => Or.inl ?_⟩
    · exact List.pairwise_map.mpr (each.rank.enabledFrom_sorted.imp fun less => Or.inr ⟨rfl, less⟩)
    · obtain ⟨_, _, rfl⟩ := List.mem_map.mp first
      exact le_of_mem_enabledDpus later

theorem mem_enabledDpus : (k + r, dpu) ∈ enabledDpus k set ↔
    ∃ each, set[r]? = some each ∧ dpu < each.rank.nrDpus ∧ each.rank.enabledAt dpu = true := by
  induction set generalizing k r with
  | nil => simp [enabledDpus]
  | cons each rest ih =>
    rw [enabledDpus, List.mem_append]
    cases r with
    | zero =>
      have later : (k + 0, dpu) ∉ enabledDpus (k + 1) rest := fun member =>
        absurd (le_of_mem_enabledDpus member) (by omega)
      rw [or_iff_left later]
      simp [Rank.mem_enabledFrom]
    | succ r =>
      have first : (k + (r + 1), dpu) ∉ (each.rank.enabledFrom 0).map (k, ·) := by simp
      rw [or_iff_right first, show k + (r + 1) = k + 1 + r by omega, ih, List.getElem?_cons_succ]

/-- The entries of a rank among those of the set, which come from its offset on. -/
theorem filter_enabledDpus {each : SetRank} (nrDpus : Nat) (atRank : set[r]? = some each) :
    ∃ offset, (dpuOffsets nrDpus set)[r]? = some offset ∧
      ((enabledDpus k set).zipIdx nrDpus).filter (fun entry => entry.1.1 = k + r) =
        ((each.rank.enabledFrom 0).map (k + r, ·)).zipIdx offset := by
  induction set generalizing k r nrDpus with
  | nil => cases atRank
  | cons first rest ih =>
    have count := getNrOfDpusInRank_eq first.agrees
    rw [enabledDpus, dpuOffsets, count, List.zipIdx_append, List.filter_append, List.length_map]
    cases r with
    | zero =>
      cases atRank
      have own : (((each.rank.enabledFrom 0).map (k, ·)).zipIdx nrDpus).filter (fun entry => entry.1.1 = k + 0) =
          ((each.rank.enabledFrom 0).map (k, ·)).zipIdx nrDpus := by
        refine List.filter_eq_self.mpr fun entry member => ?_
        obtain ⟨_, _, same⟩ := List.mem_map.mp (List.fst_mem_of_mem_zipIdx member)
        simp [← same]
      have none : ((enabledDpus (k + 1) rest).zipIdx (nrDpus + (each.rank.enabledFrom 0).length)).filter
          (fun entry => entry.1.1 = k + 0) = [] := by
        refine List.filter_eq_nil_iff.mpr fun entry member => ?_
        obtain ⟨⟨later, dpu⟩, position⟩ := entry
        have beyond := le_of_mem_enabledDpus (List.fst_mem_of_mem_zipIdx member)
        simpa using Nat.ne_of_gt beyond
      exact ⟨nrDpus, rfl, by rw [own, none, List.append_nil]; rfl⟩
    | succ r =>
      have none : (((first.rank.enabledFrom 0).map (k, ·)).zipIdx nrDpus).filter
          (fun entry => entry.1.1 = k + (r + 1)) = [] := by
        refine List.filter_eq_nil_iff.mpr fun entry member => ?_
        obtain ⟨_, _, same⟩ := List.mem_map.mp (List.fst_mem_of_mem_zipIdx member)
        simp [← same]
      rw [none, List.nil_append, show k + (r + 1) = k + 1 + r by omega]
      exact ih (nrDpus + (first.rank.enabledFrom 0).length) atRank

/-- `DPU_FOREACH` visits the enabled DPUs of the set, each once and in order,
with their positions, as many as `dpu_get_nr_dpus` counts. The position of a
DPU is the offset of its rank and its position in a loop over that rank alone,
which is how the handler of a scatter/gather transfer finds it. -/
theorem dpuForeach_positions (set : RankSet) :
    (∀ r dpu, (r, dpu) ∈ (dpuForeach set.ranks).map Prod.fst ↔
      ∃ each, set.ranks[r]? = some each ∧ dpu < each.rank.nrDpus ∧ each.rank.enabledAt dpu = true) ∧
    ((dpuForeach set.ranks).map Prod.fst).Pairwise (fun a b => a.1 < b.1 ∨ a.1 = b.1 ∧ a.2 < b.2) ∧
    (dpuForeach set.ranks).map Prod.snd = List.range (dpuGetNrDpus set.ranks) ∧
    (∀ r each, set.ranks[r]? = some each → ∃ offset, (dpuOffsets 0 set.ranks)[r]? = some offset ∧
      (∀ dpu position, ((r, dpu), position) ∈ dpuForeach set.ranks ↔
        ∃ inRank, ((0, dpu), inRank) ∈ dpuForeach [each] ∧ position = offset + inRank) ∧
      ∀ enabled, (Sg.SgRank.mk each offset enabled).dpus =
        ((dpuForeach set.ranks).filter fun entry => entry.1.1 = r).map fun ((_, dpu), position) =>
          (MramAccess.getTransferMatrixIndex each.rank (dpu / each.rank.nrDpusPerCi, dpu % each.rank.nrDpusPerCi),
            position)) := by
  have visited : (dpuForeach set.ranks).map Prod.fst = enabledDpus 0 set.ranks := by
    rw [dpuForeach_eq set.oneTopology, List.zipIdx_map_fst]
  refine ⟨fun r dpu => ?_, visited ▸ enabledDpus_sorted 0 set.ranks, ?_, fun r each atRank => ?_⟩
  · rw [visited]
    simpa using @mem_enabledDpus set.ranks r 0 dpu
  · rw [dpuForeach_eq set.oneTopology, dpuGetNrDpus_eq, List.zipIdx_map_snd, List.range_eq_range']
  · obtain ⟨offset, found, entries⟩ := @filter_enabledDpus set.ranks r 0 each 0 atRank
    have one : dpuForeach [each] = ((each.rank.enabledFrom 0).map (0, ·)).zipIdx := by
      rw [dpuForeach_eq (oneTopology_single each), enabledDpus, enabledDpus, List.append_nil]
    rw [Nat.zero_add, ← dpuForeach_eq set.oneTopology] at entries
    refine ⟨offset, found, fun dpu position => ?_, fun enabled => ?_⟩
    · have own : ((r, dpu), position) ∈ dpuForeach set.ranks ↔
          ((r, dpu), position) ∈ ((each.rank.enabledFrom 0).map (r, ·)).zipIdx offset := by
        rw [← entries, List.mem_filter]
        simp
      rw [own, one, List.zipIdx_map, List.zipIdx_map, List.zipIdx_eq_map_add]
      simp [eq_comm]
    · rw [entries, Sg.SgRank.dpus, one, List.zipIdx_map, List.zipIdx_map, @List.zipIdx_eq_map_add _ _ offset]
      simp only [List.map_map]
      exact List.map_congr_left fun entry _ => Prod.ext rfl (Nat.add_comm ..)

end Positions

end Upmem
