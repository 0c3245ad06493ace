import Upmem.BinarySearchQueries

namespace Upmem.BinarySearch

/-- The index of a value in a block, from a base in the input. -/
def Kernel.indexIn (k : Kernel) (x : Int) (addr base : Nat) : Option Nat :=
  let found := search (k.mramRead addr) x
  if found > -1 then some (found.toNat + (base - k.heap) / SIZEOF_DTYPE) else none

/-- The index by the blocks at the boundaries of a range, of which the last counts. -/
def Kernel.indexAtBoundaries (k : Kernel) (x : Int) (start finish : Nat) : Option Nat :=
  let middle := (start + finish) / 2
  (k.indexIn x (finish - BLOCK_SIZE) middle).or
    (if middle < k.heap + BLOCK_SIZE then k.indexIn x middle middle else none)

/-- The index of a value in an input of fewer than two blocks, of which the
block in the middle and those at the boundaries of one half are read. -/
def Kernel.indexInShort (k : Kernel) (x : Int) : Option Nat :=
  let middle := (k.heap + k.endOfInput) / 2
  (k.indexIn x middle middle).or
    (if search (k.mramRead middle) x = -2 then k.indexAtBoundaries x k.heap middle
    else k.indexAtBoundaries x middle k.endOfInput)

/-- An index is stored for a value. -/
def Kernel.Stores (k : Kernel) (x : Int) (i : Nat) : Prop :=
  if 2 * BLOCK_SIZE ≤ SIZEOF_DTYPE * k.inputSize then ∃ j < k.inputSize, k.input j = x ∧ k.StoredAs j i
  else k.indexInShort x = some i

/-- A number of queries leave a result: the last index that was stored, less one
for its query and for each one behind it, or -1 when that is used up or nothing was stored. -/
def Kernel.Leaves (k : Kernel) (queries : Nat) (found : Int) : Prop :=
  (∃ p < queries, ∃ i, k.Stores (k.query p) i ∧ (∀ q, p < q → q < queries → ∀ i, ¬k.Stores (k.query q) i) ∧
      found = max (-1) ((i : Int) - (queries - p : Nat))) ∨
    (∀ p < queries, ∀ i, ¬k.Stores (k.query p) i) ∧ found = max (-1) (-(queries : Int))

/-- `if (result->found > -1) result->found --`. -/
def decremented (found : Int) : Int := if found > -1 then found - 1 else found

section Short
variable {k : Kernel} {t : Tasklet} {start finish : Nat}

/-- `DPU_RESULTS` with the index of a hit, if there is one. -/
def DpuResults.stored (result : DpuResults) : Option Nat → DpuResults
  | some i => { result with found := i }
  | none => result

theorem DpuResults.stored_stored (result : DpuResults) (first second : Option Nat) :
    (result.stored first).stored second = result.stored (second.or first) := by
  cases second <;> cases first <;> rfl

theorem Kernel.indexIn_none {x : Int} {addr base : Nat} (missed : ¬search (k.mramRead addr) x > -1) :
    k.indexIn x addr base = none := by
  rw [Kernel.indexIn, if_neg missed]

theorem Kernel.store_indexIn {x : Int} {addr base : Nat} (hit : search (k.mramRead addr) x > -1) :
    k.store t (search (k.mramRead addr) x) base = t.result.stored (k.indexIn x addr base) := by
  have natural : ((search (k.mramRead addr) x).toNat : Int) = search (k.mramRead addr) x := by omega
  rw [Kernel.indexIn, if_pos hit]
  simp only [Kernel.store, DpuResults.stored, Nat.cast_add, natural]

/-- A block in which nothing need be found. -/
theorem Kernel.store_or_not (x : Int) (addr base : Nat) :
    (if search (k.mramRead addr) x > -1 then k.store t (search (k.mramRead addr) x) base else t.result) =
      t.result.stored (k.indexIn x addr base) := by
  split_ifs with hit
  · exact k.store_indexIn hit
  · rw [k.indexIn_none hit]
    rfl

theorem Kernel.startCheck_stored (at_phase : t.phase = .startCheck start finish ((start + finish) / 2)) :
    ∃ ended, k.step t = { t with
      result := t.result.stored (if (start + finish) / 2 < k.heap + BLOCK_SIZE then
        k.indexIn t.searchingFor ((start + finish) / 2) ((start + finish) / 2) else none)
      phase := .endCheck start finish ((start + finish) / 2) ended } := by
  by_cases low : (start + finish) / 2 < k.heap + BLOCK_SIZE
  · refine ⟨true, ?_⟩
    rw [Kernel.step, at_phase, if_pos low]
    simp only [if_pos low]
    rw [k.store_or_not]
  · refine ⟨false, ?_⟩
    rw [Kernel.step, at_phase, if_neg low]
    simp only [if_neg low]
    rfl

theorem Kernel.endCheck_stored {ended : Bool} (narrow : (start + finish) / 2 > finish - BLOCK_SIZE)
    (at_phase : t.phase = .endCheck start finish ((start + finish) / 2) ended) :
    k.step t = { t with
      result := t.result.stored (k.indexIn t.searchingFor (finish - BLOCK_SIZE) ((start + finish) / 2))
      phase := .decrement } := by
  rw [Kernel.step, at_phase]
  simp only [if_pos narrow]
  rw [k.store_or_not]

/-- A range of fewer than two blocks ends the loop. -/
theorem Kernel.boundaries_stored (narrow : (start + finish) / 2 > finish - BLOCK_SIZE)
    (at_phase : t.phase = .startCheck start finish ((start + finish) / 2)) :
    k.step (k.step t) = { t with
      result := t.result.stored (k.indexAtBoundaries t.searchingFor start finish), phase := .decrement } := by
  obtain ⟨ended, first⟩ := k.startCheck_stored at_phase
  have second := k.endCheck_stored (t := k.step t) narrow (by rw [first])
  rw [second, first]
  simp only [DpuResults.stored_stored]
  rfl

/-- In an input of fewer than two blocks a query ends with the first turn of the loop. -/
theorem Kernel.short_steps (short : ¬2 * BLOCK_SIZE ≤ SIZEOF_DTYPE * k.inputSize) (at_phase : t.phase = .target)
    (more : t.targets < k.interval) :
    ∃ steps, k.step^[steps + 1] t = ⟨t.targets, k.query t.targets, .decrement,
      t.result.stored (k.indexInShort (k.query t.targets))⟩ := by
  have size : k.endOfInput = k.heap + SIZEOF_DTYPE * k.inputSize := rfl
  have above : BLOCK_SIZE ≤ k.heap := le_trans (by decide) k.inMram
  have wide : 4 ≤ BLOCK_SIZE := by decide
  have narrow : k.endOfInput < k.heap + 2 * BLOCK_SIZE := by omega
  have begins : k.step t = { t with searchingFor := k.query t.targets,
                                    phase := .block k.heap k.endOfInput ((k.heap + k.endOfInput) / 2) } := by
    simp [Kernel.step, at_phase, more]
  by_cases hit : search (k.mramRead ((k.heap + k.endOfInput) / 2)) (k.query t.targets) > -1
  · refine ⟨1, ?_⟩
    rw [Function.iterate_succ_apply, Function.iterate_one, begins, Kernel.step]
    simp only [if_pos hit]
    rw [k.store_indexIn hit, Kernel.indexInShort, Kernel.indexIn, if_pos hit]
    rfl
  have missed : k.indexIn (k.query t.targets) ((k.heap + k.endOfInput) / 2) ((k.heap + k.endOfInput) / 2) = none :=
    k.indexIn_none hit
  refine ⟨3, ?_⟩
  rw [Function.iterate_succ_apply, begins, Function.iterate_succ_apply, Function.iterate_succ_apply,
    Function.iterate_one]
  by_cases left : search (k.mramRead ((k.heap + k.endOfInput) / 2)) (k.query t.targets) = -2
  · have half : k.step { t with searchingFor := k.query t.targets,
                                phase := .block k.heap k.endOfInput ((k.heap + k.endOfInput) / 2) } =
        { t with searchingFor := k.query t.targets,
                 phase := .startCheck k.heap ((k.heap + k.endOfInput) / 2)
                  ((k.heap + (k.heap + k.endOfInput) / 2) / 2) } := by
      simp [Kernel.step, left, Nat.add_comm ((k.heap + k.endOfInput) / 2)]
    rw [half, k.boundaries_stored (by omega) rfl, Kernel.indexInShort, missed, if_pos left]
    rfl
  · have half : k.step { t with searchingFor := k.query t.targets,
                                phase := .block k.heap k.endOfInput ((k.heap + k.endOfInput) / 2) } =
        { t with searchingFor := k.query t.targets,
                 phase := .startCheck ((k.heap + k.endOfInput) / 2) k.endOfInput
                  (((k.heap + k.endOfInput) / 2 + k.endOfInput) / 2) } := by
      simp [Kernel.step, left, hit]
    rw [half, k.boundaries_stored (by omega) rfl, Kernel.indexInShort, missed, if_neg left]
    rfl

end Short

section Queries
variable {k : Kernel} {t : Tasklet} {q i : Nat} {found : Int}

/-- A query for which an index is stored. -/
theorem Kernel.stores_steps (sorted : Sorted k.input k.inputSize) (at_phase : t.phase = .target)
    (more : t.targets < k.interval) (stores : k.Stores (k.query t.targets) i) :
    ∃ steps, k.step^[steps] t = ⟨t.targets + 1, k.query t.targets, .target, ⟨(i : Int) - 1, t.targets⟩⟩ := by
  obtain ⟨steps, ends⟩ : ∃ steps, k.step^[steps + 1] t =
      ⟨t.targets, k.query t.targets, .decrement, { t.result with found := i }⟩ := by
    unfold Kernel.Stores at stores
    split_ifs at stores with long
    · obtain ⟨j, inside, same, stored⟩ := stores
      exact k.query_stores sorted (Nat.add_le_add_left long _) at_phase more inside same.symm stored
    · obtain ⟨steps, ends⟩ := k.short_steps long at_phase more
      rw [stores] at ends
      exact ⟨steps, ends⟩
  refine ⟨2 + (steps + 1), ?_⟩
  rw [Function.iterate_add_apply, ends, k.decrement_steps rfl]
  simp only [if_pos (nonneg_hit i)]

/-- A query for which no index is stored. -/
theorem Kernel.skips_steps (sorted : Sorted k.input k.inputSize) (at_phase : t.phase = .target)
    (more : t.targets < k.interval) (skips : ∀ i, ¬k.Stores (k.query t.targets) i) :
    ∃ steps, k.step^[steps] t =
      ⟨t.targets + 1, k.query t.targets, .target, ⟨decremented t.result.found, t.targets⟩⟩ := by
  have behind {steps : Nat} (ends : k.step^[steps + 1] t = ⟨t.targets, k.query t.targets, .decrement, t.result⟩) :
      k.step^[2 + (steps + 1)] t =
        ⟨t.targets + 1, k.query t.targets, .target, ⟨decremented t.result.found, t.targets⟩⟩ := by
    rw [Function.iterate_add_apply, ends, k.decrement_steps rfl]
    rfl
  unfold Kernel.Stores at skips
  split_ifs at skips with long
  · have wide := Nat.add_le_add_left long k.heap
    rcases k.position_answers (k.query t.targets) with ⟨j, inside, same, _⟩ | ⟨absent, _⟩
    · have missed := (k.storedAs_or_missed j).resolve_left fun ⟨i, stored⟩ => skips i ⟨j, inside, same, stored⟩
      obtain ⟨steps, ends⟩ := k.query_misses sorted wide at_phase more inside same.symm missed
      exact ⟨_, behind ends⟩
    · exact k.target_ends wide at_phase more absent
  · have none : k.indexInShort (k.query t.targets) = none := Option.eq_none_iff_forall_ne_some.mpr skips
    obtain ⟨steps, ends⟩ := k.short_steps long at_phase more
    rw [none] at ends
    exact ⟨_, behind ends⟩

theorem Kernel.leaves_zero : k.Leaves 0 found ↔ found = 0 := by
  simp [Kernel.Leaves]

/-- What one more query leaves. -/
theorem Kernel.leaves_succ : k.Leaves (q + 1) found ↔ (∃ i, k.Stores (k.query q) i ∧ found = (i : Int) - 1) ∨
    (∀ i, ¬k.Stores (k.query q) i) ∧ ∃ before, k.Leaves q before ∧ found = decremented before := by
  constructor
  · rintro (⟨p, inside, i, stores, last, rfl⟩ | ⟨none, rfl⟩)
    · rcases Nat.lt_succ_iff_lt_or_eq.mp inside with before | rfl
      · refine .inr ⟨last q before (Nat.lt_succ_self q), _,
          .inl ⟨p, before, i, stores, fun r after inside => last r after (by omega), rfl⟩, ?_⟩
        unfold decremented
        split_ifs <;> omega
      · exact .inl ⟨i, stores, by omega⟩
    · refine .inr ⟨none q (Nat.lt_succ_self q), _, .inr ⟨fun p inside => none p (by omega), rfl⟩, ?_⟩
      unfold decremented
      split_ifs <;> omega
  · rintro (⟨i, stores, rfl⟩ | ⟨skips, before, ⟨p, inside, i, stores, last, rfl⟩ | ⟨none, rfl⟩, rfl⟩)
    · exact .inl ⟨q, Nat.lt_succ_self q, i, stores, fun r after inside => by omega, by omega⟩
    · refine .inl ⟨p, by omega, i, stores, fun r after inside => ?_, ?_⟩
      · rcases Nat.lt_succ_iff_lt_or_eq.mp inside with earlier | rfl
        · exact last r after earlier
        · exact skips
      · unfold decremented
        split_ifs <;> omega
    · refine .inr ⟨fun p inside => ?_, ?_⟩
      · rcases Nat.lt_succ_iff_lt_or_eq.mp inside with earlier | rfl
        · exact none p earlier
        · exact skips
      · unfold decremented
        split_ifs <;> omega

/-- A tasklet comes to the end of its queries, with what they leave. -/
theorem Kernel.leaves_run (sorted : Sorted k.input k.inputSize) (inside : q ≤ k.interval) :
    (∃ found, k.Leaves q found) ∧
      ∀ found, k.Leaves q found → ∃ steps, (k.run ⟨0, 0⟩ steps).Through q ∧
      (k.run ⟨0, 0⟩ steps).result.found = found := by
  induction q with
  | zero =>
    refine ⟨⟨0, k.leaves_zero.mpr rfl⟩, fun found leaves => ⟨0, ⟨rfl, rfl⟩, ?_⟩⟩
    rw [k.leaves_zero.mp leaves]
    rfl
  | succ q ih =>
    obtain ⟨⟨before, left⟩, reached⟩ := ih (by omega)
    refine ⟨?_, fun found leaves => ?_⟩
    · by_cases stores : ∃ i, k.Stores (k.query q) i
      · obtain ⟨i, stores⟩ := stores
        exact ⟨_, k.leaves_succ.mpr (.inl ⟨i, stores, rfl⟩)⟩
      · exact ⟨_, k.leaves_succ.mpr (.inr ⟨not_exists.mp stores, before, left, rfl⟩)⟩
    · rcases k.leaves_succ.mp leaves with ⟨i, stores, rfl⟩ | ⟨skips, before, left, rfl⟩
      · obtain ⟨steps, ⟨at_phase, rfl⟩, _⟩ := reached before left
        obtain ⟨more, ends⟩ := k.stores_steps (t := k.run ⟨0, 0⟩ steps) sorted at_phase (by omega) stores
        rw [k.run_add] at ends
        exact ⟨more + steps, by rw [ends]; exact ⟨rfl, rfl⟩, by rw [ends]⟩
      · obtain ⟨steps, ⟨at_phase, rfl⟩, rfl⟩ := reached before left
        obtain ⟨more, ends⟩ := k.skips_steps (t := k.run ⟨0, 0⟩ steps) sorted at_phase (by omega) skips
        rw [k.run_add] at ends
        exact ⟨more + steps, by rw [ends]; exact ⟨rfl, rfl⟩, by rw [ends]⟩

/-- A tasklet is done once. -/
theorem Kernel.done_unique {steps others : Nat} (here : (k.after steps).phase = .done)
    (there : (k.after others).phase = .done) : k.after steps = k.after others := by
  have stays {n : Nat} (done : (k.after n).phase = .done) (more : Nat) : k.after (more + n) = k.after n := by
    have fixed : k.step (k.after n) = k.after n := by rw [Kernel.step, done]
    rw [Kernel.after, Function.iterate_add_apply]
    exact Function.iterate_fixed fixed more
  rw [← stays here others, ← stays there steps, Nat.add_comm]

/-- A tasklet that is not stopped ends with the answer to its last query if
and only if that is what the queries leave. -/
theorem Kernel.ends_right_iff (sorted : Sorted k.input k.inputSize) (x : Int) :
    (∃ steps, (k.after steps).phase = .done ∧ Answers k.input k.inputSize x (k.after steps).result.found) ↔
      k.Leaves k.interval (k.position x) := by
  have ends (found : Int) (leaves : k.Leaves k.interval found) :
      ∃ steps, (k.after steps).phase = .done ∧ (k.after steps).result.found = found := by
    obtain ⟨steps, ⟨at_phase, targets⟩, rfl⟩ := (k.leaves_run sorted le_rfl).2 found leaves
    have last : k.after (steps + 1) = { k.run ⟨0, 0⟩ steps with phase := .done } := by
      rw [Kernel.after_succ]
      show k.step (k.run ⟨0, 0⟩ steps) = _
      rw [Kernel.step, at_phase, if_neg (by omega)]
    exact ⟨steps + 1, by rw [last], by rw [last]⟩
  constructor
  · rintro ⟨steps, done, answer⟩
    obtain ⟨found, leaves⟩ := (k.leaves_run sorted le_rfl).1
    obtain ⟨others, there, same⟩ := ends found leaves
    rw [← (k.answers_iff sorted).mp answer, k.done_unique done there, same]
    exact leaves
  · intro leaves
    obtain ⟨steps, done, same⟩ := ends _ leaves
    exact ⟨steps, done, (k.answers_iff sorted).mpr same⟩

end Queries

section Resume
variable {host : Host} {k : Kernel} {dpuIndex i : Nat}

theorem Kernel.Loaded.input_eq (loaded : k.Loaded host dpuIndex i) {j : Nat} (inside : j < host.globalInputSize) :
    k.input j = host.globalInput j :=
  loaded.input j inside

theorem Kernel.Loaded.sorted (loaded : k.Loaded host dpuIndex i)
    (sorted : Sorted host.globalInput host.globalInputSize) : Sorted k.input k.inputSize := by
  intro a b before inside
  rw [loaded.inputSize] at inside
  rw [loaded.input_eq (before.trans inside), loaded.input_eq inside]
  exact sorted a b before inside

theorem Kernel.Loaded.answers_iff (loaded : k.Loaded host dpuIndex i) {x answer : Int} :
    Answers k.input k.inputSize x answer ↔ Answers host.globalInput host.globalInputSize x answer := by
  have same {j : Nat} {P : Int → Prop} (inside : j < host.globalInputSize) : P (k.input j) ↔
      P (host.globalInput j) := by
    rw [loaded.input_eq inside]
  unfold Answers
  rw [loaded.inputSize]
  refine or_congr (exists_congr fun j => and_congr_right fun inside => and_congr_left' (same (P := (· = x)) inside))
    (and_congr_left' (forall₂_congr fun j inside => same (P := (· ≠ x)) inside))

/-- What is retrieved when each tasklet has been stopped after some steps. -/
def snapshot (kernel : Nat → Nat → Kernel) (stops : Nat → Nat → Nat) : Retrieved where
  results dpuIndex i := ((kernel dpuIndex i).after (stops dpuIndex i)).result
  reads := []

/-- Resuming from a snapshot and redoing an aborted DPU read the input only,
and they, the baseline and a tasklet that is not stopped agree on the last query of each tasklet. -/
structure Restored (host : Host) (kernel : Nat → Nat → Kernel) (abortInfo : Nat → Int)
    (stops : Nat → Nat → Nat) : Prop where
  resume : host.ReadsInput (host.hostFuncResume abortInfo (snapshot kernel stops)) ∧
    ∀ d < host.NR_DPUS, abortInfo d ≠ 0 → ∀ i < host.NR_TASKLETS,
      host.Answered (host.hostFuncResume abortInfo (snapshot kernel stops)) d i
  redo : ∀ d < host.NR_DPUS, abortInfo d ≠ 0 →
    host.ReadsInput (host.binarySearchHost d (snapshot kernel stops)) ∧
      ∀ i < host.NR_TASKLETS, host.Answered (host.binarySearchHost d (snapshot kernel stops)) d i
  baseline : ∀ d < host.NR_DPUS, abortInfo d ≠ 0 → ∀ i < host.NR_TASKLETS,
    Answers host.globalInput host.globalInputSize (host.query d i (host.interval - 1))
      (binarySearch host.globalInput (fun _ => host.query d i (host.interval - 1)) (host.globalInputSize - 1) 1)
  uninterrupted : ∀ d < host.NR_DPUS, abortInfo d ≠ 0 → ∀ i < host.NR_TASKLETS,
    ∃ steps, ((kernel d i).after steps).phase = .done ∧
      Answers host.globalInput host.globalInputSize (host.query d i (host.interval - 1))
        ((kernel d i).after steps).result.found

/-- What is needed of the aborted DPUs: no query is greater than the last entry
of the input, and what the queries of a tasklet leave is the answer to its last one. -/
structure Restorable (host : Host) (kernel : Nat → Nat → Kernel) (abortInfo : Nat → Int) : Prop where
  searchable : ∀ d < host.NR_DPUS, abortInfo d ≠ 0 → ∀ i < host.NR_TASKLETS, ∀ q < host.interval,
    host.Searchable (host.query d i q)
  leaves : ∀ d < host.NR_DPUS, abortInfo d ≠ 0 → ∀ i < host.NR_TASKLETS,
    (kernel d i).Leaves host.interval ((kernel d i).position (host.query d i (host.interval - 1)))

/-- Wherever the tasklets are stopped, the host restores what they and the
baseline would have found, if and only if the state is restorable. -/
theorem stopped_restored_iff {kernel : Nat → Nat → Kernel} {abortInfo : Nat → Int} (stops : Nat → Nat → Nat)
    (loaded : ∀ d < host.NR_DPUS, ∀ i < host.NR_TASKLETS, (kernel d i).Loaded host d i)
    (sorted : Sorted host.globalInput host.globalInputSize) (some_query : 0 < host.interval) :
    Restored host kernel abortInfo stops ↔ Restorable host kernel abortInfo := by
  have tasklet_iff (d : Nat) (dpu : d < host.NR_DPUS) (i : Nat) (tasklet : i < host.NR_TASKLETS) :
      (∃ steps, ((kernel d i).after steps).phase = .done ∧
        Answers host.globalInput host.globalInputSize (host.query d i (host.interval - 1))
          ((kernel d i).after steps).result.found) ↔
      (kernel d i).Leaves host.interval ((kernel d i).position (host.query d i (host.interval - 1))) := by
    have here := loaded d dpu i tasklet
    rw [← here.interval, ← (kernel d i).ends_right_iff (here.sorted sorted)]
    exact exists_congr fun steps => and_congr_right fun _ => here.answers_iff.symm
  constructor
  · rintro ⟨_, redo, _, uninterrupted⟩
    exact ⟨fun d dpu aborted i tasklet q inside =>
      binarySearchHost_searchable (redo d dpu aborted).1 tasklet inside,
      fun d dpu aborted i tasklet => (tasklet_iff d dpu i tasklet).mp (uninterrupted d dpu aborted i tasklet)⟩
  · rintro ⟨searchable, leaves⟩
    have empty : host.ReadsInput (snapshot kernel stops) := fun m member => nomatch member
    refine ⟨hostFuncResume_answers sorted (fun d dpu aborted i tasklet => ?_) searchable empty,
      fun d dpu aborted => binarySearchHost_answers sorted some_query (searchable d dpu aborted) empty,
      fun d dpu aborted i tasklet => binarySearch_answers sorted (fun _ => _),
      fun d dpu aborted i tasklet => (tasklet_iff d dpu i tasklet).mpr (leaves d dpu aborted i tasklet)⟩
    have same := (loaded d dpu i tasklet).interval
    have index := ((kernel d i).indexed (same ▸ some_query) (stops d i)).idx
    exact same ▸ index

/-- Among the even numbers below 128, 1 is absent. -/
theorem stopped_restored_absent :
    Restored (oneQuery 2 1) (fun _ _ => oneTasklet 2 1) (fun _ => 1) (fun _ _ => 3) := by
  refine (stopped_restored_iff (fun _ _ => 3) (fun d dpu i tasklet => ?_) (oneQuery_sorted (by decide) 1)
    (by rw [oneQuery_interval]; decide)).mpr ⟨fun d dpu aborted i tasklet q inside => ?_,
      fun d dpu aborted i tasklet => ?_⟩
  · obtain rfl : d = 0 := Nat.lt_one_iff.mp dpu
    obtain rfl : i = 0 := Nat.lt_one_iff.mp tasklet
    exact oneTasklet_loaded 2 1
  · exact ⟨63, by decide, show (1 : Int) ≤ 2 * 63 by decide⟩
  · have absent : (oneTasklet 2 1).position ((oneTasklet 2 1).query 0) = -1 := by decide
    rw [oneQuery_interval]
    refine .inr ⟨fun p inside i stores => ?_, absent⟩
    obtain rfl : p = 0 := Nat.lt_one_iff.mp inside
    obtain ⟨j, bound, same, _⟩ := stores
    have query : (oneTasklet 2 1).query 0 = 1 := by decide
    have odd : (2 : Int) * j = 1 := ((oneTasklet_loaded 2 1).input j bound).symm.trans (same.trans query)
    omega

/-- A tasklet that finds 32 at index 32 leaves 31. -/
theorem present_not_restored :
    ¬ ∀ (host : Host) (kernel : Nat → Nat → Kernel) (abortInfo : Nat → Int) (stops : Nat → Nat → Nat),
      (∀ d < host.NR_DPUS, ∀ i < host.NR_TASKLETS, (kernel d i).Loaded host d i) →
      Sorted host.globalInput host.globalInputSize → 0 < host.interval →
      host.NR_DPUS * host.NR_TASKLETS ∣ host.numberQuery → Restored host kernel abortInfo stops := by
  intro always
  have restored := always (oneQuery 1 32) (fun _ _ => oneTasklet 1 32) (fun _ => 1) (fun _ _ => 0)
    (fun d dpu i tasklet => by
      obtain rfl : d = 0 := Nat.lt_one_iff.mp dpu
      obtain rfl : i = 0 := Nat.lt_one_iff.mp tasklet
      exact oneTasklet_loaded 1 32)
    (oneQuery_sorted (by decide) 32) (by rw [oneQuery_interval]; decide) (by decide)
  obtain ⟨steps, at_phase, answer⟩ := restored.uninterrupted 0 (by decide) (by decide) 0 (by decide)
  have ends : (oneTasklet 1 32).after 5 = ⟨1, 32, .done, ⟨31, 0⟩⟩ := by decide
  have early : ∀ n < 5, ((oneTasklet 1 32).after n).phase ≠ .done := by decide
  have late : 5 ≤ steps := by
    by_contra before
    exact early steps (not_le.mp before) at_phase
  obtain ⟨more, rfl⟩ := Nat.exists_eq_add_of_le' late
  have final : (oneTasklet 1 32).after (more + 5) = ⟨1, 32, .done, ⟨31, 0⟩⟩ := by
    rw [Kernel.after, Function.iterate_add_apply, ← Kernel.after, ends]
    exact Function.iterate_fixed rfl more
  rw [final] at answer
  rcases answer with ⟨j, bound, value, index⟩ | ⟨absent, none⟩
  · have here : (1 : Int) * j = 32 := value
    have there : (31 : Int) = j := index
    omega
  · exact absurd none (by decide)


end Resume

end Upmem.BinarySearch
