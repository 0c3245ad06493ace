import Mathlib.Data.List.Range
import Upmem.Lib.Loops

namespace Upmem.BinarySearch
open Loops

/-- `dpu_results_t`. -/
structure DpuResults where
  found : Int
  idx : Nat
  deriving DecidableEq

/-- The loop of a search on the host: its result, and the indexes it reads of the input. -/
def searchLoop (input : Nat → Int) (query l r result : Int) : Int × List Int :=
  if l ≤ r then
    let m := l + (r - l) / 2
    let result := if input m.toNat = query then m else result
    let rest :=
      if input m.toNat < query then searchLoop input query (m + 1) r result
      else searchLoop input query l (m - 1) result
    (rest.1, m :: rest.2)
  else (result, [])
termination_by (r + 1 - l).toNat
decreasing_by all_goals omega

/-- `binarySearch`, the CPU baseline. One query does not reset the result of another. -/
def binarySearch (input querys : Nat → Int) (inputSize : Int) (numQuerys : Nat) : Int :=
  (List.range numQuerys).foldl (fun result q => (searchLoop input (querys q) 0 inputSize result).1) (-1)

/-- The globals of the host and the shape of the set of DPUs. What is past
the end of the input is whatever memory holds. -/
structure Host where
  NR_DPUS : Nat
  NR_TASKLETS : Nat
  globalInput : Nat → Int
  globalQuery : Nat → Int
  globalInputSize : Nat
  numberQuery : Nat

def Host.slice (host : Host) : Nat := host.numberQuery / host.NR_DPUS

def Host.interval (host : Host) : Nat := host.slice / host.NR_TASKLETS

/-- The query that a tasklet of a DPU has at an index of its interval. -/
def Host.query (host : Host) (dpuIndex i q : Nat) : Int :=
  host.globalQuery (dpuIndex * host.slice + i * host.interval + q)

/-- `results_retrieve`, and the indexes that have been read of `global_input`. -/
structure Retrieved where
  results : Nat → Nat → DpuResults
  reads : List Int

/-- One query, searched by the host for a tasklet of a DPU. -/
def Host.searchQuery (host : Host) (dpuIndex i : Nat) (s : Retrieved) (q : Nat) : Retrieved :=
  let search := searchLoop host.globalInput (host.query dpuIndex i q) 0 host.globalInputSize (-1)
  { results := Function.update s.results dpuIndex (Function.update (s.results dpuIndex) i
      { s.results dpuIndex i with found := search.1 })
    reads := s.reads ++ search.2 }

/-- The queries of a tasklet, from one on. -/
def Host.searchQueries (host : Host) (dpuIndex i q : Nat) (s : Retrieved) : Retrieved :=
  (List.range' q (host.interval - q)).foldl (host.searchQuery dpuIndex i) s

/-- `binarySearchHost`. -/
def Host.binarySearchHost (host : Host) (dpuIndex : Nat) (s : Retrieved) : Retrieved :=
  (List.range host.NR_TASKLETS).foldl (fun s i => host.searchQueries dpuIndex i 0 s) s

/-- `host_func_resume`. -/
def Host.hostFuncResume (host : Host) (abortInfo : Nat → Int) (s : Retrieved) : Retrieved :=
  (List.range host.NR_DPUS).foldl (fun s dpuIndex =>
    if abortInfo dpuIndex = 0 then s
    else (List.range host.NR_TASKLETS).foldl
      (fun s i => host.searchQueries dpuIndex i (s.results dpuIndex i).idx s) s) s

/-- The index of a query in the first entries of an input, or -1 if it is absent. -/
def Answers (input : Nat → Int) (size : Nat) (query result : Int) : Prop :=
  (∃ j < size, input j = query ∧ result = j) ∨ ((∀ j < size, input j ≠ query) ∧ result = -1)

/-- The first entries of an input are sorted and distinct. -/
def Sorted (input : Nat → Int) (size : Nat) : Prop :=
  ∀ i j, i < j → j < size → input i < input j

/-- What the loop keeps: all entries on the left are less than the query, those
on the right are not, and the result is the answer among those on the right. -/
structure Bisects (input : Nat → Int) (size : Nat) (query l r result : Int) : Prop where
  nonneg : 0 ≤ l
  left : ∀ j < size, (j : Int) < l → input j < query
  right : ∀ j < size, r < (j : Int) → query ≤ input j
  result : (∃ j < size, input j = query ∧ result = j) ∨
    ((∀ j < size, r < (j : Int) → input j ≠ query) ∧ result = -1)

section Search
variable {input : Nat → Int} {size : Nat} {query l r result : Int}

theorem Bisects.start (last : ∀ j < size, (j : Int) ≤ r) : Bisects input size query 0 r (-1) where
  nonneg := le_rfl
  left j _ below := by omega
  right j inside beyond := absurd (last j inside) (by omega)
  result := .inr ⟨fun j inside beyond => absurd (last j inside) (by omega), rfl⟩

/-- The entry in the middle is less than the query. -/
theorem Bisects.goRight (bisects : Bisects input size query l r result) (sorted : Sorted input size) {m : Int}
    (lower : l ≤ m) (inside : m < size) (less : input m.toNat < query) :
    Bisects input size query (m + 1) r (if input m.toNat = query then m else result) := by
  rw [if_neg less.ne]
  refine ⟨by have := bisects.nonneg; omega, fun j bound below => ?_, bisects.right, bisects.result⟩
  rcases lt_or_eq_of_le (show j ≤ m.toNat by omega) with before | rfl
  · exact (sorted j m.toNat before (by have := bisects.nonneg; omega)).trans less
  · exact less

/-- The entry in the middle is not less than the query. -/
theorem Bisects.goLeft (bisects : Bisects input size query l r result) (sorted : Sorted input size) {m : Int}
    (lower : l ≤ m) (inside : m < size) (least : ¬ input m.toNat < query) :
    Bisects input size query l (m - 1) (if input m.toNat = query then m else result) := by
  have nonneg := bisects.nonneg
  have right (j : Nat) (bound : j < size) (beyond : m - 1 < j) : query ≤ input j := by
    rcases lt_or_eq_of_le (show m.toNat ≤ j by omega) with past | same
    · exact (not_lt.mp least).trans (sorted m.toNat j past bound).le
    · exact same ▸ not_lt.mp least
  refine ⟨nonneg, bisects.left, right, ?_⟩
  split_ifs with hit
  · exact .inl ⟨m.toNat, by omega, hit, by omega⟩
  · rcases bisects.result with found | ⟨absent, none⟩
    · exact .inl found
    · have beyond_m : query < input m.toNat := lt_of_le_of_ne (not_lt.mp least) (Ne.symm hit)
      refine .inr ⟨fun j bound beyond => ?_, none⟩
      rcases lt_or_eq_of_le (show m.toNat ≤ j by omega) with past | same
      · exact (beyond_m.trans (sorted m.toNat j past bound)).ne'
      · exact same ▸ hit

/-- A search reads the input and finds the answer, provided that its bounds
lie in the input or the query is no greater than the last entry. -/
theorem Bisects.search (bisects : Bisects input size query l r result) (sorted : Sorted input size)
    (within : r < size ∨ r = size ∧ ∃ j < size, query ≤ input j) :
    (∀ m ∈ (searchLoop input query l r result).2, 0 ≤ m ∧ m < size) ∧
      Answers input size query (searchLoop input query l r result).1 := by
  have nonneg := bisects.nonneg
  induction l, r, result using searchLoop.induct input query with
  | case1 l r result more m result' ihRight ihLeft =>
    have lower : l ≤ m ∧ m ≤ r := by omega
    have inside : m < size := by
      rcases within with below | ⟨rfl, j, bound, least⟩
      · omega
      · by_contra beyond
        exact absurd (bisects.left j bound (by omega)) (not_lt.mpr least)
    rw [searchLoop, if_pos more]
    by_cases less : input m.toNat < query
    · obtain ⟨reads, answer⟩ := ihRight (bisects.goRight sorted lower.1 inside less) within (by omega)
      have goesRight : input (l + (r - l) / 2).toNat < query := less
      simp only [if_pos goesRight, List.forall_mem_cons]
      exact ⟨⟨⟨by omega, inside⟩, reads⟩, answer⟩
    · obtain ⟨reads, answer⟩ := ihLeft (bisects.goLeft sorted lower.1 inside less) (.inl (by omega)) nonneg
      have goesLeft : ¬ input (l + (r - l) / 2).toNat < query := less
      simp only [if_neg goesLeft, List.forall_mem_cons]
      exact ⟨⟨⟨by omega, inside⟩, reads⟩, answer⟩
  | case2 l r result none_left =>
    rw [searchLoop, if_neg none_left]
    refine ⟨by simp, ?_⟩
    rcases bisects.result with found | ⟨absent, none⟩
    · exact .inl found
    · refine .inr ⟨fun j bound => ?_, none⟩
      rcases lt_or_ge (j : Int) l with below | above
      · exact (bisects.left j bound below).ne
      · exact absent j bound (by omega)

/-- The baseline answers a query. -/
theorem binarySearch_answers (sorted : Sorted input size) (querys : Nat → Int) :
    Answers input size (querys 0) (binarySearch input querys (size - 1) 1) := by
  have bisects : Bisects input size (querys 0) 0 (size - 1) (-1) := .start fun j inside => by omega
  exact (bisects.search sorted (.inl (by omega))).2

/-- A search for what is greater than all entries reads behind the input. -/
theorem searchLoop_reads_size {input : Nat → Int} {size : Nat} {query : Int} (beyond : ∀ j < size, input j < query)
    {l result : Int} (nonneg : 0 ≤ l) (inside : l ≤ size) :
    (size : Int) ∈ (searchLoop input query l size result).2 := by
  induction left : (size - l).toNat using Nat.strong_induction_on generalizing l result with
  | h left ih =>
    subst left
    rw [searchLoop, if_pos inside]
    rcases lt_or_eq_of_le inside with below | rfl
    · have middle : (l + (size - l) / 2).toNat < size := by omega
      simp only [if_pos (beyond _ middle), List.mem_cons]
      exact .inr (ih _ (by omega) (by omega) (by omega) rfl)
    · simp

end Search

section Host
variable {host : Host} {dpuIndex i : Nat} {s : Retrieved}

/-- The host can search a query: it is no greater than the last entry of the input. -/
def Host.Searchable (host : Host) (query : Int) : Prop :=
  ∃ j < host.globalInputSize, query ≤ host.globalInput j

/-- The host has only read entries of the input. -/
def Host.ReadsInput (host : Host) (s : Retrieved) : Prop :=
  ∀ m ∈ s.reads, 0 ≤ m ∧ m < host.globalInputSize

/-- A tasklet of a DPU has the answer to its last query. -/
def Host.Answered (host : Host) (s : Retrieved) (dpuIndex i : Nat) : Prop :=
  Answers host.globalInput host.globalInputSize (host.query dpuIndex i (host.interval - 1))
    (s.results dpuIndex i).found

theorem searchQuery_results_of_ne {d j q : Nat} (ne : ¬ (d = dpuIndex ∧ j = i)) :
    (host.searchQuery dpuIndex i s q).results d j = s.results d j := by
  simp only [Host.searchQuery, Function.update_apply]
  by_cases same : d = dpuIndex
  · subst same
    rw [if_pos rfl, Function.update_of_ne fun tasklet => ne ⟨rfl, tasklet⟩]
  · rw [if_neg same]

theorem searchQuery_idx {d j q : Nat} :
    ((host.searchQuery dpuIndex i s q).results d j).idx = (s.results d j).idx := by
  by_cases same : d = dpuIndex ∧ j = i
  · obtain ⟨rfl, rfl⟩ := same
    simp [Host.searchQuery]
  · rw [searchQuery_results_of_ne same]

/-- The queries of a tasklet leave the records of all others and every index. -/
theorem searchQueries_frame {d j q : Nat} :
    ((host.searchQueries dpuIndex i q s).results d j).idx = (s.results d j).idx ∧
      (¬ (d = dpuIndex ∧ j = i) → (host.searchQueries dpuIndex i q s).results d j = s.results d j) := by
  rw [Host.searchQueries]
  induction List.range' q (host.interval - q) generalizing s with
  | nil => exact ⟨rfl, fun _ => rfl⟩
  | cons q queries ih =>
    rw [List.foldl_cons]
    obtain ⟨idx, others⟩ := ih (s := host.searchQuery dpuIndex i s q)
    exact ⟨idx.trans searchQuery_idx, fun ne => (others ne).trans (searchQuery_results_of_ne ne)⟩

theorem Answered.congr {t : Retrieved} {d j : Nat} (answered : host.Answered s d j)
    (same : (t.results d j).found = (s.results d j).found) : host.Answered t d j := by
  rw [Host.Answered, same]
  exact answered

/-- The queries of a tasklet from one on are all searched, and nothing that was read before is forgotten. -/
theorem searchQueries_reads (q : Nat) :
    (∀ m ∈ s.reads, m ∈ (host.searchQueries dpuIndex i q s).reads) ∧ ∀ p, q ≤ p → p < host.interval →
      ∀ m ∈ (searchLoop host.globalInput (host.query dpuIndex i p) 0 host.globalInputSize (-1)).2,
        m ∈ (host.searchQueries dpuIndex i q s).reads := by
  obtain ⟨kept, searched, _⟩ := foldl_settles (host.searchQuery dpuIndex i) (fun t => ∀ m ∈ s.reads, m ∈ t.reads)
    (fun t p => ∀ m ∈ (searchLoop host.globalInput (host.query dpuIndex i p) 0 host.globalInputSize
      (-1)).2, m ∈ t.reads)
    (List.range' q (host.interval - q))
    (fun t p _ kept => ⟨fun m old => List.mem_append_left _ (kept m old), fun m new => List.mem_append_right _ new,
      fun _ old m member => List.mem_append_left _ (old m member)⟩)
    (fun _ => id)
  exact ⟨kept, fun p lower upper => searched p (List.mem_range'_1.mpr ⟨lower, by omega⟩)⟩

/-- Redoing a DPU reads inside the input only if the host can search all its queries. -/
theorem binarySearchHost_searchable (reads : host.ReadsInput (host.binarySearchHost dpuIndex s))
    (tasklet : i < host.NR_TASKLETS) {q : Nat} (inside : q < host.interval) :
    host.Searchable (host.query dpuIndex i q) := by
  by_contra beyond
  obtain ⟨_, searched, _⟩ := foldl_settles (fun s i => host.searchQueries dpuIndex i 0 s) (fun _ => True)
    (fun t i => ∀ p < host.interval,
      ∀ m ∈ (searchLoop host.globalInput (host.query dpuIndex i p) 0 host.globalInputSize (-1)).2, m ∈ t.reads)
    (List.range host.NR_TASKLETS)
    (fun t i _ _ => ⟨trivial, fun p inside => (searchQueries_reads 0).2 p (Nat.zero_le p) inside,
      fun _ old p inside m member => (searchQueries_reads 0).1 m (old p inside m member)⟩)
    (s := s) trivial
  have greater (j : Nat) (below : j < host.globalInputSize) : host.globalInput j < host.query dpuIndex i q :=
    not_le.mp fun least => beyond ⟨j, below, least⟩
  have member := searched i (List.mem_range.mpr tasklet) q inside _
    (searchLoop_reads_size greater le_rfl (Int.natCast_nonneg _))
  exact absurd (reads _ member).2 (lt_irrefl _)

variable (sorted : Sorted host.globalInput host.globalInputSize)
include sorted

/-- A query that the host can search leaves the reads in the input and the answer in its record. -/
theorem searchQuery_answers {q : Nat} (searchable : host.Searchable (host.query dpuIndex i q))
    (within : host.ReadsInput s) :
    host.ReadsInput (host.searchQuery dpuIndex i s q) ∧
      Answers host.globalInput host.globalInputSize (host.query dpuIndex i q)
        ((host.searchQuery dpuIndex i s q).results dpuIndex i).found := by
  have bisects :
      Bisects host.globalInput host.globalInputSize (host.query dpuIndex i q) 0 host.globalInputSize (-1) :=
    .start fun j inside => by omega
  obtain ⟨reads, answer⟩ := bisects.search sorted (.inr ⟨rfl, searchable⟩)
  refine ⟨fun m member => ?_, ?_⟩
  · rcases List.mem_append.mp member with old | new
    · exact within m old
    · exact reads m new
  · simpa [Host.searchQuery] using answer

/-- The queries of a tasklet, from one of its interval on. -/
theorem searchQueries_answers {q : Nat} (inside : q < host.interval)
    (searchable : ∀ q < host.interval, host.Searchable (host.query dpuIndex i q)) (within : host.ReadsInput s) :
    host.ReadsInput (host.searchQueries dpuIndex i q s) ∧
      host.Answered (host.searchQueries dpuIndex i q s) dpuIndex i := by
  obtain ⟨n, last⟩ : ∃ n, host.interval = q + n + 1 := ⟨host.interval - q - 1, by omega⟩
  have split : List.range' q (host.interval - q) = List.range' q n ++ [q + n] := by
    rw [show host.interval - q = n + 1 by omega, List.range'_concat, Nat.one_mul]
  have earlier (m : Nat) (fits : q + m ≤ host.interval) :
      host.ReadsInput ((List.range' q m).foldl (host.searchQuery dpuIndex i) s) := by
    induction m with
    | zero => exact within
    | succ m ih =>
      rw [List.range'_concat, List.foldl_append, Nat.one_mul]
      exact (searchQuery_answers sorted (searchable (q + m) (by omega)) (ih (by omega))).1
  rw [Host.Answered, Host.searchQueries, split, List.foldl_append, last, Nat.add_sub_cancel]
  exact searchQuery_answers sorted (searchable (q + n) (by omega)) (earlier n (by omega))

/-- Turning to a tasklet settles it, whatever tasklets have been settled. -/
theorem searchQueries_settles {q : Nat} (inside : q < host.interval)
    (searchable : ∀ q < host.interval, host.Searchable (host.query dpuIndex i q)) (within : host.ReadsInput s) :
    host.ReadsInput (host.searchQueries dpuIndex i q s) ∧
      host.Answered (host.searchQueries dpuIndex i q s) dpuIndex i ∧
      ∀ d j, host.Answered s d j → host.Answered (host.searchQueries dpuIndex i q s) d j := by
  obtain ⟨reads, answered⟩ := searchQueries_answers sorted inside searchable within
  refine ⟨reads, answered, fun d j before => ?_⟩
  by_cases same : d = dpuIndex ∧ j = i
  · obtain ⟨rfl, rfl⟩ := same
    exact answered
  · exact Answered.congr before (congrArg DpuResults.found (searchQueries_frame.2 same))

/-- Redoing the queries of a DPU on the host answers the last query of each tasklet. -/
theorem binarySearchHost_answers (some_query : 0 < host.interval)
    (searchable : ∀ i < host.NR_TASKLETS, ∀ q < host.interval, host.Searchable (host.query dpuIndex i q))
    (within : host.ReadsInput s) :
    host.ReadsInput (host.binarySearchHost dpuIndex s) ∧
      ∀ i < host.NR_TASKLETS, host.Answered (host.binarySearchHost dpuIndex s) dpuIndex i := by
  obtain ⟨reads, answered, _⟩ := foldl_settles (fun s i => host.searchQueries dpuIndex i 0 s)
    host.ReadsInput (fun s i => host.Answered s dpuIndex i) (List.range host.NR_TASKLETS)
    (fun s i member reads =>
      let ⟨reads, answered, others⟩ :=
        searchQueries_settles sorted some_query (searchable i (List.mem_range.mp member)) reads
      ⟨reads, answered, fun j => others dpuIndex j⟩) within
  exact ⟨reads, fun i inside => answered i (List.mem_range.mpr inside)⟩

/-- Resuming from the snapshots answers the last query of each tasklet of an aborted DPU. -/
theorem hostFuncResume_answers {abortInfo : Nat → Int}
    (begun : ∀ d < host.NR_DPUS, abortInfo d ≠ 0 → ∀ i < host.NR_TASKLETS, (s.results d i).idx < host.interval)
    (searchable : ∀ d < host.NR_DPUS, abortInfo d ≠ 0 → ∀ i < host.NR_TASKLETS, ∀ q < host.interval,
      host.Searchable (host.query d i q))
    (within : host.ReadsInput s) :
    host.ReadsInput (host.hostFuncResume abortInfo s) ∧
      ∀ d < host.NR_DPUS, abortInfo d ≠ 0 → ∀ i < host.NR_TASKLETS,
        host.Answered (host.hostFuncResume abortInfo s) d i := by
  -- the turn of a DPU also keeps the answers of the others
  have dpu (t : Retrieved) (d : Nat) (inside : d < host.NR_DPUS) (aborted : abortInfo d ≠ 0)
      (before : host.ReadsInput t ∧ ∀ d i, (t.results d i).idx = (s.results d i).idx) :=
    foldl_settles (fun t i => host.searchQueries d i (t.results d i).idx t)
      (fun u => (host.ReadsInput u ∧ ∀ d i, (u.results d i).idx = (s.results d i).idx) ∧
        ∀ e j, host.Answered t e j → host.Answered u e j)
      (fun u i => host.Answered u d i) (List.range host.NR_TASKLETS)
      (fun u i member ⟨⟨reads, idx⟩, earlier⟩ =>
        have tasklet := List.mem_range.mp member
        let ⟨reads, answered, others⟩ :=
          searchQueries_settles sorted ((idx d i).symm ▸ begun d inside aborted i tasklet)
          (searchable d inside aborted i tasklet) reads
        ⟨⟨⟨reads, fun e j => searchQueries_frame.1.trans (idx e j)⟩, fun e j old => others e j (earlier e j old)⟩,
          answered, fun j => others d j⟩)
      ⟨before, fun _ _ => id⟩
  obtain ⟨⟨reads, _⟩, answered, _⟩ := foldl_settles
    (fun t d => if abortInfo d = 0 then t
      else (List.range host.NR_TASKLETS).foldl (fun t i => host.searchQueries d i (t.results d i).idx t) t)
    (fun t => host.ReadsInput t ∧ ∀ d i, (t.results d i).idx = (s.results d i).idx)
    (fun t d => abortInfo d ≠ 0 → ∀ i < host.NR_TASKLETS, host.Answered t d i) (List.range host.NR_DPUS)
    (fun t d member before => by
      split_ifs with skipped
      · exact ⟨before, fun aborted => absurd skipped aborted, fun _ => id⟩
      · obtain ⟨⟨after, earlier⟩, answered, _⟩ := dpu t d (List.mem_range.mp member) skipped before
        exact ⟨after, fun _ i tasklet => answered i (List.mem_range.mpr tasklet),
          fun e old aborted i tasklet => earlier e i (old aborted i tasklet)⟩)
    ⟨within, fun _ _ => rfl⟩
  exact ⟨reads, fun d inside => answered d (List.mem_range.mpr inside)⟩

end Host

end Upmem.BinarySearch
