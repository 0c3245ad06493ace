import Mathlib.Data.BitVec
import Upmem.Lib.Loops
import Upmem.Lib.Stores

namespace Upmem.HashTable
open Finset Loops Stores

def BUFFER_SIZE : Nat := 8 <<< 20
def TABLE_SIZE : Nat := BUFFER_SIZE / 8

/-- `hash_t`. Integers of 32 bits are bit vectors, signed or not. -/
structure DataItem where
  data : BitVec 32
  key : BitVec 32
  deriving DecidableEq, Repr

/-- `dpu_result_t`. -/
structure DpuResult where
  hashsum : BitVec 32
  cycles : BitVec 32
  idx : Nat
  deriving DecidableEq, Repr

def hashCode (key : Nat) : Nat := key % TABLE_SIZE

/-- The loop of `searchItem` with the iterations it has left. -/
def searchFrom (table : Nat → DataItem) (key : Nat) (left hashIndex : Nat) : BitVec 32 :=
  if (table hashIndex).key = -1 then 0
  else if (table hashIndex).key = BitVec.ofNat 32 key then (table hashIndex).data
  else
    match left with
    | 0 => 0
    | left + 1 => searchFrom table key left ((hashIndex + 1) % TABLE_SIZE)

def searchItem (table : Nat → DataItem) (key : Nat) : BitVec 32 :=
  searchFrom table key TABLE_SIZE (hashCode key)

/-- The probing loop of the DPU program with the iterations it has left. -/
def probe (hashArray : Nat → DataItem) (bufferIdx : Nat) (left hashIndex : Nat) (hashtablesum : BitVec 32) :
    BitVec 32 :=
  match left with
  | 0 => hashtablesum
  | left + 1 =>
    if (hashArray hashIndex).key = BitVec.ofNat 32 bufferIdx then hashtablesum + (hashArray hashIndex).data
    else if (hashArray hashIndex).key = -1 then hashtablesum
    else probe hashArray bufferIdx left (hashIndex % TABLE_SIZE + 1) hashtablesum

/-- The MRAM of the DPU: the table, and what lies past its end. -/
def mram (table : Nat → DataItem) (past : DataItem) (hashIndex : Nat) : DataItem :=
  if hashIndex < TABLE_SIZE then table hashIndex else past

/-- One key of a tasklet. -/
def keyTurn (hashArray : Nat → DataItem) (perfcounter : Nat → BitVec 32) (hashtablesum : BitVec 32)
    (bufferIdx : Nat) :
    Traced DpuResult (BitVec 32) := do
  let hashtablesum := probe hashArray bufferIdx TABLE_SIZE (hashCode bufferIdx) hashtablesum
  store fun result => { result with hashsum := hashtablesum }
  store fun result => { result with idx := bufferIdx }
  store fun result => { result with cycles := perfcounter bufferIdx }
  pure hashtablesum

/-- `main` of the DPU program, as a tasklet runs it. -/
def main (nrTasklets : Nat) (hashArray : Nat → DataItem) (perfcounter : Nat → BitVec 32) (taskletId : Nat) :
    Traced DpuResult Unit := do
  store fun result => { result with hashsum := 0 }
  let taskNum := TABLE_SIZE / nrTasklets
  let keys := counted 1 (taskletId * taskNum + taskNum) (taskletId * taskNum)
  let hashtablesum ← keys.foldlM (keyTurn hashArray perfcounter) 0
  let bufferIdx := exitValue 1 (taskletId * taskNum + taskNum) (taskletId * taskNum)
  store fun result => { result with cycles := perfcounter bufferIdx }
  store fun result => { result with hashsum := hashtablesum }
  store fun result => { result with idx := bufferIdx }

/-- What `host_func_resume` does to the result of one tasklet of an aborted DPU. -/
def resumeTasklet (nrTasklets : Nat) (table : Nat → DataItem) (eachTasklet : Nat) (result : DpuResult) :
    DpuResult :=
  let taskNum := TABLE_SIZE / nrTasklets
  let keys := counted 1 (eachTasklet * taskNum + taskNum) (result.idx + 1)
  { result with
    hashsum := keys.foldl (fun hashtablesum bufferIdx => hashtablesum + searchItem table bufferIdx) result.hashsum }

/-- The sum of a tasklet that is stopped after `n` of its assignments, from a
zeroed result on, and then resumed by the host. -/
def resumed (nrTasklets : Nat) (table : Nat → DataItem) (past : DataItem) (perfcounter : Nat → BitVec 32)
    (taskletId n : Nat) : BitVec 32 :=
  (resumeTasklet nrTasklets table taskletId
    (stoppedAfter n (main nrTasklets (mram table past) perfcounter taskletId).stores ⟨0, 0, 0⟩)).hashsum

/-- The number of keys of each tasklet. -/
def taskNum (nrTasklets : Nat) : Nat :=
  TABLE_SIZE / nrTasklets

/-- The sum of what a search finds for the keys of a tasklet. -/
def shareSum (nrTasklets : Nat) (table : Nat → DataItem) (taskletId : Nat) : BitVec 32 :=
  ∑ key ∈ Ico (taskletId * taskNum nrTasklets) ((taskletId + 1) * taskNum nrTasklets), searchItem table key

/-- An entry where the probe and the search for a key both end. -/
def Ends (table : Nat → DataItem) (key hashIndex : Nat) : Prop :=
  (table hashIndex).key = BitVec.ofNat 32 key ∨ (table hashIndex).key = -1

/-- The probe for a key finds it or a free entry before the end of the table. -/
def EndsInside (table : Nat → DataItem) (key : Nat) : Prop :=
  key = 0 ∨ ∃ hashIndex, key ≤ hashIndex ∧ hashIndex < TABLE_SIZE ∧ Ends table key hashIndex

/-- What the DPU program adds for a key. -/
def probed (table : Nat → DataItem) (past : DataItem) (key : Nat) : BitVec 32 :=
  probe (mram table past) key TABLE_SIZE (hashCode key) 0

section
variable {table : Nat → DataItem}

theorem probe_add (hashArray : Nat → DataItem) (key left hashIndex : Nat) (hashtablesum : BitVec 32) :
    probe hashArray key left hashIndex hashtablesum = hashtablesum + probe hashArray key left hashIndex 0 := by
  induction left generalizing hashIndex with
  | zero => simp [probe]
  | succ left ih =>
    simp only [probe]
    split_ifs
    · rw [zero_add]
    · rw [add_zero]
    · exact ih _

theorem ofNat_ne_neg_one {key : Nat} (small : key < TABLE_SIZE) : BitVec.ofNat 32 key ≠ -1 := by
  intro same
  have value := congrArg BitVec.toNat same
  have wide : key < 2 ^ 32 := small.trans (by decide)
  rw [BitVec.toNat_ofNat, Nat.mod_eq_of_lt wide] at value
  have bound : TABLE_SIZE ≤ (-1 : BitVec 32).toNat := by decide
  omega

/-- Where some entry ends it, the probe finds what the search finds. -/
theorem probe_eq_searchFrom {key : Nat} (small : key < TABLE_SIZE) (past : DataItem) {left steps hashIndex : Nat}
    (ends : ∃ stop, hashIndex ≤ stop ∧ stop < TABLE_SIZE ∧ Ends table key stop)
    (enough : TABLE_SIZE ≤ hashIndex + left) (many : TABLE_SIZE ≤ hashIndex + steps + 1) :
    probe (mram table past) key left hashIndex 0 = searchFrom table key steps hashIndex := by
  obtain ⟨stop, from_here, below, ends⟩ := ends
  induction left generalizing steps hashIndex with
  | zero => omega
  | succ left ih =>
    have inside : hashIndex < TABLE_SIZE := from_here.trans_lt below
    rw [probe, searchFrom.eq_def, mram, if_pos inside]
    by_cases found : (table hashIndex).key = BitVec.ofNat 32 key
    · have used : (table hashIndex).key ≠ -1 := found ▸ ofNat_ne_neg_one small
      rw [if_pos found, if_neg used, if_pos found, zero_add]
    · by_cases free : (table hashIndex).key = -1
      · rw [if_neg found, if_pos free, if_pos free]
      · have later : hashIndex + 1 ≤ stop := by
          refine Nat.succ_le_of_lt (lt_of_le_of_ne from_here ?_)
          rintro rfl
          exact ends.elim found free
        obtain ⟨steps, rfl⟩ : ∃ more, steps = more + 1 := ⟨steps - 1, by omega⟩
        rw [if_neg found, if_neg free, if_neg free, if_neg found]
        simp only [Nat.mod_eq_of_lt inside, Nat.mod_eq_of_lt (later.trans_lt below)]
        exact ih (by omega) (by omega) later

/-- A search over a table where nothing ends it finds nothing. -/
theorem searchFrom_none {key : Nat} (none : ∀ hashIndex < TABLE_SIZE, ¬ Ends table key hashIndex)
    {steps hashIndex : Nat} (inside : hashIndex < TABLE_SIZE) : searchFrom table key steps hashIndex = 0 := by
  induction steps generalizing hashIndex with
  | zero =>
    obtain ⟨other, used⟩ := not_or.mp (none hashIndex inside)
    rw [searchFrom, if_neg used, if_neg other]
  | succ steps ih =>
    obtain ⟨other, used⟩ := not_or.mp (none hashIndex inside)
    rw [searchFrom, if_neg used, if_neg other]
    exact ih (Nat.mod_lt _ (by decide))

/-- A probe that nothing ends before the end of the table goes past it. -/
theorem probe_to_end {key : Nat} (past : DataItem) {hashIndex : Nat} (inside : hashIndex ≤ TABLE_SIZE)
    (none : ∀ each, hashIndex ≤ each → each < TABLE_SIZE → ¬ Ends table key each) (left : Nat)
    (hashtablesum : BitVec 32) :
    probe (mram table past) key (TABLE_SIZE - hashIndex + left) hashIndex hashtablesum =
      probe (mram table past) key left TABLE_SIZE hashtablesum := by
  induction rest : TABLE_SIZE - hashIndex generalizing hashIndex with
  | zero =>
    obtain rfl : hashIndex = TABLE_SIZE := by omega
    rw [Nat.zero_add]
  | succ rest' ih =>
    have below : hashIndex < TABLE_SIZE := by omega
    obtain ⟨other, used⟩ := not_or.mp (none hashIndex le_rfl below)
    rw [Nat.add_right_comm, probe, mram, if_pos below, if_neg other, if_neg used, Nat.mod_eq_of_lt below]
    exact ih below (fun each later => none each (by omega)) (by omega)

/-- What lies past the table is added if it has the key of the probe. -/
theorem probe_past {key : Nat} (positive : 0 < key) (data : BitVec 32) (hashtablesum : BitVec 32) :
    probe (mram table ⟨data, BitVec.ofNat 32 key⟩) key key TABLE_SIZE hashtablesum = hashtablesum + data := by
  obtain ⟨left, rfl⟩ := Nat.exists_eq_add_of_lt positive
  simp [probe, mram]

/-- The data past the table is not read by a probe for another key. -/
theorem probe_other {key other : Nat} (small : key < TABLE_SIZE) (smallOther : other < TABLE_SIZE)
    (different : other ≠ key) (data data' : BitVec 32) (left hashIndex : Nat) (hashtablesum : BitVec 32) :
    probe (mram table ⟨data, BitVec.ofNat 32 key⟩) other left hashIndex hashtablesum =
      probe (mram table ⟨data', BitVec.ofNat 32 key⟩) other left hashIndex hashtablesum := by
  have keys : BitVec.ofNat 32 key ≠ BitVec.ofNat 32 other := by
    intro same
    have value := congrArg BitVec.toNat same
    have wide : TABLE_SIZE < 2 ^ 32 := by decide
    rw [BitVec.toNat_ofNat, BitVec.toNat_ofNat, Nat.mod_eq_of_lt (small.trans wide),
      Nat.mod_eq_of_lt (smallOther.trans wide)] at value
    exact different value.symm
  induction left generalizing hashIndex with
  | zero => rfl
  | succ left ih =>
    by_cases inside : hashIndex < TABLE_SIZE
    · simp only [probe, mram, if_pos inside]
      rw [ih]
    · simp only [probe, mram, if_neg inside, if_neg keys, if_neg (ofNat_ne_neg_one small)]
      exact ih _

theorem hashCode_eq {key : Nat} (small : key < TABLE_SIZE) : hashCode key = key :=
  Nat.mod_eq_of_lt small

theorem probed_eq_searchItem {key : Nat} (small : key < TABLE_SIZE) (ends : EndsInside table key)
    (past : DataItem) :
    probed table past key = searchItem table key := by
  rw [probed, searchItem, hashCode_eq small]
  by_cases stops : ∃ stop, key ≤ stop ∧ stop < TABLE_SIZE ∧ Ends table key stop
  · exact probe_eq_searchFrom small past stops (by omega) (by omega)
  · obtain rfl : key = 0 := ends.resolve_right stops
    have none (each : Nat) (below : each < TABLE_SIZE) : ¬ Ends table 0 each :=
      fun ends => stops ⟨each, Nat.zero_le each, below, ends⟩
    rw [searchFrom_none none small]
    exact probe_to_end past (Nat.zero_le _) (fun each _ => none each) 0 0

/-- A probe that does not end in the table adds what lies past it, if that has its key. -/
theorem probed_past {key : Nat} (small : key < TABLE_SIZE) (beyond : ¬ EndsInside table key) (data : BitVec 32) :
    probed table ⟨data, BitVec.ofNat 32 key⟩ key = data := by
  obtain ⟨positive, none⟩ := not_or.mp beyond
  push Not at none
  have walked := @probe_to_end table key ⟨data, BitVec.ofNat 32 key⟩ _ small.le none key 0
  rw [Nat.sub_add_cancel small.le] at walked
  rw [probed, hashCode_eq small, walked, probe_past (Nat.pos_of_ne_zero positive), zero_add]

/-- Whatever lies past the table, the sum of some probes with another sum is a
given one exactly if the probes end inside the table and the searches have that sum. -/
theorem forall_past_iff {keys : Finset Nat} (small : ∀ key ∈ keys, key < TABLE_SIZE) {rest total : BitVec 32} :
    (∀ past, ∑ key ∈ keys, probed table past key + rest = total) ↔
      (∀ key ∈ keys, EndsInside table key) ∧ ∑ key ∈ keys, searchItem table key + rest = total := by
  have inside (ends : ∀ key ∈ keys, EndsInside table key) (past : DataItem) :
      ∑ key ∈ keys, probed table past key = ∑ key ∈ keys, searchItem table key :=
    sum_congr rfl fun key member => probed_eq_searchItem (small key member) (ends key member) past
  constructor
  · intro always
    have ends : ∀ key ∈ keys, EndsInside table key := by
      intro key member
      by_contra beyond
      have withData (data : BitVec 32) := always ⟨data, BitVec.ofNat 32 key⟩
      have others (data : BitVec 32) : ∑ other ∈ keys.erase key, probed table ⟨data, BitVec.ofNat 32 key⟩ other =
          ∑ other ∈ keys.erase key, probed table ⟨0, BitVec.ofNat 32 key⟩ other := by
        refine sum_congr rfl fun other remaining => ?_
        obtain ⟨different, member'⟩ := mem_erase.mp remaining
        exact probe_other (small key member) (small other member') different data 0 _ _ _
      have sums (data : BitVec 32) := withData data
      simp only [← add_sum_erase keys _ member, others, probed_past (small key member) beyond] at sums
      have same := (sums 1).trans (sums 0).symm
      exact absurd (add_right_cancel (add_right_cancel same)) (by decide)
    refine ⟨ends, ?_⟩
    rw [← inside ends ⟨0, 0⟩]
    exact always ⟨0, 0⟩
  · rintro ⟨ends, sum⟩ past
    rw [inside ends past, sum]

end

/-- The first key of a tasklet. -/
def firstKey (nrTasklets taskletId : Nat) : Nat :=
  taskletId * taskNum nrTasklets

/-- What the DPU program has added after the first `k` keys of a tasklet. -/
def keySum (nrTasklets : Nat) (table : Nat → DataItem) (past : DataItem) (taskletId k : Nat) : BitVec 32 :=
  ∑ key ∈ Ico (firstKey nrTasklets taskletId) (firstKey nrTasklets taskletId + k), probed table past key

/-- The result once `k` keys are complete. -/
def keyReached (nrTasklets : Nat) (table : Nat → DataItem) (past : DataItem) (perfcounter : Nat → BitVec 32)
    (taskletId : Nat) : Nat → DpuResult
  | 0 => ⟨0, 0, 0⟩
  | k + 1 => ⟨keySum nrTasklets table past taskletId (k + 1), perfcounter (firstKey nrTasklets taskletId + k),
      firstKey nrTasklets taskletId + k⟩

/-- The stores of key `k` of a tasklet. -/
def keyStores (nrTasklets : Nat) (table : Nat → DataItem) (past : DataItem) (perfcounter : Nat → BitVec 32)
    (taskletId k : Nat) : List (DpuResult → DpuResult) :=
  [fun result => { result with hashsum := keySum nrTasklets table past taskletId (k + 1) },
   fun result => { result with idx := firstKey nrTasklets taskletId + k },
   fun result => { result with cycles := perfcounter (firstKey nrTasklets taskletId + k) }]

/-- The stores after the last key of a tasklet. -/
def finalStores (nrTasklets : Nat) (table : Nat → DataItem) (past : DataItem) (perfcounter : Nat → BitVec 32)
    (taskletId : Nat) : List (DpuResult → DpuResult) :=
  let bufferIdx := firstKey nrTasklets taskletId + taskNum nrTasklets
  [fun result => { result with cycles := perfcounter bufferIdx },
   fun result => { result with hashsum := keySum nrTasklets table past taskletId (taskNum nrTasklets) },
   fun result => { result with idx := bufferIdx }]

section
variable {nrTasklets taskletId : Nat} (table : Nat → DataItem) (past : DataItem) (perfcounter : Nat → BitVec 32)

theorem keyTurn_eq (k : Nat) :
    keyTurn (mram table past) perfcounter (keySum nrTasklets table past taskletId k)
        (firstKey nrTasklets taskletId + k) =
      ⟨keySum nrTasklets table past taskletId (k + 1),
        keyStores nrTasklets table past perfcounter taskletId k⟩ := by
  have sum : probe (mram table past) (firstKey nrTasklets taskletId + k) TABLE_SIZE
      (hashCode (firstKey nrTasklets taskletId + k)) (keySum nrTasklets table past taskletId k) =
        keySum nrTasklets table past taskletId (k + 1) := by
    rw [probe_add, keySum, keySum, ← Nat.add_assoc, sum_Ico_succ_top (Nat.le_add_right _ k)]
    rfl
  simp only [keyTurn, sum]
  rfl

/-- The loop over the keys of a tasklet. -/
theorem keys_eq :
    (counted 1 (firstKey nrTasklets taskletId + taskNum nrTasklets) (firstKey nrTasklets taskletId)).foldlM
        (keyTurn (mram table past) perfcounter) 0 =
      ⟨keySum nrTasklets table past taskletId (taskNum nrTasklets),
        (List.range (taskNum nrTasklets)).flatMap (keyStores nrTasklets table past perfcounter taskletId)⟩ := by
  have none : keySum nrTasklets table past taskletId 0 = 0 := by simp [keySum]
  rw [counted_one, Nat.add_sub_cancel_left, List.foldlM_map, ← none]
  exact foldlM_range fun k _ => keyTurn_eq table past perfcounter k

theorem main_stores :
    (main nrTasklets (mram table past) perfcounter taskletId).stores =
      (fun result => { result with hashsum := 0 }) ::
        ((List.range (taskNum nrTasklets)).flatMap (keyStores nrTasklets table past perfcounter taskletId) ++
          finalStores nrTasklets table past perfcounter taskletId) := by
  have keys := @keys_eq nrTasklets taskletId table past perfcounter
  have exits : exitValue 1 (firstKey nrTasklets taskletId + taskNum nrTasklets) (firstKey nrTasklets taskletId) =
      firstKey nrTasklets taskletId + taskNum nrTasklets := by
    rw [exitValue, counted_one, Nat.add_sub_cancel_left, List.length_map, List.length_range, Nat.one_mul]
  simp only [firstKey, taskNum] at keys exits
  simp only [main, bind_stores, store_stores, keys, exits]
  rfl

theorem resumeTasklet_hashsum (result : DpuResult) :
    (resumeTasklet nrTasklets table taskletId result).hashsum = result.hashsum +
      ∑ key ∈ Ico (result.idx + 1) (firstKey nrTasklets taskletId + taskNum nrTasklets), searchItem table key := by
  rw [sum_Ico_eq_sum_range, ← foldl_add_range]
  simp only [resumeTasklet, counted_one, List.foldl_map]
  rfl

theorem length_keys :
    ((List.range (taskNum nrTasklets)).flatMap (keyStores nrTasklets table past perfcounter taskletId)).length =
      taskNum nrTasklets * 3 :=
  length_turns fun _ _ => rfl

theorem stopped_eq (n : Nat) :
    stoppedAfter n (main nrTasklets (mram table past) perfcounter taskletId).stores ⟨0, 0, 0⟩ =
      stoppedAfter (n - 1 - taskNum nrTasklets * 3) (finalStores nrTasklets table past perfcounter taskletId)
        (stoppedAfter (n - 1)
          ((List.range (taskNum nrTasklets)).flatMap (keyStores nrTasklets table past perfcounter taskletId))
          (keyReached nrTasklets table past perfcounter taskletId 0)) := by
  rw [main_stores, ← length_keys table past perfcounter, ← stoppedAfter_append]
  cases n <;> rfl

/-- Stopped in key `k`, a tasklet has executed some of the three stores of that key. -/
theorem stopped_inside {n : Nat} (running : n - 1 < taskNum nrTasklets * 3) :
    stoppedAfter n (main nrTasklets (mram table past) perfcounter taskletId).stores ⟨0, 0, 0⟩ =
      stoppedAfter ((n - 1) % 3) (keyStores nrTasklets table past perfcounter taskletId ((n - 1) / 3))
        (keyReached nrTasklets table past perfcounter taskletId ((n - 1) / 3)) := by
  rw [stopped_eq, Nat.sub_eq_zero_of_le running.le, stoppedAfter_zero]
  exact stoppedAfter_turns (fun _ _ => rfl) (fun _ _ => rfl) running

/-- Stopped after the last key, a tasklet has the sum of all its keys. -/
theorem stopped_past (some : 0 < taskNum nrTasklets) {n : Nat} (beyond : taskNum nrTasklets * 3 ≤ n - 1) :
    (stoppedAfter n (main nrTasklets (mram table past) perfcounter taskletId).stores ⟨0, 0, 0⟩).hashsum =
        keySum nrTasklets table past taskletId (taskNum nrTasklets) ∧
      firstKey nrTasklets taskletId + taskNum nrTasklets ≤
        (stoppedAfter n (main nrTasklets (mram table past) perfcounter taskletId).stores ⟨0, 0, 0⟩).idx + 1 := by
  have complete : stoppedAfter (n - 1)
      ((List.range (taskNum nrTasklets)).flatMap (keyStores nrTasklets table past perfcounter taskletId))
      (keyReached nrTasklets table past perfcounter taskletId 0) =
        ⟨keySum nrTasklets table past taskletId (taskNum nrTasklets),
          perfcounter (firstKey nrTasklets taskletId + (taskNum nrTasklets - 1)),
          firstKey nrTasklets taskletId + (taskNum nrTasklets - 1)⟩ := by
    rw [stoppedAfter_of_le (by rwa [length_keys])]
    refine (@perform_turns _ _ (keyReached nrTasklets table past perfcounter taskletId) _ fun _ _ => rfl).trans ?_
    obtain ⟨last, keys⟩ := Nat.exists_eq_add_of_lt some
    rw [Nat.zero_add] at keys
    rw [keys]
    rfl
  rw [stopped_eq, complete]
  match n - 1 - taskNum nrTasklets * 3 with
  | 0 | 1 | 2 => exact ⟨rfl, show _ ≤ _ + (taskNum nrTasklets - 1) + 1 by omega⟩
  | more + 3 =>
    rw [stoppedAfter_of_le (by simp [finalStores])]
    exact ⟨rfl, Nat.le_succ _⟩

end

/-- The condition under which the host completes the share of a tasklet that is
stopped after `n` of its assignments. The probes it has made must have ended
inside the table. Between the stores of the sum and of the index of a key, that
key is added twice, and before the first index is stored, the keys added are
those from 1 on. -/
def Recoverable (nrTasklets : Nat) (table : Nat → DataItem) (taskletId n : Nat) : Prop :=
  let first := firstKey nrTasklets taskletId
  let k := (n - 1) / 3
  let stored := (n - 1) % 3
  let summed := if taskNum nrTasklets ≤ k then taskNum nrTasklets else if stored = 0 then k else k + 1
  (∀ key ∈ Ico first (first + summed), EndsInside table key) ∧
    (k < taskNum nrTasklets →
      (stored = 0 → k = 0 → if first = 0 then searchItem table 0 = 0 else ∑ key ∈ Ico 1 first,
        searchItem table key = 0) ∧
      (stored = 1 → if k = 0 then ∑ key ∈ Ico 1 (first + 1), searchItem table key = 0
        else searchItem table (first + k) = 0))

section
variable {nrTasklets taskletId : Nat} (table : Nat → DataItem)

theorem shareSum_eq :
    shareSum nrTasklets table taskletId =
      ∑ key ∈ Ico (firstKey nrTasklets taskletId) (firstKey nrTasklets taskletId + taskNum nrTasklets),
        searchItem table key := by
  rw [shareSum, Nat.add_mul, Nat.one_mul]
  rfl

theorem firstKey_add_le (inside : taskletId < nrTasklets) :
    firstKey nrTasklets taskletId + taskNum nrTasklets ≤ TABLE_SIZE := by
  have shares := Nat.mul_le_mul_right (taskNum nrTasklets) (Nat.succ_le_of_lt inside)
  rw [Nat.succ_mul] at shares
  exact shares.trans (Nat.mul_div_le TABLE_SIZE nrTasklets)

/-- Whatever lies past the table, a tasklet that has summed `summed` keys and
resumes at a given index is completed exactly if its probes have ended inside
the table and the keys left out and those added twice make no difference. -/
theorem forall_past_resumed_iff (inside : taskletId < nrTasklets) {summed : Nat}
    (next : Nat) (few : summed ≤ taskNum nrTasklets) {result : DataItem → DpuResult}
    (hashsum : ∀ past, (result past).hashsum = keySum nrTasklets table past taskletId summed)
    (rest : ∀ past, ∑ key ∈ Ico ((result past).idx + 1) (firstKey nrTasklets taskletId + taskNum nrTasklets),
        searchItem table key =
      ∑ key ∈ Ico next (firstKey nrTasklets taskletId + taskNum nrTasklets), searchItem table key) :
    (∀ past, (resumeTasklet nrTasklets table taskletId (result past)).hashsum =
      shareSum nrTasklets table taskletId) ↔
      (∀ key ∈ Ico (firstKey nrTasklets taskletId) (firstKey nrTasklets taskletId + summed), EndsInside table key) ∧
        ∑ key ∈ Ico (firstKey nrTasklets taskletId) (firstKey nrTasklets taskletId + summed), searchItem table key +
            ∑ key ∈ Ico next (firstKey nrTasklets taskletId + taskNum nrTasklets), searchItem table key =
          ∑ key ∈ Ico (firstKey nrTasklets taskletId) (firstKey nrTasklets taskletId + taskNum nrTasklets),
            searchItem table key := by
  simp only [resumeTasklet_hashsum, hashsum, rest, shareSum_eq]
  refine forall_past_iff fun key member => ?_
  have bound := firstKey_add_le inside
  have below := (mem_Ico.mp member).2
  omega

/-- Keys from 1 on in place of those from `first` on. -/
theorem restart_iff {f : Nat → BitVec 32} {first count : Nat} (some : 0 < count) :
    ∑ key ∈ Ico 1 (first + count), f key = ∑ key ∈ Ico first (first + count), f key ↔
      if first = 0 then f 0 = 0 else ∑ key ∈ Ico 1 first, f key = 0 := by
  by_cases zero : first = 0
  · subst zero
    rw [if_pos rfl, Nat.zero_add, sum_eq_sum_Ico_succ_bot some, right_eq_add]
  · rw [if_neg zero, ← sum_Ico_consecutive f (Nat.one_le_iff_ne_zero.mpr zero) (Nat.le_add_right first count),
      add_eq_right]

/-- The first key and the keys from 1 on in place of those from `first` on. -/
theorem restart_first_iff {f : Nat → BitVec 32} {first count : Nat} (some : 0 < count) :
    f first + ∑ key ∈ Ico 1 (first + count), f key = ∑ key ∈ Ico first (first + count), f key ↔
      ∑ key ∈ Ico 1 (first + 1), f key = 0 := by
  rw [sum_eq_sum_Ico_succ_bot (Nat.lt_add_of_pos_right some), add_right_inj,
    ← sum_Ico_consecutive f (Nat.le_add_left 1 first) (show first + 1 ≤ first + count by omega), add_eq_right]

/-- Key `k` summed and resumed. -/
theorem twice_iff {f : Nat → BitVec 32} {first count k : Nat} (below : k < count) :
    ∑ key ∈ Ico first (first + (k + 1)), f key + ∑ key ∈ Ico (first + k) (first + count), f key =
        ∑ key ∈ Ico first (first + count), f key ↔ f (first + k) = 0 := by
  rw [← Nat.add_assoc, sum_Ico_succ_top (Nat.le_add_right first k),
    ← sum_Ico_consecutive f (Nat.le_add_right first k) (show first + k ≤ first + count by omega), add_right_comm,
    add_eq_left]

theorem forall_past_iff_recoverable (perfcounter : Nat → BitVec 32) (inside : taskletId < nrTasklets)
    (some : 0 < taskNum nrTasklets) (n : Nat) :
    (∀ past, resumed nrTasklets table past perfcounter taskletId n = shareSum nrTasklets table taskletId) ↔
      Recoverable nrTasklets table taskletId n := by
  by_cases running : n - 1 < taskNum nrTasklets * 3
  · have below : (n - 1) / 3 < taskNum nrTasklets := by omega
    have stopped (past : DataItem) := @stopped_inside nrTasklets taskletId table past perfcounter n running
    simp only [resumed, stopped, Recoverable, if_neg (not_le.mpr below), below, true_implies]
    generalize (n - 1) / 3 = k at below
    match stored : (n - 1) % 3 with
    | 0 =>
      cases k with
      | zero =>
        have empty (past : DataItem) : 0 = keySum nrTasklets table past taskletId 0 := by simp [keySum]
        refine (forall_past_resumed_iff table inside 1 (Nat.zero_le _) empty fun _ => rfl).trans ?_
        simp [restart_iff some]
      | succ k =>
        refine (forall_past_resumed_iff table inside (firstKey nrTasklets taskletId + (k + 1)) below.le
          (fun _ => rfl)
          fun _ => rfl).trans ?_
        simp [sum_Ico_consecutive _ (Nat.le_add_right _ (k + 1)) (Nat.add_le_add_left below.le _)]
    | 1 =>
      cases k with
      | zero =>
        refine (forall_past_resumed_iff table inside 1 (Nat.succ_le_of_lt some)
          (fun _ => rfl) fun _ => rfl).trans ?_
        simp [restart_first_iff some]
      | succ k =>
        refine (forall_past_resumed_iff table inside (firstKey nrTasklets taskletId + (k + 1))
          (Nat.succ_le_of_lt below) (fun _ => rfl) fun _ => rfl).trans ?_
        simp [twice_iff below]
    | 2 =>
      refine (forall_past_resumed_iff table inside (firstKey nrTasklets taskletId + (k + 1))
        (Nat.succ_le_of_lt below) (fun _ => rfl) fun _ => rfl).trans ?_
      simp [sum_Ico_consecutive _ (Nat.le_add_right _ (k + 1)) (Nat.add_le_add_left (Nat.succ_le_of_lt below) _)]
    | beyond + 3 => omega
  · have late : taskNum nrTasklets ≤ (n - 1) / 3 := by omega
    have stopped (past : DataItem) :=
      @stopped_past nrTasklets taskletId table past perfcounter some n (not_lt.mp running)
    refine (forall_past_resumed_iff table inside (firstKey nrTasklets taskletId + taskNum nrTasklets) le_rfl
      (fun past => (stopped past).1) fun past => ?_).trans ?_
    · rw [Ico_self, Ico_eq_empty_of_le (stopped past).2]
    · simp [Recoverable, late, not_lt.mpr late]

end

/-- Whatever lies past the table, the resumed tasklets have the sums of their shares. -/
def Completes (nrTasklets : Nat) (table : Nat → DataItem) (perfcounter : Nat → BitVec 32)
    (stop : Nat → Nat) : Prop :=
  ∀ past, ∀ taskletId < nrTasklets,
    resumed nrTasklets table past perfcounter taskletId (stop taskletId) = shareSum nrTasklets table taskletId

theorem taskNum_pos {nrTasklets : Nat} (divides : nrTasklets ∣ TABLE_SIZE) : 0 < taskNum nrTasklets :=
  Nat.div_pos (Nat.le_of_dvd (by decide) divides) (Nat.pos_of_dvd_of_pos divides (by decide))

/-- Whatever assignments the tasklets are stopped after, the host completes
their shares exactly if every one of them is recoverable there. -/
theorem shares_completed_iff {nrTasklets : Nat} (divides : nrTasklets ∣ TABLE_SIZE) (table : Nat → DataItem)
    (perfcounter : Nat → BitVec 32) (stop : Nat → Nat) :
    Completes nrTasklets table perfcounter stop ↔
      ∀ taskletId < nrTasklets, Recoverable nrTasklets table taskletId (stop taskletId) := by
  constructor
  · intro completes taskletId inside
    refine (forall_past_iff_recoverable table perfcounter inside (taskNum_pos divides) _).mp fun past => ?_
    exact completes past taskletId inside
  · intro recoverable past taskletId inside
    have each := recoverable taskletId inside
    exact (forall_past_iff_recoverable table perfcounter inside (taskNum_pos divides) _).mpr each past

/-- Sixteen tasklets, each stopped after another number of the keys of its share. -/
theorem shares_completed_inside :
    Completes 16 (fun key => ⟨1, BitVec.ofNat 32 key⟩) (fun _ => 0) fun taskletId => 7 + 3 * taskletId := by
  refine (shares_completed_iff (by decide) _ _ _).mpr fun taskletId inside => ?_
  have keys : taskNum 16 = 65536 := by decide
  have share := firstKey_add_le inside
  have place : (7 + 3 * taskletId - 1) / 3 = taskletId + 2 := by omega
  have stored : (7 + 3 * taskletId - 1) % 3 = 0 := by omega
  simp only [Recoverable, place, stored]
  rw [if_neg (by omega), if_pos trivial]
  refine ⟨fun key member => ?_, fun _ => ⟨fun _ none => absurd none (Nat.succ_ne_zero _), nofun⟩⟩
  have below := (mem_Ico.mp member).2
  exact .inr ⟨key, le_rfl, by omega, .inl rfl⟩

/-- The host takes the zeroed index of a tasklet that is stopped at once for a
key that is complete, and leaves out key 0. -/
theorem sixteen_shares_not_completed :
    ¬ ∀ (nrTasklets : Nat) (table : Nat → DataItem) (perfcounter : Nat → BitVec 32) (stop : Nat → Nat),
      nrTasklets ∣ TABLE_SIZE → Completes nrTasklets table perfcounter stop := by
  intro always
  have completes := always 16 (fun key => ⟨1, BitVec.ofNat 32 key⟩) (fun _ => 0) (fun _ => 0) (by decide)
  have recoverable := (@forall_past_iff_recoverable 16 0 _ _ (by decide) (taskNum_pos (by decide)) 0).mp
    fun past => completes past 0 (by decide)
  have first : firstKey 16 0 = 0 := Nat.zero_mul _
  have found : searchItem (fun key => ⟨1, BitVec.ofNat 32 key⟩) 0 = 1 := by
    rw [searchItem, hashCode_eq (by decide), searchFrom.eq_def]
    simp
  have missing := (recoverable.2 (taskNum_pos (by decide))).1 rfl rfl
  rw [if_pos first, found] at missing
  exact absurd missing (by decide)

end Upmem.HashTable
