import Mathlib.Data.BitVec
import Upmem.Lib.Loops
import Upmem.Lib.Stores

namespace Upmem.Keccak
open Loops Stores

/-- The words of a keccak state. -/
abbrev Words := Vector (BitVec 64) 25

def ROTL64 (x : BitVec 64) (y : Nat) : BitVec 64 := (x <<< y) ||| (x >>> (64 - y))

def keccakfRndc : List (BitVec 64) :=
  [0x0000000000000001#64, 0x0000000000008082#64, 0x800000000000808a#64, 0x8000000080008000#64,
   0x000000000000808b#64, 0x0000000080000001#64, 0x8000000080008081#64, 0x8000000000008009#64,
   0x000000000000008a#64, 0x0000000000000088#64, 0x0000000080008009#64, 0x000000008000000a#64,
   0x000000008000808b#64, 0x800000000000008b#64, 0x8000000000008089#64, 0x8000000000008003#64,
   0x8000000000008002#64, 0x8000000000000080#64, 0x000000000000800a#64, 0x800000008000000a#64,
   0x8000000080008081#64, 0x8000000000008080#64, 0x0000000080000001#64, 0x8000000080008008#64]

/-- The first part of a round: every word with the parities of two columns. -/
def addParities (st : Words) : Words :=
  let bc : Vector (BitVec 64) 5 :=
    Vector.ofFn fun c => st[c.val] ^^^ st[c.val + 5] ^^^ st[c.val + 10] ^^^ st[c.val + 15] ^^^ st[c.val + 20]
  Vector.ofFn fun i => st[i.val] ^^^ (bc[(i.val + 4) % 5] ^^^ ROTL64 bc[(i.val + 1) % 5] 1)

/-- The words that the second part of a round moves to, from word 1 on, and
the rotations on the way. -/
def moves : List (Fin 25 × Nat) :=
  [(10, 1), (7, 3), (11, 6), (17, 10), (18, 15), (3, 21), (5, 28), (16, 36), (8, 45), (21, 55), (24, 2), (4, 14),
   (15, 27), (23, 41), (19, 56), (13, 8), (12, 25), (2, 43), (20, 62), (14, 18), (22, 39), (9, 61),
     (6, 20), (1, 44)]

def moveWords (st : Words) : Words :=
  (moves.foldl (fun (st, t) (i, rotation) => (st.set i.val (ROTL64 t rotation), st[i.val])) (st, st[1])).1

/-- The third part of a round, row by row. -/
def mixRows (st : Words) : Words :=
  Vector.ofFn fun i =>
    st[i.val] ^^^ (~~~st[i.val / 5 * 5 + (i.val + 1) % 5] &&& st[i.val / 5 * 5 + (i.val + 2) % 5])

def keccakf (st : Words) : Words :=
  keccakfRndc.foldl (fun st rndc =>
    let st := mixRows (moveWords (addParities st))
    st.set 0 (st[0] ^^^ rndc)) st

/-- The rotation of the words after each `keccakf`. -/
def rotateWords (st : Words) : Words :=
  Vector.ofFn fun i => if below : i.val < 24 then st[i.val + 1] else st[0]

/-- The exclusive or of the words of a state, added to a sum. -/
def xorWords (st : Words) (sum : BitVec 64) : BitVec 64 :=
  (List.finRange 25).foldl (fun sum i => sum ^^^ st[i.val]) sum

/-- `struct dpu_params`. -/
structure DpuParams where
  fkey : BitVec 32
  lkey : BitVec 32
  loops : BitVec 32

/-- `dpu_result_t`. -/
structure DpuResult where
  sum : BitVec 64
  cycles : BitVec 64
  curKey : BitVec 32
  loops : BitVec 32
  lkey : BitVec 32
  curLoop : BitVec 32
  tst : Words

/-- The zeroed result of a tasklet. -/
def zeroed : DpuResult where
  sum := 0
  cycles := 0
  curKey := 0
  loops := 0
  lkey := 0
  curLoop := 0
  tst := Vector.replicate 25 0

def initialWords : Words :=
  #v[0x6170727463692e6b#64, 0x68406570632e6d6f#64, 0x3335203539383937#64, 0x3436333333383732#64,
     0x3931313736203339#64, 0x350a323839303437#64, 0x3730313834363020#64, 0x2039363838323330#64,
     0x3131303737362039#64, 0x3638313533203832#64, 0x3930383334343036#64, 0x3332373120323335#64,
     0x2020340a31383131#64, 0x7463692e6b656469#64, 0x70632e6d6f310a31#64, 0x3539383937323338#64,
     0x3333383732203930#64, 0x3736203339393937#64, 0x3839303437343920#64, 0x3834363020323636#64,
     0x3838323330383435#64, 0x37373620390a2032#64, 0x3533203832333236#64, 0x3334343036353935#64,
     0x3120323335393530#64]

/-- The words that the scrambling of a key starts from. -/
def keyWords (key : BitVec 64) : Words :=
  Vector.ofFn fun i => initialWords[i.val] ^^^ key

/-- One turn of the loop of `scramble` and of the resuming host. -/
def loopTurn (st : Words) : Words :=
  rotateWords (keccakf st)

/-- The copy of the state that every loop makes in the result. -/
def copyWords (st : Words) : Traced DpuResult Unit :=
  (List.finRange 25).forM fun i => store fun result => { result with tst := result.tst.set i.val st[i.val] }

def scrambleTurn (st : Words) (l : Nat) : Traced DpuResult Words := do
  store fun result => { result with curLoop := BitVec.ofNat 32 l }
  copyWords st
  pure (loopTurn st)

/-- `scramble`, whose number of loops is an `int`. -/
def scramble (key : BitVec 64) (loops : Int) : Traced DpuResult (BitVec 64) := do
  let st ← (List.range loops.toNat).foldlM scrambleTurn (keyWords key)
  pure (xorWords st 0)

/-- One key of a tasklet. What its cycle counter has added up to is given by the key. -/
def keyTurn (params : DpuParams) (cycles : Nat → BitVec 64) (sum : BitVec 64) (key : Nat) :
    Traced DpuResult (BitVec 64) := do
  let scrambled ← scramble (BitVec.ofNat 64 key) params.loops.toInt
  let sum := sum ^^^ scrambled
  store fun result => { result with sum := sum }
  store fun result => { result with cycles := cycles key }
  store fun result => { result with curKey := result.curKey + 1 }
  store fun result => { result with curLoop := result.loops }
  pure sum

/-- `main` of the DPU program, as a tasklet runs it. -/
def main (params : DpuParams) (cycles : Nat → BitVec 64) : Traced DpuResult Unit := do
  store fun result => { result with curKey := params.fkey }
  store fun result => { result with loops := params.loops }
  store fun result => { result with lkey := params.lkey }
  store fun result => { result with curLoop := -1 }
  let sum ← (counted 1 params.lkey.toNat params.fkey.toNat).foldlM (keyTurn params cycles) 0
  store fun result => { result with sum := sum }
  store fun result => { result with cycles := cycles params.lkey.toNat }

/-- What `host_resume` does to the total for one tasklet of an aborted DPU. Its
loop counter is compared as an unsigned integer. -/
def resumeTasklet (result : DpuResult) (totalSum : BitVec 64) : BitVec 64 :=
  (counted 1 result.lkey.toNat result.curKey.toNat).foldl
    (fun totalSum _ =>
      xorWords ((counted 1 result.loops.toNat result.curLoop.toNat).foldl
        (fun st _ => loopTurn st) result.tst) totalSum)
    totalSum

/-- The sum of a tasklet that is stopped after `n` of its stores, with what the host adds for it. -/
def resumed (params : DpuParams) (cycles : Nat → BitVec 64) (n : Nat) : BitVec 64 :=
  resumeTasklet (stoppedAfter n (main params cycles).stores zeroed)
    (stoppedAfter n (main params cycles).stores zeroed).sum

/-- The sum of an uninterrupted run. -/
def rangeSum (params : DpuParams) : BitVec 64 :=
  (counted 1 params.lkey.toNat params.fkey.toNat).foldl
    (fun sum key => sum ^^^ (scramble (BitVec.ofNat 64 key) params.loops.toInt).value) 0

theorem xorWords_eq (st : Words) (sum : BitVec 64) : xorWords st sum = sum ^^^ xorWords st 0 :=
  foldl_xor _ _ sum

/-- What a value adds that is met a number of times. -/
def repeated (count : Nat) (value : BitVec 64) : BitVec 64 :=
  if count % 2 = 1 then value else 0

/-- What the host adds for one key that it resumes. -/
def resumedKey (result : DpuResult) : BitVec 64 :=
  xorWords (loopTurn^[result.loops.toNat - result.curLoop.toNat] result.tst) 0

/-- The host adds the same value for every key that is left. -/
theorem resumeTasklet_eq (result : DpuResult) (totalSum : BitVec 64) :
    resumeTasklet result totalSum =
      totalSum ^^^ repeated (result.lkey.toNat - result.curKey.toNat) (resumedKey result) := by
  have turns (st : Words) : (counted 1 result.loops.toNat result.curLoop.toNat).foldl (fun st _ => loopTurn st) st =
      loopTurn^[result.loops.toNat - result.curLoop.toNat] st := by
    rw [List.foldl_const, counted_one, List.length_map, List.length_range]
  simp only [resumeTasklet, turns]
  have each (totalSum : BitVec 64) :
    xorWords (loopTurn^[result.loops.toNat - result.curLoop.toNat] result.tst) totalSum =
      totalSum ^^^ resumedKey result := xorWords_eq _ _
  simp only [each]
  rw [foldl_xor, counted_one, List.foldl_map, foldl_xor_range, xorRange_const]
  rfl

/-- The state of a key after some loops. -/
def scrambleWords (key : Nat) (l : Nat) : Words :=
  loopTurn^[l] (keyWords (BitVec.ofNat 64 key))

def scrambleSum (params : DpuParams) (key : Nat) : BitVec 64 :=
  xorWords (scrambleWords key params.loops.toInt.toNat) 0

def copyStores (st : Words) : List (DpuResult → DpuResult) :=
  (List.finRange 25).map fun i result => { result with tst := result.tst.set i.val st[i.val] }

/-- The stores of a loop of `scramble`. -/
def turnStores (key l : Nat) : List (DpuResult → DpuResult) :=
  (fun result => { result with curLoop := BitVec.ofNat 32 l }) :: copyStores (scrambleWords key l)

theorem copyWords_eq (st : Words) : copyWords st = ⟨(), copyStores st⟩ :=
  forM_store _ _

theorem scrambleTurn_eq (key l : Nat) :
    scrambleTurn (scrambleWords key l) l = ⟨scrambleWords key (l + 1), turnStores key l⟩ := by
  rw [scrambleTurn, copyWords_eq, scrambleWords, scrambleWords, Function.iterate_succ_apply']
  simp [bind, pure, store, turnStores, scrambleWords]

theorem scramble_eq (params : DpuParams) (key : Nat) :
    scramble (BitVec.ofNat 64 key) params.loops.toInt =
      ⟨scrambleSum params key, (List.range params.loops.toInt.toNat).flatMap (turnStores key)⟩ := by
  have turns : (List.range params.loops.toInt.toNat).foldlM scrambleTurn (scrambleWords key 0) = _ :=
    foldlM_range fun l _ => scrambleTurn_eq key l
  have begun : scrambleWords key 0 = keyWords (BitVec.ofNat 64 key) := rfl
  rw [begun] at turns
  rw [scramble, turns]
  exact congrArg (Traced.mk _) (List.append_nil _)

/-- The sum of the keys before key `k` of the range. -/
def sumBefore (params : DpuParams) (k : Nat) : BitVec 64 :=
  xorRange (fun each => scrambleSum params (params.fkey.toNat + each)) k

def nrKeys (params : DpuParams) : Nat :=
  params.lkey.toNat - params.fkey.toNat

theorem rangeSum_eq (params : DpuParams) : rangeSum params = sumBefore params (nrKeys params) := by
  simp only [rangeSum, scramble_eq, counted_one, List.foldl_map]
  exact foldl_xor_range _ _

/-- The stores that follow the loops of key `k` of the range. -/
def closingStores (params : DpuParams) (cycles : Nat → BitVec 64) (k : Nat) : List (DpuResult → DpuResult) :=
  [fun result => { result with sum := sumBefore params (k + 1) },
   fun result => { result with cycles := cycles (params.fkey.toNat + k) },
   fun result => { result with curKey := result.curKey + 1 },
   fun result => { result with curLoop := result.loops }]

def keyStores (params : DpuParams) (cycles : Nat → BitVec 64) (k : Nat) : List (DpuResult → DpuResult) :=
  (List.range params.loops.toInt.toNat).flatMap (turnStores (params.fkey.toNat + k)) ++
    closingStores params cycles k

theorem keyTurn_eq (params : DpuParams) (cycles : Nat → BitVec 64) (k : Nat) :
    keyTurn params cycles (sumBefore params k) (params.fkey.toNat + k) =
      ⟨sumBefore params (k + 1), keyStores params cycles k⟩ := by
  simp only [keyTurn, scramble_eq]
  rfl

/-- The stores that precede the first key. -/
def openingStores (params : DpuParams) : List (DpuResult → DpuResult) :=
  [fun result => { result with curKey := params.fkey },
   fun result => { result with loops := params.loops },
   fun result => { result with lkey := params.lkey },
   fun result => { result with curLoop := -1 }]

/-- The loop over the keys of a tasklet. -/
theorem keys_eq (params : DpuParams) (cycles : Nat → BitVec 64) :
    (counted 1 params.lkey.toNat params.fkey.toNat).foldlM (keyTurn params cycles) 0 =
      ⟨sumBefore params (nrKeys params), (List.range (nrKeys params)).flatMap (keyStores params cycles)⟩ := by
  have turns : (List.range (nrKeys params)).foldlM
      (fun sum k => keyTurn params cycles sum (params.fkey.toNat + k)) (sumBefore params 0) = _ :=
    foldlM_range fun k _ => keyTurn_eq params cycles k
  rw [counted_one, List.foldlM_map]
  exact turns

/-- The stores that follow the last key. -/
def finalStores (params : DpuParams) (cycles : Nat → BitVec 64) : List (DpuResult → DpuResult) :=
  [fun result => { result with sum := sumBefore params (nrKeys params) },
   fun result => { result with cycles := cycles params.lkey.toNat }]

theorem main_stores (params : DpuParams) (cycles : Nat → BitVec 64) :
    (main params cycles).stores = openingStores params ++
      ((List.range (nrKeys params)).flatMap (keyStores params cycles) ++ finalStores params cycles) := by
  simp only [main, bind_stores, store_stores, keys_eq]
  rfl

/-- A state that has been copied over another one up to a word. -/
def partialCopy (copied : Nat) (st before : Words) : Words :=
  Vector.ofFn fun i => if i.val < copied then st[i.val] else before[i.val]

theorem partialCopy_all (st before : Words) : partialCopy 25 st before = st := by
  ext i inside
  simp [partialCopy]

theorem partialCopy_none (st before : Words) : partialCopy 0 st before = before := by
  ext i inside
  simp [partialCopy]

theorem partialCopy_next {copied : Nat} (small : copied < 25) (st before : Words) :
    (partialCopy copied st before).set copied st[copied] = partialCopy (copied + 1) st before := by
  refine Vector.ext fun i inside => ?_
  simp only [partialCopy, Vector.getElem_set, Vector.getElem_ofFn]
  by_cases here : copied = i
  · subst here
    rw [if_pos rfl, if_pos (Nat.lt_succ_self copied)]
  · have same : i < copied ↔ i < copied + 1 := by omega
    simp only [if_neg here, same]

theorem length_copyStores (st : Words) : (copyStores st).length = 25 := by
  simp [copyStores]

theorem stoppedAfter_copyStores {copied : Nat} (some : copied ≤ 25) (st : Words) (result : DpuResult) :
    stoppedAfter copied (copyStores st) result = { result with tst := partialCopy copied st result.tst } := by
  induction copied with
  | zero => rw [partialCopy_none, stoppedAfter_zero]
  | succ copied ih =>
    have small : copied < 25 := some
    have copies := partialCopy_next small st result.tst
    have inside : copied < (copyStores st).length := by rwa [length_copyStores]
    have next : (copyStores st)[copied] =
        fun result => { result with tst := result.tst.set copied st[copied] } := by
      simp only [copyStores, List.getElem_map, List.getElem_finRange]
      rfl
    rw [stoppedAfter_next inside, ih small.le, next, ← copies]
    rfl

theorem perform_copyStores (st : Words) (result : DpuResult) :
    perform (copyStores st) result = { result with tst := st } := by
  rw [← stoppedAfter_of_le (length_copyStores st).le, stoppedAfter_copyStores le_rfl, partialCopy_all]

/-- The state copied last when a tasklet comes to loop `l` of key `k` of the range. -/
def copyBefore (params : DpuParams) (k : Nat) : Nat → Words
  | l + 1 => scrambleWords (params.fkey.toNat + k) l
  | 0 => match k, params.loops.toInt.toNat with
    | k + 1, last + 1 => scrambleWords (params.fkey.toNat + k) last
    | _, _ => zeroed.tst

/-- The loop counter that a tasklet has stored when it comes to loop `l` of key `k` of the range. -/
def curLoopBefore (params : DpuParams) (k : Nat) : Nat → BitVec 32
  | l + 1 => BitVec.ofNat 32 l
  | 0 => if k = 0 then -1 else params.loops

def cyclesBefore (params : DpuParams) (cycles : Nat → BitVec 64) : Nat → BitVec 64
  | 0 => 0
  | k + 1 => cycles (params.fkey.toNat + k)

/-- The result of a tasklet that comes to loop `l` of key `k` of the range. -/
def reached (params : DpuParams) (cycles : Nat → BitVec 64) (k l : Nat) : DpuResult where
  sum := sumBefore params k
  cycles := cyclesBefore params cycles k
  curKey := BitVec.ofNat 32 (params.fkey.toNat + k)
  loops := params.loops
  lkey := params.lkey
  curLoop := curLoopBefore params k l
  tst := copyBefore params k l

theorem copyBefore_next (params : DpuParams) (k : Nat) :
    copyBefore params k params.loops.toInt.toNat = copyBefore params (k + 1) 0 := by
  simp only [copyBefore]
  cases params.loops.toInt.toNat with
  | zero => cases k <;> rfl
  | succ last => rfl

section
variable (params : DpuParams) (cycles : Nat → BitVec 64)

theorem perform_openingStores : perform (openingStores params) zeroed = reached params cycles 0 0 := by
  have none : copyBefore params 0 0 = zeroed.tst := rfl
  simp only [openingStores, perform_cons, perform_nil, reached, none, Nat.add_zero, BitVec.ofNat_toNat,
    BitVec.setWidth_eq]
  rfl

theorem perform_turnStores (k l : Nat) :
    perform (turnStores (params.fkey.toNat + k) l)
    (reached params cycles k l) = reached params cycles k (l + 1) := by
  rw [turnStores, perform_cons, perform_copyStores]
  rfl

theorem length_turnStores (key l : Nat) : (turnStores key l).length = 26 := by
  rw [turnStores, List.length_cons, length_copyStores]

theorem length_loopStores (k : Nat) : ((List.range params.loops.toInt.toNat).flatMap
    (turnStores (params.fkey.toNat + k))).length = params.loops.toInt.toNat * 26 :=
  length_turns fun l _ => length_turnStores _ l

theorem perform_loopStores (k : Nat) : perform ((List.range params.loops.toInt.toNat).flatMap
    (turnStores (params.fkey.toNat + k))) (reached params cycles k 0) =
      reached params cycles k params.loops.toInt.toNat :=
  perform_turns fun l _ => perform_turnStores params cycles k l

/-- The number of stores of a key. -/
def storesPerKey : Nat := params.loops.toInt.toNat * 26 + 4

theorem length_keyStores (k : Nat) : (keyStores params cycles k).length = storesPerKey params := by
  rw [keyStores, List.length_append, length_loopStores]
  rfl

theorem perform_keyStores (k : Nat) :
    perform (keyStores params cycles k) (reached params cycles k 0) = reached params cycles (k + 1) 0 := by
  rw [keyStores, perform_append, perform_loopStores]
  have counted : BitVec.ofNat 32 (params.fkey.toNat + k) + 1 = BitVec.ofNat 32 (params.fkey.toNat + (k + 1)) := by
    rw [← Nat.add_assoc, BitVec.ofNat_add (_ + k) 1]
    rfl
  have copied := copyBefore_next params k
  simp only [closingStores, perform_cons, perform_nil, reached, counted, copied]
  rfl

/-- A tasklet stopped in one of its keys. -/
theorem stopped_inside {n : Nat} (opened : 4 ≤ n) (running : n - 4 < nrKeys params * storesPerKey params) :
    stoppedAfter n (main params cycles).stores zeroed =
      stoppedAfter ((n - 4) % storesPerKey params) (keyStores params cycles ((n - 4) / storesPerKey params))
        (reached params cycles ((n - 4) / storesPerKey params) 0) := by
  have opening : stoppedAfter n (openingStores params) zeroed = reached params cycles 0 0 := by
    rw [stoppedAfter_of_le opened, perform_openingStores]
  have keys := length_turns (N := nrKeys params) fun k _ => length_keyStores params cycles k
  rw [main_stores, stoppedAfter_append, opening, stoppedAfter_append, keys]
  change stoppedAfter (n - 4 - _) _ (stoppedAfter (n - 4) _ _) = _
  rw [Nat.sub_eq_zero_of_le running.le, stoppedAfter_zero]
  exact stoppedAfter_turns (fun k _ => length_keyStores params cycles k)
    (fun k _ => perform_keyStores params cycles k) running

/-- A tasklet stopped in one of the loops of a key. -/
theorem stopped_looping {k r : Nat} (looping : r < params.loops.toInt.toNat * 26) :
    stoppedAfter r (keyStores params cycles k) (reached params cycles k 0) =
      stoppedAfter (r % 26) (turnStores (params.fkey.toNat + k) (r / 26)) (reached params cycles k (r / 26)) := by
  rw [keyStores, stoppedAfter_append, length_loopStores, Nat.sub_eq_zero_of_le looping.le, stoppedAfter_zero]
  exact stoppedAfter_turns (fun l _ => length_turnStores _ l)
    (fun l _ => perform_turnStores params cycles k l) looping

/-- A tasklet stopped after the loops of a key. -/
theorem stopped_closing {k r : Nat} (closing : params.loops.toInt.toNat * 26 ≤ r) :
    stoppedAfter r (keyStores params cycles k) (reached params cycles k 0) =
      stoppedAfter (r - params.loops.toInt.toNat * 26) (closingStores params cycles k)
        (reached params cycles k params.loops.toInt.toNat) := by
  have complete : stoppedAfter r ((List.range params.loops.toInt.toNat).flatMap
      (turnStores (params.fkey.toNat + k))) (reached params cycles k 0) =
        reached params cycles k params.loops.toInt.toNat := by
    rw [stoppedAfter_of_le (by rwa [length_loopStores]), perform_loopStores]
  rw [keyStores, stoppedAfter_append, length_loopStores, complete]

/-- A tasklet stopped after its last key. -/
theorem stopped_past {n : Nat} (opened : 4 ≤ n) (past : nrKeys params * storesPerKey params ≤ n - 4) :
    ∃ last, stoppedAfter n (main params cycles).stores zeroed =
      { reached params cycles (nrKeys params) 0 with cycles := last } := by
  have opening : stoppedAfter n (openingStores params) zeroed = reached params cycles 0 0 := by
    rw [stoppedAfter_of_le opened, perform_openingStores]
  have keys := length_turns (N := nrKeys params) fun k _ => length_keyStores params cycles k
  have complete : stoppedAfter (n - 4) ((List.range (nrKeys params)).flatMap (keyStores params cycles))
      (reached params cycles 0 0) = reached params cycles (nrKeys params) 0 := by
    rw [stoppedAfter_of_le (by rwa [keys])]
    exact perform_turns fun k _ => perform_keyStores params cycles k
  have through : (openingStores params).length = 4 := rfl
  rw [main_stores, stoppedAfter_append, opening, through, stoppedAfter_append, keys, complete]
  match n - 4 - nrKeys params * storesPerKey params with
  | 0 | 1 => exact ⟨_, rfl⟩
  | beyond + 2 =>
    rw [stoppedAfter_of_le (by simp [finalStores])]
    exact ⟨_, rfl⟩

end

/-- The sum of the keys of the range from key `k` on. -/
def restSum (params : DpuParams) (k : Nat) : BitVec 64 :=
  xorRange (fun each => scrambleSum params (params.fkey.toNat + (k + each))) (nrKeys params - k)

theorem sumBefore_restSum {params : DpuParams} {k : Nat} (inside : k ≤ nrKeys params) :
    sumBefore params k ^^^ restSum params k = rangeSum params := by
  rw [rangeSum_eq, ← Nat.add_sub_cancel' inside, sumBefore, sumBefore, xorRange_add, restSum]

theorem toNat_curKey {params : DpuParams} {k : Nat} (inside : k ≤ nrKeys params) :
    (BitVec.ofNat 32 (params.fkey.toNat + k)).toNat = params.fkey.toNat + k := by
  rw [BitVec.toNat_ofNat, Nat.mod_eq_of_lt]
  have first := params.fkey.isLt
  have last := params.lkey.isLt
  rw [nrKeys] at inside
  omega

/-- A snapshot that has the sum of some keys is completed if the keys left out
of the sum add up to what the host adds for the keys from its current key on. -/
theorem resumeTasklet_iff {params : DpuParams} {result : DpuResult} {summed next : Nat}
    (some : summed ≤ nrKeys params) (inside : next ≤ nrKeys params) (sum : result.sum = sumBefore params summed)
    (curKey : result.curKey = BitVec.ofNat 32 (params.fkey.toNat + next)) (lkey : result.lkey = params.lkey) :
    resumeTasklet result result.sum = rangeSum params ↔
      restSum params summed = repeated (nrKeys params - next) (resumedKey result) := by
  have left : params.lkey.toNat - (params.fkey.toNat + next) = nrKeys params - next := Nat.sub_add_eq ..
  rw [resumeTasklet_eq, sum, lkey, curKey, toNat_curKey inside, left, ← sumBefore_restSum some,
    BitVec.xor_right_inj,
    eq_comm]

/-- What the host adds for each key that is left to a tasklet stopped in loop
`l` of key `k` of the range: it goes on from the copy of the state, which may be
that of an earlier loop or key, or in part. -/
def resumedSum (params : DpuParams) (k l : Nat) (stored : Nat) : BitVec 64 :=
  if stored ≠ 0 then
    xorWords (loopTurn^[params.loops.toInt.toNat - l]
      (partialCopy (stored - 1) (scrambleWords (params.fkey.toNat + k) l) (copyBefore params k l))) 0
  else if l ≠ 0 then scrambleSum params (params.fkey.toNat + k)
  else xorWords (copyBefore params k 0) 0

theorem loops_toNat {params : DpuParams} (some : 0 < params.loops.toInt.toNat) :
    params.loops.toNat = params.loops.toInt.toNat := by
  have small : 2 * params.loops.toNat < 2 ^ 32 := by
    have signed := BitVec.toInt_eq_toNat_cond params.loops
    have bound := params.loops.isLt
    split_ifs at signed <;> omega
  rw [BitVec.toInt_eq_toNat_of_lt small, Int.toNat_natCast]

theorem toNat_curLoop {params : DpuParams} {l : Nat} (inside : l < params.loops.toInt.toNat) :
    (BitVec.ofNat 32 l).toNat = l := by
  have bound := params.loops.isLt
  rw [loops_toNat (Nat.zero_lt_of_lt inside)] at bound
  rw [BitVec.toNat_ofNat, Nat.mod_eq_of_lt (inside.trans bound)]

/-- A tasklet that has not stored anything in loop `l` yet. -/
theorem resumedKey_reached {params : DpuParams} {k l : Nat} (inside : l ≤ params.loops.toInt.toNat)
    {result : DpuResult}
    (loops : result.loops = params.loops) (curLoop : result.curLoop = curLoopBefore params k l)
    (tst : result.tst = copyBefore params k l) : resumedKey result = resumedSum params k l 0 := by
  rw [resumedKey, loops, curLoop, tst]
  cases l with
  | zero =>
    -- The counter before the first loop is not negative for the host, but the largest one.
    have largest : (-1 : BitVec 32).toNat = 2 ^ 32 - 1 := by decide
    have none : params.loops.toNat - (curLoopBefore params k 0).toNat = 0 := by
      have bound := params.loops.isLt
      rw [curLoopBefore]
      split
      · omega
      · exact Nat.sub_self _
    rw [none]
    rfl
  | succ l =>
    have turns : params.loops.toInt.toNat = params.loops.toInt.toNat - l + l := by omega
    rw [curLoopBefore, toNat_curLoop inside, loops_toNat (Nat.zero_lt_of_lt inside), copyBefore, scrambleWords,
      ← Function.iterate_add_apply, ← turns]
    rfl

/-- A tasklet that has stored the counter of loop `l` and part of the state. -/
theorem resumedKey_copying {params : DpuParams} {k l copied : Nat} (inside : l < params.loops.toInt.toNat)
    {result : DpuResult} (loops : result.loops = params.loops) (curLoop : result.curLoop = BitVec.ofNat 32 l)
    (tst : result.tst = partialCopy copied (scrambleWords (params.fkey.toNat + k) l) (copyBefore params k l)) :
    resumedKey result = resumedSum params k l (copied + 1) := by
  rw [resumedKey, loops, curLoop, tst, toNat_curLoop inside, loops_toNat (Nat.zero_lt_of_lt inside)]
  rfl

/-- The condition under which the host completes the sum of a tasklet that is
stopped after `n` of its stores. The host adds one value for every key from the
current one on, so that value, met as often as there are keys left, has to make
up for the sum of the keys that are missing. -/
def Recoverable (params : DpuParams) (n : Nat) : Prop :=
  let keys := nrKeys params
  let loops := params.loops.toInt.toNat
  let k := (n - 4) / storesPerKey params
  let stored := (n - 4) % storesPerKey params
  -- Before `lkey` is stored the host adds nothing, and before `cur_loop` is, it starts from zeroed words.
  if n < 3 then restSum params 0 = 0
  else if n < 4 then restSum params 0 = repeated keys (xorWords (loopTurn^[params.loops.toNat] zeroed.tst) 0)
  else if keys ≤ k then True
  else if stored < loops * 26 then
    restSum params k = repeated (keys - k) (resumedSum params k (stored / 26) (stored % 26))
  else if stored < loops * 26 + 1 then restSum params k = repeated (keys - k) (resumedSum params k loops 0)
  -- The sum has key `k` already, but the current key is still key `k`.
  else if stored < loops * 26 + 3 then restSum params (k + 1) = repeated (keys - k) (resumedSum params k loops 0)
  else restSum params (k + 1) = repeated (keys - (k + 1)) (resumedSum params k loops 0)

section
variable (params : DpuParams) (cycles : Nat → BitVec 64)

/-- A stop before the number of the last key is stored. -/
theorem resume_unopened_iff {result : DpuResult} (sum : result.sum = 0) (lkey : result.lkey = 0) :
    resumeTasklet result result.sum = rangeSum params ↔ restSum params 0 = 0 := by
  have none : (0 : BitVec 32).toNat - result.curKey.toNat = 0 := Nat.zero_sub _
  have whole : rangeSum params = restSum params 0 := by
    rw [← sumBefore_restSum (Nat.zero_le _)]
    exact BitVec.zero_xor
  rw [resumeTasklet_eq, sum, lkey, none, whole, eq_comm]
  exact Iff.of_eq (congrArg _ BitVec.xor_self)

/-- A stop in one of the loops of key `k` of the range. -/
theorem resume_looping_iff {k stored : Nat} (inside : k < nrKeys params)
    (looping : stored < params.loops.toInt.toNat * 26) :
    let result := stoppedAfter stored (keyStores params cycles k) (reached params cycles k 0)
    resumeTasklet result result.sum = rangeSum params ↔
      restSum params k = repeated (nrKeys params - k) (resumedSum params k (stored / 26) (stored % 26)) := by
  have at_loop : stored / 26 < params.loops.toInt.toNat := (Nat.div_lt_iff_lt_mul (by decide)).mpr looping
  have small := Nat.mod_lt stored (show 0 < 26 by decide)
  simp only [stopped_looping params cycles looping]
  generalize stored / 26 = l at *
  generalize stored % 26 = i at *
  cases i with
  | zero =>
    refine (resumeTasklet_iff inside.le inside.le rfl rfl rfl).trans (Iff.of_eq ?_)
    rw [stoppedAfter_zero, resumedKey_reached at_loop.le rfl rfl rfl]
  | succ copied =>
    rw [turnStores, stoppedAfter_succ, stoppedAfter_copyStores (by omega)]
    refine (resumeTasklet_iff inside.le inside.le rfl rfl rfl).trans (Iff.of_eq ?_)
    exact congrArg _ (congrArg _ (resumedKey_copying at_loop rfl rfl rfl))

/-- A stop between the stores that follow the loops of key `k` of the range. -/
theorem resume_closing_iff {k closed : Nat} (inside : k < nrKeys params) (small : closed < 4) :
    let result :=
  stoppedAfter closed (closingStores params cycles k) (reached params cycles k params.loops.toInt.toNat)
    let value := resumedSum params k params.loops.toInt.toNat 0
    resumeTasklet result result.sum = rangeSum params ↔
      if closed < 1 then restSum params k = repeated (nrKeys params - k) value
      else if closed < 3 then restSum params (k + 1) = repeated (nrKeys params - k) value
      else restSum params (k + 1) = repeated (nrKeys params - (k + 1)) value := by
  have next : BitVec.ofNat 32 (params.fkey.toNat + k) + 1 = BitVec.ofNat 32 (params.fkey.toNat + (k + 1)) := by
    rw [← Nat.add_assoc, BitVec.ofNat_add (_ + k) 1]
    rfl
  have value {result : DpuResult} (loops : result.loops = params.loops)
      (curLoop : result.curLoop = curLoopBefore params k params.loops.toInt.toNat)
      (tst : result.tst = copyBefore params k params.loops.toInt.toNat) :=
        resumedKey_reached le_rfl loops curLoop tst
  match closed with
  | 0 =>
    refine (resumeTasklet_iff inside.le inside.le rfl rfl rfl).trans (Iff.of_eq ?_)
    exact congrArg _ (congrArg _ (value rfl rfl rfl))
  | 1 | 2 =>
    refine (resumeTasklet_iff (Nat.succ_le_of_lt inside) inside.le rfl rfl rfl).trans (Iff.of_eq ?_)
    exact congrArg _ (congrArg _ (value rfl rfl rfl))
  | 3 =>
    refine (resumeTasklet_iff (Nat.succ_le_of_lt inside) (Nat.succ_le_of_lt inside) rfl next rfl).trans
      (Iff.of_eq ?_)
    exact congrArg _ (congrArg _ (value rfl rfl rfl))

theorem resumed_eq_iff (n : Nat) : resumed params cycles n = rangeSum params ↔ Recoverable params n := by
  match n with
  | 0 | 1 | 2 => exact resume_unopened_iff params rfl rfl
  | 3 =>
    have start : params.fkey = BitVec.ofNat 32 (params.fkey.toNat + 0) := by simp
    rw [resumed, main_stores]
    exact resumeTasklet_iff (Nat.zero_le _) (Nat.zero_le _) rfl start rfl
  | n + 4 =>
    have opened : 4 ≤ n + 4 := Nat.le_add_left 4 n
    have late (early : Nat) (small : early ≤ 4) : ¬ n + 4 < early := by omega
    by_cases running : n < nrKeys params * storesPerKey params
    · have some : 0 < storesPerKey params := Nat.succ_pos _
      have inside : n / storesPerKey params < nrKeys params := (Nat.div_lt_iff_lt_mul some).mpr running
      have small := Nat.mod_lt n some
      simp only [resumed, stopped_inside params cycles opened running, Recoverable, if_neg (late 3 (by decide)),
        if_neg (late 4 le_rfl), Nat.add_sub_cancel, if_neg (not_le.mpr inside)]
      split
      next looping => exact resume_looping_iff params cycles inside looping
      next closing =>
        obtain ⟨closed, total⟩ := Nat.exists_eq_add_of_le (not_lt.mp closing)
        rw [stopped_closing params cycles (not_lt.mp closing), total, Nat.add_sub_cancel_left]
        simp only [Nat.add_lt_add_iff_left]
        exact resume_closing_iff params cycles inside (by rw [total, storesPerKey] at small; omega)
    · obtain ⟨last, stopped⟩ := stopped_past params cycles opened (not_lt.mp running)
      have past : nrKeys params ≤ n / storesPerKey params :=
        (Nat.le_div_iff_mul_le (Nat.succ_pos _)).mpr (not_lt.mp running)
      simp only [Recoverable, if_neg (late 3 (by decide)), if_neg (late 4 le_rfl), Nat.add_sub_cancel, if_pos past,
        iff_true]
      rw [resumed, stopped, resumeTasklet_iff le_rfl le_rfl rfl rfl rfl, Nat.sub_self, restSum, Nat.sub_self]
      rfl

end

/-- Whatever store a tasklet is stopped after, the host completes its sum
exactly if it is recoverable there. -/
theorem sum_completed_iff (params : DpuParams) (cycles : Nat → BitVec 64) (n : Nat) :
    resumed params cycles n = rangeSum params ↔ Recoverable params n :=
  resumed_eq_iff params cycles n

set_option maxRecDepth 100000 in
/-- Stopped after the first of two keys, a tasklet has no copy of the second one
to go on from: the host adds the words that the first one started with. -/
theorem second_key_not_completed :
    ¬ ∀ (params : DpuParams) (cycles : Nat → BitVec 64) (n : Nat), resumed params cycles n = rangeSum params := by
  intro always
  have recoverable := (resumed_eq_iff ⟨0, 2, 1⟩ (fun _ => 0) 34).mp (always _ _ _)
  have missed : restSum ⟨0, 2, 1⟩ 1 = repeated 1 (resumedSum ⟨0, 2, 1⟩ 1 0 0) := recoverable
  revert missed
  decide +kernel

end Upmem.Keccak
