import Upmem.Power9

namespace Upmem.Power9
open Blit ByteInterleave

section Grows
variable {nbCis xferMatrix : Nat} {access : Nat × Nat}

theorem foldl_grows {step : XferState → Nat → XferState} (grows : ∀ s i, s.accesses ⊆ (step s i).accesses)
    (is : List Nat)
    (s : XferState) : s.accesses ⊆ (is.foldl step s).accesses := by
  induction is generalizing s with
  | nil => exact List.Subset.refl _
  | cons i is ih => exact List.Subset.trans (grows s i) (ih (step s i))

theorem access_grows (s : XferState) (address length : Nat) : s.accesses ⊆ (s.access address length).accesses :=
  List.subset_append_left _ _

theorem lineParameters_grows (idx : Nat) (ciIds : List Nat) (s : XferState) :
    s.accesses ⊆ (lineParameters xferMatrix idx ciIds s).2.accesses := by
  induction ciIds generalizing s with
  | nil => exact List.Subset.refl _
  | cons ciId rest ih =>
    rw [lineParameters]
    dsimp only
    split
    · exact List.Subset.trans (List.Subset.trans (access_grows _ _ _) (access_grows _ _ _)) (access_grows _ _ _)
    · exact List.Subset.trans (access_grows _ _ _) (ih _)

theorem fetchWord_grows (idx i : Nat) (s : XferState) (ciId : Nat) :
    s.accesses ⊆ (fetchWord nbCis xferMatrix idx i s ciId).accesses := by
  rw [fetchWord]
  dsimp only
  split
  · exact List.Subset.trans (access_grows _ _ _) (access_grows _ _ _)
  · exact access_grows _ _ _

theorem storeWord_grows (idx i : Nat) (interleaved : Bytes) (s : XferState) (ciId : Nat) :
    s.accesses ⊆ (storeWord nbCis xferMatrix idx i interleaved s ciId).accesses := by
  rw [storeWord]
  dsimp only
  split
  · exact List.Subset.trans (access_grows _ _ _) (access_grows _ _ _)
  · exact access_grows _ _ _

/-- The turns of a direction. -/
def turnOf (nbCis xferMatrix : Nat) (isWrite : Bool) : Nat → BitVec 32 → XferState → Nat → XferState :=
  if isWrite then writeTurn nbCis xferMatrix else readTurn nbCis xferMatrix

variable {isWrite : Bool}

theorem turnOf_grows (dpuId : Nat) (offset : BitVec 32) (s : XferState) (i : Nat) :
    s.accesses ⊆ (turnOf nbCis xferMatrix isWrite dpuId offset s i).accesses := by
  cases isWrite with
  | true => exact foldl_grows (fetchWord_grows (8 * dpuId) i) (List.range (nbCis * 2)) s
  | false =>
    let cacheLine := blit s.region (BANK_START dpuId + bankOffset offset i) s.cacheLine 0 128
    have stores := @storeWord_grows nbCis xferMatrix (8 * dpuId) i (interleaveBoth cacheLine)
    exact foldl_grows stores (List.range (2 * nbCis)) { s with cacheLine := cacheLine }

theorem transferLine_grows (s : XferState) (dpuId : Nat) :
    s.accesses ⊆ (transferLine nbCis xferMatrix (turnOf nbCis xferMatrix isWrite) s dpuId).accesses := by
  have parameters : s.accesses ⊆ (lineParameters xferMatrix (8 * dpuId) (List.range nbCis) s).2.accesses :=
    lineParameters_grows (8 * dpuId) (List.range nbCis) s
  rw [transferLine]
  split
  rename_i sizeTransfer offset t result
  rw [result] at parameters
  split
  · exact parameters
  · exact List.Subset.trans parameters (foldl_grows (turnOf_grows dpuId offset) _ t)

end Grows

theorem exec_eq (nbDpusPerCi : Nat) (call : XferCall) (region : Bytes) : call.exec nbDpusPerCi region =
    (List.range nbDpusPerCi).foldl (transferLine NB_CIS call.matrix (turnOf NB_CIS call.matrix call.isWrite))
      ⟨call.host, region, call.cacheLine, []⟩ := by
  rw [XferCall.exec, turnOf]
  cases call.isWrite <;> rfl

/-- A line moves nothing. -/
def XferCall.LineMovesNothing (call : XferCall) (dpuId : Nat) : Prop :=
  (∀ ciId < NB_CIS, call.ptr (8 * dpuId + ciId) = 0) ∨ dpuId = 0 ∧ call.size = 0

section Lines
variable {call : XferCall} {nbDpusPerCi : Nat} {region : Bytes}

theorem movesNothing_iff : call.MovesNothing nbDpusPerCi ↔ ∀ dpuId < nbDpusPerCi, call.LineMovesNothing dpuId := by
  constructor
  · intro nothing dpuId line
    by_cases given : ∃ ciId < NB_CIS, call.ptr (8 * dpuId + ciId) ≠ 0
    · obtain ⟨ciId, ci, ptr⟩ := given
      rw [NB_CIS] at ci
      have index := nothing (8 * dpuId + ciId) ⟨by rw [NB_CIS]; omega, ptr⟩
      rw [NB_CIS] at index
      exact .inr ⟨by omega, index.2⟩
    · push Not at given
      exact .inl given
  · rintro nothing index ⟨inside, ptr⟩
    rw [NB_CIS] at inside
    rcases nothing (index / 8) (by omega) with empty | ⟨first, size⟩
    · have absent := empty (index % 8) (Nat.mod_lt _ (by decide))
      rw [Nat.div_add_mod] at absent
      exact absurd absent ptr
    · exact ⟨by rw [NB_CIS]; omega, size⟩

/-- What lines that move nothing keep. -/
structure Untouched (call : XferCall) (region : Bytes) (s : XferState) : Prop where
  host : s.host = call.host
  region : s.region = region
  accesses : ∀ access ∈ s.accesses, call.matrix ≤ access.1 ∧ access.1 + access.2 ≤ call.matrix + SIZEOF_MATRIX

theorem Untouched.access {s : XferState} (untouched : Untouched call region s) {address length : Nat}
    (inside : call.matrix ≤ address ∧ address + length ≤ call.matrix + SIZEOF_MATRIX) :
    Untouched call region (s.access address length) := by
  refine ⟨untouched.host, untouched.region, fun access member => ?_⟩
  rcases List.mem_append.mp member with before | new
  · exact untouched.accesses access before
  · obtain rfl := List.mem_singleton.mp new
    exact inside

theorem ptr_ne_zero {index : Nat} : call.ptr index ≠ 0 ↔ word64 call.host (call.matrix + 8 * index) ≠ 0#64 :=
  not_congr (BitVec.toNat_inj (x := word64 call.host (call.matrix + 8 * index)) (y := 0#64))

theorem lineParameters_empty {s : XferState} (untouched : Untouched call region s) {dpuId : Nat} (line : dpuId < 8)
    {ciIds : List Nat} (cis : ∀ ciId ∈ ciIds, ciId < NB_CIS)
    (empty : ∀ ciId ∈ ciIds, call.ptr (8 * dpuId + ciId) = 0) :
    (lineParameters call.matrix (8 * dpuId) ciIds s).1 = (0#32, 0#32) ∧
      Untouched call region (lineParameters call.matrix (8 * dpuId) ciIds s).2 := by
  induction ciIds generalizing s with
  | nil => exact ⟨rfl, untouched⟩
  | cons ciId rest ih =>
    obtain ⟨ci, cis⟩ := List.forall_mem_cons.mp cis
    obtain ⟨absent, empty⟩ := List.forall_mem_cons.mp empty
    rw [NB_CIS] at ci
    have looked : Untouched call region (s.access (call.matrix + 8 * (8 * dpuId + ciId)) 8) :=
      untouched.access ⟨by omega, by rw [SIZEOF_MATRIX]; omega⟩
    have null : ¬word64 (s.access (call.matrix + 8 * (8 * dpuId + ciId)) 8).host (call.matrix +
        8 * (8 * dpuId + ciId)) ≠ 0#64 := by
      rw [looked.host, ← ptr_ne_zero]
      exact not_not.mpr absent
    rw [lineParameters]
    dsimp only
    rw [if_neg null]
    exact ih looked cis empty

/-- A line whose first DPU has a buffer. -/
theorem lineParameters_given {s : XferState} (host : s.host = call.host) {dpuId : Nat}
    (given : call.ptr (8 * dpuId) ≠ 0) :
    lineParameters call.matrix (8 * dpuId) (List.range NB_CIS) s =
      ((word32 call.host (call.matrix + SIZEOF_MATRIX * (8 * dpuId) + SIZE_FIELD),
          word32 call.host (call.matrix + SIZEOF_MATRIX * (8 * dpuId) + OFFSET_FIELD)),
        ((s.access (call.matrix + 8 * (8 * dpuId)) 8).access (call.matrix + SIZEOF_MATRIX * (8 * dpuId) +
          SIZE_FIELD) 4).access
          (call.matrix + SIZEOF_MATRIX * (8 * dpuId) + OFFSET_FIELD) 4) := by
  rw [show List.range NB_CIS = 0 :: (List.range 7).map Nat.succ from rfl, lineParameters]
  have present :
      word64 (s.access (call.matrix + 8 * (8 * dpuId + 0)) 8).host (call.matrix + 8 * (8 * dpuId + 0)) ≠ 0#64 := by
    rw [XferState.access, host]
    exact ptr_ne_zero.mp given
  dsimp only
  rw [if_pos present, Nat.add_zero, ← host]
  rfl

theorem Untouched.line {s : XferState} (untouched : Untouched call region s) {dpuId : Nat} (line : dpuId < 8)
    (proper : call.Proper nbDpusPerCi) (inside : dpuId < nbDpusPerCi) (nothing : call.LineMovesNothing dpuId) :
    Untouched call region (transferLine NB_CIS call.matrix (turnOf NB_CIS call.matrix call.isWrite) s dpuId) := by
  by_cases given : ∃ ciId < NB_CIS, call.ptr (8 * dpuId + ciId) ≠ 0
  · have first := proper.full dpuId inside given 0 (by decide)
    obtain ⟨ciId, ci, ptr⟩ := given
    obtain ⟨rfl, size⟩ := nothing.resolve_left fun empty => ptr (empty ciId ci)
    have sizeField : word32 call.host (call.matrix + SIZEOF_MATRIX * (8 * 0) + SIZE_FIELD) = 0#32 :=
      BitVec.toNat_inj.mp size
    rw [transferLine, lineParameters_given untouched.host first]
    dsimp only
    rw [if_pos sizeField]
    refine ((untouched.access ⟨by omega, ?_⟩).access ⟨by omega, ?_⟩).access ⟨by omega, ?_⟩
    · rw [SIZEOF_MATRIX]
      omega
    · rw [SIZE_FIELD, SIZEOF_MATRIX]
      omega
    · rw [OFFSET_FIELD, SIZEOF_MATRIX]
      omega
  · push Not at given
    have inRange : ∀ ciId ∈ List.range NB_CIS, ciId < NB_CIS := fun ciId member => List.mem_range.mp member
    have parameters := lineParameters_empty untouched line inRange fun ciId member =>
      given ciId (inRange ciId member)
    rw [transferLine]
    split
    rename_i sizeTransfer offset t result
    rw [result] at parameters
    rw [if_pos (Prod.mk.inj parameters.1).1]
    exact parameters.2

theorem untouched_lines (ranks : nbDpusPerCi ≤ 8) (proper : call.Proper nbDpusPerCi) {n : Nat}
    (inside : n ≤ nbDpusPerCi)
    (nothing : ∀ dpuId < n, call.LineMovesNothing dpuId) :
    Untouched call region ((List.range n).foldl
      (transferLine NB_CIS call.matrix (turnOf NB_CIS call.matrix call.isWrite)) ⟨call.host, region,
        call.cacheLine, []⟩) := by
  induction n with
  | zero => exact ⟨rfl, rfl, fun access member => (by cases member)⟩
  | succ n ih =>
    rw [List.range_succ, List.foldl_append]
    have before := ih (by omega) fun dpuId earlier => nothing dpuId (by omega)
    exact before.line (by omega) proper (by omega) (nothing n (by omega))

/-- An access to the places of the 63 further matrices of an array. -/
def Stray (matrix : Nat) (access : Nat × Nat) : Prop :=
  matrix + SIZEOF_MATRIX ≤ access.1 ∧ 0 < access.2 ∧
    access.1 + access.2 ≤ matrix + SIZEOF_MATRIX * MAX_NR_DPUS_PER_RANK

theorem Stray.not_allowed {access : Nat × Nat} (stray : Stray call.matrix access)
    (separate : call.Separate nbDpusPerCi) :
    ¬call.Allows nbDpusPerCi access := by
  obtain ⟨after, length, before⟩ := stray
  rintro (⟨-, inMatrix⟩ | ⟨index, given, first, last⟩)
  · omega
  · have place := separate index given
    omega

theorem fetchWord_given {s : XferState} {idx i ciId : Nat}
    (given : word64 s.host (call.matrix + 8 * (idx + ciId % NB_CIS)) ≠ 0#64) :
    (wordOf NB_CIS call.matrix idx i ciId, 8) ∈ (fetchWord NB_CIS call.matrix idx i s ciId).accesses := by
  have looked : word64 (s.access (call.matrix + 8 * (idx + ciId % NB_CIS)) 8).host
      (call.matrix + 8 * (idx + ciId % NB_CIS)) ≠ 0#64 := given
  rw [fetchWord, if_pos looked]
  exact List.mem_append_right _ (List.mem_singleton.mpr rfl)

theorem storeWord_given {s : XferState} {idx i ciId : Nat} {interleaved : Bytes}
    (given : word64 s.host (call.matrix + 8 * (idx + ciId % NB_CIS)) ≠ 0#64) :
    (wordOf NB_CIS call.matrix idx i ciId,
      8) ∈ (storeWord NB_CIS call.matrix idx i interleaved s ciId).accesses := by
  have looked : word64 (s.access (call.matrix + 8 * (idx + ciId % NB_CIS)) 8).host
      (call.matrix + 8 * (idx + ciId % NB_CIS)) ≠ 0#64 := given
  rw [storeWord, if_pos looked]
  exact List.mem_append_right _ (List.mem_singleton.mpr rfl)

theorem fetchWord_host (idx i : Nat) (s : XferState) (ciId : Nat) :
    (fetchWord NB_CIS call.matrix idx i s ciId).host = s.host := by
  rw [fetchWord]
  dsimp only
  split <;> rfl

theorem storeWord_host (idx i : Nat) (interleaved : Bytes) (s : XferState) (ciId : Nat) {a : Nat}
    (after : wordOf NB_CIS call.matrix idx i ciId + 8 ≤ a) :
    (storeWord NB_CIS call.matrix idx i interleaved s ciId).host a = s.host a := by
  rw [storeWord]
  dsimp only
  split
  · exact blit_outside _ _ _ (by omega)
  · rfl

theorem word64_congr {host host' : Bytes} {address : Nat} (same : ∀ a, address ≤ a → host a = host' a) :
    word64 host address = word64 host' address := by
  rw [word64, word64, word32, word32, word32, word32, same _ (by omega), same _ (by omega), same _ (by omega),
    same _ (by omega), same _ (by omega), same _ (by omega), same _ (by omega), same address le_rfl]

/-- The words of a turn of the line 0 are taken from the places of the entries 0, 1 and so on. -/
theorem wordOf_one : wordOf NB_CIS call.matrix (8 * 0) 0 1 = call.matrix + SIZEOF_MATRIX := by
  rw [wordOf, NB_CIS, SIZEOF_MATRIX]

theorem range_turn : List.range (NB_CIS * 2) = 0 :: 1 :: (List.range 14).map (· + 2) := by
  decide

theorem writeTurn_stray {s : XferState} (host : s.host = call.host) (second : call.ptr 1 ≠ 0) (offset : BitVec 32) :
    (call.matrix + SIZEOF_MATRIX, 8) ∈ (writeTurn NB_CIS call.matrix 0 offset s 0).accesses := by
  have given :
      word64 (fetchWord NB_CIS call.matrix (8 * 0) 0 s 0).host (call.matrix + 8 * (8 * 0 + 1 % NB_CIS)) ≠ 0#64 := by
    rw [fetchWord_host, host]
    exact ptr_ne_zero.mp second
  have fetched := @fetchWord_given call _ (8 * 0) 0 1 given
  rw [wordOf_one] at fetched
  rw [writeTurn, range_turn, List.foldl_cons, List.foldl_cons]
  exact foldl_grows (fetchWord_grows (8 * 0) 0) _ _ fetched

theorem readTurn_stray {s : XferState} (host : s.host = call.host) (second : call.ptr 1 ≠ 0) (offset : BitVec 32) :
    (call.matrix + SIZEOF_MATRIX, 8) ∈ (readTurn NB_CIS call.matrix 0 offset s 0).accesses := by
  rw [readTurn, Nat.mul_comm 2 NB_CIS, range_turn]
  generalize blit s.region (BANK_START 0 + bankOffset offset 0) s.cacheLine 0 128 = cacheLine
  rw [List.foldl_cons, List.foldl_cons]
  -- The first store of the turn only goes over the first pointer of the matrix.
  have given : word64 (storeWord NB_CIS call.matrix (8 * 0) 0 (interleaveBoth cacheLine)
      { s with cacheLine := cacheLine } 0).host (call.matrix + 8 * (8 * 0 + 1 % NB_CIS)) ≠ 0#64 := by
    have kept : word64 (storeWord NB_CIS call.matrix (8 * 0) 0 (interleaveBoth cacheLine)
        { s with cacheLine := cacheLine } 0).host (call.matrix + 8 * (8 * 0 + 1 % NB_CIS)) =
          word64 s.host (call.matrix + 8 * (8 * 0 + 1 % NB_CIS)) :=
      word64_congr fun a after => storeWord_host _ _ _ _ _ (by
        rw [NB_CIS] at after
        rw [wordOf, NB_CIS]
        omega)
    rw [kept, host]
    exact ptr_ne_zero.mp second
  have stored := @storeWord_given call _ (8 * 0) 0 1 (interleaveBoth cacheLine) given
  rw [wordOf_one] at stored
  exact foldl_grows (storeWord_grows (8 * 0) 0 _) _ _ stored

theorem turnOf_stray {s : XferState} (host : s.host = call.host) (second : call.ptr 1 ≠ 0) (isWrite : Bool)
    (offset : BitVec 32) :
    (call.matrix + SIZEOF_MATRIX, 8) ∈ (turnOf NB_CIS call.matrix isWrite 0 offset s 0).accesses := by
  rw [turnOf]
  cases isWrite with
  | true =>
    rw [if_pos rfl]
    exact writeTurn_stray host second offset
  | false =>
    rw [if_neg Bool.false_ne_true]
    exact readTurn_stray host second offset

theorem turns_cons {sizeTransfer : BitVec 32} (whole : sizeTransfer.toNat % 8 = 0) (some : sizeTransfer ≠ 0#32) :
    ∃ rest, turns sizeTransfer = 0 :: rest := by
  have positive : sizeTransfer.toNat ≠ 0 := fun absent => some (BitVec.toNat_inj.mp absent)
  obtain ⟨n, count⟩ : ∃ n, (sizeTransfer.toNat / 8 + 1) / 2 = n + 1 :=
    ⟨(sizeTransfer.toNat / 8 + 1) / 2 - 1, by omega⟩
  rw [turns, count, List.range_succ_eq_map]
  exact ⟨_, List.map_cons⟩

/-- A line after the line 0 that has buffers strays when it looks its size up. -/
theorem laterLine_stray {s : XferState} (host : s.host = call.host) {dpuId : Nat} (line : dpuId < 8)
    (later : 0 < dpuId)
    (given : call.ptr (8 * dpuId) ≠ 0) :
    ∃ access ∈ (transferLine NB_CIS call.matrix (turnOf NB_CIS call.matrix call.isWrite) s dpuId).accesses,
      Stray call.matrix access := by
  refine ⟨(call.matrix + SIZEOF_MATRIX * (8 * dpuId) + SIZE_FIELD, 4), ?_, ?_⟩
  · rw [transferLine, lineParameters_given host given]
    have read : (call.matrix + SIZEOF_MATRIX * (8 * dpuId) + SIZE_FIELD, 4) ∈
        (((s.access (call.matrix + 8 * (8 * dpuId)) 8).access (call.matrix + SIZEOF_MATRIX * (8 * dpuId) +
          SIZE_FIELD) 4).access
          (call.matrix + SIZEOF_MATRIX * (8 * dpuId) + OFFSET_FIELD) 4).accesses :=
      List.mem_append_left _ (List.mem_append_right _ (List.mem_singleton.mpr rfl))
    dsimp only
    split
    · exact read
    · exact foldl_grows (turnOf_grows dpuId _) _ _ read
  · rw [Stray, SIZEOF_MATRIX, SIZE_FIELD, MAX_NR_DPUS_PER_RANK]
    omega

/-- The line 0 strays in its first turn. -/
theorem firstLine_stray {s : XferState} (host : s.host = call.host) (first : call.ptr 0 ≠ 0)
    (second : call.ptr 1 ≠ 0)
    (whole : call.size % 8 = 0) (size : call.size ≠ 0) :
    ∃ access ∈ (transferLine NB_CIS call.matrix (turnOf NB_CIS call.matrix call.isWrite) s 0).accesses,
      Stray call.matrix access := by
  refine ⟨(call.matrix + SIZEOF_MATRIX, 8), ?_, ?_⟩
  · have given : call.ptr (8 * 0) ≠ 0 := first
    have sizeField : word32 call.host (call.matrix + SIZEOF_MATRIX * (8 * 0) + SIZE_FIELD) ≠ 0#32 :=
      fun absent => size (BitVec.toNat_inj.mpr absent)
    obtain ⟨rest, turnsEq⟩ :=
      @turns_cons (word32 call.host (call.matrix + SIZEOF_MATRIX * (8 * 0) + SIZE_FIELD)) whole sizeField
    obtain ⟨t, hostThere, parameters⟩ : ∃ t : XferState, t.host = call.host ∧
        lineParameters call.matrix (8 * 0) (List.range NB_CIS) s =
          ((word32 call.host (call.matrix + SIZEOF_MATRIX * (8 * 0) + SIZE_FIELD),
            word32 call.host (call.matrix + SIZEOF_MATRIX * (8 * 0) + OFFSET_FIELD)), t) := by
      refine ⟨_, ?_, lineParameters_given host given⟩
      exact host
    rw [transferLine, parameters]
    dsimp only
    rw [if_neg sizeField, turnsEq, List.foldl_cons]
    exact foldl_grows (turnOf_grows 0 _) rest _ (turnOf_stray hostThere second call.isWrite _)
  · rw [Stray, SIZEOF_MATRIX, MAX_NR_DPUS_PER_RANK]
    omega

/-- A line that moves something strays. -/
theorem line_stray {s : XferState} (host : s.host = call.host) {dpuId : Nat} (line : dpuId < 8)
    (proper : call.Proper nbDpusPerCi) (inside : dpuId < nbDpusPerCi) (something : ¬call.LineMovesNothing dpuId) :
    ∃ access ∈ (transferLine NB_CIS call.matrix (turnOf NB_CIS call.matrix call.isWrite) s dpuId).accesses,
      Stray call.matrix access := by
  rw [XferCall.LineMovesNothing, not_or] at something
  obtain ⟨given, moves⟩ := something
  push Not at given
  have full := proper.full dpuId inside given
  rcases Nat.eq_zero_or_pos dpuId with rfl | later
  · exact firstLine_stray host (full 0 (by decide)) (full 1 (by decide)) proper.size fun absent =>
      moves ⟨rfl, absent⟩
  · exact laterLine_stray host line later (full 0 (by decide))

end Lines

section Runs
variable {nbDpusPerCi : Nat} {call : XferCall}

/-- A transfer that moves nothing. -/
theorem right_of_movesNothing (ranks : nbDpusPerCi ≤ 8) (proper : call.Proper nbDpusPerCi)
    (nothing : call.MovesNothing nbDpusPerCi) (region : Bytes) (mrams : Mrams) :
    call.Right nbDpusPerCi region mrams := by
  have untouched : Untouched call region (call.exec nbDpusPerCi region) := by
    rw [exec_eq]
    exact untouched_lines ranks proper le_rfl (movesNothing_iff.mp nothing)
  refine ⟨fun access member => .inl (untouched.accesses access member), fun _ index given y inSize => ?_⟩
  have size := (nothing index given).2
  omega

/-- The first line that moves something strays. -/
theorem movesNothing_of_right (ranks : nbDpusPerCi ≤ 8) (proper : call.Proper nbDpusPerCi)
    (separate : call.Separate nbDpusPerCi) {region : Bytes} {mrams : Mrams}
    (right : call.Right nbDpusPerCi region mrams) :
    call.MovesNothing nbDpusPerCi := by
  classical
  by_contra something
  rw [movesNothing_iff] at something
  push Not at something
  obtain ⟨⟨inside, moves⟩, before⟩ := Nat.find_spec something, fun d => Nat.find_min something (m := d)
  set dpuId := Nat.find something with first
  have nothing : ∀ earlier < dpuId, call.LineMovesNothing earlier := by
    intro earlier less
    by_contra moves'
    exact before earlier less ⟨by omega, moves'⟩
  have untouched : Untouched call region ((List.range dpuId).foldl
      (transferLine NB_CIS call.matrix (turnOf NB_CIS call.matrix call.isWrite)) ⟨call.host, region,
          call.cacheLine, []⟩) :=
    untouched_lines ranks proper inside.le nothing
  obtain ⟨access, member, stray⟩ := line_stray untouched.host (by omega) proper inside moves
  refine stray.not_allowed separate (right.confined access ?_)
  obtain ⟨n, rest⟩ : ∃ n, nbDpusPerCi = dpuId + 1 + n := ⟨nbDpusPerCi - (dpuId + 1), by omega⟩
  rw [exec_eq, rest, List.range_add, List.range_succ, List.foldl_append, List.foldl_append]
  exact foldl_grows transferLine_grows _ _ member

/-- A run of transfers keeps to the matrices and the buffers, and returns what was written, when its transfers move
nothing; where no buffer lies behind the matrix it does only then. -/
theorem power9_runRight_iff {nbDpusPerCi : Nat} (ranks : nbDpusPerCi ≤ 8) (calls : List XferCall)
    (proper : ∀ call ∈ calls, call.Proper nbDpusPerCi) (region : Bytes) (mrams : Mrams) :
    ((∀ call ∈ calls, call.MovesNothing nbDpusPerCi) → RunRight nbDpusPerCi region mrams calls) ∧
      ((∀ call ∈ calls, call.Separate nbDpusPerCi) → RunRight nbDpusPerCi region mrams calls →
        ∀ call ∈ calls, call.MovesNothing nbDpusPerCi) := by
  induction calls generalizing region mrams with
  | nil => exact ⟨fun _ => trivial, fun _ _ => List.forall_mem_nil _⟩
  | cons call calls ih =>
    obtain ⟨properHere, proper⟩ := List.forall_mem_cons.mp proper
    have later := ih proper (call.exec nbDpusPerCi region).region (mrams.next nbDpusPerCi call)
    constructor
    · intro nothing
      obtain ⟨here, nothing⟩ := List.forall_mem_cons.mp nothing
      exact ⟨right_of_movesNothing ranks properHere here region mrams, later.1 nothing⟩
    · rintro separate ⟨here, right⟩
      obtain ⟨separateHere, separate⟩ := List.forall_mem_cons.mp separate
      exact List.forall_mem_cons.mpr ⟨movesNothing_of_right ranks properHere separateHere here,
        later.2 separate right⟩

end Runs

/-- A transfer to the eight DPUs of the line 0, with a buffer for each. The matrix is at
0x1000 and the buffers are at 0x10000, 0x20000 and so on. -/
def firstLine (isWrite : Bool) (size : BitVec 8) : XferCall where
  isWrite := isWrite
  host a :=
    if 0x1000 ≤ a ∧ a < 0x1040 ∧ a % 8 = 2 then BitVec.ofNat 8 (1 + (a - 0x1000) / 8)
    else if a = 0x1000 + SIZE_FIELD then size else 0#8
  matrix := 0x1000
  cacheLine _ := 0#8

theorem firstLine_proper (isWrite : Bool) {size : BitVec 8} (whole : size = 0#8 ∨ size = 8#8) :
    (firstLine isWrite size).Proper 8 := by
  rcases whole with rfl | rfl
  · cases isWrite <;> exact ⟨by decide, by decide +kernel, by decide +kernel, by decide +kernel⟩
  · cases isWrite <;> exact ⟨by decide, by decide +kernel, by decide +kernel, by decide +kernel⟩

theorem power9_runRight_iff_idle :
    RunRight 8 (fun _ => 0#8) (fun _ _ => none) [firstLine true 0#8, firstLine false 0#8] := by
  have proper : ∀ call ∈ [firstLine true 0#8, firstLine false 0#8], call.Proper 8 := by
    rintro call (_ | ⟨_, _ | ⟨_, ⟨⟩⟩⟩) <;> exact firstLine_proper _ (.inl rfl)
  refine (power9_runRight_iff le_rfl _ proper _ _).1 ?_
  have small : ∀ isWrite, ∀ index < NB_CIS * 8, (firstLine isWrite 0#8).ptr index ≠ 0 → index < NB_CIS := by
    decide
  rintro call (_ | ⟨_, _ | ⟨_, ⟨⟩⟩⟩)
  · exact fun index given => ⟨small true index given.1 given.2, by decide⟩
  · exact fun index given => ⟨small false index given.1 given.2, by decide⟩

/-- One word for each DPU of the line 0. -/
theorem firstLine_not_right :
    (firstLine true 8#8).Proper 8 ∧ ¬RunRight 8 (fun _ => 0#8) (fun _ _ => none) [firstLine true 8#8] := by
  have proper := @firstLine_proper true 8#8 (.inr rfl)
  refine ⟨proper, fun right => ?_⟩
  have separate : (firstLine true 8#8).Separate 8 := by
    have far : ∀ index < NB_CIS * 8, (firstLine true 8#8).ptr index ≠ 0 →
        (firstLine true 8#8).matrix + SIZEOF_MATRIX * MAX_NR_DPUS_PER_RANK ≤ (firstLine true 8#8).ptr index := by
      decide
    exact fun index given => .inr (far index given.1 given.2)
  have nothing := movesNothing_of_right le_rfl proper separate right.1
  have moves : (firstLine true 8#8).Given 8 0 ∧ (firstLine true 8#8).size ≠ 0 := by decide
  exact moves.2 (nothing 0 moves.1).2

end Upmem.Power9
