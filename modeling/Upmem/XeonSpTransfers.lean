import Mathlib.Data.List.GetD
import Upmem.XeonSp

namespace Upmem.XeonSp
open Blit ByteInterleave Sg

/-- The MRAM of a DPU in bytes, and in words. -/
def MRAM_SIZE : Nat := 2 ^ 26
def MRAM_WORDS : Nat := 2 ^ 23

def NB_LINES : Nat := 8

/-- The address of the block of an MRAM word of a line. -/
def wordAddress (dpuId word : Nat) : Nat := BANK_START dpuId + bankOffset (BitVec.ofNat 32 (8 * word))

/-- What each DPU has in its MRAM, by the index of the DPU. -/
abbrev Mrams := Nat → Nat → BitVec 8

/-- The MRAM of a DPU as the region holds it: a block has a byte of each DPU of the line after the other. -/
def mramOf (region : Bytes) : Mrams :=
  fun index x => region (wordAddress (index / NB_REAL_CIS) (x / 8) + (8 * (x % 8) + index % NB_REAL_CIS))

section Map
variable {dpuId dpuId' word word' : Nat}

/-- The place of a 64-bit word in the banks of a line. -/
def bankPlace (dpuId word64 : Nat) : Nat :=
  BANK_START dpuId +
    (word64 * 8 * 16 % BANK_CHUNK_SIZE + word64 * 8 * 16 / BANK_CHUNK_SIZE * BANK_NEXT_CHUNK_OFFSET)

/-- The bits 0 to 5 of an address are those inside of a block, the bit 6 and the bits
18 and 19 those of the line. -/
theorem bankPlace_add_inj (line : dpuId < NB_LINES) (line' : dpuId' < NB_LINES) {p p' : Nat}
    (small : p < 64) (small' : p' < 64)
    (same : bankPlace dpuId word + p = bankPlace dpuId' word' + p') : dpuId = dpuId' ∧ word = word' ∧ p = p' := by
  rw [NB_LINES] at line line'
  simp only [bankPlace, BANK_START, BANK_CHUNK_SIZE, BANK_NEXT_CHUNK_OFFSET] at same
  split at same <;> split at same <;> omega

theorem wordAddress_eq : wordAddress dpuId word =
    bankPlace dpuId ((applyAddressTranslationOnMramOffset (BitVec.ofNat 32 (8 * word))).toNat / 8) := rfl

/-- Two bytes of blocks at one address are the same byte of the same block. -/
theorem wordAddress_add_inj (line : dpuId < NB_LINES) (line' : dpuId' < NB_LINES) (inside : word < MRAM_WORDS)
    (inside' : word' < MRAM_WORDS) {p p' : Nat} (small : p < 64) (small' : p' < 64)
    (same : wordAddress dpuId word + p = wordAddress dpuId' word' + p') :
    dpuId = dpuId' ∧ word = word' ∧ p = p' := by
  rw [MRAM_WORDS] at inside inside'
  rw [wordAddress_eq, wordAddress_eq] at same
  obtain ⟨lines, words, bytes⟩ := bankPlace_add_inj line line' small small' same
  have aligned := translation_mod (BitVec.ofNat 32 (8 * word))
  have aligned' := translation_mod (BitVec.ofNat 32 (8 * word'))
  have number : (BitVec.ofNat 32 (8 * word)).toNat = 8 * word := Nat.mod_eq_of_lt (by omega)
  have number' : (BitVec.ofNat 32 (8 * word')).toNat = 8 * word' := Nat.mod_eq_of_lt (by omega)
  have translations : (applyAddressTranslationOnMramOffset (BitVec.ofNat 32 (8 * word))).toNat =
      (applyAddressTranslationOnMramOffset (BitVec.ofNat 32 (8 * word'))).toNat := by
    rw [number] at aligned
    rw [number'] at aligned'
    omega
  have offsets := congrArg BitVec.toNat (translation_injective (BitVec.eq_of_toNat_eq translations))
  rw [number, number'] at offsets
  exact ⟨lines, by omega, bytes⟩

/-- A store of a block changes a byte of each DPU of its line. -/
theorem mramOf_blit (line : dpuId < NB_LINES) (inside : word < MRAM_WORDS) (block region : Bytes) {index x : Nat}
    (dpu : index < NB_LINES * NB_REAL_CIS) (offset : x < MRAM_SIZE) :
    mramOf (blit block 0 region (wordAddress dpuId word) 64) index x =
      if index / NB_REAL_CIS = dpuId ∧ x / 8 = word then block (8 * (x % 8) + index % NB_REAL_CIS)
      else mramOf region index x := by
  have ci : index % NB_REAL_CIS < 8 := Nat.mod_lt _ (by decide)
  rw [mramOf]
  split
  · rename_i same
    rw [same.1, same.2, blit_inside _ _ _ _ (by omega), Nat.zero_add]
  · rename_i other
    refine blit_outside _ _ _ fun within => other ?_
    have place := Nat.add_sub_cancel' within.1
    rw [NB_LINES, NB_REAL_CIS] at dpu
    rw [MRAM_SIZE] at offset
    have apart := @wordAddress_add_inj dpuId (index / NB_REAL_CIS) word (x / 8) line
      (by rw [NB_LINES, NB_REAL_CIS]; omega) inside (by rw [MRAM_WORDS]; omega) _ _ (by omega) (by omega) place
    exact ⟨apart.1.symm, apart.2.1.symm⟩

end Map

/-- A transfer of whole words inside of the MRAM. -/
structure XferMatrix.Fits (matrix : XferMatrix) : Prop where
  offset : matrix.offset.toNat % 8 = 0
  size : matrix.size.toNat % 8 = 0
  inside : matrix.offset.toNat + matrix.size.toNat ≤ MRAM_SIZE

/-- Each DPU of a line that has a buffer has one. -/
def XferMatrix.FullLines (nbCis : Nat) (matrix : XferMatrix) : Prop :=
  ∀ dpuId, doDpuTransfer nbCis matrix dpuId = true → ∀ ciId < nbCis, matrix.has (NB_REAL_CIS * dpuId + ciId) = true

theorem XferMatrix.Fits.block_eq {matrix : XferMatrix} (fits : matrix.Fits) (dpuId i : Nat) :
    matrix.block dpuId i = wordAddress dpuId (matrix.offset.toNat / 8 + i) := by
  have aligned := fits.offset
  have bound := fits.inside
  rw [MRAM_SIZE] at bound
  rw [XferMatrix.block, wordAddress]
  congr 2
  refine BitVec.eq_of_toNat_eq ?_
  rw [BitVec.toNat_add, BitVec.toNat_ofNat, BitVec.toNat_ofNat]
  omega

section Write
variable {zeros nbCis : Nat} {host : HostMemory} {matrix : XferMatrix}

/-- The iterator of a DPU after some words that are sent to it. -/
def sendIterator (zeros : Nat) (host : HostMemory) (matrix : XferMatrix) (index : Nat) : Nat → SgXferBufferIterator
  | 0 => initIterators zeros matrix index
  | i + 1 => ((fetchWord host matrix i index (sendIterator zeros host matrix index i)).map (·.2)).getD
    (sendIterator zeros host matrix index i)

/-- A byte that is sent to a DPU. -/
def sentByte (zeros : Nat) (host : HostMemory) (matrix : XferMatrix) (index y : Nat) : BitVec 8 :=
  (((fetchWord host matrix (y / 8) index (sendIterator zeros host matrix index (y / 8))).map (·.1)).getD []).getD
    (y % 8) 0#8

theorem fetchWord_isSome (i index : Nat) (it : SgXferBufferIterator) :
    (fetchWord host matrix i index it).isSome = matrix.has index := by
  unfold fetchWord XferMatrix.has
  cases matrix.buffers <;> simp

/-- The line after some turns: the words before have been written to each DPU. -/
structure LineWritten (zeros nbCis : Nat) (host : HostMemory) (matrix : XferMatrix) (dpuId : Nat)
    (before : WriteState) (n : Nat)
    (s : WriteState) : Prop where
  sgIt : ∀ ciId < nbCis, s.sgIt ciId = sendIterator zeros host matrix (NB_REAL_CIS * dpuId + ciId) n
  mram : ∀ index < NB_LINES * NB_REAL_CIS, index % NB_REAL_CIS < nbCis → ∀ x < MRAM_SIZE, mramOf s.region index x =
    if index / NB_REAL_CIS = dpuId ∧ matrix.offset.toNat ≤ x ∧ x < matrix.offset.toNat + 8 * n then
      sentByte zeros host matrix index (x - matrix.offset.toNat)
    else mramOf before.region index x

theorem LineWritten.turn {dpuId n : Nat} {before s : WriteState} (fits : matrix.Fits) (line : dpuId < NB_LINES)
    (full : ∀ ciId < nbCis, matrix.has (NB_REAL_CIS * dpuId + ciId) = true)
    (written : LineWritten zeros nbCis host matrix dpuId before n s) (inside : n < matrix.words) :
    LineWritten zeros nbCis host matrix dpuId before (n + 1) (writeTurn nbCis host matrix dpuId s n) := by
  have aligned := fits.offset
  have bound := fits.inside
  rw [MRAM_SIZE] at bound
  have words : matrix.words = matrix.size.toNat / 8 := rfl
  refine ⟨fun ciId on => ?_, fun index dpu ci x offset => ?_⟩
  · rw [sendIterator, ← written.sgIt ciId on]
    simp only [writeTurn, if_pos on]
  · simp only [writeTurn]
    rw [fits.block_eq dpuId n, mramOf_blit line (by rw [MRAM_WORDS]; omega) _ _ dpu offset]
    have reals : index % NB_REAL_CIS < 8 := Nat.mod_lt _ (by decide)
    by_cases here : index / NB_REAL_CIS = dpuId ∧ x / 8 = matrix.offset.toNat / 8 + n
    · rw [if_pos here, if_pos ⟨here.1, by omega, by omega⟩, byteInterleaveAvx512_eq _ (by omega), byteInterleave]
      have same : index = NB_REAL_CIS * dpuId + index % NB_REAL_CIS := by
        rw [← here.1]
        exact (Nat.div_add_mod index NB_REAL_CIS).symm
      have place : 8 * ((8 * (x % 8) + index % NB_REAL_CIS) % 8) + (8 * (x % 8) + index % NB_REAL_CIS) / 8 =
          8 * (index % NB_REAL_CIS) + x % 8 := by omega
      rw [place, show (8 * (index % NB_REAL_CIS) + x % 8) / 8 = index % NB_REAL_CIS by omega,
        show (8 * (index % NB_REAL_CIS) + x % 8) % 8 = x % 8 by omega, if_pos ci, ← same, sentByte,
        show (x - matrix.offset.toNat) / 8 = n by omega, show (x - matrix.offset.toNat) % 8 = x % 8 by omega]
      have iterator := written.sgIt (index % NB_REAL_CIS) ci
      rw [← same] at iterator
      rw [iterator]
      have given := full (index % NB_REAL_CIS) ci
      rw [← same, ← fetchWord_isSome n index (sendIterator zeros host matrix index n)] at given
      obtain ⟨⟨word, it⟩, fetched⟩ := Option.isSome_iff_exists.mp given
      rw [fetched]
      rfl
    · rw [if_neg here, written.mram index dpu ci x offset]
      by_cases earlier : index / NB_REAL_CIS = dpuId ∧ matrix.offset.toNat ≤ x ∧ x < matrix.offset.toNat + 8 * n
      · rw [if_pos earlier, if_pos ⟨earlier.1, earlier.2.1, by omega⟩]
      · rw [if_neg earlier, if_neg fun later => earlier ⟨later.1, later.2.1, by omega⟩]

theorem LineWritten.turns {dpuId : Nat} {before : WriteState} (fits : matrix.Fits) (line : dpuId < NB_LINES)
    (full : ∀ ciId < nbCis, matrix.has (NB_REAL_CIS * dpuId + ciId) = true)
    (starts : ∀ ciId < nbCis, before.sgIt ciId = initIterators zeros matrix (NB_REAL_CIS * dpuId + ciId)) {n : Nat}
    (inside : n ≤ matrix.words) : LineWritten zeros nbCis host matrix dpuId before n
      ((List.range n).foldl (writeTurn nbCis host matrix dpuId) before) := by
  induction n with
  | zero =>
    refine ⟨starts, fun index dpu ci x offset => ?_⟩
    rw [if_neg (by omega)]
    rfl
  | succ n ih =>
    rw [List.range_succ, List.foldl_append]
    exact (ih (by omega)).turn fits line full (by omega)

theorem not_doDpuTransfer {dpuId index : Nat} (none_ : ¬doDpuTransfer nbCis matrix dpuId = true)
    (inLine : InLine nbCis dpuId index) : matrix.has index = false := by
  refine Bool.eq_false_iff.mpr fun has => none_ ?_
  rw [doDpuTransfer, List.any_eq_true]
  refine ⟨index % NB_REAL_CIS, List.mem_range.mpr inLine.2, ?_⟩
  rw [← inLine.1, Nat.div_add_mod]
  exact has

/-- The bytes that a matrix has for a DPU: those of its buffer, or the words that the
scatter/gather iterator gives. -/
def XferMatrix.sent (matrix : XferMatrix) (zeros : Nat) (host : HostMemory) (index y : Nat) : BitVec 8 :=
  match matrix.buffers with
  | .default ptr =>
    match ptr index with
    | some address => host (address + y)
    | none => 0#8
  | .sg sgPtr =>
    match sgPtr index with
    | some blocks => (sendWords host matrix.words (initSgXferBufferIterator zeros blocks)).getD y 0#8
    | none => 0#8

theorem length_getNextBytes (n : Nat) (it : SgXferBufferIterator) : (getNextBytes n it).1.length = n := by
  induction n generalizing it with
  | zero => rfl
  | succ n ih => simp [getNextBytes, ih]

theorem length_getNextEightBytes (host : HostMemory) (it : SgXferBufferIterator) :
    (getNextEightBytes host it).1.length = 8 := by
  rw [getNextEightBytes, List.length_map, nextWord]
  split
  · rw [wordAt, List.length_map, List.length_range]
  · split
    · rw [wordAt, List.length_map, List.length_range]
    · exact length_getNextBytes 8 it

theorem sendWords_getD {n i j : Nat} (word : i < n) (byte : j < 8) (it : SgXferBufferIterator) :
    (sendWords host n it).getD (8 * i + j) 0#8 =
      (getNextEightBytes host ((fun it => (getNextEightBytes host it).2)^[i] it)).1.getD j 0#8 := by
  induction n generalizing i it with
  | zero => omega
  | succ n ih =>
    have length := length_getNextEightBytes host it
    rw [sendWords]
    cases i with
    | zero => rw [List.getD_append _ _ _ _ (by omega), Nat.mul_zero, Nat.zero_add, Function.iterate_zero, id_eq]
    | succ i =>
      rw [List.getD_append_right _ _ _ _ (by omega), length, show 8 * (i + 1) + j - 8 = 8 * i + j by omega,
        ih (by omega), Function.iterate_succ_apply]

theorem sendIterator_sg {sgPtr : Nat → Option (List SgBlockInfo)} (buffers : matrix.buffers = .sg sgPtr)
    {index : Nat}
    {blocks : List SgBlockInfo} (given : sgPtr index = some blocks) (i : Nat) :
    sendIterator zeros host matrix index i =
      (fun it => (getNextEightBytes host it).2)^[i] (initSgXferBufferIterator zeros blocks) := by
  induction i with
  | zero =>
    rw [sendIterator, initIterators, buffers]
    simp [given]
  | succ i ih =>
    rw [sendIterator, Function.iterate_succ_apply', ← ih, fetchWord, buffers]
    simp [given]

theorem sentByte_eq {index y : Nat} (inside : y < 8 * matrix.words) :
    sentByte zeros host matrix index y = matrix.sent zeros host index y := by
  rw [sentByte, XferMatrix.sent]
  cases buffers : matrix.buffers with
  | default ptr =>
    rw [fetchWord, buffers]
    cases given : ptr index with
    | none => simp [given]
    | some address =>
      have place : address + 8 * (y / 8) + y % 8 = address + y := by omega
      simp [given, Nat.mod_lt, place]
  | sg sgPtr =>
    rw [fetchWord, buffers]
    cases given : sgPtr index with
    | none => simp [given]
    | some blocks =>
      have bytes := @sendWords_getD host matrix.words (y / 8) (y % 8) (by omega) (by omega)
        (initSgXferBufferIterator zeros blocks)
      rw [Nat.div_add_mod] at bytes
      simp only [given, Option.map_some, Option.getD_some, bytes, sendIterator_sg buffers given]

/-- What writing some lines leaves in the MRAM of each DPU. -/
def Mrams.written (mrams : Mrams) (zeros : Nat) (host : HostMemory) (matrix : XferMatrix)
    (lines : List Nat) : Mrams :=
  fun index x =>
    if index / NB_REAL_CIS ∈ lines ∧ matrix.has index = true ∧ matrix.offset.toNat ≤ x ∧
      x < matrix.offset.toNat + matrix.size.toNat then matrix.sent zeros host index (x - matrix.offset.toNat)
    else mrams index x

/-- The blocks of a transfer on some lines, in order. -/
def XferMatrix.blocks (nbCis : Nat) (matrix : XferMatrix) (lines : List Nat) : List Nat :=
  lines.flatMap fun dpuId =>
    if doDpuTransfer nbCis matrix dpuId then (List.range matrix.words).map (matrix.block dpuId) else []

/-- The MRAMs of the DPUs of a rank are the same. -/
def SameMrams (nbCis : Nat) (mrams mrams' : Mrams) : Prop :=
  ∀ index < NB_LINES * NB_REAL_CIS, index % NB_REAL_CIS < nbCis → ∀ x < MRAM_SIZE, mrams index x = mrams' index x

theorem writeLine_region {dpuId : Nat} (fits : matrix.Fits) (full : matrix.FullLines nbCis)
    (line : dpuId < NB_LINES)
    (s : WriteState) : SameMrams nbCis (mramOf (writeLine zeros nbCis host matrix s dpuId).region)
      ((mramOf s.region).written zeros host matrix [dpuId]) := by
  intro index dpu ci x offset
  have words : 8 * matrix.words = matrix.size.toNat := by
    have size := fits.size
    rw [XferMatrix.words]
    omega
  rw [writeLine, Mrams.written]
  simp only [List.mem_singleton]
  split
  · rename_i transfers
    let before : WriteState :=
      { s with sgIt := fun ciId => initIterators zeros matrix (NB_REAL_CIS * dpuId + ciId) }
    have turns : LineWritten zeros nbCis host matrix dpuId before matrix.words
        ((List.range matrix.words).foldl (writeTurn nbCis host matrix dpuId) before) :=
      LineWritten.turns fits line (full dpuId transfers) (fun _ _ => rfl) le_rfl
    rw [turns.mram index dpu ci x offset, words]
    by_cases here : index / NB_REAL_CIS = dpuId
    · have has := full dpuId transfers (index % NB_REAL_CIS) ci
      rw [← here, Nat.div_add_mod] at has
      by_cases within : matrix.offset.toNat ≤ x ∧ x < matrix.offset.toNat + matrix.size.toNat
      · rw [if_pos ⟨here, within⟩, if_pos ⟨here, has, within⟩]
        exact sentByte_eq (by omega)
      · rw [if_neg fun both => within both.2, if_neg fun all => within all.2.2]
    · rw [if_neg fun both => here both.1, if_neg fun all => here all.1]
  · rename_i none_
    by_cases here : index / NB_REAL_CIS = dpuId
    · simp [not_doDpuTransfer none_ ⟨here, ci⟩]
    · simp [here]

theorem writeLines_region {lines : List Nat} (fits : matrix.Fits) (full : matrix.FullLines nbCis)
    (inside : ∀ dpuId ∈ lines, dpuId < NB_LINES) (s : WriteState) :
    SameMrams nbCis (mramOf (lines.foldl (writeLine zeros nbCis host matrix) s).region)
      ((mramOf s.region).written zeros host matrix lines) := by
  induction lines generalizing s with
  | nil =>
    intro index dpu ci x offset
    simp [Mrams.written]
  | cons dpuId lines ih =>
    intro index dpu ci x offset
    obtain ⟨line, rest⟩ := List.forall_mem_cons.mp inside
    have first : mramOf (writeLine zeros nbCis host matrix s dpuId).region index x =
        (mramOf s.region).written zeros host matrix [dpuId] index x :=
      writeLine_region fits full line s index dpu ci x offset
    rw [List.foldl_cons, ih rest _ index dpu ci x offset, Mrams.written, Mrams.written]
    rw [Mrams.written] at first
    by_cases within : matrix.has index = true ∧ matrix.offset.toNat ≤ x ∧
      x < matrix.offset.toNat + matrix.size.toNat
    · by_cases later : index / NB_REAL_CIS ∈ lines
      · rw [if_pos ⟨later, within⟩, if_pos ⟨List.mem_cons_of_mem dpuId later, within⟩]
      · simp [later, first, within]
    · simp [first, within]

theorem threadsWriteToRank_region (fits : matrix.Fits) (full : matrix.FullLines nbCis) {start stop : Nat}
    (inside : stop ≤ NB_LINES) (s : WriteState) :
    SameMrams nbCis (mramOf (threadsWriteToRank zeros nbCis host matrix start stop s).region)
      ((mramOf s.region).written zeros host matrix (List.range' start (stop - start))) := by
  rw [threadsWriteToRank]
  split
  · rename_i empty
    intro index dpu ci x offset
    rw [Mrams.written, if_neg (by simp only [empty]; rintro ⟨_, _, _, _⟩; simp_all; omega)]
  · refine writeLines_region fits full (fun dpuId member => ?_) s
    have bounds := List.mem_range'_1.mp member
    omega

theorem writeLine_blocks (s : WriteState) (dpuId : Nat) : (writeLine zeros nbCis host matrix s dpuId).blocks =
    s.blocks ++ matrix.blocks nbCis [dpuId] := by
  have turns (n : Nat) (s : WriteState) : ((List.range n).foldl (writeTurn nbCis host matrix dpuId) s).blocks =
      s.blocks ++ (List.range n).map (matrix.block dpuId) := by
    induction n with
    | zero => simp
    | succ n ih => simp [List.range_succ, writeTurn, ih]
  rw [writeLine, XferMatrix.blocks, List.flatMap_singleton]
  split
  · exact turns _ _
  · rw [List.append_nil]

theorem writeLines_blocks (lines : List Nat) (s : WriteState) :
    (lines.foldl (writeLine zeros nbCis host matrix) s).blocks = s.blocks ++ matrix.blocks nbCis lines := by
  induction lines generalizing s with
  | nil => simp [XferMatrix.blocks]
  | cons dpuId lines ih =>
    rw [List.foldl_cons, ih, writeLine_blocks, List.append_assoc]
    simp [XferMatrix.blocks]

end Write

section Read
variable {zeros nbCis : Nat} {region : Bytes} {matrix : XferMatrix}

/-- The word that a DPU has at a word of a transfer. -/
def Mrams.word (mrams : Mrams) (matrix : XferMatrix) (index i : Nat) : List (BitVec 8) :=
  (List.range 8).map fun j => mrams index (matrix.offset.toNat + (8 * i + j))

/-- The stores to the buffer of a DPU after some words that are received from it, and its iterator. -/
def receiveWord (zeros : Nat) (mrams : Mrams) (matrix : XferMatrix) (index : Nat) :
    Nat → List (Nat × BitVec 8) × SgXferBufferIterator
  | 0 => ([], initIterators zeros matrix index)
  | i + 1 =>
    let before := receiveWord zeros mrams matrix index i
    let done := storeWord matrix i index before.2 (mrams.word matrix index i)
    (before.1 ++ (done.map (·.1)).getD [], (done.map (·.2)).getD before.2)

/-- The stores to the buffer of a DPU for a transfer: the bytes of its MRAM one after the
other, in its buffer or where the scatter/gather iterator puts them. -/
def Mrams.received (mrams : Mrams) (zeros : Nat) (matrix : XferMatrix) (index : Nat) : List (Nat × BitVec 8) :=
  match matrix.buffers with
  | .default ptr =>
    match ptr index with
    | some address => (List.range matrix.size.toNat).map fun y =>
      (address + y, mrams index (matrix.offset.toNat + y))
    | none => []
  | .sg sgPtr =>
    match sgPtr index with
    | some blocks => receiveWords (fun y => mrams index (matrix.offset.toNat + y)) matrix.words 0
        (initSgXferBufferIterator zeros blocks)
    | none => []

section Received
variable {mrams : Mrams} {index : Nat}

theorem storeWord_isSome (i index : Nat) (it : SgXferBufferIterator) (word : List (BitVec 8)) :
    (storeWord matrix i index it word).isSome = matrix.has index := by
  unfold storeWord XferMatrix.has
  cases matrix.buffers <;> simp

theorem storeWord_none (none_ : matrix.has index = false) (i : Nat) (it : SgXferBufferIterator)
    (word : List (BitVec 8)) :
    storeWord matrix i index it word = none := by
  have absent := @storeWord_isSome matrix i index it word
  rw [none_] at absent
  exact Option.not_isSome_iff_eq_none.mp (by rw [absent]; decide)

theorem receiveWord_none (none_ : matrix.has index = false) (n : Nat) :
    (receiveWord zeros mrams matrix index n).1 = [] := by
  induction n with
  | zero => rfl
  | succ n ih =>
    rw [receiveWord, ih, storeWord_none none_]
    rfl

theorem receiveWord_default {ptr : Nat → Option Nat} (buffers : matrix.buffers = .default ptr) {address : Nat}
    (given : ptr index = some address) (n : Nat) : (receiveWord zeros mrams matrix index n).1 =
      (List.range (8 * n)).map fun y => (address + y, mrams index (matrix.offset.toNat + y)) := by
  induction n with
  | zero => rfl
  | succ n ih =>
    rw [receiveWord, ih, storeWord, buffers, Nat.mul_succ, List.range_add, List.map_append, List.map_map]
    simp only [given, Option.map_some, Option.getD_some, Mrams.word, List.zip_map']
    congr 1

/-- The iterator after some words that are received. -/
def iteratorAfter (bytes : Nat → BitVec 8) : Nat → Nat → SgXferBufferIterator → SgXferBufferIterator
  | 0, _, it => it
  | n + 1, i, it =>
    iteratorAfter bytes n (i + 1) (writeNextEightBytes it ((List.range 8).map fun j => bytes (8 * i + j))).2

theorem receiveWords_succ (bytes : Nat → BitVec 8) (n i : Nat) (it : SgXferBufferIterator) :
    let last :=
  writeNextEightBytes (iteratorAfter bytes n i it) ((List.range 8).map fun j => bytes (8 * (i + n) + j))
    receiveWords bytes (n + 1) i it = receiveWords bytes n i it ++ last.1 ∧ iteratorAfter bytes
        (n + 1) i it = last.2 := by
  induction n generalizing i it with
  | zero => exact ⟨by simp [receiveWords, iteratorAfter], rfl⟩
  | succ n ih =>
    obtain ⟨stores, iterator⟩ :=
      ih (i + 1) (writeNextEightBytes it ((List.range 8).map fun j => bytes (8 * i + j))).2
    rw [show i + 1 + n = i + (n + 1) by omega] at stores iterator
    refine ⟨?_, iterator⟩
    rw [receiveWords, stores, receiveWords, List.append_assoc]
    rfl

theorem receiveWord_sg {sgPtr : Nat → Option (List SgBlockInfo)} (buffers : matrix.buffers = .sg sgPtr)
    {blocks : List SgBlockInfo} (given : sgPtr index = some blocks) (n : Nat) :
    receiveWord zeros mrams matrix index n =
      (receiveWords (fun y => mrams index (matrix.offset.toNat + y)) n 0 (initSgXferBufferIterator zeros blocks),
        iteratorAfter (fun y => mrams index (matrix.offset.toNat + y)) n 0
          (initSgXferBufferIterator zeros blocks)) := by
  induction n with
  | zero =>
    rw [receiveWord, initIterators, buffers]
    simp only [given, Option.getD_some]
    rfl
  | succ n ih =>
    obtain ⟨stores, iterator⟩ := receiveWords_succ (fun y => mrams index (matrix.offset.toNat + y)) n 0
      (initSgXferBufferIterator zeros blocks)
    rw [stores, iterator, receiveWord, ih, storeWord, buffers]
    simp only [given, Option.map_some, Option.getD_some, Nat.zero_add]
    rfl

theorem receiveWord_eq (fits : matrix.Fits) :
    (receiveWord zeros mrams matrix index matrix.words).1 = mrams.received zeros matrix index := by
  have size : 8 * matrix.words = matrix.size.toNat := by
    have aligned := fits.size
    rw [XferMatrix.words]
    omega
  rw [Mrams.received]
  cases buffers : matrix.buffers with
  | default ptr =>
    cases given : ptr index with
    | none =>
      have none_ : matrix.has index = false := by
        rw [XferMatrix.has, buffers]
        simp [given]
      rw [receiveWord_none none_]
      simp [given]
    | some address =>
      rw [receiveWord_default buffers given, size]
      simp only [given]
  | sg sgPtr =>
    cases given : sgPtr index with
    | none =>
      have none_ : matrix.has index = false := by
        rw [XferMatrix.has, buffers]
        simp [given]
      rw [receiveWord_none none_]
      simp [given]
    | some blocks =>
      rw [receiveWord_sg buffers given]
      simp only [given]

end Received

/-- The line after some turns. -/
structure LineRead (zeros nbCis : Nat) (region : Bytes) (matrix : XferMatrix) (dpuId : Nat)
    (before : ReadState) (n : Nat)
    (s : ReadState) : Prop where
  sgIt : ∀ ciId < nbCis, s.sgIt ciId = (receiveWord zeros (mramOf region) matrix (NB_REAL_CIS * dpuId + ciId) n).2
  stored : ∀ index, s.stored index = before.stored index ++
    if InLine nbCis dpuId index then (receiveWord zeros (mramOf region) matrix index n).1 else []

/-- The word of a DPU in the block that is read. -/
theorem interleaved_word (fits : matrix.Fits) (dpuId i : Nat) {ciId : Nat} (ci : ciId < NB_REAL_CIS) :
    (List.range 8).map (fun j => byteInterleaveAvx2 (fun p => region (matrix.block dpuId i + p)) (8 * ciId + j)) =
      (mramOf region).word matrix (NB_REAL_CIS * dpuId + ciId) i := by
  have aligned := fits.offset
  rw [NB_REAL_CIS] at ci
  refine List.map_congr_left fun j small => ?_
  have small := List.mem_range.mp small
  rw [byteInterleaveAvx2_eq _ (by omega), byteInterleave, fits.block_eq, mramOf]
  simp only [NB_REAL_CIS]
  rw [show (8 * dpuId + ciId) / 8 = dpuId by omega, show (8 * dpuId + ciId) % 8 = ciId by omega,
    show (matrix.offset.toNat + (8 * i + j)) / 8 = matrix.offset.toNat / 8 + i by omega,
    show (matrix.offset.toNat + (8 * i + j)) % 8 = j by omega, show (8 * ciId + j) % 8 = j by omega,
    show (8 * ciId + j) / 8 = ciId by omega]

theorem LineRead.turn {dpuId n : Nat} {before s : ReadState} (cis : nbCis ≤ NB_REAL_CIS) (fits : matrix.Fits)
    (read : LineRead zeros nbCis region matrix dpuId before n s) :
    LineRead zeros nbCis region matrix dpuId before (n + 1) (readTurn nbCis region matrix dpuId s n) := by
  have stores {ciId : Nat} (on : ciId < nbCis) : storeWord matrix n (NB_REAL_CIS * dpuId + ciId) (s.sgIt ciId)
      ((List.range 8).map fun j => byteInterleaveAvx2 (fun p => region (matrix.block dpuId n + p)) (8 * ciId + j)) =
      storeWord matrix n (NB_REAL_CIS * dpuId + ciId)
        (receiveWord zeros (mramOf region) matrix (NB_REAL_CIS * dpuId + ciId) n).2
        ((mramOf region).word matrix (NB_REAL_CIS * dpuId + ciId) n) := by
    rw [read.sgIt ciId on, interleaved_word fits dpuId n (by omega)]
  refine ⟨fun ciId on => ?_, fun index => ?_⟩
  · simp only [readTurn, if_pos on]
    rw [stores on, read.sgIt ciId on]
    rfl
  · simp only [readTurn]
    by_cases inLine : InLine nbCis dpuId index
    · have same : NB_REAL_CIS * dpuId + index % NB_REAL_CIS = index := by
        rw [← inLine.1, Nat.div_add_mod]
      rw [if_pos inLine, if_pos inLine, stores inLine.2, same, read.stored index, if_pos inLine, List.append_assoc]
      rfl
    · rw [if_neg inLine, if_neg inLine, read.stored index, if_neg inLine]

theorem LineRead.turns {dpuId : Nat} {before : ReadState} (cis : nbCis ≤ NB_REAL_CIS) (fits : matrix.Fits)
    (starts : ∀ ciId < nbCis, before.sgIt ciId = initIterators zeros matrix (NB_REAL_CIS * dpuId + ciId))
    (n : Nat) :
    LineRead zeros nbCis region matrix dpuId before n
      ((List.range n).foldl (readTurn nbCis region matrix dpuId) before) := by
  induction n with
  | zero => exact ⟨starts, fun index => by simp [receiveWord]⟩
  | succ n ih =>
    rw [List.range_succ, List.foldl_append]
    exact ih.turn cis fits

theorem received_of_not_has {mrams : Mrams} {index : Nat} (fits : matrix.Fits) (none_ : matrix.has index = false) :
    mrams.received zeros matrix index = [] := by
  rw [← receiveWord_eq fits]
  exact receiveWord_none none_ _

theorem readLine_stored (cis : nbCis ≤ NB_REAL_CIS) (fits : matrix.Fits) (s : ReadState) (dpuId index : Nat) :
    (readLine zeros nbCis region matrix s dpuId).stored index = s.stored index ++
      if InLine nbCis dpuId index then (mramOf region).received zeros matrix index else [] := by
  rw [readLine]
  split
  · rw [← receiveWord_eq fits]
    exact (LineRead.turns cis fits (fun _ _ => rfl) matrix.words).stored index
  · rename_i none_
    by_cases inLine : InLine nbCis dpuId index
    · rw [if_pos inLine, received_of_not_has fits (not_doDpuTransfer none_ inLine), List.append_nil]
    · rw [if_neg inLine, List.append_nil]

theorem readLines_stored (cis : nbCis ≤ NB_REAL_CIS) (fits : matrix.Fits) {lines : List Nat}
    (distinct : lines.Nodup)
    (s : ReadState) (index : Nat) :
    (lines.foldl (readLine zeros nbCis region matrix) s).stored index = s.stored index ++
      if index / NB_REAL_CIS ∈ lines ∧ index % NB_REAL_CIS < nbCis then
      (mramOf region).received zeros matrix index else [] := by
  induction lines generalizing s with
  | nil => simp
  | cons dpuId lines ih =>
    obtain ⟨fresh, distinct⟩ := List.nodup_cons.mp distinct
    rw [List.foldl_cons, ih distinct, readLine_stored cis fits, List.append_assoc]
    congr 1
    simp only [InLine, List.mem_cons]
    by_cases here : index / NB_REAL_CIS = dpuId
    · have absent : index / NB_REAL_CIS ∉ lines := here ▸ fresh
      simp [here, fresh]
    · simp [here]

/-- What reading some lines stores for each DPU. -/
theorem threadsReadFromRank_stored (cis : nbCis ≤ NB_REAL_CIS) (fits : matrix.Fits) (start stop : Nat)
    (s : ReadState)
    (index : Nat) : (threadsReadFromRank zeros nbCis region matrix start stop s).stored index = s.stored index ++
      if index / NB_REAL_CIS ∈ List.range' start (stop - start) ∧ index % NB_REAL_CIS < nbCis then
        (mramOf region).received zeros matrix index
      else [] := by
  rw [threadsReadFromRank]
  split
  · rename_i empty
    have nothing : (mramOf region).received zeros matrix index = [] := by
      rw [← receiveWord_eq fits, XferMatrix.words, empty]
      rfl
    rw [nothing, ite_self, List.append_nil]
  · exact readLines_stored cis fits List.nodup_range' s index

theorem readLine_blocks (s : ReadState) (dpuId : Nat) : (readLine zeros nbCis region matrix s dpuId).blocks =
    s.blocks ++ matrix.blocks nbCis [dpuId] := by
  have turns (n : Nat) (s : ReadState) : ((List.range n).foldl (readTurn nbCis region matrix dpuId) s).blocks =
      s.blocks ++ (List.range n).map (matrix.block dpuId) := by
    induction n with
    | zero => simp
    | succ n ih => simp [List.range_succ, readTurn, ih]
  rw [readLine, XferMatrix.blocks, List.flatMap_singleton]
  split
  · exact turns _ _
  · rw [List.append_nil]

theorem readLines_blocks (lines : List Nat) (s : ReadState) :
    (lines.foldl (readLine zeros nbCis region matrix) s).blocks = s.blocks ++ matrix.blocks nbCis lines := by
  induction lines generalizing s with
  | nil => simp [XferMatrix.blocks]
  | cons dpuId lines ih =>
    rw [List.foldl_cons, ih, readLine_blocks, List.append_assoc]
    simp [XferMatrix.blocks]

end Read

/-- Nothing read yet. -/
def ReadState.empty : ReadState := ⟨fun _ => ⟨0, 0#32, 0#32, []⟩, fun _ => [], []⟩

/-- A transfer on some lines: what is sent is in the memory of the host, which changes in
between, and `cache_line` contains anything before. -/
inductive XferAction
  | write (host : HostMemory) (matrix : XferMatrix) (dpuIdStart dpuIdStop : Nat) (before : WriteState)
  | read (matrix : XferMatrix) (dpuIdStart dpuIdStop : Nat)

def XferAction.matrix : XferAction → XferMatrix
  | .write _ matrix _ _ _ => matrix
  | .read matrix _ _ => matrix

def XferAction.dpuIdStop : XferAction → Nat
  | .write _ _ _ stop _ => stop
  | .read _ _ stop => stop

/-- A transfer of full lines, of whole words inside of the MRAM. -/
structure XferAction.Proper (nbCis : Nat) (action : XferAction) : Prop where
  fits : action.matrix.Fits
  full : action.matrix.FullLines nbCis
  lines : action.dpuIdStop ≤ NB_LINES

/-- The region after a transfer. -/
def XferAction.exec (zeros nbCis : Nat) (region : Bytes) : XferAction → Bytes
  | .write host matrix start stop before =>
    (threadsWriteToRank zeros nbCis host matrix start stop { before with region := region }).region
  | .read _ _ _ => region

/-- The last bytes written to the MRAM of each DPU, after a transfer. -/
def Mrams.next (mrams : Mrams) (zeros : Nat) : XferAction → Mrams
  | .write host matrix start stop _ => mrams.written zeros host matrix (List.range' start (stop - start))
  | .read _ _ _ => mrams

/-- A read stores for each DPU what was last written to its MRAM. -/
def XferAction.Returns (zeros nbCis : Nat) (region : Bytes) (mrams : Mrams) : XferAction → Prop
  | .write _ _ _ _ _ => True
  | .read matrix start stop => ∀ index < NB_LINES * NB_REAL_CIS, index % NB_REAL_CIS < nbCis →
    (threadsReadFromRank zeros nbCis region matrix start stop .empty).stored index =
      if index / NB_REAL_CIS ∈ List.range' start (stop - start) then mrams.received zeros matrix index else []

/-- Every read of a sequence of transfers returns what was last written. -/
def RunReturns (zeros nbCis : Nat) : Bytes → Mrams → List XferAction → Prop
  | _, _, [] => True
  | region, mrams, action :: actions => action.Returns zeros nbCis region mrams ∧
    RunReturns zeros nbCis (action.exec zeros nbCis region) (mrams.next zeros action) actions

section Runs
variable {zeros nbCis : Nat} {region : Bytes} {mrams mrams' : Mrams}

theorem SameMrams.written (same : SameMrams nbCis mrams mrams') (host : HostMemory) (matrix : XferMatrix)
    (lines : List Nat) :
    SameMrams nbCis (mrams.written zeros host matrix lines) (mrams'.written zeros host matrix lines) := by
  intro index dpu ci x offset
  rw [Mrams.written, Mrams.written, same index dpu ci x offset]

theorem SameMrams.received (same : SameMrams nbCis mrams mrams') {matrix : XferMatrix} (fits : matrix.Fits)
    {index : Nat}
    (dpu : index < NB_LINES * NB_REAL_CIS) (ci : index % NB_REAL_CIS < nbCis) :
    mrams.received zeros matrix index = mrams'.received zeros matrix index := by
  have bound := fits.inside
  have steps (n : Nat) (inside : n ≤ matrix.words) :
      receiveWord zeros mrams matrix index n = receiveWord zeros mrams' matrix index n := by
    induction n with
    | zero => rfl
    | succ n ih =>
      have words : mrams.word matrix index n = mrams'.word matrix index n := by
        refine List.map_congr_left fun j small => same index dpu ci _ ?_
        have small := List.mem_range.mp small
        rw [XferMatrix.words] at inside
        omega
      rw [receiveWord, receiveWord, ih (by omega), words]
  rw [← receiveWord_eq fits, ← receiveWord_eq fits, steps _ le_rfl]

theorem XferAction.Proper.returns {action : XferAction} (proper : action.Proper nbCis) (cis : nbCis ≤ NB_REAL_CIS)
    (same : SameMrams nbCis (mramOf region) mrams) : action.Returns zeros nbCis region mrams := by
  cases action with
  | write => trivial
  | read matrix start stop =>
    intro index dpu ci
    have fits : matrix.Fits := proper.fits
    rw [threadsReadFromRank_stored cis fits]
    simp only [ReadState.empty, List.nil_append, ci, and_true]
    rw [same.received fits dpu ci]

theorem XferAction.Proper.next {action : XferAction} (proper : action.Proper nbCis)
    (same : SameMrams nbCis (mramOf region) mrams) :
    SameMrams nbCis (mramOf (action.exec zeros nbCis region)) (mrams.next zeros action) := by
  cases action with
  | read => exact same
  | write host matrix start stop before =>
    intro index dpu ci x offset
    have fits : matrix.Fits := proper.fits
    have lines : stop ≤ NB_LINES := proper.lines
    rw [XferAction.exec, threadsWriteToRank_region fits proper.full lines _ index dpu ci x offset]
    exact same.written host matrix _ index dpu ci x offset

theorem run_returns (cis : nbCis ≤ NB_REAL_CIS) {actions : List XferAction}
    (proper : ∀ action ∈ actions, action.Proper nbCis)
    (same : SameMrams nbCis (mramOf region) mrams) : RunReturns zeros nbCis region mrams actions := by
  induction actions generalizing region mrams with
  | nil => trivial
  | cons action actions ih =>
    obtain ⟨first, rest⟩ := List.forall_mem_cons.mp proper
    exact ⟨first.returns cis same, ih rest (first.next same)⟩

theorem threadsWriteToRank_blocks {host : HostMemory} {matrix : XferMatrix} (start stop : Nat) (s : WriteState) :
    (threadsWriteToRank zeros nbCis host matrix start stop s).blocks =
      s.blocks ++ if matrix.size = 0#32 then [] else matrix.blocks nbCis (List.range' start (stop - start)) := by
  rw [threadsWriteToRank]
  split
  · rw [List.append_nil]
  · exact writeLines_blocks _ s

theorem threadsReadFromRank_blocks {matrix : XferMatrix} (start stop : Nat) (s : ReadState) :
    (threadsReadFromRank zeros nbCis region matrix start stop s).blocks =
      s.blocks ++ if matrix.size = 0#32 then [] else matrix.blocks nbCis (List.range' start (stop - start)) := by
  rw [threadsReadFromRank]
  split
  · rw [List.append_nil]
  · exact readLines_blocks _ s

/-- The address map and the transfers through it: no two words share an address, the words of a transfer
have these addresses, both directions use the same ones, and a read returns what was last written. -/
structure MapFaithful (zeros nbCis : Nat) : Prop where
  injective : ∀ dpuId < NB_LINES, ∀ dpuId' < NB_LINES, ∀ word < MRAM_WORDS, ∀ word' < MRAM_WORDS,
    wordAddress dpuId word = wordAddress dpuId' word' → dpuId = dpuId' ∧ word = word'
  addresses : ∀ matrix : XferMatrix, matrix.Fits → ∀ dpuId i,
    matrix.block dpuId i = wordAddress dpuId (matrix.offset.toNat / 8 + i)
  same : ∀ (host : HostMemory) (region : Bytes) (matrix : XferMatrix) (dpuIdStart dpuIdStop : Nat) (s : WriteState)
    (t : ReadState), s.blocks = t.blocks →
      (threadsWriteToRank zeros nbCis host matrix dpuIdStart dpuIdStop s).blocks =
        (threadsReadFromRank zeros nbCis region matrix dpuIdStart dpuIdStop t).blocks
  returns : ∀ (region : Bytes) (actions : List XferAction), (∀ action ∈ actions, action.Proper nbCis) →
    RunReturns zeros nbCis region (mramOf region) actions

end Runs

theorem map_faithful {zeros nbCis : Nat} (cis : nbCis ≤ NB_REAL_CIS) : MapFaithful zeros nbCis where
  injective dpuId line dpuId' line' word inside word' inside' same := by
    have first : wordAddress dpuId word + 0 = wordAddress dpuId' word' + 0 := by rw [same]
    have places := wordAddress_add_inj line line' inside inside' (by decide) (by decide) first
    exact ⟨places.1, places.2.1⟩
  addresses matrix fits := fits.block_eq
  same host region matrix start stop s t same := by
    rw [threadsWriteToRank_blocks, threadsReadFromRank_blocks, same]
  returns region actions proper := run_returns cis proper fun _ _ _ _ _ => rfl

/-- Two words of each DPU, from the second word of its MRAM on. -/
def twoWords : XferMatrix := ⟨.default fun index => some (64 * index), 8#32, 16#32⟩

theorem map_faithful_twoWords : RunReturns 0 8 (fun _ => 0#8) (mramOf fun _ => 0#8)
    [.write (fun address => BitVec.ofNat 8 address) twoWords 0 8 ⟨fun _ => 0#8, fun _ => ⟨0, 0#32,
      0#32, []⟩, fun _ => 0#8, []⟩,
      .read twoWords 2 5] := by
  refine (map_faithful (by decide)).returns _ _ fun action member => ?_
  rcases List.mem_pair.mp member with rfl | rfl
  · exact ⟨⟨rfl, rfl, by decide⟩, fun _ _ _ _ => rfl, by decide⟩
  · exact ⟨⟨rfl, rfl, by decide⟩, fun _ _ _ _ => rfl, by decide⟩

end Upmem.XeonSp
