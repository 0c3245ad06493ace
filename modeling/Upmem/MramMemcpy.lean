import Mathlib.Tactic.SplitIfs
import Upmem.Lib.Blit

namespace Upmem.MramMemcpy
open Blit

abbrev Bytes := Nat → BitVec 8

/-- `MRAM_CACHE_SIZE`, which is `DMA_ALIGNMENT` as well. -/
def MRAM_CACHE_SIZE : Nat := 8

/-- `addr & DMA_OFF_MASK`. -/
def dmaOff (addr : Nat) : Nat := addr % 8

/-- The address of a transfer, that the hardware rounds down. -/
def dmaLow (addr : Nat) : Nat := addr / 8 * 8

/-- `mram_read` of a block to a local cache. -/
def mramRead (mram : Bytes) (addr : Nat) (cache : Bytes) : Bytes :=
  blit mram (dmaLow addr) cache 0 MRAM_CACHE_SIZE

/-- `mram_write` of a local cache. -/
def mramWrite (cache mram : Bytes) (addr : Nat) : Bytes :=
  blit cache 0 mram (dmaLow addr) MRAM_CACHE_SIZE

/-- `memcpy` from a local cache to another memory, from there to a local cache, and between
two caches. An access outside of a cache is a fault. -/
def memcpyFrom (cache : Bytes) (off : Nat) (target : Bytes) (place count : Nat) : Option Bytes :=
  if off + count ≤ MRAM_CACHE_SIZE then some (blit cache off target place count) else none

def memcpyTo (source : Bytes) (start : Nat) (cache : Bytes) (off count : Nat) : Option Bytes :=
  if off + count ≤ MRAM_CACHE_SIZE then some (blit source start cache off count) else none

def memcpyCaches (srcCache : Bytes) (srcOff : Nat) (destCache : Bytes) (destOff count : Nat) : Option Bytes :=
  if destOff + count ≤ MRAM_CACHE_SIZE ∧ srcOff + count ≤ MRAM_CACHE_SIZE then
    some (blit srcCache srcOff destCache destOff count)
  else none

/-- The memory that a copy writes, its cache, and its variables `remaining` and `idx`. -/
structure Progress where
  memory : Bytes
  cache : Bytes
  remaining : Nat
  idx : Nat

/-- The first block of `__memcpy_mw`. -/
def mwFirst (wram : Bytes) (dest src len : Nat) (mram cache : Bytes) : Option Progress :=
  let destOff := dmaOff dest
  if destOff ≠ 0 then
    let part := min len (MRAM_CACHE_SIZE - destOff)
    (memcpyTo wram src (mramRead mram dest cache) destOff part).map fun cache =>
      ⟨mramWrite cache mram dest, cache, len - part, part⟩
  else some ⟨mram, cache, len, 0⟩

/-- The loops of `__memcpy_mw`. -/
def mwLoop (wram : Bytes) (dest src : Nat) (s : Progress) : Option Progress :=
  if MRAM_CACHE_SIZE ≤ s.remaining then
    if dmaOff src = dmaOff dest then
      mwLoop wram dest src
        { s with
          memory := blit wram (dmaLow (src + s.idx)) s.memory (dmaLow (dest + s.idx)) MRAM_CACHE_SIZE
          remaining := s.remaining - MRAM_CACHE_SIZE
          idx := s.idx + MRAM_CACHE_SIZE }
    else
      match memcpyTo wram (src + s.idx) s.cache 0 MRAM_CACHE_SIZE with
      | none => none
      | some cache =>
        mwLoop wram dest src
          ⟨mramWrite cache s.memory (dest + s.idx), cache, s.remaining - MRAM_CACHE_SIZE, s.idx + MRAM_CACHE_SIZE⟩
  else some s
termination_by s.remaining
decreasing_by all_goals simp only [MRAM_CACHE_SIZE] at *; omega

/-- The last block of `__memcpy_mw`. -/
def mwLast (wram : Bytes) (dest src : Nat) (s : Progress) : Option Bytes :=
  if s.remaining ≠ 0 then
    (memcpyTo wram (src + s.idx) (mramRead s.memory (dest + s.idx) s.cache) 0 s.remaining).map fun cache =>
      mramWrite cache s.memory (dest + s.idx)
  else some s.memory

/-- `__memcpy_mw`: the MRAM after it, or none if it has left its cache. -/
def memcpyMw (mram wram cache : Bytes) (dest src len : Nat) : Option Bytes :=
  ((mwFirst wram dest src len mram cache).bind (mwLoop wram dest src)).bind (mwLast wram dest src)

/-- The first block of `__memcpy_wm`. -/
def wmFirst (mram : Bytes) (dest src len : Nat) (wram cache : Bytes) : Option Progress :=
  let srcOff := dmaOff src
  let part := min len (MRAM_CACHE_SIZE - srcOff)
  let cache := mramRead mram src cache
  (memcpyFrom cache srcOff wram dest part).map fun wram => ⟨wram, cache, len - part, part⟩

/-- The loops of `__memcpy_wm`. -/
def wmLoop (mram : Bytes) (dest src : Nat) (s : Progress) : Option Progress :=
  if MRAM_CACHE_SIZE ≤ s.remaining then
    if dmaOff src = dmaOff dest then
      wmLoop mram dest src
        { s with
          memory := blit mram (dmaLow (src + s.idx)) s.memory (dmaLow (dest + s.idx)) MRAM_CACHE_SIZE
          remaining := s.remaining - MRAM_CACHE_SIZE
          idx := s.idx + MRAM_CACHE_SIZE }
    else
      let cache := mramRead mram (src + s.idx) s.cache
      match memcpyFrom cache 0 s.memory (dest + s.idx) MRAM_CACHE_SIZE with
      | none => none
      | some wram => wmLoop mram dest src ⟨wram, cache, s.remaining - MRAM_CACHE_SIZE, s.idx + MRAM_CACHE_SIZE⟩
  else some s
termination_by s.remaining
decreasing_by all_goals simp only [MRAM_CACHE_SIZE] at *; omega

/-- The last block of `__memcpy_wm`. -/
def wmLast (mram : Bytes) (dest src : Nat) (s : Progress) : Option Bytes :=
  if s.remaining ≠ 0 then
    memcpyFrom (mramRead mram (src + s.idx) s.cache) 0 s.memory (dest + s.idx) s.remaining
  else some s.memory

/-- `__memcpy_wm`: the WRAM after it, without the cache. -/
def memcpyWm (mram wram cache : Bytes) (dest src len : Nat) : Option Bytes :=
  ((wmFirst mram dest src len wram cache).bind (wmLoop mram dest src)).bind (wmLast mram dest src)

/-- What the loops of `__memcpy_mm` and `__memmove_mm` work on when the offsets differ. -/
structure Copying where
  mram : Bytes
  srcCache : Bytes
  destCache : Bytes
  srcOff : Nat
  srcIdx : Nat
  destIdx : Nat
  remaining : Nat

/-- The first block of `__memcpy_mm` when the offsets are the same. -/
def mmSameFirst (dest src len : Nat) (mram srcCache destCache : Bytes) : Option Progress :=
  let srcOff := dmaOff src
  let destOff := dmaOff dest
  if destOff ≠ 0 then
    let part := min len (MRAM_CACHE_SIZE - srcOff)
    (memcpyCaches (mramRead mram src srcCache) srcOff (mramRead mram dest destCache) destOff part).map
      fun destCache =>
      ⟨mramWrite destCache mram dest, destCache, len - part, part⟩
  else some ⟨mram, destCache, len, 0⟩

/-- The loop of `__memcpy_mm` when the offsets are the same. What the caches hold before a
block is read does not matter. -/
def mmSameLoop (dest src : Nat) (srcCache : Bytes) (s : Progress) : Progress :=
  if MRAM_CACHE_SIZE ≤ s.remaining then
    let srcCache := mramRead s.memory (src + s.idx) srcCache
    mmSameLoop dest src srcCache
      { s with
        memory := mramWrite srcCache s.memory (dest + s.idx)
        remaining := s.remaining - MRAM_CACHE_SIZE
        idx := s.idx + MRAM_CACHE_SIZE }
  else s
termination_by s.remaining
decreasing_by simp only [MRAM_CACHE_SIZE] at *; omega

/-- The last block of `__memcpy_mm` when the offsets are the same. -/
def mmSameLast (dest src : Nat) (srcCache : Bytes) (s : Progress) : Option Bytes :=
  if s.remaining ≠ 0 then
    (memcpyCaches (mramRead s.memory (src + s.idx) srcCache) 0 (mramRead s.memory (dest + s.idx) s.cache) 0
      s.remaining).map fun destCache => mramWrite destCache s.memory (dest + s.idx)
  else some s.memory

/-- The first block of `__memcpy_mm` when the offsets differ and that of the destination is not 0. -/
def mmFirst (dest src destOff : Nat) (s : Copying) : Option Copying :=
  let destCache := mramRead s.mram dest s.destCache
  let filled :=
    if destOff > s.srcOff then
      let part := MRAM_CACHE_SIZE - destOff
      (memcpyCaches s.srcCache s.srcOff destCache destOff part).map fun destCache =>
        { s with destCache := destCache, srcOff := s.srcOff + part }
    else
      let part := MRAM_CACHE_SIZE - s.srcOff
      let srcCache := mramRead s.mram (src + s.srcIdx) s.srcCache
      let part2 := s.srcOff - destOff
      ((memcpyCaches s.srcCache s.srcOff destCache destOff part).bind fun destCache =>
        memcpyCaches srcCache 0 destCache (destOff + part) part2).map fun destCache =>
          { s with srcCache := srcCache, destCache := destCache, srcIdx := s.srcIdx +
            MRAM_CACHE_SIZE, srcOff := part2 }
  filled.map fun s =>
    { s with
      mram := mramWrite s.destCache s.mram (dest + s.destIdx)
      destIdx := s.destIdx + MRAM_CACHE_SIZE
      remaining := s.remaining - (MRAM_CACHE_SIZE - destOff) }

/-- The loop of `__memcpy_mm` when the offsets differ. -/
def mmLoop (dest src : Nat) (s : Copying) : Option Copying :=
  if MRAM_CACHE_SIZE ≤ s.remaining then
    let part := MRAM_CACHE_SIZE - s.srcOff
    match memcpyCaches s.srcCache s.srcOff s.destCache 0 part with
    | none => none
    | some destCache =>
      let srcCache := mramRead s.mram (src + s.srcIdx) s.srcCache
      match memcpyCaches srcCache 0 destCache part s.srcOff with
      | none => none
      | some destCache =>
        mmLoop dest src { s with
          mram := mramWrite destCache s.mram (dest + s.destIdx)
          srcCache := srcCache
          destCache := destCache
          srcIdx := s.srcIdx + MRAM_CACHE_SIZE
          destIdx := s.destIdx + MRAM_CACHE_SIZE
          remaining := s.remaining - MRAM_CACHE_SIZE }
  else some s
termination_by s.remaining
decreasing_by simp only [MRAM_CACHE_SIZE] at *; omega

/-- The last block of `__memcpy_mm` when the offsets differ. -/
def mmLast (dest src : Nat) (s : Copying) : Option Bytes :=
  if s.remaining ≠ 0 then
    let destCache := mramRead s.mram (dest + s.destIdx) s.destCache
    let part := MRAM_CACHE_SIZE - s.srcOff
    let filled := (memcpyCaches s.srcCache s.srcOff destCache 0 part).bind fun destCache =>
      if s.remaining > part then
        memcpyCaches (mramRead s.mram (src + s.srcIdx) s.srcCache) 0 destCache part (s.remaining - part)
      else some destCache
    filled.map fun destCache => mramWrite destCache s.mram (dest + s.destIdx)
  else some s.mram

/-- `__memcpy_mm`: the MRAM after it, or none if it has left its caches. -/
def memcpyMm (mram srcCache destCache : Bytes) (dest src len : Nat) : Option Bytes :=
  let srcOff := dmaOff src
  let destOff := dmaOff dest
  if srcOff = destOff then
    (mmSameFirst dest src len mram srcCache destCache).bind fun s =>
      mmSameLast dest src srcCache (mmSameLoop dest src srcCache s)
  else
    let initLen := min len (MRAM_CACHE_SIZE - min destOff srcOff)
    let first := mramRead mram src srcCache
    if initLen = len then
      (memcpyCaches first srcOff (mramRead mram dest destCache) destOff len).map fun destCache =>
        mramWrite destCache mram dest
    else
      let s : Copying := ⟨mram, first, destCache, srcOff, MRAM_CACHE_SIZE, 0, len⟩
      let begun := if destOff ≠ 0 then mmFirst dest src destOff s else some s
      (begun.bind (mmLoop dest src)).bind (mmLast dest src)

section Blocks
variable {source memory cache : Bytes} {start addr off count : Nat}

/-- Reading a block, copying into it and writing it back is a copy. -/
theorem blit_block (inside : off + count ≤ MRAM_CACHE_SIZE) :
    mramWrite (blit source start (mramRead memory addr cache) off count) memory addr =
      blit source start memory (dmaLow addr + off) count := by
  funext a
  unfold mramWrite mramRead MRAM_CACHE_SIZE at *
  simp only [blit]
  split_ifs <;> first | omega | rfl | (congr 1; omega)

theorem dmaLow_add_dmaOff (addr : Nat) : dmaLow addr + dmaOff addr = addr := by
  unfold dmaLow dmaOff
  omega

/-- A whole block of a memory, written through a cache. -/
theorem mramWrite_blit : mramWrite (blit source start cache 0 MRAM_CACHE_SIZE) memory addr =
    blit source start memory (dmaLow addr) MRAM_CACHE_SIZE :=
  blit_through source cache memory start 0 _ _

end Blocks

/-- So far a copy has done what it should, and the block that it goes on with is aligned. -/
structure Progress.Copied (source original : Bytes) (dest src len base : Nat) (s : Progress) : Prop where
  memory : s.memory = blit source src original dest s.idx
  total : s.idx + s.remaining = len
  aligned : s.remaining ≠ 0 → dmaOff (base + s.idx) = 0

section Turns
variable {source original : Bytes} {dest src len base : Nat} {s : Progress}

/-- A turn of a loop copies the next block. -/
theorem Progress.Copied.turn (copied : s.Copied source original dest src len base)
    (more : MRAM_CACHE_SIZE ≤ s.remaining)
    (cache : Bytes) : Progress.Copied source original dest src len base
      ⟨blit source (src + s.idx) s.memory (dest + s.idx) MRAM_CACHE_SIZE, cache, s.remaining - MRAM_CACHE_SIZE,
        s.idx + MRAM_CACHE_SIZE⟩ := by
  obtain ⟨memory, total, aligned⟩ := copied
  refine ⟨by rw [memory, blit_append], by simp only; omega, fun _ => ?_⟩
  have here := aligned (by unfold MRAM_CACHE_SIZE at more; omega)
  unfold dmaOff MRAM_CACHE_SIZE at *
  simp only
  omega

/-- The rest is copied in the end. -/
theorem Progress.Copied.finish (copied : s.Copied source original dest src len base) :
    blit source (src + s.idx) s.memory (dest + s.idx) s.remaining = blit source src original dest len := by
  rw [copied.memory, blit_append, copied.total]

theorem Progress.Copied.low (copied : s.Copied source original dest src len base) (more : s.remaining ≠ 0) :
    dmaLow (base + s.idx) = base + s.idx := by
  have here := dmaLow_add_dmaOff (base + s.idx)
  rwa [copied.aligned more] at here

end Turns

section Mw
variable {wram original : Bytes} {dest src len : Nat} {s : Progress}

theorem mwFirst_copied (wram mram cache : Bytes) (dest src len : Nat) :
    ∃ s, mwFirst wram dest src len mram cache = some s ∧ s.Copied wram mram dest src len dest := by
  have whole := dmaLow_add_dmaOff dest
  have small : dmaOff dest < MRAM_CACHE_SIZE := Nat.mod_lt _ (by decide)
  simp only [mwFirst]
  split_ifs with offset
  · have inside : dmaOff dest + min len (MRAM_CACHE_SIZE - dmaOff dest) ≤ MRAM_CACHE_SIZE := by omega
    rw [memcpyTo, if_pos inside]
    refine ⟨_, rfl, ?_, by simp only; omega, fun more => ?_⟩
    · simp only
      rw [blit_block inside, whole]
    · unfold dmaOff MRAM_CACHE_SIZE at *
      simp only at *
      omega
  · exact ⟨_, rfl, (blit_zero ..).symm, by simp only; omega, fun _ => by simpa using offset⟩

theorem mwLoop_copied (copied : s.Copied wram original dest src len dest) :
    ∃ t, mwLoop wram dest src s = some t ∧ t.Copied wram original dest src len dest ∧
      t.remaining < MRAM_CACHE_SIZE := by
  induction left : s.remaining using Nat.strong_induction_on generalizing s with
  | h left' ih =>
    subst left
    rw [mwLoop]
    split_ifs with more same
    · have nonzero : s.remaining ≠ 0 := by unfold MRAM_CACHE_SIZE at more; omega
      have next := copied.turn more s.cache
      have aligned := copied.aligned nonzero
      have low : dmaLow (src + s.idx) = src + s.idx := by
        unfold dmaOff dmaLow at *
        omega
      rw [low, copied.low nonzero]
      exact ih _ (by unfold MRAM_CACHE_SIZE at *; simp only; omega) next rfl
    · have nonzero : s.remaining ≠ 0 := by unfold MRAM_CACHE_SIZE at more; omega
      have next := copied.turn more (blit wram (src + s.idx) s.cache 0 MRAM_CACHE_SIZE)
      rw [memcpyTo, if_pos (Nat.zero_add _).le]
      simp only
      rw [mramWrite_blit, copied.low nonzero]
      exact ih _ (by unfold MRAM_CACHE_SIZE at *; simp only; omega) next rfl
    · exact ⟨s, rfl, copied, not_le.mp more⟩

theorem memcpyMw_eq (mram wram cache : Bytes) (dest src len : Nat) :
    memcpyMw mram wram cache dest src len = some (blit wram src mram dest len) := by
  obtain ⟨s, first, begun⟩ := mwFirst_copied wram mram cache dest src len
  obtain ⟨t, loops, copied, small⟩ := mwLoop_copied begun
  rw [memcpyMw, first, Option.bind_some, loops, Option.bind_some, mwLast, ← copied.finish]
  split_ifs with more
  · have inside : 0 + t.remaining ≤ MRAM_CACHE_SIZE := by omega
    rw [memcpyTo, if_pos inside, Option.map_some, blit_block inside, copied.low more, Nat.add_zero]
  · rw [not_not.mp more, blit_zero]

end Mw

section Wm
variable {mram original : Bytes} {dest src len : Nat} {s : Progress}

/-- What is copied from a block that has been read. -/
theorem blit_mramRead {memory cache target : Bytes} {addr off place count : Nat}
    (inside : off + count ≤ MRAM_CACHE_SIZE) :
    blit (mramRead memory addr cache) off target place count = blit memory (dmaLow addr + off) target place count :=
  blit_congr (fun k small => by
    have here := blit_inside memory cache (dmaLow addr) 0 (show off + k < MRAM_CACHE_SIZE by omega)
    rw [Nat.zero_add] at here
    rw [mramRead, here, Nat.add_assoc]) fun _ _ => rfl

theorem wmFirst_copied (mram wram cache : Bytes) (dest src len : Nat) :
    ∃ s, wmFirst mram dest src len wram cache = some s ∧ s.Copied mram wram dest src len src := by
  have whole := dmaLow_add_dmaOff src
  have small : dmaOff src < MRAM_CACHE_SIZE := Nat.mod_lt _ (by decide)
  have inside : dmaOff src + min len (MRAM_CACHE_SIZE - dmaOff src) ≤ MRAM_CACHE_SIZE := by omega
  simp only [wmFirst]
  rw [memcpyFrom, if_pos inside]
  refine ⟨_, rfl, ?_, by simp only; omega, fun more => ?_⟩
  · simp only
    rw [blit_mramRead inside, whole]
  · unfold dmaOff MRAM_CACHE_SIZE at *
    simp only at *
    omega

theorem wmLoop_copied (copied : s.Copied mram original dest src len src) :
    ∃ t, wmLoop mram dest src s = some t ∧ t.Copied mram original dest src len src ∧
      t.remaining < MRAM_CACHE_SIZE := by
  induction left : s.remaining using Nat.strong_induction_on generalizing s with
  | h left' ih =>
    subst left
    rw [wmLoop]
    split_ifs with more same
    · have nonzero : s.remaining ≠ 0 := by unfold MRAM_CACHE_SIZE at more; omega
      have next := copied.turn more s.cache
      have aligned := copied.aligned nonzero
      have low : dmaLow (dest + s.idx) = dest + s.idx := by
        unfold dmaOff dmaLow at *
        omega
      rw [low, copied.low nonzero]
      exact ih _ (by unfold MRAM_CACHE_SIZE at *; simp only; omega) next rfl
    · have nonzero : s.remaining ≠ 0 := by unfold MRAM_CACHE_SIZE at more; omega
      have next := copied.turn more (mramRead mram (src + s.idx) s.cache)
      have inside : 0 + MRAM_CACHE_SIZE ≤ MRAM_CACHE_SIZE := (Nat.zero_add _).le
      simp only
      rw [memcpyFrom, if_pos inside]
      simp only
      rw [blit_mramRead inside, copied.low nonzero]
      exact ih _ (by unfold MRAM_CACHE_SIZE at *; simp only; omega) next rfl
    · exact ⟨s, rfl, copied, not_le.mp more⟩

theorem memcpyWm_eq (mram wram cache : Bytes) (dest src len : Nat) :
    memcpyWm mram wram cache dest src len = some (blit mram src wram dest len) := by
  obtain ⟨s, first, begun⟩ := wmFirst_copied mram wram cache dest src len
  obtain ⟨t, loops, copied, small⟩ := wmLoop_copied begun
  rw [memcpyWm, first, Option.bind_some, loops, Option.bind_some, wmLast, ← copied.finish]
  split_ifs with more
  · have inside : 0 + t.remaining ≤ MRAM_CACHE_SIZE := by omega
    rw [memcpyFrom, if_pos inside, blit_mramRead inside, copied.low more, Nat.add_zero]
  · rw [not_not.mp more, blit_zero]

end Wm

section Mm
variable {original mram cache srcCache destCache : Bytes} {dest src len off count addr start c : Nat} {s : Copying}

/-- What a block is once its cache has been filled: some bytes of the source, the others as they were. -/
theorem mramWrite_eq {source : Bytes} (inside : off + count ≤ MRAM_CACHE_SIZE)
    (copied : ∀ k, off ≤ k → k < off + count → cache k = source (start + (k - off)))
    (kept : ∀ k < MRAM_CACHE_SIZE, ¬ (off ≤ k ∧ k < off + count) → cache k = mram (dmaLow addr + k)) :
    mramWrite cache mram addr = blit source start mram (dmaLow addr + off) count := by
  funext a
  rw [mramWrite, blit, blit]
  split_ifs with block here here
  · rw [Nat.zero_add, copied _ (by omega) (by omega)]
    congr 1
    omega
  · rw [Nat.zero_add, kept _ (by omega) (by omega)]
    congr 1
    omega
  · omega
  · rfl

/-- The bytes still to be copied are the original ones when none of them has been written over. -/
theorem unread (apart : dest ≤ src ∨ src + len ≤ dest) {d k : Nat} (later : d ≤ k) (inside : k < len) :
    blit original src original dest d (src + k) = original (src + k) :=
  blit_outside _ _ _ (by omega)

/-- Between two blocks `__memcpy_mm` has copied `c` bytes, and the cache of the source holds what the memory held
at some time before. -/
structure Copying.Between (original : Bytes) (dest src len c : Nat) (s : Copying) : Prop where
  mram : s.mram = blit original src original dest c
  total : c + s.remaining = len
  place : dmaLow (dest + s.destIdx) = dest + c
  srcOff : s.srcOff = dmaOff (src + c)
  offset : s.srcOff ≠ 0
  next : dmaLow (src + s.srcIdx) + s.srcOff = src + c + MRAM_CACHE_SIZE
  cached : ∃ d ≤ c, ∀ i, s.srcOff ≤ i → i < MRAM_CACHE_SIZE →
    s.srcCache i = blit original src original dest d (src + c + (i - s.srcOff))

/-- What `mram_read` puts into a cache. -/
theorem mramRead_apply {i : Nat} (inside : i < MRAM_CACHE_SIZE) :
    mramRead mram addr cache i = mram (dmaLow addr + i) := by
  have here := blit_inside mram cache (dmaLow addr) 0 inside
  rwa [Nat.zero_add] at here

theorem memcpyCaches_eq {srcOff destOff : Nat} (inside : destOff + count ≤ MRAM_CACHE_SIZE)
    (within : srcOff + count ≤ MRAM_CACHE_SIZE) :
    memcpyCaches srcCache srcOff destCache destOff count = some (blit srcCache srcOff destCache destOff count) :=
  if_pos ⟨inside, within⟩

section Between
variable (apart : dest ≤ src ∨ src + len ≤ dest) (between : s.Between original dest src len c)
include between

theorem Copying.Between.small : s.srcOff < MRAM_CACHE_SIZE :=
  between.srcOff ▸ Nat.mod_lt _ (by decide)

include apart

/-- The rest of the cache is what comes next. -/
theorem Copying.Between.head {i : Nat} (here : s.srcOff ≤ i) (inside : i < MRAM_CACHE_SIZE)
    (within : c + (i - s.srcOff) < len) : s.srcCache i = original (src + c + (i - s.srcOff)) := by
  obtain ⟨d, early, cached⟩ := between.cached
  rw [cached i here inside, Nat.add_assoc]
  exact unread apart (by omega) within

/-- The block read next comes after it. -/
theorem Copying.Between.after {i : Nat} (cache : Bytes) (inside : i < MRAM_CACHE_SIZE)
    (within : c + (MRAM_CACHE_SIZE - s.srcOff + i) < len) :
    mramRead s.mram (src + s.srcIdx) cache i = original (src + c + (MRAM_CACHE_SIZE - s.srcOff + i)) := by
  have small := between.small
  have next := between.next
  rw [mramRead_apply inside, between.mram,
    show dmaLow (src + s.srcIdx) + i = src + (c + (MRAM_CACHE_SIZE - s.srcOff + i)) by omega,
    show src + c + (MRAM_CACHE_SIZE - s.srcOff + i) = src + (c + (MRAM_CACHE_SIZE - s.srcOff + i)) by omega]
  exact unread apart (by omega) within

/-- What the cache of the destination holds once it has been filled from both. -/
theorem Copying.Between.filled {k m : Nat} (cache : Bytes) (few : m ≤ s.srcOff)
    (inside : k < MRAM_CACHE_SIZE - s.srcOff + m) (within : c + k < len) :
    blit (mramRead s.mram (src + s.srcIdx) cache) 0
      (blit s.srcCache s.srcOff destCache 0 (MRAM_CACHE_SIZE - s.srcOff))
      (MRAM_CACHE_SIZE - s.srcOff) m k = original (src + c + k) := by
  have small := between.small
  rw [blit]
  split_ifs with second
  · rw [Nat.zero_add, between.after apart cache (by omega) (by omega)]
    congr 1
    omega
  · rw [blit, if_pos (by omega), between.head apart (by omega) (by omega) (by omega)]
    congr 1
    omega

end Between

/-- A turn of the loop copies a block more. -/
theorem mmLoop_between (apart : dest ≤ src ∨ src + len ≤ dest) (between : s.Between original dest src len c) :
    ∃ t d, mmLoop dest src s = some t ∧ t.Between original dest src len d ∧ t.remaining < MRAM_CACHE_SIZE := by
  induction left : s.remaining using Nat.strong_induction_on generalizing s c with
  | h left' ih =>
    subst left
    have small := between.small
    rw [mmLoop]
    split_ifs with more
    · simp only
      rw [memcpyCaches_eq (by omega) (by omega)]
      simp only
      rw [memcpyCaches_eq (by omega) (by omega)]
      simp only
      have total := between.total
      have place := between.place
      have next := between.next
      have written : mramWrite (blit (mramRead s.mram (src + s.srcIdx) s.srcCache) 0
          (blit s.srcCache s.srcOff s.destCache 0 (MRAM_CACHE_SIZE - s.srcOff))
            (MRAM_CACHE_SIZE - s.srcOff) s.srcOff)
          s.mram (dest + s.destIdx) = blit original src original dest (c + MRAM_CACHE_SIZE) := by
        calc _ = blit original (src + c) s.mram (dmaLow (dest + s.destIdx) + 0) MRAM_CACHE_SIZE :=
              mramWrite_eq (Nat.zero_add _).le
                (fun k _ inside => between.filled apart _ le_rfl (by omega) (by omega))
                  (fun k inside outside => by omega)
          _ = _ := by rw [between.mram, place, Nat.add_zero, blit_append]
      refine ih _ (by unfold MRAM_CACHE_SIZE at *; simp only; omega) (c := c + MRAM_CACHE_SIZE)
        ⟨written, ?_, ?_, ?_, between.offset, ?_, c, ?_, ?_⟩ rfl
      · simp only
        omega
      · unfold dmaLow MRAM_CACHE_SIZE at *
        simp only
        omega
      · have offset := between.srcOff
        unfold dmaOff MRAM_CACHE_SIZE at *
        simp only
        omega
      · unfold dmaLow MRAM_CACHE_SIZE at *
        simp only
        omega
      · omega
      · intro i here inside
        simp only at here ⊢
        rw [mramRead_apply inside, between.mram]
        congr 1
        omega
    · exact ⟨s, c, rfl, between, not_le.mp more⟩

/-- What `__memcpy_mm` has before its first block. -/
def Copying.initially (mram srcCache destCache : Bytes) (src len : Nat) : Copying :=
  ⟨mram, mramRead mram src srcCache, destCache, dmaOff src, MRAM_CACHE_SIZE, 0, len⟩

theorem dmaLow_add_size (addr : Nat) : dmaLow (addr + MRAM_CACHE_SIZE) = dmaLow addr + MRAM_CACHE_SIZE := by
  unfold dmaLow MRAM_CACHE_SIZE
  omega

/-- The first block fills up a block of the destination that is not aligned. -/
theorem mmFirst_between (other : dmaOff src ≠ dmaOff dest) (offset : dmaOff dest ≠ 0)
    (long : MRAM_CACHE_SIZE - dmaOff dest ≤ len) :
    ∃ t, mmFirst dest src (dmaOff dest) (.initially mram srcCache destCache src len) = some t ∧
      t.Between mram dest src len (MRAM_CACHE_SIZE - dmaOff dest) := by
  have srcWhole := dmaLow_add_dmaOff src
  have destWhole := dmaLow_add_dmaOff dest
  have srcSmall : dmaOff src < MRAM_CACHE_SIZE := Nat.mod_lt _ (by decide)
  have destSmall : dmaOff dest < MRAM_CACHE_SIZE := Nat.mod_lt _ (by decide)
  have inside : dmaOff dest + (MRAM_CACHE_SIZE - dmaOff dest) ≤ MRAM_CACHE_SIZE := by omega
  have place : dmaLow (dest + (0 + MRAM_CACHE_SIZE)) = dest + (MRAM_CACHE_SIZE - dmaOff dest) := by
    rw [Nat.zero_add, dmaLow_add_size]
    omega
  rw [mmFirst]
  by_cases before : dmaOff dest > (Copying.initially mram srcCache destCache src len).srcOff
  · rw [if_pos before]
    simp only [Copying.initially] at before ⊢
    rw [memcpyCaches_eq inside (by omega)]
    refine ⟨_, rfl, ?_, by simp only; omega, place, ?_, by simp only; omega, ?_, 0, Nat.zero_le _, ?_⟩
    · simp only
      rw [Nat.add_zero, blit_mramRead (by omega), blit_block inside, destWhole, srcWhole]
    · unfold dmaOff MRAM_CACHE_SIZE at *
      simp only
      omega
    · simp only
      rw [dmaLow_add_size]
      omega
    · intro i here below
      simp only at here ⊢
      rw [mramRead_apply below, blit_zero]
      congr 1
      omega
  · rw [if_neg before]
    simp only [Copying.initially] at before ⊢
    have both : dmaOff dest + (MRAM_CACHE_SIZE - dmaOff src) + (dmaOff src - dmaOff dest) = MRAM_CACHE_SIZE := by
      omega
    have filled : blit (mramRead mram (src + MRAM_CACHE_SIZE) (mramRead mram src srcCache)) 0
        (blit (mramRead mram src srcCache) (dmaOff src) (mramRead mram dest destCache) (dmaOff dest)
          (MRAM_CACHE_SIZE - dmaOff src)) (dmaOff dest + (MRAM_CACHE_SIZE - dmaOff src))
            (dmaOff src - dmaOff dest) =
        blit mram src (mramRead mram dest destCache) (dmaOff dest) (MRAM_CACHE_SIZE - dmaOff dest) := by
      rw [blit_mramRead (by omega), blit_mramRead (by omega), srcWhole, dmaLow_add_size,
        show dmaLow src + MRAM_CACHE_SIZE + 0 = src + (MRAM_CACHE_SIZE - dmaOff src) by omega, blit_append]
      congr 1
      omega
    rw [memcpyCaches_eq (by omega) (by omega), Option.bind_some, memcpyCaches_eq (by omega) (by omega), filled]
    refine ⟨_, rfl, ?_, by simp only; omega, place, ?_, by simp only; omega, ?_, 0, Nat.zero_le _, ?_⟩
    · simp only
      rw [Nat.add_zero, blit_block inside, destWhole]
    · unfold dmaOff MRAM_CACHE_SIZE at *
      simp only
      omega
    · simp only
      rw [← Nat.add_assoc, dmaLow_add_size, dmaLow_add_size]
      omega
    · intro i here below
      simp only at here ⊢
      rw [mramRead_apply below, blit_zero, dmaLow_add_size]
      congr 1
      omega

/-- Nothing has to be filled up when the destination is aligned. -/
theorem Copying.initially_between (other : dmaOff src ≠ dmaOff dest) (aligned : dmaOff dest = 0) :
    (Copying.initially mram srcCache destCache src len).Between mram dest src len 0 := by
  have srcWhole := dmaLow_add_dmaOff src
  have destWhole := dmaLow_add_dmaOff dest
  refine ⟨(blit_zero ..).symm, Nat.zero_add len, ?_, rfl, aligned ▸ other, ?_, 0, le_rfl, ?_⟩
  · simp only [Copying.initially, Nat.add_zero]
    omega
  · simp only [Copying.initially, dmaLow_add_size]
    omega
  · intro i here below
    simp only [Copying.initially] at here ⊢
    rw [mramRead_apply below, blit_zero]
    congr 1
    omega

/-- The last block: what it takes from the cache must be left to copy. -/
theorem mmLast_eq (apart : dest ≤ src ∨ src + len ≤ dest) (between : s.Between original dest src len c)
    (small : s.remaining < MRAM_CACHE_SIZE) (enough : s.remaining = 0 ∨ MRAM_CACHE_SIZE - s.srcOff ≤ s.remaining) :
    mmLast dest src s = some (blit original src original dest len) := by
  have total := between.total
  have low := between.small
  rw [mmLast]
  split_ifs with more
  · have inside : 0 + s.remaining ≤ MRAM_CACHE_SIZE := by omega
    have written (filled : Bytes) (copied : ∀ k < s.remaining, filled k = original (src + c + k))
        (kept : ∀ k, s.remaining ≤ k → filled k = mramRead s.mram (dest + s.destIdx) s.destCache k) :
        mramWrite filled s.mram (dest + s.destIdx) = blit original src original dest len := by
      calc _ = blit original (src + c) s.mram (dmaLow (dest + s.destIdx) + 0) s.remaining :=
            mramWrite_eq inside (fun k _ below => copied k (by omega)) fun k below outside =>
              (kept k (by omega)).trans (mramRead_apply below)
        _ = _ := by rw [between.mram, between.place, Nat.add_zero, blit_append, total]
    simp only
    rw [memcpyCaches_eq (by omega) (by omega), Option.bind_some]
    split_ifs with further
    · rw [memcpyCaches_eq (by omega) (by omega), Option.map_some]
      refine congrArg some (written _ (fun k below => between.filled apart _ (by omega) (by omega) (by omega)) ?_)
      intro k above
      rw [blit_outside _ _ _ (by omega), blit_outside _ _ _ (by omega)]
    · have whole : s.remaining = MRAM_CACHE_SIZE - s.srcOff := by omega
      refine congrArg some (written _ (fun k below => ?_) fun k above => blit_outside _ _ _ (by omega))
      have here :=
        blit_inside s.srcCache (mramRead s.mram (dest + s.destIdx) s.destCache) s.srcOff 0 (whole ▸ below)
      rw [Nat.zero_add] at here
      rw [here, between.head apart (by omega) (by omega) (by omega), Nat.add_sub_cancel_left]
  · rw [between.mram]
    congr 2
    omega

section Same
variable {s : Progress} (apart : dest ≤ src ∨ src + len ≤ dest) (same : dmaOff src = dmaOff dest)
include apart

/-- Copying from the memory that is copied to is copying the original bytes. -/
theorem Progress.Copied.unread (copied : s.Copied original original dest src len dest) (target : Bytes)
    (place : Nat)
    {few : Nat} (inside : s.idx + few ≤ len) :
    blit s.memory (src + s.idx) target place few = blit original (src + s.idx) target place few :=
  blit_congr (fun k below => by
    rw [copied.memory, Nat.add_assoc]
    exact MramMemcpy.unread apart (by omega) (by omega)) fun _ _ => rfl

include same

omit apart in
theorem mmSameFirst_copied (mram srcCache destCache : Bytes) :
    ∃ s, mmSameFirst dest src len mram srcCache destCache = some s ∧ s.Copied mram mram dest src len dest := by
  have srcWhole := dmaLow_add_dmaOff src
  have destWhole := dmaLow_add_dmaOff dest
  have small : dmaOff dest < MRAM_CACHE_SIZE := Nat.mod_lt _ (by decide)
  rw [mmSameFirst]
  split_ifs with offset
  · have inside : dmaOff dest + min len (MRAM_CACHE_SIZE - dmaOff src) ≤ MRAM_CACHE_SIZE := by omega
    simp only
    rw [memcpyCaches_eq inside (by omega)]
    refine ⟨_, rfl, ?_, by simp only; omega, fun more => ?_⟩
    · simp only
      rw [blit_mramRead (by omega), blit_block inside, srcWhole, destWhole]
    · unfold dmaOff MRAM_CACHE_SIZE at *
      simp only at *
      omega
  · exact ⟨_, rfl, (blit_zero ..).symm, by simp only; omega, fun _ => by simpa using offset⟩

theorem mmSameLoop_copied (cache : Bytes) (copied : s.Copied original original dest src len dest) :
    (mmSameLoop dest src cache s).Copied original original dest src len dest ∧
      (mmSameLoop dest src cache s).remaining < MRAM_CACHE_SIZE := by
  induction left : s.remaining using Nat.strong_induction_on generalizing s cache with
  | h left' ih =>
    subst left
    rw [mmSameLoop]
    split_ifs with more
    · have nonzero : s.remaining ≠ 0 := by unfold MRAM_CACHE_SIZE at more; omega
      have total := copied.total
      have aligned := copied.aligned nonzero
      have low : dmaLow (src + s.idx) = src + s.idx := by
        unfold dmaOff dmaLow at *
        omega
      have next := copied.turn more s.cache
      rw [← copied.unread apart _ _ (by omega)] at next
      refine ih _ (by unfold MRAM_CACHE_SIZE at *; simp only; omega) _ ?_ rfl
      rwa [mramRead, mramWrite_blit, low, copied.low nonzero]
    · exact ⟨copied, not_le.mp more⟩

theorem memcpyMm_same (mram srcCache destCache : Bytes) :
    memcpyMm mram srcCache destCache dest src len = some (blit mram src mram dest len) := by
  obtain ⟨s, first, begun⟩ := mmSameFirst_copied same mram srcCache destCache
  obtain ⟨copied, small⟩ := mmSameLoop_copied apart same srcCache begun
  simp only [memcpyMm]
  rw [if_pos same, first, Option.bind_some, mmSameLast, ← copied.finish]
  split_ifs with more
  · have inside : 0 + (mmSameLoop dest src srcCache s).remaining ≤ MRAM_CACHE_SIZE := by omega
    have total := copied.total
    have aligned := copied.aligned more
    have low : dmaLow (src + (mmSameLoop dest src srcCache s).idx) = src +
        (mmSameLoop dest src srcCache s).idx := by
      unfold dmaOff dmaLow at *
      omega
    rw [memcpyCaches_eq inside inside, Option.map_some, blit_mramRead inside, blit_block inside, low,
      copied.low more,
      Nat.add_zero, Nat.add_zero, copied.unread apart _ _ (by omega)]
  · rw [not_not.mp more, blit_zero]

end Same

/-- When `__memcpy_mm` is right: the offsets are the same, or all lies within one block
of each memory, or more than a block is there and the last one takes what is left in
the cache. -/
def mmFits (dest src len : Nat) : Prop :=
  dmaOff src = dmaOff dest ∨ len ≤ MRAM_CACHE_SIZE - max (dmaOff dest) (dmaOff src) ∨
    MRAM_CACHE_SIZE - min (dmaOff dest) (dmaOff src) < len ∧
      (dmaOff (dest + len) = 0 ∨ MRAM_CACHE_SIZE ≤ dmaOff (src + MRAM_CACHE_SIZE - dmaOff dest) +
        dmaOff (dest + len))

/-- What is between two blocks when the first one is done. -/
theorem memcpyMm_begun (other : dmaOff src ≠ dmaOff dest)
    (long : MRAM_CACHE_SIZE - min (dmaOff dest) (dmaOff src) < len)
    (mram srcCache destCache : Bytes) : ∃ t c,
      (if dmaOff dest ≠ 0 then mmFirst dest src (dmaOff dest) (.initially mram srcCache destCache src len)
        else some (.initially mram srcCache destCache src len)) = some t ∧ t.Between mram dest src len c := by
  have destSmall : dmaOff dest < MRAM_CACHE_SIZE := Nat.mod_lt _ (by decide)
  split_ifs with offset
  · have enough : MRAM_CACHE_SIZE - dmaOff dest ≤ len := by omega
    obtain ⟨t, first, between⟩ := mmFirst_between other offset enough
    exact ⟨t, _, first, between⟩
  · exact ⟨_, 0, rfl, Copying.initially_between other (not_not.mp offset)⟩

theorem memcpyMm_eq (apart : dest ≤ src ∨ src + len ≤ dest) (fits : mmFits dest src len)
    (mram srcCache destCache : Bytes) :
    memcpyMm mram srcCache destCache dest src len = some (blit mram src mram dest len) := by
  by_cases same : dmaOff src = dmaOff dest
  · exact memcpyMm_same apart same mram srcCache destCache
  have srcWhole := dmaLow_add_dmaOff src
  have destWhole := dmaLow_add_dmaOff dest
  have srcSmall : dmaOff src < MRAM_CACHE_SIZE := Nat.mod_lt _ (by decide)
  have destSmall : dmaOff dest < MRAM_CACHE_SIZE := Nat.mod_lt _ (by decide)
  simp only [memcpyMm]
  rw [if_neg same]
  rcases fits.resolve_left same with short | ⟨long, last⟩
  · rw [if_pos (by omega), memcpyCaches_eq (by omega) (by omega), Option.map_some, blit_mramRead (by omega),
      blit_block (by omega), srcWhole, destWhole]
  · obtain ⟨s, c, first, begun⟩ := memcpyMm_begun same long mram srcCache destCache
    obtain ⟨t, d, loops, between, small⟩ := mmLoop_between apart begun
    rw [if_neg (by omega)]
    simp only [Copying.initially] at first
    rw [first, Option.bind_some, loops, Option.bind_some]
    refine mmLast_eq apart between small ?_
    have total := between.total
    have place := between.place
    have srcOff := between.srcOff
    unfold dmaOff dmaLow MRAM_CACHE_SIZE at *
    omega

end Mm

section Wrong
variable {srcCache destCache : Bytes} {dest src len : Nat} {s : Copying}

/-- A memory that holds 1 everywhere but in one cell. -/
def allBut (a : Nat) : Bytes := fun b => if b = a then 0 else 1

theorem mmLast_wrong {c : Nat} (other : src ≠ dest)
    (between : s.Between (allBut (dest + len)) dest src len c) (more : s.remaining ≠ 0)
    (short : s.remaining < MRAM_CACHE_SIZE - s.srcOff) :
    mmLast dest src s ≠ some (blit (allBut (dest + len)) src (allBut (dest + len)) dest len) := by
  have total := between.total
  have low := between.small
  have place := between.place
  obtain ⟨e, early, cached⟩ := between.cached
  rw [mmLast, if_pos more]
  simp only
  rw [memcpyCaches_eq (by omega) (by omega), Option.bind_some, if_neg (by omega), Option.map_some]
  intro equal
  have here := congrFun (Option.some.inj equal) (dest + len)
  rw [blit_outside _ _ (allBut (dest + len)) (by omega), mramWrite, blit, if_pos (by omega), blit,
    if_pos (by omega),
    cached _ (by omega) (by omega), blit] at here
  split_ifs at here with moved
  · rw [allBut, allBut, if_neg (by omega), if_pos rfl] at here
    cases here
  · rw [allBut, allBut, if_neg (by omega), if_pos rfl] at here
    cases here

theorem memcpyMm_wrong (srcCache destCache : Bytes) (apart : dest ≤ src ∨ src + len ≤ dest)
    (wrong : ¬ mmFits dest src len) :
    ∃ mram, memcpyMm mram srcCache destCache dest src len ≠ some (blit mram src mram dest len) := by
  have srcSmall : dmaOff src < MRAM_CACHE_SIZE := Nat.mod_lt _ (by decide)
  have destSmall : dmaOff dest < MRAM_CACHE_SIZE := Nat.mod_lt _ (by decide)
  simp only [mmFits, not_or, not_and] at wrong
  obtain ⟨same, short, last⟩ := wrong
  simp only [memcpyMm]
  by_cases long : MRAM_CACHE_SIZE - min (dmaOff dest) (dmaOff src) < len
  · obtain ⟨aligned, few⟩ := last long
    obtain ⟨s, c, first, begun⟩ := memcpyMm_begun same long (allBut (dest + len)) srcCache destCache
    obtain ⟨t, d, loops, between, small⟩ := mmLoop_between apart begun
    have total := between.total
    have place := between.place
    have srcOff := between.srcOff
    refine ⟨allBut (dest + len), ?_⟩
    rw [if_neg same, if_neg (by omega)]
    simp only [Copying.initially] at first
    rw [first, Option.bind_some, loops, Option.bind_some]
    refine mmLast_wrong (fun equal => same (by rw [equal])) between ?_ ?_ <;>
      unfold dmaOff dmaLow MRAM_CACHE_SIZE at * <;> omega
  · refine ⟨allBut 0, ?_⟩
    rw [if_neg same, if_pos (by omega), memcpyCaches, if_neg (by omega)]
    exact Option.some_ne_none _ ∘ Eq.symm

end Wrong

end Upmem.MramMemcpy
