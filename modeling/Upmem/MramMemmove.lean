import Upmem.MramMemcpy

namespace Upmem.MramMemcpy
open Blit

/-- `a - b` of unsigned words. -/
def minus (a b : Nat) : Nat := (a + 2 ^ 32 - b) % 2 ^ 32

/-- The first block of `__memmove_mm` when the offsets are the same. -/
def mvSameFirst (dstOff : Nat) (s : Copying) : Option Copying :=
  let part := min s.remaining s.srcOff
  let off := s.srcOff - part
  let begun :=
    if dstOff ≠ 0 then
      let srcIdx := minus s.srcIdx s.srcOff
      let dstIdx := minus s.destIdx dstOff
      let srcCache := mramRead s.mram srcIdx s.srcCache
      (memcpyCaches srcCache off (mramRead s.mram dstIdx s.destCache) off part).map fun destCache =>
        { s with
          mram := mramWrite destCache s.mram dstIdx
          srcCache := srcCache
          destCache := destCache
          srcIdx := srcIdx
          destIdx := dstIdx
          remaining := minus s.remaining part }
    else some s
  begun.map fun s =>
    { s with srcIdx := minus s.srcIdx MRAM_CACHE_SIZE, destIdx := minus s.destIdx MRAM_CACHE_SIZE }

/-- The loop of `__memmove_mm` when the offsets are the same. -/
def mvSameLoop (s : Copying) : Copying :=
  if MRAM_CACHE_SIZE ≤ s.remaining then
    let srcCache := mramRead s.mram s.srcIdx s.srcCache
    mvSameLoop
      { s with
        mram := mramWrite srcCache s.mram s.destIdx
        srcCache := srcCache
        remaining := s.remaining - MRAM_CACHE_SIZE
        srcIdx := minus s.srcIdx MRAM_CACHE_SIZE
        destIdx := minus s.destIdx MRAM_CACHE_SIZE }
  else s
termination_by s.remaining
decreasing_by simp only [MRAM_CACHE_SIZE] at *; omega

/-- The last block of `__memmove_mm` when the offsets are the same. -/
def mvSameLast (s : Copying) : Option Bytes :=
  if s.remaining ≠ 0 then
    let off := MRAM_CACHE_SIZE - s.remaining
    (memcpyCaches (mramRead s.mram s.srcIdx s.srcCache) off (mramRead s.mram s.destIdx s.destCache) off
      s.remaining).map fun destCache => mramWrite destCache s.mram s.destIdx
  else some s.mram

/-- The first block of `__memmove_mm` when the offsets differ and that of the destination is not 0. -/
def mvFirst (dstOff : Nat) (s : Copying) : Option Copying :=
  let destCache := mramRead s.mram s.destIdx s.destCache
  let filled :=
    if s.srcOff > dstOff then
      let part := MRAM_CACHE_SIZE - (MRAM_CACHE_SIZE - dstOff)
      (memcpyCaches s.srcCache (s.srcOff - part) destCache 0 part).map fun destCache =>
        { s with destCache := destCache, srcOff := s.srcOff - part }
    else
      let part := MRAM_CACHE_SIZE - (MRAM_CACHE_SIZE - s.srcOff)
      let srcCache := mramRead s.mram s.srcIdx s.srcCache
      let part2 := dstOff - part
      ((memcpyCaches s.srcCache 0 destCache (dstOff - part) part).bind fun destCache =>
        memcpyCaches srcCache (MRAM_CACHE_SIZE - part2) destCache 0 part2).map fun destCache =>
          { s with
            srcCache := srcCache
            destCache := destCache
            srcIdx := minus s.srcIdx MRAM_CACHE_SIZE
            srcOff := MRAM_CACHE_SIZE - part2 }
  filled.map fun s =>
    { s with
      mram := mramWrite s.destCache s.mram s.destIdx
      destIdx := minus s.destIdx MRAM_CACHE_SIZE
      remaining := minus s.remaining (MRAM_CACHE_SIZE - (MRAM_CACHE_SIZE - dstOff)) }

/-- The loop of `__memmove_mm` when the offsets differ. -/
def mvLoop (s : Copying) : Option Copying :=
  if MRAM_CACHE_SIZE ≤ s.remaining then
    let part := MRAM_CACHE_SIZE - (MRAM_CACHE_SIZE - s.srcOff)
    match memcpyCaches s.srcCache 0 s.destCache (MRAM_CACHE_SIZE - part) part with
    | none => none
    | some destCache =>
      let srcCache := mramRead s.mram s.srcIdx s.srcCache
      let part2 := MRAM_CACHE_SIZE - part
      match memcpyCaches srcCache (MRAM_CACHE_SIZE - part2) destCache 0 part2 with
      | none => none
      | some destCache =>
        mvLoop
          { s with
            mram := mramWrite destCache s.mram s.destIdx
            srcCache := srcCache
            destCache := destCache
            srcIdx := minus s.srcIdx MRAM_CACHE_SIZE
            destIdx := minus s.destIdx MRAM_CACHE_SIZE
            remaining := s.remaining - MRAM_CACHE_SIZE }
  else some s
termination_by s.remaining
decreasing_by simp only [MRAM_CACHE_SIZE] at *; omega

/-- The last block of `__memmove_mm` when the offsets differ. -/
def mvLast (s : Copying) : Option Bytes :=
  if s.remaining ≠ 0 then
    let part := MRAM_CACHE_SIZE - (MRAM_CACHE_SIZE - s.srcOff)
    let filled :=
      (memcpyCaches s.srcCache 0 (mramRead s.mram s.destIdx s.destCache) (MRAM_CACHE_SIZE - part) part).bind
        fun destCache =>
        if s.remaining > part then
          let part2 := s.remaining - part
          memcpyCaches (mramRead s.mram s.srcIdx s.srcCache) (MRAM_CACHE_SIZE - part2) destCache
            (MRAM_CACHE_SIZE - s.remaining) part2
        else some destCache
    filled.map fun destCache => mramWrite destCache s.mram s.destIdx
  else some s.mram

/-- `__memmove_mm`: the MRAM after it, or none if it has left its caches. -/
def memmoveMm (mram srcCache destCache : Bytes) (dest src len : Nat) : Option Bytes :=
  if dest ≤ src ∨ dest ≥ src + len then memcpyMm mram srcCache destCache dest src len
  else
    let srcOff := dmaOff (src + len)
    let dstOff := dmaOff (dest + len)
    if srcOff = dstOff then
      (mvSameFirst dstOff ⟨mram, srcCache, destCache, srcOff, src + len, dest + len, len⟩).bind fun s =>
        mvSameLast (mvSameLoop s)
    else
      let initLen := min len (min dstOff srcOff)
      if initLen = len then
        (memcpyCaches (mramRead mram src srcCache) (srcOff - len) (mramRead mram dest destCache) (dstOff - len)
          len).map fun destCache => mramWrite destCache mram dest
      else
        let s : Copying :=
          ⟨mram, mramRead mram (src + len) srcCache, destCache, srcOff,
            minus (src + len) MRAM_CACHE_SIZE, dest + len,
            len⟩
        let begun := if dstOff ≠ 0 then mvFirst dstOff s else some s
        (begun.bind mvLoop).bind mvLast

section Mv
variable {original mram srcCache destCache : Bytes} {dest src len r : Nat} {s : Copying}

theorem minus_eq {a b : Nat} (less : b ≤ a) (bound : a < 2 ^ 32) : minus a b = a - b := by
  unfold minus
  omega

/-- Below what has been copied the source is as it was, since it begins below the destination. -/
theorem unmoved (behind : src < dest) {d k : Nat} (earlier : k < d) :
    blit original (src + d) original (dest + d) (len - d) (src + k) = original (src + k) :=
  blit_outside _ _ _ (by omega)

/-- A stretch in front of what has been copied. -/
theorem moved_prepend (original : Bytes) (dest src : Nat) {k d : Nat} (inside : k + d ≤ len) :
    blit original (src + k) (blit original (src + (k + d)) original (dest + (k + d)) (len - (k + d))) (dest + k) d =
      blit original (src + k) original (dest + k) (len - k) := by
  rw [← Nat.add_assoc, ← Nat.add_assoc, blit_prepend]
  congr 1
  omega

/-- `__memmove_mm` with the same offsets has `r` bytes left. -/
structure Copying.Left (original : Bytes) (dest src len r : Nat) (s : Copying) : Prop where
  mram : s.mram = blit original (src + r) original (dest + r) (len - r)
  remaining : s.remaining = r
  within : r ≤ len
  aligned : r ≠ 0 → dmaOff (src + r) = 0 ∧ dmaOff (dest + r) = 0
  srcIdx : r ≠ 0 → s.srcIdx + MRAM_CACHE_SIZE = src + r
  destIdx : r ≠ 0 → s.destIdx + MRAM_CACHE_SIZE = dest + r

section Same
variable (behind : src < dest) (bound : dest + len < 2 ^ 32)
include behind bound

theorem mvSameFirst_left (same : dmaOff (src + len) = dmaOff (dest + len)) :
    ∃ t r, mvSameFirst (dmaOff (dest + len))
      ⟨mram, srcCache, destCache, dmaOff (src + len), src + len, dest + len, len⟩ = some t ∧
        t.Left mram dest src len r := by
  have srcWhole := dmaLow_add_dmaOff (src + len)
  have destWhole := dmaLow_add_dmaOff (dest + len)
  have small : dmaOff (dest + len) < MRAM_CACHE_SIZE := Nat.mod_lt _ (by decide)
  rw [mvSameFirst]
  split_ifs with offset
  · have inside :
        dmaOff (src + len) - min len (dmaOff (src + len)) + min len (dmaOff (src + len)) ≤ MRAM_CACHE_SIZE := by
      omega
    have srcStart : minus (src + len) (dmaOff (src + len)) = src + len - dmaOff (src + len) :=
      minus_eq (by omega) (by omega)
    have destStart : minus (dest + len) (dmaOff (dest + len)) = dest + len - dmaOff (dest + len) :=
      minus_eq (by omega) (by omega)
    have srcBlock : dmaLow (src + len - dmaOff (src + len)) = dmaLow (src + len) := by
      unfold dmaOff dmaLow
      omega
    have destBlock : dmaLow (dest + len - dmaOff (dest + len)) = dmaLow (dest + len) := by
      unfold dmaOff dmaLow
      omega
    simp only [srcStart, destStart]
    rw [memcpyCaches_eq inside inside]
    refine ⟨_, len - min len (dmaOff (src + len)), rfl, ?_, ?_, Nat.sub_le _ _, ?_, ?_, ?_⟩
    · simp only
      rw [blit_mramRead inside, blit_block inside, srcBlock, destBlock]
      congr 1 <;> omega
    · exact minus_eq (by omega) (by omega)
    · intro more
      unfold dmaOff MRAM_CACHE_SIZE at *
      omega
    · intro more
      simp only
      rw [minus_eq] <;> unfold dmaOff MRAM_CACHE_SIZE at * <;> omega
    · intro more
      simp only
      rw [minus_eq] <;> unfold dmaOff MRAM_CACHE_SIZE at * <;> omega
  · have aligned := not_not.mp offset
    refine ⟨_, len, rfl, ?_, rfl, le_rfl, fun more => ⟨same.trans aligned, aligned⟩, fun more => ?_, fun more => ?_⟩
    · simp only
      rw [Nat.sub_self, blit_zero]
    · simp only
      rw [minus_eq] <;> unfold dmaOff MRAM_CACHE_SIZE at * <;> omega
    · simp only
      rw [minus_eq] <;> unfold dmaOff MRAM_CACHE_SIZE at * <;> omega

omit bound in
/-- Copying a stretch from the memory that is copied to is copying the original bytes. -/
theorem Copying.Left.unread (left : s.Left original dest src len r) {few k : Nat} (inside : k + few ≤ r)
    (target : Bytes) (place : Nat) :
    blit s.mram (src + k) target place few = blit original (src + k) target place few :=
  blit_congr (fun i below => by
    rw [left.mram, Nat.add_assoc]
    exact unmoved behind (by omega)) fun _ _ => rfl

theorem mvSameLoop_left (left : s.Left original dest src len r) :
    ∃ r, (mvSameLoop s).Left original dest src len r ∧ r < MRAM_CACHE_SIZE := by
  induction left' : s.remaining using Nat.strong_induction_on generalizing s r with
  | h n ih =>
    subst left'
    rw [mvSameLoop]
    have remaining := left.remaining
    split_ifs with more
    · have within := left.within
      have nonzero : r ≠ 0 := by unfold MRAM_CACHE_SIZE at more; omega
      obtain ⟨srcAligned, destAligned⟩ := left.aligned nonzero
      have srcIdx := left.srcIdx nonzero
      have destIdx := left.destIdx nonzero
      refine ih _ (by unfold MRAM_CACHE_SIZE at *; simp only; omega) (r := r - MRAM_CACHE_SIZE)
        ⟨?_, ?_, ?_, ?_, ?_, ?_⟩ rfl
      · have srcLow : dmaLow s.srcIdx = src + (r - MRAM_CACHE_SIZE) := by
          unfold dmaOff dmaLow MRAM_CACHE_SIZE at *
          omega
        have destLow : dmaLow s.destIdx = dest + (r - MRAM_CACHE_SIZE) := by
          unfold dmaOff dmaLow MRAM_CACHE_SIZE at *
          omega
        have whole : r - MRAM_CACHE_SIZE + MRAM_CACHE_SIZE = r := by omega
        have earlier := moved_prepend original dest src (whole.le.trans within)
        simp only
        rw [mramRead, mramWrite_blit, srcLow, destLow, left.unread behind whole.le, left.mram, ← earlier, whole]
      · simp only
        omega
      · omega
      · intro again
        unfold dmaOff MRAM_CACHE_SIZE at *
        omega
      · intro again
        simp only
        rw [minus_eq] <;> unfold dmaOff MRAM_CACHE_SIZE at * <;> omega
      · intro again
        simp only
        rw [minus_eq] <;> unfold dmaOff MRAM_CACHE_SIZE at * <;> omega
    · exact ⟨r, left, by omega⟩

omit bound in
theorem mvSameLast_eq (left : s.Left original dest src len r) (small : r < MRAM_CACHE_SIZE) :
    mvSameLast s = some (blit original src original dest len) := by
  have remaining := left.remaining
  have whole : MRAM_CACHE_SIZE - r + r = MRAM_CACHE_SIZE := by omega
  rw [mvSameLast, remaining]
  split_ifs with more
  · have srcIdx := left.srcIdx more
    have destIdx := left.destIdx more
    obtain ⟨srcAligned, destAligned⟩ := left.aligned more
    have srcLow : dmaLow s.srcIdx + (MRAM_CACHE_SIZE - r) = src + 0 := by
      unfold dmaOff dmaLow MRAM_CACHE_SIZE at *
      omega
    have destLow : dmaLow s.destIdx + (MRAM_CACHE_SIZE - r) = dest + 0 := by
      unfold dmaOff dmaLow MRAM_CACHE_SIZE at *
      omega
    have within := left.within
    have front : 0 + r ≤ len := by omega
    have earlier := moved_prepend original dest src front
    rw [Nat.zero_add] at earlier
    simp only
    rw [memcpyCaches_eq whole.le whole.le, Option.map_some, blit_mramRead whole.le, blit_block whole.le,
      srcLow, destLow,
      left.unread behind (by omega), left.mram, earlier]
    rfl
  · rw [left.mram, not_not.mp more]
    rfl

end Same

/-- `__memmove_mm` with different offsets has `r` bytes left, and the cache of the
source holds what the memory held at some time before. -/
structure Copying.Back (original : Bytes) (dest src len r : Nat) (s : Copying) : Prop where
  mram : s.mram = blit original (src + r) original (dest + r) (len - r)
  remaining : s.remaining = r
  within : r + dmaOff (dest + len) ≤ len
  aligned : dmaOff (dest + r) = 0
  destIdx : r ≠ 0 → s.destIdx + MRAM_CACHE_SIZE = dest + r + dmaOff (dest + len)
  srcOff : s.srcOff = dmaOff (src + r)
  srcIdx : s.srcOff < r → s.srcIdx + MRAM_CACHE_SIZE = dmaLow (src + r) + dmaOff (src + len)
  cached : ∃ d, r ≤ d ∧ ∀ i < s.srcOff,
    s.srcCache i = blit original (src + d) original (dest + d) (len - d) (dmaLow (src + r) + i)

section Back
variable (behind : src < dest) (back : s.Back original dest src len r)
include back

theorem Copying.Back.small : s.srcOff < MRAM_CACHE_SIZE :=
  back.srcOff ▸ Nat.mod_lt _ (by decide)

include behind

/-- What the cache holds is what comes just before. -/
theorem Copying.Back.head {i k : Nat} (inside : i < s.srcOff) (here : dmaLow (src + r) + i = src + k)
    (earlier : k < r) :
    s.srcCache i = original (src + k) := by
  obtain ⟨d, later, cached⟩ := back.cached
  rw [cached i inside, here]
  exact unmoved behind (by omega)

/-- The block read next comes before it. -/
theorem Copying.Back.before {i k : Nat} (cache : Bytes) (more : s.srcOff < r) (inside : i < MRAM_CACHE_SIZE)
    (here : dmaLow (src + r) + i = src + k + MRAM_CACHE_SIZE) (earlier : k < r) :
    mramRead s.mram s.srcIdx cache i = original (src + k) := by
  have srcIdx := back.srcIdx more
  have srcOff := back.srcOff
  have low : dmaLow s.srcIdx + MRAM_CACHE_SIZE = dmaLow (src + r) := by
    unfold dmaOff dmaLow MRAM_CACHE_SIZE at *
    omega
  rw [mramRead_apply inside, show dmaLow s.srcIdx + i = src + k by omega, back.mram]
  exact unmoved behind earlier

/-- What the cache of the destination holds at its end once it has been filled from both. -/
theorem Copying.Back.filled {j m : Nat} (cache destCache : Bytes) (more : s.srcOff < r)
    (few : m + s.srcOff ≤ MRAM_CACHE_SIZE) (here : MRAM_CACHE_SIZE - s.srcOff - m ≤ j)
    (inside : j < MRAM_CACHE_SIZE)
    (earlier : MRAM_CACHE_SIZE ≤ r + j) :
    blit (mramRead s.mram s.srcIdx cache) (MRAM_CACHE_SIZE - m)
      (blit s.srcCache 0 destCache (MRAM_CACHE_SIZE - s.srcOff) s.srcOff) (MRAM_CACHE_SIZE - s.srcOff - m) m j =
      original (src + (r + j - MRAM_CACHE_SIZE)) := by
  have small := back.small
  have srcWhole := dmaLow_add_dmaOff (src + r)
  have srcOff := back.srcOff
  rw [blit]
  split_ifs with second
  · exact back.before behind cache more (by omega) (by omega) (by omega)
  · rw [blit, if_pos (by omega)]
    exact back.head behind (by omega) (by omega) (by omega)

omit behind in
/-- The write of a whole block in front of what has been copied. -/
theorem Copying.Back.written (nonzero : r ≠ 0) (long : MRAM_CACHE_SIZE ≤ r) {block : Bytes}
    (copied : ∀ j < MRAM_CACHE_SIZE, block j = original (src + (r - MRAM_CACHE_SIZE + j))) :
    mramWrite block s.mram s.destIdx =
      blit original (src + (r - MRAM_CACHE_SIZE)) original (dest + (r - MRAM_CACHE_SIZE))
    (len - (r - MRAM_CACHE_SIZE)) := by
  have within := back.within
  have aligned := back.aligned
  have destIdx := back.destIdx nonzero
  have whole : r - MRAM_CACHE_SIZE + MRAM_CACHE_SIZE = r := by omega
  have inside : r - MRAM_CACHE_SIZE + MRAM_CACHE_SIZE ≤ len := by omega
  have earlier := moved_prepend original dest src inside
  have low : dmaLow s.destIdx = dest + (r - MRAM_CACHE_SIZE) := by
    unfold dmaOff dmaLow MRAM_CACHE_SIZE at *
    omega
  calc _ = blit original (src + (r - MRAM_CACHE_SIZE)) s.mram (dmaLow s.destIdx + 0) MRAM_CACHE_SIZE :=
        mramWrite_eq (Nat.zero_add _).le (fun j _ below => (copied j (by omega)).trans (by congr 1; omega))
          fun j below outside => by omega
    _ = _ := by rw [low, Nat.add_zero, back.mram, ← earlier, whole]

/-- A turn of the loop copies a block more. -/
theorem mvLoop_back (bound : dest + len < 2 ^ 32) :
    ∃ t r, mvLoop s = some t ∧ t.Back original dest src len r ∧ r < MRAM_CACHE_SIZE := by
  induction left : s.remaining using Nat.strong_induction_on generalizing s r with
  | h n ih =>
    subst left
    have small := back.small
    have remaining := back.remaining
    rw [mvLoop]
    split_ifs with more
    · have within := back.within
      have aligned := back.aligned
      have nonzero : r ≠ 0 := by unfold MRAM_CACHE_SIZE at more; omega
      have destIdx := back.destIdx nonzero
      have srcIdx := back.srcIdx (by omega)
      have srcOff := back.srcOff
      have part : MRAM_CACHE_SIZE - (MRAM_CACHE_SIZE - s.srcOff) = s.srcOff := by omega
      simp only [part]
      rw [memcpyCaches_eq (by omega) (by omega)]
      simp only
      rw [memcpyCaches_eq (by omega) (by omega)]
      simp only
      refine ih (s.remaining - MRAM_CACHE_SIZE) (by unfold MRAM_CACHE_SIZE at *; omega)
        (r := r - MRAM_CACHE_SIZE) ?_ rfl
      refine ⟨?_, ?_, ?_, ?_, ?_, ?_, ?_, r, ?_, ?_⟩
      · refine back.written nonzero (by omega) fun j below => ?_
        have here :=
          back.filled (m := MRAM_CACHE_SIZE - s.srcOff) behind s.srcCache s.destCache (by omega) (by omega)
          (by omega) below (by omega)
        rw [Nat.sub_self, part] at here
        rw [here]
        congr 2
        omega
      · simp only
        omega
      · omega
      · unfold dmaOff MRAM_CACHE_SIZE at *
        omega
      · intro again
        simp only
        rw [minus_eq] <;> unfold dmaOff MRAM_CACHE_SIZE at * <;> omega
      · simp only
        unfold dmaOff MRAM_CACHE_SIZE at *
        omega
      · intro again
        simp only at again ⊢
        rw [minus_eq] <;> unfold dmaOff dmaLow MRAM_CACHE_SIZE at * <;> omega
      · omega
      · intro i below
        simp only at below ⊢
        have low : dmaLow s.srcIdx = dmaLow (src + (r - MRAM_CACHE_SIZE)) := by
          unfold dmaOff dmaLow MRAM_CACHE_SIZE at *
          omega
        rw [mramRead_apply (by omega), back.mram, low]
    · exact ⟨s, r, rfl, back, by omega⟩

/-- The last block: what it takes from the cache must be left to copy. -/
theorem mvLast_eq (small : r < MRAM_CACHE_SIZE) (enough : r = 0 ∨ s.srcOff ≤ r) :
    mvLast s = some (blit original src original dest len) := by
  have remaining := back.remaining
  have low := back.small
  have within := back.within
  have part : MRAM_CACHE_SIZE - (MRAM_CACHE_SIZE - s.srcOff) = s.srcOff := by omega
  rw [mvLast, remaining]
  split_ifs with more
  · have destIdx := back.destIdx more
    have aligned := back.aligned
    have inside : MRAM_CACHE_SIZE - r + r ≤ MRAM_CACHE_SIZE := by omega
    have front : 0 + r ≤ len := by omega
    have earlier := moved_prepend original dest src front
    have place : dmaLow s.destIdx + (MRAM_CACHE_SIZE - r) = dest := by
      unfold dmaOff dmaLow MRAM_CACHE_SIZE at *
      omega
    have srcOff := back.srcOff
    have srcWhole := dmaLow_add_dmaOff (src + r)
    have written (filled : Bytes)
        (copied : ∀ j, MRAM_CACHE_SIZE - r ≤ j → j < MRAM_CACHE_SIZE →
          filled j = original (src + (r + j - MRAM_CACHE_SIZE)))
        (kept : ∀ j < MRAM_CACHE_SIZE - r, filled j = mramRead s.mram s.destIdx s.destCache j) :
        mramWrite filled s.mram s.destIdx = blit original src original dest len := by
      calc _ = blit original src s.mram (dmaLow s.destIdx + (MRAM_CACHE_SIZE - r)) r :=
            mramWrite_eq inside (fun j here below => (copied j here (by omega)).trans (by congr 1; omega))
              fun j below outside => (kept j (by omega)).trans (mramRead_apply below)
        _ = _ := by
          rw [Nat.zero_add] at earlier
          rw [back.mram, place]
          exact earlier
    simp only [part]
    rw [memcpyCaches_eq (by omega) (by omega), Option.bind_some]
    split_ifs with further
    · have rest : MRAM_CACHE_SIZE - r = MRAM_CACHE_SIZE - s.srcOff - (r - s.srcOff) := by omega
      rw [memcpyCaches_eq (by omega) (by omega), Option.map_some]
      refine congrArg some (written _ (fun j here below => ?_) fun j below => ?_)
      · rw [rest]
        exact back.filled behind s.srcCache _ further (by omega) (by omega) below (by omega)
      · rw [blit_outside _ _ _ (by omega), blit_outside _ _ _ (by omega)]
    · have whole : s.srcOff = r := by omega
      refine congrArg some (written _ (fun j here below => ?_) fun j below => blit_outside _ _ _ (by omega))
      rw [blit, if_pos (by omega)]
      exact back.head behind (by omega) (by omega) (by omega)
  · rw [back.mram, not_not.mp more]
    rfl

end Back

section Offsets
variable {addr n : Nat}

/-- Within a block only the offset goes down. -/
theorem dma_sub_of_le (le : n ≤ dmaOff addr) : dmaOff (addr - n) = dmaOff addr - n ∧
      dmaLow (addr - n) = dmaLow addr := by
  unfold dmaOff dmaLow at *
  omega

/-- Past the start of a block it is the block before. -/
theorem dma_sub_of_lt (less : dmaOff addr < n) (small : n ≤ MRAM_CACHE_SIZE) (le : n ≤ addr) :
    dmaOff (addr - n) = dmaOff addr + MRAM_CACHE_SIZE - n ∧ dmaLow (addr - n) + MRAM_CACHE_SIZE = dmaLow addr := by
  unfold dmaOff dmaLow MRAM_CACHE_SIZE at *
  omega

theorem size_le_dmaLow (positive : 0 < dmaLow addr) : MRAM_CACHE_SIZE ≤ dmaLow addr := by
  unfold dmaLow MRAM_CACHE_SIZE at *
  omega

end Offsets

/-- What `__memmove_mm` has before its first block. -/
def Copying.atEnd (mram srcCache destCache : Bytes) (dest src len : Nat) : Copying :=
  ⟨mram, mramRead mram (src + len) srcCache, destCache, dmaOff (src + len), minus (src + len) MRAM_CACHE_SIZE,
    dest + len, len⟩

/-- The first block fills up the block that the destination ends in. -/
theorem mvFirst_back (bound : dest + len < 2 ^ 32) (behind : src < dest)
    (other : dmaOff (src + len) ≠ dmaOff (dest + len))
    (offset : dmaOff (dest + len) ≠ 0) (long : dmaOff (dest + len) ≤ len) :
    ∃ t, mvFirst (dmaOff (dest + len)) (.atEnd mram srcCache destCache dest src len) = some t ∧
      t.Back mram dest src len (len - dmaOff (dest + len)) := by
  have srcWhole := dmaLow_add_dmaOff (src + len)
  have destWhole := dmaLow_add_dmaOff (dest + len)
  have srcSmall : dmaOff (src + len) < MRAM_CACHE_SIZE := Nat.mod_lt _ (by decide)
  have destSmall : dmaOff (dest + len) < MRAM_CACHE_SIZE := Nat.mod_lt _ (by decide)
  have part : MRAM_CACHE_SIZE - (MRAM_CACHE_SIZE - dmaOff (dest + len)) = dmaOff (dest + len) := by omega
  have remaining : minus len (dmaOff (dest + len)) = len - dmaOff (dest + len) := minus_eq long (by omega)
  have start : dest + (len - dmaOff (dest + len)) = dmaLow (dest + len) := by omega
  have source : src + (len - dmaOff (dest + len)) = src + len - dmaOff (dest + len) := by omega
  have aligned : dmaOff (dest + (len - dmaOff (dest + len))) = 0 := by
    rw [← Nat.add_sub_assoc long, (dma_sub_of_le le_rfl).1, Nat.sub_self]
  have destIdx : len - dmaOff (dest + len) ≠ 0 →
      minus (dest + len) MRAM_CACHE_SIZE + MRAM_CACHE_SIZE = dest + (len - dmaOff (dest + len)) + dmaOff
      (dest + len) := by
    intro more
    have high := size_le_dmaLow (show 0 < dmaLow (dest + len) by omega)
    rw [minus_eq (by omega) bound]
    omega
  have written {filled : Bytes}
      (copied : ∀ j < dmaOff (dest + len), filled j = mram (src + (len - dmaOff (dest + len)) + j))
      (kept : ∀ j, dmaOff (dest + len) ≤ j → filled j = mramRead mram (dest + len) destCache j) :
      mramWrite filled mram (dest + len) = blit mram (src + (len - dmaOff (dest + len))) mram
        (dest + (len - dmaOff (dest + len))) (len - (len - dmaOff (dest + len))) := by
    calc _ = blit mram (src + (len - dmaOff (dest + len))) mram (dmaLow (dest + len) + 0) (dmaOff (dest + len)) :=
          mramWrite_eq (by omega) (fun j _ below => copied j (by omega)) fun j below outside =>
            (kept j (by omega)).trans (mramRead_apply below)
      _ = _ := by congr 1 <;> omega
  rw [mvFirst]
  by_cases before : (Copying.atEnd mram srcCache destCache dest src len).srcOff > dmaOff (dest + len)
  · rw [if_pos before]
    simp only [Copying.atEnd, part] at before ⊢
    rw [memcpyCaches_eq (by omega) (by omega)]
    refine ⟨_, rfl, ?_, remaining, by omega, aligned, destIdx, ?_, ?_, len, Nat.sub_le _ _, ?_⟩
    · refine written (fun j below => ?_) fun j above => blit_outside _ _ _ (by omega)
      simp only
      rw [blit, if_pos (by omega), mramRead_apply (by omega)]
      congr 1
      omega
    · rw [source, (dma_sub_of_le before.le).1]
    · intro further
      simp only at further ⊢
      have high := size_le_dmaLow (show 0 < dmaLow (src + len) by omega)
      rw [minus_eq (by omega) (by omega), source, (dma_sub_of_le before.le).2]
      omega
    · intro i below
      simp only at below ⊢
      rw [mramRead_apply (by omega), Nat.sub_self, blit_zero, source, (dma_sub_of_le before.le).2]
  · rw [if_neg before]
    simp only [Copying.atEnd] at before ⊢
    have srcPart : MRAM_CACHE_SIZE - (MRAM_CACHE_SIZE - dmaOff (src + len)) = dmaOff (src + len) := by omega
    have less : dmaOff (src + len) < dmaOff (dest + len) := by omega
    have high := size_le_dmaLow (show 0 < dmaLow (src + len) by omega)
    have srcIdx : minus (src + len) MRAM_CACHE_SIZE = src + len - MRAM_CACHE_SIZE := minus_eq (by omega) (by omega)
    obtain ⟨srcOff, low⟩ := dma_sub_of_lt less destSmall.le (by omega)
    have cacheLow : dmaLow (src + len - MRAM_CACHE_SIZE) + MRAM_CACHE_SIZE = dmaLow (src + len) :=
      (dma_sub_of_lt srcSmall le_rfl (by omega)).2
    simp only [part, srcPart, srcIdx]
    rw [memcpyCaches_eq (by omega) (by omega), Option.bind_some, memcpyCaches_eq (by omega) (by omega)]
    refine ⟨_, rfl, ?_, remaining, by omega, aligned, destIdx, ?_, ?_, len, Nat.sub_le _ _, ?_⟩
    · refine written (fun j below => ?_) fun j above => ?_
      · simp only
        rw [blit]
        split_ifs with first
        · rw [mramRead_apply (by omega)]
          exact congrArg mram (by omega)
        · rw [blit, if_pos (by omega), mramRead_apply (by omega)]
          exact congrArg mram (by omega)
      · simp only
        rw [blit_outside _ _ _ (by omega), blit_outside _ _ _ (by omega)]
    · rw [source, srcOff]
      simp only
      omega
    · intro further
      simp only at further ⊢
      have again : MRAM_CACHE_SIZE ≤ src + len - MRAM_CACHE_SIZE := by
        have below := size_le_dmaLow (show 0 < dmaLow (src + len - dmaOff (dest + len)) by omega)
        omega
      rw [minus_eq again (by omega), source]
      omega
    · intro i below
      simp only at below ⊢
      rw [mramRead_apply (by omega), Nat.sub_self, blit_zero, source]
      exact congrArg mram (by omega)

/-- When `__memmove_mm` is right copying backwards: the offsets at the end are the same,
or all lies within one block of each memory, or the destination ends within a block, it
begins before that block, and the last block takes what is left in the cache. -/
def mvFits (dest src len : Nat) : Prop :=
  dmaOff (src + len) = dmaOff (dest + len) ∨ len ≤ min (dmaOff (dest + len)) (dmaOff (src + len)) ∨
    dmaOff (dest + len) ≠ 0 ∧ dmaOff (dest + len) ≤ len ∧
      (dmaOff dest = 0 ∨ dmaOff (src + MRAM_CACHE_SIZE - dmaOff dest) + dmaOff dest ≤ MRAM_CACHE_SIZE)

theorem memmoveMm_backwards (behind : src < dest) (overlap : dest < src + len)
    (same : dmaOff (src + len) ≠ dmaOff (dest + len)) (long : min (dmaOff (dest + len)) (dmaOff (src + len)) < len)
    (mram srcCache destCache : Bytes) :
    memmoveMm mram srcCache destCache dest src len =
      ((if dmaOff (dest + len) ≠ 0 then mvFirst (dmaOff (dest + len)) (.atEnd mram srcCache destCache dest src len)
        else some (.atEnd mram srcCache destCache dest src len)).bind mvLoop).bind mvLast := by
  simp only [memmoveMm]
  rw [if_neg (by omega), if_neg same, if_neg (by omega)]
  rfl

theorem memmoveMm_eq (bound : dest + len < 2 ^ 32) (behind : src < dest) (overlap : dest < src + len)
    (fits : mvFits dest src len) (mram srcCache destCache : Bytes) :
    memmoveMm mram srcCache destCache dest src len = some (blit mram src mram dest len) := by
  have srcWhole := dmaLow_add_dmaOff (src + len)
  have destWhole := dmaLow_add_dmaOff (dest + len)
  have srcSmall : dmaOff (src + len) < MRAM_CACHE_SIZE := Nat.mod_lt _ (by decide)
  have destSmall : dmaOff (dest + len) < MRAM_CACHE_SIZE := Nat.mod_lt _ (by decide)
  by_cases same : dmaOff (src + len) = dmaOff (dest + len)
  · obtain ⟨s, r, first, begun⟩ := mvSameFirst_left behind bound same
    obtain ⟨d, left, small⟩ := mvSameLoop_left behind bound begun
    simp only [memmoveMm]
    rw [if_neg (by omega), if_pos same, first, Option.bind_some]
    exact mvSameLast_eq behind left small
  by_cases short : len ≤ min (dmaOff (dest + len)) (dmaOff (src + len))
  · have srcBlock : dmaLow src + (dmaOff (src + len) - len) = src := by
      unfold dmaOff dmaLow at *
      omega
    have destBlock : dmaLow dest + (dmaOff (dest + len) - len) = dest := by
      unfold dmaOff dmaLow at *
      omega
    simp only [memmoveMm]
    rw [if_neg (by omega), if_neg same, if_pos (by omega), memcpyCaches_eq (by omega) (by omega), Option.map_some,
      blit_mramRead (by omega), blit_block (by omega), srcBlock, destBlock]
  · obtain ⟨offset, long, last⟩ := (fits.resolve_left same).resolve_left short
    obtain ⟨s, first, begun⟩ := mvFirst_back bound behind same offset long
    obtain ⟨t, r, loops, back, small⟩ := mvLoop_back behind begun bound
    rw [memmoveMm_backwards behind overlap same (by omega), if_pos offset, first, Option.bind_some,
      loops, Option.bind_some]
    refine mvLast_eq behind back small ?_
    have aligned := back.aligned
    have srcOff := back.srcOff
    unfold dmaOff MRAM_CACHE_SIZE at *
    omega

end Mv

section Wrong
variable {srcCache destCache : Bytes} {dest src len : Nat} {s : Copying}

/-- A memory that holds 1 in one cell alone. -/
def single (a : Nat) : Bytes := fun b => if b = a then 1 else 0

/-- A block that neither the loop nor the last block of `__memmove_mm` gets to. -/
theorem mvLoop_untouched {a : Nat} {t : Copying} (inside : a < 2 ^ 32) (below : s.destIdx < 2 ^ 32)
    (far : s.remaining ≤ minus (dmaLow s.destIdx) (dmaLow a)) (loops : mvLoop s = some t) :
    t.mram a = s.mram a ∧ t.destIdx < 2 ^ 32 ∧ t.remaining ≤ minus (dmaLow t.destIdx) (dmaLow a) := by
  induction left : s.remaining using Nat.strong_induction_on generalizing s with
  | h n ih =>
    subst left
    rw [mvLoop] at loops
    split_ifs at loops with more
    · simp only at loops
      split at loops
      · cases loops
      · split at loops
        · cases loops
        · have next := ih _ (by unfold MRAM_CACHE_SIZE at *; simp only; omega) ?_ ?_ loops rfl
          · obtain ⟨kept, rest⟩ := next
            refine ⟨kept.trans (blit_outside _ _ _ ?_), rest⟩
            unfold minus dmaLow MRAM_CACHE_SIZE at *
            omega
          · exact Nat.mod_lt _ (by decide)
          · simp only
            unfold minus dmaLow MRAM_CACHE_SIZE at *
            omega
    · obtain rfl := Option.some.inj loops
      exact ⟨rfl, below, far⟩

theorem mvLast_untouched {a : Nat} {after : Bytes}
    (far : s.remaining ≤ minus (dmaLow s.destIdx) (dmaLow a)) (last : mvLast s = some after) :
    after a = s.mram a := by
  rw [mvLast] at last
  split_ifs at last with more
  · obtain ⟨filled, _, rfl⟩ := Option.map_eq_some_iff.mp last
    refine blit_outside _ _ _ ?_
    unfold minus dmaLow MRAM_CACHE_SIZE at *
    omega
  · rw [← Option.some.inj last]

theorem mvLast_wrong {r : Nat} (behind : src < dest) (back : s.Back (single (src - 1)) dest src len r)
    (more : r ≠ 0)
    (short : r < s.srcOff) :
    mvLast s ≠ some (blit (single (src - 1)) src (single (src - 1)) dest len) := by
  have remaining := back.remaining
  have low := back.small
  have aligned := back.aligned
  have destIdx := back.destIdx more
  have srcOff := back.srcOff
  have srcWhole := dmaLow_add_dmaOff (src + r)
  have part : MRAM_CACHE_SIZE - (MRAM_CACHE_SIZE - s.srcOff) = s.srcOff := by omega
  have place : dmaLow s.destIdx + MRAM_CACHE_SIZE = dest + r := by
    unfold dmaOff dmaLow MRAM_CACHE_SIZE at *
    omega
  obtain ⟨d, later, cached⟩ := back.cached
  rw [mvLast, remaining, if_pos more]
  simp only [part]
  rw [memcpyCaches_eq (by omega) (by omega), Option.bind_some, if_neg (by omega), Option.map_some]
  intro equal
  have here := congrFun (Option.some.inj equal) (dest - 1)
  rw [blit_outside _ _ (single (src - 1)) (by omega), mramWrite, blit, if_pos (by omega), blit, if_pos (by omega),
    cached _ (by omega), blit_outside _ _ _ (by omega), single, if_pos (by omega), single,
      if_neg (by omega)] at here
  cases here

/-- When the destination ends at a block its first block is never written. -/
theorem mvLoop_aligned (bound : dest + len < 2 ^ 32) (behind : src < dest) (overlap : dest < src + len)
    (aligned : dmaOff (dest + len) = 0) :
    ((mvLoop (.atEnd (single src) srcCache destCache dest src len)).bind mvLast) ≠
      some (blit (single src) src (single src) dest len) := by
  intro equal
  obtain ⟨t, loops, last⟩ := Option.bind_eq_some_iff.mp equal
  have far : len ≤ minus (dmaLow (dest + len)) (dmaLow dest) := by
    unfold minus dmaOff dmaLow at *
    omega
  obtain ⟨kept, _, rest⟩ := mvLoop_untouched (by omega) bound far loops
  have here := mvLast_untouched rest last
  have first := blit_inside (single src) (single src) src dest (show 0 < len by omega)
  rw [Nat.add_zero, Nat.add_zero, here, kept] at first
  simp only [Copying.atEnd, single] at first
  rw [if_neg (by omega), if_pos trivial] at first
  cases first

/-- What the first block of `__memmove_mm` leaves when the source ends earlier in its block than the destination. -/
theorem mvFirst_leaves {t : Copying} {dstOff : Nat} (before : ¬ s.srcOff > dstOff)
    (first : mvFirst dstOff s = some t) :
    (∃ block, t.mram = mramWrite block s.mram s.destIdx) ∧ t.destIdx = minus s.destIdx MRAM_CACHE_SIZE ∧
      t.srcIdx = minus s.srcIdx MRAM_CACHE_SIZE ∧
      t.srcOff = MRAM_CACHE_SIZE - (dstOff - (MRAM_CACHE_SIZE - (MRAM_CACHE_SIZE - s.srcOff))) ∧
      t.remaining = minus s.remaining (MRAM_CACHE_SIZE - (MRAM_CACHE_SIZE - dstOff)) := by
  rw [mvFirst, if_neg before] at first
  obtain ⟨filled, half, rfl⟩ := Option.map_eq_some_iff.mp first
  obtain ⟨block, _, rfl⟩ := Option.map_eq_some_iff.mp half
  exact ⟨⟨block, rfl⟩, rfl, rfl, rfl, rfl⟩

/-- A turn of the loop begins its block with what comes after `srcOff` in the block that it reads. -/
theorem mvLoop_step {t : Copying} (small : s.srcOff < MRAM_CACHE_SIZE) (more : MRAM_CACHE_SIZE ≤ s.remaining)
    (loops : mvLoop s = some t) : ∃ block next, mvLoop next = some t ∧
      next.mram = mramWrite block s.mram s.destIdx ∧
      next.destIdx = minus s.destIdx MRAM_CACHE_SIZE ∧ next.remaining = s.remaining - MRAM_CACHE_SIZE ∧
      block 0 = s.mram (dmaLow s.srcIdx + s.srcOff) := by
  have part : MRAM_CACHE_SIZE - (MRAM_CACHE_SIZE - s.srcOff) = s.srcOff := by omega
  rw [mvLoop, if_pos more] at loops
  simp only [part] at loops
  rw [memcpyCaches_eq (by omega) (by omega)] at loops
  simp only at loops
  rw [memcpyCaches_eq (by omega) (by omega)] at loops
  refine ⟨_, _, loops, rfl, rfl, rfl, ?_⟩
  rw [blit, if_pos (by omega), mramRead_apply (by omega)]
  exact congrArg s.mram (by omega)

/-- When all of the destination lies in the block that it ends in and the source does not reach as far, `remaining`
wraps: the loop goes through all of the memory, and the block below is not what it was. -/
theorem mvLoop_wraps (bound : dest + len < 2 ^ 32) (behind : src < dest) (overlap : dest < src + len)
    (reaches : dmaOff (src + len) < len) (short : len < dmaOff (dest + len)) :
    ∃ mram,
      ((mvFirst (dmaOff (dest + len)) (.atEnd mram srcCache destCache dest src len)).bind mvLoop).bind mvLast ≠
      some (blit mram src mram dest len) := by
  have srcSmall : dmaOff (src + len) < MRAM_CACHE_SIZE := Nat.mod_lt _ (by decide)
  have destSmall : dmaOff (dest + len) < MRAM_CACHE_SIZE := Nat.mod_lt _ (by decide)
  obtain ⟨q, at_q⟩ : ∃ q, q = dmaLow (minus (dest + len) MRAM_CACHE_SIZE) := ⟨_, rfl⟩
  have apart : dmaOff (src + len) + (dest - src) = dmaOff (dest + len) := by
    unfold dmaOff at *
    omega
  have small_q : q < 2 ^ 32 := by
    unfold minus dmaLow at at_q
    omega
  have low_q : dmaLow q = q := by
    unfold dmaLow at *
    omega
  refine ⟨allBut q, fun equal => ?_⟩
  obtain ⟨t, runs, last⟩ := Option.bind_eq_some_iff.mp equal
  obtain ⟨s, first, loops⟩ := Option.bind_eq_some_iff.mp runs
  obtain ⟨⟨begun, mram⟩, destIdx, srcIdx, srcOff, remaining⟩ :=
    mvFirst_leaves (by simp only [Copying.atEnd]; omega) first
  simp only [Copying.atEnd] at mram destIdx srcIdx srcOff remaining
  have offset : s.srcOff + (dest - src) = MRAM_CACHE_SIZE := by omega
  have many : s.remaining + dmaOff (dest + len) = len + 2 ^ 32 := by
    rw [remaining]
    unfold minus MRAM_CACHE_SIZE at *
    omega
  obtain ⟨block, next, rest, nextMram, nextDest, nextRemaining, start⟩ :=
    mvLoop_step (by omega) (by unfold MRAM_CACHE_SIZE at *; omega) loops
  have written : next.mram q = 1 := by
    have inside : q ≤ q ∧ q < q + MRAM_CACHE_SIZE := ⟨le_rfl, by unfold MRAM_CACHE_SIZE; omega⟩
    have elsewhere : ¬ (dmaLow (dest + len) ≤ dmaLow s.srcIdx + s.srcOff ∧
        dmaLow s.srcIdx + s.srcOff < dmaLow (dest + len) + MRAM_CACHE_SIZE) := by
      rw [srcIdx]
      unfold minus dmaLow dmaOff MRAM_CACHE_SIZE at *
      omega
    have other : dmaLow s.srcIdx + s.srcOff ≠ q := by
      unfold dmaLow MRAM_CACHE_SIZE at *
      omega
    rw [nextMram, mramWrite, destIdx, ← at_q, blit, if_pos inside, Nat.sub_self, Nat.zero_add, start,
      mram, mramWrite,
      blit_outside _ _ _ elsewhere, allBut, if_neg other]
  have below : next.destIdx < 2 ^ 32 := nextDest ▸ Nat.mod_lt _ (by decide)
  have far : next.remaining ≤ minus (dmaLow next.destIdx) (dmaLow q) := by
    rw [nextRemaining, nextDest, destIdx, low_q, at_q]
    unfold minus dmaLow dmaOff MRAM_CACHE_SIZE at *
    omega
  obtain ⟨kept, _, left⟩ := mvLoop_untouched small_q below far rest
  have here := mvLast_untouched left last
  have outside : ¬ (dest ≤ q ∧ q < dest + len) := by
    rw [at_q]
    unfold minus dmaLow dmaOff MRAM_CACHE_SIZE at *
    omega
  rw [blit_outside _ _ _ outside, kept, written, allBut, if_pos rfl] at here
  cases here

theorem memmoveMm_wrong (srcCache destCache : Bytes) (bound : dest + len < 2 ^ 32) (behind : src < dest)
    (overlap : dest < src + len) (wrong : ¬ mvFits dest src len) :
    ∃ mram, memmoveMm mram srcCache destCache dest src len ≠ some (blit mram src mram dest len) := by
  have srcSmall : dmaOff (src + len) < MRAM_CACHE_SIZE := Nat.mod_lt _ (by decide)
  have destSmall : dmaOff (dest + len) < MRAM_CACHE_SIZE := Nat.mod_lt _ (by decide)
  simp only [mvFits, not_or, not_and] at wrong
  obtain ⟨same, long, last⟩ := wrong
  simp only [memmoveMm_backwards behind overlap same (not_le.mp long)]
  by_cases offset : dmaOff (dest + len) = 0
  · simp only [if_neg (not_not.mpr offset)]
    exact ⟨single src, mvLoop_aligned bound behind overlap offset⟩
  simp only [if_pos offset]
  by_cases short : len < dmaOff (dest + len)
  · exact mvLoop_wraps bound behind overlap (by omega) short
  obtain ⟨unaligned, further⟩ := last offset (not_lt.mp short)
  obtain ⟨s, first, begun⟩ := mvFirst_back bound behind same offset (not_lt.mp short)
  obtain ⟨t, r, loops, back, small⟩ := mvLoop_back behind begun bound
  refine ⟨single (src - 1), ?_⟩
  rw [first, Option.bind_some, loops, Option.bind_some]
  have aligned := back.aligned
  have srcOff := back.srcOff
  refine mvLast_wrong behind back ?_ ?_ <;> unfold dmaOff MRAM_CACHE_SIZE at * <;> omega

end Wrong

/-- For ranges of the address space: the copies between the two memories are right, and
those within the MRAM leave what they should in every memory exactly where the offsets
fit. -/
theorem copies_right (dest src len : Nat) (bound : dest + len < 2 ^ 32) :
    (∀ mram wram cache, memcpyMw mram wram cache dest src len = some (blit wram src mram dest len)) ∧
      (∀ mram wram cache, memcpyWm mram wram cache dest src len = some (blit mram src wram dest len)) ∧
      (dest + len ≤ src ∨ src + len ≤ dest →
        ((∀ mram srcCache destCache,
          memcpyMm mram srcCache destCache dest src len = some (blit mram src mram dest len)) ↔
            mmFits dest src len)) ∧
      ((∀ mram srcCache destCache,
        memmoveMm mram srcCache destCache dest src len = some (blit mram src mram dest len)) ↔
        if dest ≤ src ∨ src + len ≤ dest then mmFits dest src len else mvFits dest src len) := by
  have forwards (apart : dest ≤ src ∨ src + len ≤ dest) :
      (∀ mram srcCache destCache,
        memcpyMm mram srcCache destCache dest src len = some (blit mram src mram dest len)) ↔
        mmFits dest src len := by
    refine ⟨fun right => not_not.mp fun wrong => ?_, memcpyMm_eq apart⟩
    obtain ⟨mram, different⟩ := memcpyMm_wrong (fun _ => 0) (fun _ => 0) apart wrong
    exact different (right mram _ _)
  refine ⟨fun mram wram cache => memcpyMw_eq mram wram cache dest src len,
    fun mram wram cache => memcpyWm_eq mram wram cache dest src len, fun apart => forwards (by omega), ?_⟩
  by_cases apart : dest ≤ src ∨ src + len ≤ dest
  · simp only [memmoveMm, ge_iff_le, if_pos apart]
    exact forwards apart
  · rw [if_neg apart]
    obtain ⟨behind, overlap⟩ : src < dest ∧ dest < src + len := by omega
    refine ⟨fun right => not_not.mp fun wrong => ?_, fun fits => memmoveMm_eq bound behind overlap fits⟩
    obtain ⟨mram, different⟩ := memmoveMm_wrong (fun _ => 0) (fun _ => 0) bound behind overlap wrong
    exact different (right mram _ _)

/-- A copy of 13 bytes that ends at a block, and one of 12 bytes, backwards, that begins at a block. -/
theorem copies_thirteen_twelve :
    (∀ mram srcCache destCache, memcpyMm mram srcCache destCache 3 16 13 = some (blit mram 16 mram 3 13)) ∧
      ∀ mram srcCache destCache, memmoveMm mram srcCache destCache 16 13 12 = some (blit mram 13 mram 16 12) := by
  obtain ⟨-, -, copied, -⟩ := copies_right 3 16 13 (by decide)
  obtain ⟨-, -, -, moved⟩ := copies_right 16 13 12 (by decide)
  refine ⟨(copied (by decide)).mpr (Or.inr (Or.inr ⟨by decide, Or.inl (by decide)⟩)), moved.mpr ?_⟩
  rw [if_neg (by decide)]
  exact Or.inr (Or.inr ⟨by decide, by decide, Or.inl (by decide)⟩)

/-- 8 bytes that begin at a block, copied to the last byte of one: the copy goes on after the end of its cache. -/
theorem memcpyMm_leaves_cache :
    memcpyMm (fun _ => 0) (fun _ => 0) (fun _ => 0) 7 16 8 ≠ some (blit (fun _ => 0) 16 (fun _ => 0) 7 8) := by
  intro equal
  cases (rfl : memcpyMm (fun _ => 0) (fun _ => 0) (fun _ => 0) 7 16 8 = none).symm.trans equal

end Upmem.MramMemcpy
