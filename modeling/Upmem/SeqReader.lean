import Upmem.FsbAllocator
import Upmem.Lib.Blit
import Upmem.Lib.PowerMasks

namespace Upmem.SeqReader
open Blit FsbAllocator PowerMasks

/-- `SEQREAD_CACHE_SIZE`, which is asserted to be one of these. -/
inductive CacheSize
  | size32 | size64 | size128 | size256 | size512 | size1024
  deriving DecidableEq

def CacheSize.log2 : CacheSize → Nat
  | .size32 => 5
  | .size64 => 6
  | .size128 => 7
  | .size256 => 8
  | .size512 => 9
  | .size1024 => 10

/-- `PAGE_SIZE`. -/
def CacheSize.page (size : CacheSize) : Nat := 2 ^ size.log2

def CacheSize.PAGE_SIZE (size : CacheSize) : BitVec 32 := BitVec.ofNat 32 size.page
def CacheSize.PAGE_ALLOC_SIZE (size : CacheSize) : BitVec 32 := 2#32 * size.PAGE_SIZE
def CacheSize.PAGE_OFF_MASK (size : CacheSize) : BitVec 32 := size.PAGE_SIZE - 1#32
def CacheSize.PAGE_IDX_MASK (size : CacheSize) : BitVec 32 := ~~~size.PAGE_OFF_MASK

def DPU_MRAM_SIZE_LOG2 : Nat := 26

/-- The origin of `mram` in `dpu.lds`. -/
def MRAM_ORIGIN : Nat := 0x08000000

/-- `seqreader_t`. -/
structure Seqreader where
  wramCache : BitVec 32
  mramAddr : BitVec 32

/-- What a call returns, with the reader and the bytes of WRAM that it leaves. -/
structure Result where
  ptr : BitVec 32
  reader : Seqreader
  wram : Nat → BitVec 8

/-- `seqread_alloc`: the cache, and the heap pointer behind it. -/
def seqreadAlloc (size : CacheSize) (heapPointer : BitVec 32) : Option (BitVec 32 × BitVec 32) :=
  let pointer := (heapPointer + size.PAGE_OFF_MASK) &&& size.PAGE_IDX_MASK
  (memAlloc heapPointer (pointer + size.PAGE_ALLOC_SIZE - heapPointer)).map fun (_, newHeapPointer) =>
    (pointer, newHeapPointer)

section Calls
variable (size : CacheSize) (mram : Nat → BitVec 8)

/-- `MRAM_READ_PAGE`. -/
def mramReadPage (source target : BitVec 32) (wram : Nat → BitVec 8) : Nat → BitVec 8 :=
  blit mram source.toNat wram target.toNat size.PAGE_ALLOC_SIZE.toNat

def seqreadSeek (mramAddr : BitVec 32) (reader : Seqreader) (wram : Nat → BitVec 8) : Result :=
  let mramOffset := mramAddr - reader.mramAddr
  if mramOffset &&& size.PAGE_IDX_MASK ≠ 0#32 then
    let targetAddrIdxPage := mramAddr &&& size.PAGE_IDX_MASK
    { ptr := (mramAddr &&& size.PAGE_OFF_MASK) + reader.wramCache
      reader := { reader with mramAddr := targetAddrIdxPage }
      wram := mramReadPage size mram targetAddrIdxPage reader.wramCache wram }
  else { ptr := mramOffset + reader.wramCache, reader := reader, wram := wram }

/-- `seqread_init`. The reader starts at the end of MRAM, so the first pages are loaded. -/
def seqreadInit (cache mramAddr : BitVec 32) (wram : Nat → BitVec 8) : Result :=
  seqreadSeek size mram mramAddr ⟨cache, 1#32 <<< DPU_MRAM_SIZE_LOG2⟩ wram

def seqreadTell (ptr : BitVec 32) (reader : Seqreader) : BitVec 32 := reader.mramAddr + (ptr &&& size.PAGE_OFF_MASK)

/-- `__builtin_dpu_seqread_get` of the compiler, which gets the page size as its last argument. -/
abbrev DpuSeqreadGet := BitVec 32 → BitVec 32 → Seqreader → BitVec 32 → (Nat → BitVec 8) → Result

/-- What the builtin does with a pointer to the first page and a small increment. -/
structure BuiltinGet (builtin : DpuSeqreadGet) : Prop where
  stays : ∀ ptr inc reader wram, ptr.toNat + inc.toNat < reader.wramCache.toNat + size.page →
    builtin ptr inc reader size.PAGE_SIZE wram = ⟨ptr + inc, reader, wram⟩
  leaves : ∀ ptr inc reader wram, reader.wramCache.toNat + size.page ≤ ptr.toNat + inc.toNat →
    ptr.toNat < reader.wramCache.toNat + size.page → inc.toNat < size.page →
    builtin ptr inc reader size.PAGE_SIZE wram =
      { ptr := ptr + inc - size.PAGE_SIZE
        reader := { reader with mramAddr := reader.mramAddr + size.PAGE_SIZE }
        wram := mramReadPage size mram (reader.mramAddr + size.PAGE_SIZE) reader.wramCache wram }

/-- `seqread_get`. -/
def seqreadGet (builtin : DpuSeqreadGet) (ptr inc : BitVec 32) (reader : Seqreader)
    (wram : Nat → BitVec 8) : Result :=
  builtin ptr inc reader size.PAGE_SIZE wram

end Calls

/-- The heap pointers that a program can have, from the one that the linker leaves in WRAM. -/
inductive HeapPointer : BitVec 32 → Prop
  | reset {heapPointer} : heapPointer.toNat ≤ WRAM_SIZE → HeapPointer heapPointer
  | memAlloc {heapPointer size memory newHeapPointer} : HeapPointer heapPointer →
      memAlloc heapPointer size = some (memory, newHeapPointer) → HeapPointer newHeapPointer
  | seqreadAlloc {size heapPointer cache newHeapPointer} : HeapPointer heapPointer →
      seqreadAlloc size heapPointer = some (cache, newHeapPointer) → HeapPointer newHeapPointer

/-- A cache that `seqread_alloc` has returned. -/
def Cache (size : CacheSize) (cache : BitVec 32) : Prop :=
  ∃ heapPointer newHeapPointer, HeapPointer heapPointer ∧ seqreadAlloc size heapPointer = some
    (cache, newHeapPointer)

/-- An address two pages before the end of MRAM, as an offset or from the origin on. -/
def AtMram (size : CacheSize) (address : BitVec 32) : Prop :=
  address.toNat + 2 * size.page ≤ 2 ^ DPU_MRAM_SIZE_LOG2 ∨
    MRAM_ORIGIN ≤ address.toNat ∧ address.toNat + 2 * size.page ≤ MRAM_ORIGIN + 2 ^ DPU_MRAM_SIZE_LOG2

/-- The calls on a reader, with the current position. -/
inductive Run (size : CacheSize) (mram : Nat → BitVec 8) (builtin : DpuSeqreadGet) : Result → BitVec 32 → Prop
  | init {cache mramAddr} (wram : Nat → BitVec 8) : Cache size cache → AtMram size mramAddr →
      Run size mram builtin (seqreadInit size mram cache mramAddr wram) mramAddr
  | get {result position inc} : Run size mram builtin result position → inc.toNat < size.page →
      AtMram size (position + inc) →
      Run size mram builtin (seqreadGet size builtin result.ptr inc result.reader result.wram) (position + inc)
  | seek {result position mramAddr} : Run size mram builtin result position → AtMram size mramAddr →
      Run size mram builtin (seqreadSeek size mram mramAddr result.reader result.wram) mramAddr

/-- The pointer addresses the bytes of MRAM at the position, and tells it. -/
structure Reads (size : CacheSize) (mram : Nat → BitVec 8) (result : Result) (position : BitVec 32) : Prop where
  inside : result.ptr.toNat + size.page ≤ WRAM_SIZE
  bytes : ∀ i < size.page, result.wram (result.ptr.toNat + i) = mram (position.toNat + i)
  tell : seqreadTell size result.ptr result.reader = position

variable {size : CacheSize} {mram : Nat → BitVec 8} {builtin : DpuSeqreadGet} {result : Result}
  {position : BitVec 32}

theorem CacheSize.page_bounds (size : CacheSize) : 32 ≤ size.page ∧ size.page ≤ 1024 := by
  cases size <;> decide

theorem CacheSize.toNat_PAGE_SIZE (size : CacheSize) : size.PAGE_SIZE.toNat = size.page := by
  cases size <;> rfl

theorem CacheSize.toNat_PAGE_ALLOC_SIZE (size : CacheSize) : size.PAGE_ALLOC_SIZE.toNat = 2 * size.page := by
  cases size <;> rfl

theorem CacheSize.toNat_PAGE_OFF_MASK (size : CacheSize) : size.PAGE_OFF_MASK.toNat = 2 ^ size.log2 - 1 := by
  cases size <;> rfl

/-- The offset in a page, and its start. -/
theorem toNat_and_PAGE_OFF_MASK (size : CacheSize) (address : BitVec 32) :
    (address &&& size.PAGE_OFF_MASK).toNat = address.toNat % size.page :=
  toNat_and_mask address _ size.toNat_PAGE_OFF_MASK

theorem toNat_and_PAGE_IDX_MASK (size : CacheSize) (address : BitVec 32) :
    (address &&& size.PAGE_IDX_MASK).toNat = address.toNat / size.page * size.page :=
  toNat_and_not_mask address _ size.toNat_PAGE_OFF_MASK

/-- The cache starts at a page and has room for two. -/
def CacheAt (size : CacheSize) (cache : BitVec 32) : Prop :=
  cache.toNat % size.page = 0 ∧ cache.toNat + 2 * size.page ≤ WRAM_SIZE

theorem seqreadAlloc_some {heapPointer cache newHeapPointer : BitVec 32} (layout : heapPointer.toNat ≤ WRAM_SIZE)
    (done : seqreadAlloc size heapPointer = some (cache, newHeapPointer)) :
    CacheAt size cache ∧ newHeapPointer.toNat ≤ WRAM_SIZE := by
  have page := size.page_bounds
  have offMask := size.toNat_PAGE_OFF_MASK
  rw [seqreadAlloc, Option.map_eq_some_iff] at done
  obtain ⟨⟨memory, after⟩, reserved, same⟩ := done
  obtain ⟨rfl, rfl⟩ := Prod.mk.inj same
  have up : (heapPointer + size.PAGE_OFF_MASK).toNat = heapPointer.toNat + (size.page - 1) := by
    rw [BitVec.toNat_add, offMask, ← CacheSize.page]
    rw [WRAM_SIZE] at layout
    omega
  have pointer := toNat_and_PAGE_IDX_MASK size (heapPointer + size.PAGE_OFF_MASK)
  have aligned : (heapPointer + size.PAGE_OFF_MASK &&& size.PAGE_IDX_MASK).toNat % size.page = 0 := by
    rw [pointer, Nat.mul_mod_left]
  have divided := Nat.div_add_mod' (heapPointer + size.PAGE_OFF_MASK).toNat size.page
  have remainder := Nat.mod_lt (heapPointer + size.PAGE_OFF_MASK).toNat (show 0 < size.page by omega)
  rw [← pointer, up] at divided
  rw [up] at remainder
  generalize heapPointer + size.PAGE_OFF_MASK &&& size.PAGE_IDX_MASK = cache at *
  have length : (cache + size.PAGE_ALLOC_SIZE - heapPointer).toNat = cache.toNat +
      2 * size.page - heapPointer.toNat := by
    rw [BitVec.toNat_sub, BitVec.toNat_add, size.toNat_PAGE_ALLOC_SIZE]
    rw [WRAM_SIZE] at layout
    omega
  have some_ : cache + size.PAGE_ALLOC_SIZE - heapPointer ≠ 0#32 := by
    intro zero
    rw [zero, BitVec.toNat_zero] at length
    omega
  obtain ⟨above, -, ends, inside⟩ := memAlloc_some some_ layout reserved
  rw [length] at ends
  exact ⟨⟨aligned, by omega⟩, inside⟩

theorem HeapPointer.le {heapPointer : BitVec 32} (reached : HeapPointer heapPointer) :
    heapPointer.toNat ≤ WRAM_SIZE := by
  induction reached with
  | reset layout => exact layout
  | @memAlloc heapPointer size memory newHeapPointer _ done ih =>
    by_cases some_ : size = 0#32
    · rw [FsbAllocator.memAlloc, if_pos some_] at done
      obtain ⟨rfl, rfl⟩ := Prod.mk.inj (Option.some.inj done)
      exact ih
    · exact (memAlloc_some some_ ih done).2.2.2
  | seqreadAlloc _ done ih => exact (seqreadAlloc_some ih done).2

theorem Cache.at {cache : BitVec 32} (cached : Cache size cache) : CacheAt size cache := by
  obtain ⟨heapPointer, newHeapPointer, reached, done⟩ := cached
  exact (seqreadAlloc_some reached.le done).1

/-- Two pages are loaded. -/
structure Loaded (size : CacheSize) (mram : Nat → BitVec 8) (reader : Seqreader)
    (wram : Nat → BitVec 8) : Prop where
  cache : CacheAt size reader.wramCache
  aligned : reader.mramAddr.toNat % size.page = 0
  bytes : ∀ i < 2 * size.page, wram (reader.wramCache.toNat + i) = mram (reader.mramAddr.toNat + i)

theorem loaded_mramReadPage (reader : Seqreader) (cache : CacheAt size reader.wramCache)
    (aligned : reader.mramAddr.toNat % size.page = 0) (wram : Nat → BitVec 8) :
    Loaded size mram reader (mramReadPage size mram reader.mramAddr reader.wramCache wram) := by
  refine ⟨cache, aligned, fun i inside => blit_inside _ _ _ _ ?_⟩
  rwa [size.toNat_PAGE_ALLOC_SIZE]

/-- Two pages are loaded, and the position is in the first one. -/
structure Window (size : CacheSize) (mram : Nat → BitVec 8) (result : Result) (position : BitVec 32) : Prop where
  loaded : Loaded size mram result.reader result.wram
  le : result.reader.mramAddr.toNat ≤ position.toNat
  lt : position.toNat < result.reader.mramAddr.toNat + size.page
  ptr : result.ptr.toNat = result.reader.wramCache.toNat + (position.toNat - result.reader.mramAddr.toNat)

/-- In a window the pointer reads from the position on. -/
theorem Window.reads (window : Window size mram result position) : Reads size mram result position where
  inside := by
    have cacheInside := window.loaded.cache.2
    have ptr := window.ptr
    have lt := window.lt
    omega
  bytes i inside := by
    have le := window.le
    have lt := window.lt
    have loaded := window.loaded.bytes (position.toNat - result.reader.mramAddr.toNat + i) (by omega)
    rw [window.ptr, Nat.add_assoc, loaded]
    congr 1
    omega
  tell := by
    have le := window.le
    have lt := window.lt
    have bound := position.isLt
    have offset : result.ptr.toNat % size.page = position.toNat - result.reader.mramAddr.toNat := by
      rw [window.ptr, Nat.add_mod, window.loaded.cache.1, Nat.zero_add, Nat.mod_mod, Nat.mod_eq_of_lt (by omega)]
    refine BitVec.eq_of_toNat_eq ?_
    rw [seqreadTell, BitVec.toNat_add, toNat_and_PAGE_OFF_MASK, offset]
    omega

/-- A page that starts before the end of the address space ends in it. -/
theorem aligned_le {address : BitVec 32} (aligned : address.toNat % size.page = 0) :
    address.toNat + size.page ≤ 2 ^ 32 := by
  have bound := address.isLt
  have pages : 2 ^ 32 % size.page = 0 := by cases size <;> rfl
  obtain ⟨whole, total⟩ := Nat.dvd_of_mod_eq_zero pages
  obtain ⟨index, start⟩ := Nat.dvd_of_mod_eq_zero aligned
  rw [start, total] at bound ⊢
  have before : index + 1 ≤ whole := Nat.lt_of_mul_lt_mul_left bound
  calc size.page * index + size.page = size.page * (index + 1) := (Nat.mul_succ _ _).symm
    _ ≤ size.page * whole := Nat.mul_le_mul_left _ before

/-- The window is kept where the offset to it is small. -/
theorem offset_small (target mramAddr : BitVec 32) :
    (target - mramAddr) &&& size.PAGE_IDX_MASK = 0#32 ↔ (target - mramAddr).toNat < size.page :=
  and_not_mask_eq_zero _ _ size.toNat_PAGE_OFF_MASK

theorem seqreadSeek_reload {mramAddr : BitVec 32} {reader : Seqreader} (cache : CacheAt size reader.wramCache)
    (far : (mramAddr - reader.mramAddr) &&& size.PAGE_IDX_MASK ≠ 0#32) (wram : Nat → BitVec 8) :
    Window size mram (seqreadSeek size mram mramAddr reader wram) mramAddr := by
  have page := size.page_bounds
  have start := toNat_and_PAGE_IDX_MASK size mramAddr
  have offset := toNat_and_PAGE_OFF_MASK size mramAddr
  have divided := Nat.div_add_mod' mramAddr.toNat size.page
  have remainder := Nat.mod_lt mramAddr.toNat (show 0 < size.page by omega)
  rw [← start, ← offset] at divided
  rw [← offset] at remainder
  have room := cache.2
  have aligned : (mramAddr &&& size.PAGE_IDX_MASK).toNat % size.page = 0 := by rw [start, Nat.mul_mod_left]
  rw [seqreadSeek, if_pos far]
  refine ⟨loaded_mramReadPage ⟨reader.wramCache, mramAddr &&& size.PAGE_IDX_MASK⟩ cache aligned wram, by
    dsimp only; omega,
    by dsimp only; omega, ?_⟩
  · rw [WRAM_SIZE] at room
    rw [BitVec.toNat_add]
    dsimp only
    omega

theorem seqreadSeek_kept {mramAddr : BitVec 32} {reader : Seqreader} {wram : Nat → BitVec 8}
    (loaded : Loaded size mram reader wram) (near : (mramAddr - reader.mramAddr) &&& size.PAGE_IDX_MASK = 0#32) :
    Window size mram (seqreadSeek size mram mramAddr reader wram) mramAddr := by
  have page := size.page_bounds
  have small := (offset_small mramAddr reader.mramAddr).mp near
  have below := aligned_le loaded.aligned
  have room := loaded.cache.2
  rw [WRAM_SIZE] at room
  have bound := mramAddr.isLt
  rw [BitVec.toNat_sub] at small
  rw [seqreadSeek, if_neg (not_not.mpr near)]
  -- an address before the window would be more than a page away
  refine ⟨loaded, by dsimp only; omega, by dsimp only; omega, ?_⟩
  rw [BitVec.toNat_add, BitVec.toNat_sub]
  dsimp only
  omega

theorem Window.seek (window : Window size mram result position) (mramAddr : BitVec 32) :
    Window size mram (seqreadSeek size mram mramAddr result.reader result.wram) mramAddr := by
  by_cases near : (mramAddr - result.reader.mramAddr) &&& size.PAGE_IDX_MASK = 0#32
  · exact seqreadSeek_kept window.loaded near
  · exact seqreadSeek_reload window.loaded.cache near result.wram

/-- The end of MRAM, where a reader starts, is far from every position. -/
theorem window_init {cache mramAddr : BitVec 32} (cached : Cache size cache) (inside : AtMram size mramAddr)
    (wram : Nat → BitVec 8) : Window size mram (seqreadInit size mram cache mramAddr wram) mramAddr := by
  refine seqreadSeek_reload cached.at (fun near => ?_) wram
  have page := size.page_bounds
  have small := (offset_small mramAddr _).mp near
  rw [BitVec.toNat_sub, show (1#32 <<< DPU_MRAM_SIZE_LOG2).toNat = 2 ^ 26 from rfl] at small
  rw [AtMram, MRAM_ORIGIN, DPU_MRAM_SIZE_LOG2] at inside
  have bound := mramAddr.isLt
  omega

theorem Window.get (window : Window size mram result position) (behaves : BuiltinGet size mram builtin)
    {inc : BitVec 32}
    (increment : inc.toNat < size.page) (exact : (position + inc).toNat = position.toNat + inc.toNat) :
    Window size mram (seqreadGet size builtin result.ptr inc result.reader result.wram) (position + inc) := by
  obtain ⟨loaded, le, lt, ptr⟩ := window
  have page := size.page_bounds
  have room := loaded.cache.2
  rw [WRAM_SIZE] at room
  have bound := (position + inc).isLt
  have moved : (result.ptr + inc).toNat = result.ptr.toNat + inc.toNat := by
    rw [BitVec.toNat_add]
    omega
  by_cases first : result.ptr.toNat + inc.toNat < result.reader.wramCache.toNat + size.page
  · rw [seqreadGet, behaves.stays _ _ _ _ first]
    refine ⟨loaded, ?_, ?_, ?_⟩ <;> dsimp only <;> omega
  · rw [seqreadGet, behaves.leaves _ _ _ _ (Nat.le_of_not_lt first) (by omega) increment]
    have next : (result.reader.mramAddr + size.PAGE_SIZE).toNat = result.reader.mramAddr.toNat + size.page := by
      rw [BitVec.toNat_add, size.toNat_PAGE_SIZE]
      omega
    have back : (result.ptr + inc - size.PAGE_SIZE).toNat = result.ptr.toNat + inc.toNat - size.page := by
      rw [BitVec.toNat_sub, moved, size.toNat_PAGE_SIZE]
      omega
    have aligned : (result.reader.mramAddr + size.PAGE_SIZE).toNat % size.page = 0 := by
      rw [next, Nat.add_mod_right, loaded.aligned]
    refine ⟨loaded_mramReadPage ⟨result.reader.wramCache,
      result.reader.mramAddr + size.PAGE_SIZE⟩ loaded.cache aligned
      result.wram, ?_, ?_, ?_⟩
    all_goals
      dsimp only
      omega

/-- Where a position is counts no further than the address space. -/
theorem AtMram.le {address : BitVec 32} (inside : AtMram size address) : address.toNat + size.page < 2 ^ 32 := by
  have page := size.page_bounds
  rw [AtMram, MRAM_ORIGIN, DPU_MRAM_SIZE_LOG2] at inside
  omega

/-- Every call leaves a window around its position. -/
theorem Run.window (behaves : BuiltinGet size mram builtin) (run : Run size mram builtin result position) :
    Window size mram result position ∧ AtMram size position := by
  induction run with
  | init wram cached inside => exact ⟨window_init cached inside wram, inside⟩
  | @get result position inc _ increment inside ih =>
    obtain ⟨window, before⟩ := ih
    have room := before.le
    refine ⟨window.get behaves increment ?_, inside⟩
    rw [BitVec.toNat_add]
    omega
  | seek _ inside ih => exact ⟨ih.1.seek _, inside⟩

/-- After every call the pointer addresses a page of the bytes at the position, and tells it. -/
theorem run_reads (behaves : BuiltinGet size mram builtin) (run : Run size mram builtin result position) :
    Reads size mram result position :=
  (run.window behaves).1.reads

/-- The builtin as it behaves with the pointers to the first page. -/
def carryGet (mram : Nat → BitVec 8) : DpuSeqreadGet := fun ptr inc reader pageSize wram =>
  if ptr.toNat + inc.toNat < reader.wramCache.toNat + pageSize.toNat then ⟨ptr + inc, reader, wram⟩
  else
    { ptr := ptr + inc - pageSize
      reader := { reader with mramAddr := reader.mramAddr + pageSize }
      wram := blit mram (reader.mramAddr + pageSize).toNat wram reader.wramCache.toNat (2 * pageSize.toNat) }

theorem carryGet_behaves (size : CacheSize) (mram : Nat → BitVec 8) : BuiltinGet size mram (carryGet mram) where
  stays ptr inc reader wram first := by rw [carryGet, if_pos (by rwa [size.toNat_PAGE_SIZE])]
  leaves ptr inc reader wram leaves _ _ := by
    rw [carryGet, if_neg (by rw [size.toNat_PAGE_SIZE]; omega), mramReadPage, size.toNat_PAGE_ALLOC_SIZE,
      size.toNat_PAGE_SIZE]

/-- A cache of two pages, and an increment that leaves the first one. -/
theorem run_reads_next_page :
    let first := seqreadInit .size32 (BitVec.ofNat 8) 256#32 28#32 fun _ => 0#8
    Reads .size32 (BitVec.ofNat 8)
    (seqreadGet .size32 (carryGet (BitVec.ofNat 8)) first.ptr 8#32 first.reader first.wram)
      (28#32 + 8#32) := by
  have cache : Cache .size32 256#32 := ⟨256#32, 320#32, .reset (by decide), rfl⟩
  have start : AtMram .size32 28#32 := .inl (by decide)
  have next : AtMram .size32 (28#32 + 8#32) := .inl (by decide)
  exact run_reads (carryGet_behaves .size32 (BitVec.ofNat 8))
    (.get (.init (fun _ => 0#8) cache start) (by decide) next)

end Upmem.SeqReader
