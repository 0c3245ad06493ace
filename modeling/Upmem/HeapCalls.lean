import Upmem.Lib.Owners
import Upmem.Lib.Stacks
import Upmem.Lib.Transitions
import Upmem.SeqReader

namespace Upmem.HeapCalls
open FsbAllocator Owners SeqReader Stacks Transitions

/-- The functions that move the heap pointer. -/
inductive Call
  | memAlloc (size : BitVec 32)
  | memReset
  | seqreadAlloc (size : CacheSize)

/-- Where a tasklet is in a call: the next step is the one of the name.
`mem_alloc_nolock` of `seqread_alloc` has the cache that is returned in
its place. -/
inductive Place
  | outside
  | acquire (call : Call)
  | seqreadLoad (size : CacheSize)
  | nolockLoad (cache : Option (BitVec 32 × CacheSize)) (size : BitVec 32)
  | nolockStore (block : Block) (newHeapPointer : BitVec 32)
  | resetStore
  | release (block : Option Block)

/-- The first step behind the lock. -/
def Call.entry : Call → Place
  | .memAlloc size => .nolockLoad none size
  | .memReset => .resetStore
  | .seqreadAlloc size => .seqreadLoad size

/-- The block that a call returns. -/
def returns (cache : Option (BitVec 32 × CacheSize)) (pointer size : BitVec 32) : Block :=
  match cache with
  | none => ⟨pointer.toNat, size.toNat, 8⟩
  | some (cache, cacheSize) => ⟨cache.toNat, cacheSize.PAGE_ALLOC_SIZE.toNat, cacheSize.page⟩

/-- Tasklets `τ` that share the heap pointer and its atomic bit, with the blocks that
were reserved since the last reset. A fault of one tasklet stops all of them. -/
structure State (τ : Type) where
  heapPointer : BitVec 32
  atomicBit : Bool
  faulted : Bool
  place : τ → Place
  blocks : List Block

section Steps
variable {τ : Type} [DecidableEq τ]

def State.move (s : State τ) (tasklet : τ) (place : Place) : State τ :=
  { s with place := Function.update s.place tasklet place }

/-- The steps of a tasklet. The acquire of a bit that is taken is not a step: the tasklet tries again. -/
inductive Instruction (initial : BitVec 32) : State τ → τ → State τ → Prop
  | call {s tasklet} (call : Call) : s.place tasklet = .outside →
      Instruction initial s tasklet (s.move tasklet (.acquire call))
  | acquire {s tasklet call} : s.place tasklet = .acquire call → s.atomicBit = false →
      Instruction initial s tasklet { s.move tasklet call.entry with atomicBit := true }
  | seqreadLoad {s tasklet size} : s.place tasklet = .seqreadLoad size →
      Instruction initial s tasklet (s.move tasklet
        (let pointer := (s.heapPointer + size.PAGE_OFF_MASK) &&& size.PAGE_IDX_MASK
        .nolockLoad (some (pointer, size)) (pointer + size.PAGE_ALLOC_SIZE - s.heapPointer)))
  | nolockNothing {s tasklet cache} : s.place tasklet = .nolockLoad cache 0#32 →
      Instruction initial s tasklet (s.move tasklet (.release none))
  | nolockLoad {s tasklet cache size pointer newHeapPointer} : s.place tasklet = .nolockLoad cache size →
      size ≠ 0#32 → memAlloc s.heapPointer size = some (pointer, newHeapPointer) →
      Instruction initial s tasklet (s.move tasklet (.nolockStore (returns cache pointer size) newHeapPointer))
  | nolockFault {s tasklet cache size} : s.place tasklet = .nolockLoad cache size →
      memAlloc s.heapPointer size = none → Instruction initial s tasklet { s with faulted := true }
  | nolockStore {s tasklet block newHeapPointer} : s.place tasklet = .nolockStore block newHeapPointer →
      Instruction initial s tasklet { s.move tasklet (.release (some block)) with
        heapPointer := newHeapPointer
        blocks := block :: s.blocks }
  | resetStore {s tasklet} : s.place tasklet = .resetStore →
      Instruction initial s tasklet { s.move tasklet (.release none) with heapPointer := initial, blocks := [] }
  | release {s tasklet block} : s.place tasklet = .release block →
      Instruction initial s tasklet { s.move tasklet .outside with atomicBit := false }

def Step (initial : BitVec 32) (s : State τ) (tasklet : τ) (t : State τ) : Prop :=
  s.faulted = false ∧ Instruction initial s tasklet t

end Steps

/-- Before the first call. The initial heap pointer is the one of the linker script. -/
structure State.Init {τ : Type} (initial : BitVec 32) (s : State τ) : Prop where
  heapPointer : s.heapPointer = initial
  free : s.atomicBit = false
  running : s.faulted = false
  outside : ∀ tasklet, s.place tasklet = .outside
  blocks : s.blocks = []

/-- A tasklet that has the lock at a place. -/
def Place.Inside : Place → Prop
  | .outside | .acquire _ => False
  | _ => True

/-- What a tasklet knows of the heap at a place. -/
def Place.Current (heapPointer : BitVec 32) (blocks : List Block) : Place → Prop
  | .nolockLoad (some (cache, cacheSize)) size =>
    cache = (heapPointer + cacheSize.PAGE_OFF_MASK) &&& cacheSize.PAGE_IDX_MASK ∧
      size = cache + cacheSize.PAGE_ALLOC_SIZE - heapPointer
  | .nolockStore block newHeapPointer => heapPointer.toNat ≤ block.start ∧ block.align ∣ block.start ∧
      block.start + block.bytes ≤ newHeapPointer.toNat ∧ newHeapPointer.toNat ≤ WRAM_SIZE
  | .release block => ∀ each, block = some each → each ∈ blocks
  | _ => True

/-- What holds between any two steps of the tasklets. -/
structure State.Sound {τ : Type} (initial : BitVec 32) (s : State τ) : Prop where
  lock : Owned (fun _ : Unit => True) (fun _ => s.atomicBit) fun tasklet _ => (s.place tasklet).Inside
  stacked : Stacked initial.toNat s.heapPointer.toNat s.blocks
  top : s.heapPointer.toNat ≤ WRAM_SIZE
  current : ∀ tasklet, (s.place tasklet).Current s.heapPointer s.blocks
  full : s.faulted = true → ∃ tasklet cache size, s.place tasklet = .nolockLoad cache size ∧
    WRAM_SIZE < (s.heapPointer.toNat + 7) / 8 * 8 + size.toNat

section Reserving
variable {heapPointer size pointer newHeapPointer cache : BitVec 32} {cacheSize : CacheSize}

theorem memAlloc_none (layout : heapPointer.toNat ≤ WRAM_SIZE) (full : memAlloc heapPointer size = none) :
    WRAM_SIZE < (heapPointer.toNat + 7) / 8 * 8 + size.toNat := by
  have up : (heapPointer + 7#32).toNat = heapPointer.toNat + 7 := by
    rw [WRAM_SIZE] at layout
    rw [BitVec.toNat_add, BitVec.toNat_ofNat]
    omega
  have pointer := toNat_and_not_seven (heapPointer + 7#32)
  rw [up] at pointer
  unfold memAlloc at full
  dsimp only at full
  split_ifs at full with nothing carry outside
  · rw [pointer] at carry
    rw [WRAM_SIZE]
    omega
  · have positive : size.toNat ≠ 0 := fun same => nothing (BitVec.eq_of_toNat_eq same)
    rw [BitVec.toNat_sub, BitVec.toNat_add, pointer, BitVec.toNat_ofNat] at outside
    rw [pointer] at carry
    rw [WRAM_SIZE] at outside layout ⊢
    omega

/-- The cache of `seqread_alloc` is in what `mem_alloc_nolock` reserves. -/
theorem seqread_reserved (layout : heapPointer.toNat ≤ WRAM_SIZE)
    (place : cache = (heapPointer + cacheSize.PAGE_OFF_MASK) &&& cacheSize.PAGE_IDX_MASK)
    (length : size = cache + cacheSize.PAGE_ALLOC_SIZE - heapPointer)
    (reserved : memAlloc heapPointer size = some (pointer, newHeapPointer)) :
    heapPointer.toNat ≤ cache.toNat ∧ cacheSize.page ∣ cache.toNat ∧
      cache.toNat + cacheSize.PAGE_ALLOC_SIZE.toNat ≤ newHeapPointer.toNat ∧ newHeapPointer.toNat ≤ WRAM_SIZE := by
  have done : seqreadAlloc cacheSize heapPointer = some (cache, newHeapPointer) := by
    rw [seqreadAlloc, ← place, ← length, reserved, Option.map_some]
  obtain ⟨⟨aligned, inside⟩, below⟩ := seqreadAlloc_some layout done
  have page := cacheSize.page_bounds
  have above : heapPointer.toNat ≤ cache.toNat := by
    have up : (heapPointer + cacheSize.PAGE_OFF_MASK).toNat = heapPointer.toNat + (cacheSize.page - 1) := by
      rw [BitVec.toNat_add, cacheSize.toNat_PAGE_OFF_MASK, ← CacheSize.page]
      rw [WRAM_SIZE] at layout
      omega
    have start := toNat_and_PAGE_IDX_MASK cacheSize (heapPointer + cacheSize.PAGE_OFF_MASK)
    have divided := Nat.div_add_mod' (heapPointer + cacheSize.PAGE_OFF_MASK).toNat cacheSize.page
    have remainder := Nat.mod_lt (heapPointer + cacheSize.PAGE_OFF_MASK).toNat (by omega : 0 < cacheSize.page)
    rw [← place] at start
    rw [← start, up] at divided
    rw [up] at remainder
    omega
  have bytes : size.toNat = cache.toNat + 2 * cacheSize.page - heapPointer.toNat := by
    rw [length, BitVec.toNat_sub, BitVec.toNat_add, cacheSize.toNat_PAGE_ALLOC_SIZE]
    rw [WRAM_SIZE] at layout inside
    omega
  have some_ : size ≠ 0#32 := by
    rintro rfl
    rw [BitVec.toNat_zero] at bytes
    omega
  obtain ⟨before, -, ends, -⟩ := memAlloc_some some_ layout reserved
  rw [cacheSize.toNat_PAGE_ALLOC_SIZE]
  exact ⟨above, Nat.dvd_of_mod_eq_zero aligned, by omega, below⟩

/-- What `mem_alloc_nolock` finds room for. -/
theorem current_nolockStore {cached : Option (BitVec 32 × CacheSize)} {blocks : List Block}
    (layout : heapPointer.toNat ≤ WRAM_SIZE) (current : (Place.nolockLoad cached size).Current heapPointer blocks)
    (some_ : size ≠ 0#32) (reserved : memAlloc heapPointer size = some (pointer, newHeapPointer)) :
    (Place.nolockStore (returns cached pointer size) newHeapPointer).Current heapPointer blocks := by
  obtain _ | ⟨cache, cacheSize⟩ := cached
  · obtain ⟨above, aligned, ends, below⟩ := memAlloc_some some_ layout reserved
    exact ⟨above, Nat.dvd_of_mod_eq_zero aligned, ends.ge, below⟩
  · exact seqread_reserved layout current.1 current.2 reserved

end Reserving

section Invariant
variable {τ : Type} {initial : BitVec 32} {s t : State τ} {tasklet : τ} {place : Place}

theorem State.Init.sound (layout : initial.toNat ≤ WRAM_SIZE) (init : s.Init initial) : s.Sound initial where
  lock := by
    refine Owned.of_free (fun _ _ => init.free) fun tasklet _ inside => ?_
    rw [init.outside tasklet] at inside
    exact inside
  stacked := by
    rw [init.heapPointer, init.blocks]
    exact Nat.le_refl _
  top := by rwa [init.heapPointer]
  current tasklet := by
    rw [init.outside tasklet]
    trivial
  full faulted := by
    rw [init.running] at faulted
    cases faulted

variable [DecidableEq τ]

theorem inside_of_move (place : Place) (moved : t.place = Function.update s.place tasklet place) (other : τ) :
    (t.place other).Inside ↔ if other = tasklet then place.Inside else (s.place other).Inside := by
  rw [moved, Function.update_apply]
  split_ifs <;> rfl

/-- A step that leaves the heap as it is. -/
theorem State.Sound.of_move (sound : s.Sound initial) (running : t.faulted = false)
    (moved : t.place = Function.update s.place tasklet place) (heapPointer : t.heapPointer = s.heapPointer)
    (blocks : t.blocks = s.blocks) (current : place.Current s.heapPointer s.blocks)
    (lock : Owned (fun _ : Unit => True) (fun _ => t.atomicBit) fun tasklet _ => (t.place tasklet).Inside) :
    t.Sound initial := by
  refine ⟨lock, ?_, ?_, fun other => ?_, fun faulted => ?_⟩
  · rw [heapPointer, blocks]
    exact sound.stacked
  · rw [heapPointer]
    exact sound.top
  · rw [heapPointer, blocks, moved, Function.update_apply]
    split_ifs
    · exact current
    · exact sound.current other
  · rw [running] at faulted
    cases faulted

/-- A step of the tasklet that has the lock. -/
theorem State.Sound.of_inside (sound : s.Sound initial) (running : t.faulted = false)
    (moved : t.place = Function.update s.place tasklet place) (bit : t.atomicBit = s.atomicBit)
    (before : (s.place tasklet).Inside) (inside : place.Inside)
    (stacked : Stacked initial.toNat t.heapPointer.toNat t.blocks) (top : t.heapPointer.toNat ≤ WRAM_SIZE)
    (current : place.Current t.heapPointer t.blocks) : t.Sound initial := by
  refine ⟨sound.lock.congr (fun _ _ => bit) fun other _ => ?_, stacked, top, fun other => ?_, fun faulted => ?_⟩
  · rw [moved, Function.update_apply]
    split_ifs with here
    · exact iff_of_true inside (here ▸ before)
    · rfl
  · rw [moved, Function.update_apply]
    split_ifs with here
    · exact current
    · -- nobody else has the lock, so nobody else knows anything of the heap
      have away : ¬ (s.place other).Inside := fun also => here (sound.lock.alone () other tasklet also before)
      generalize s.place other = elsewhere at away
      cases elsewhere <;> first | trivial | exact absurd trivial away
  · rw [running] at faulted
    cases faulted

theorem State.Sound.step (sound : s.Sound initial) (step : Step initial s tasklet t) : t.Sound initial := by
  obtain ⟨running, instruction⟩ := step
  cases instruction with
  | call call outside =>
    refine sound.of_move running rfl rfl rfl trivial (sound.lock.congr (fun _ _ => rfl) fun other _ => ?_)
    rw [inside_of_move (.acquire call) rfl]
    split_ifs with here
    · rw [here, outside]
      rfl
    · rfl
  | @acquire call acquire free =>
    have entry : call.entry.Inside ∧ call.entry.Current s.heapPointer s.blocks := by
      cases call <;> exact ⟨trivial, trivial⟩
    refine sound.of_move running rfl rfl rfl entry.2
      (@Owned.take Unit τ _ _ _ _ _ sound.lock tasklet () trivial free rfl ?_ ?_)
    · exact fun other _ away => absurd rfl away
    · intro other _
      rw [inside_of_move call.entry rfl]
      split_ifs with here
      · exact iff_of_true entry.1 (.inr ⟨here, rfl⟩)
      · simp [here]
  | @seqreadLoad size load =>
    exact sound.of_inside running rfl rfl (load ▸ trivial) trivial sound.stacked sound.top ⟨rfl, rfl⟩
  | @nolockNothing cache load =>
    exact sound.of_inside running rfl rfl (load ▸ trivial) trivial sound.stacked sound.top
      (fun _ none_ => absurd none_ (by simp))
  | @nolockLoad cache size pointer newHeapPointer load some_ reserved =>
    have current := sound.current tasklet
    rw [load] at current
    exact sound.of_inside running rfl rfl (load ▸ trivial) trivial sound.stacked sound.top
      (current_nolockStore sound.top current some_ reserved)
  | @nolockFault cache size load full =>
    exact ⟨sound.lock, sound.stacked, sound.top, sound.current,
      fun _ => ⟨tasklet, cache, size, load, memAlloc_none sound.top full⟩⟩
  | @nolockStore block newHeapPointer store =>
    have current := sound.current tasklet
    rw [store] at current
    obtain ⟨above, aligned, below, top⟩ := current
    refine sound.of_inside running rfl rfl (store ▸ trivial) trivial (sound.stacked.push above aligned below) top ?_
    rintro each same
    exact Option.some.inj same ▸ List.mem_cons_self
  | resetStore store =>
    refine sound.of_inside running rfl rfl (store ▸ trivial) trivial (Nat.le_refl initial.toNat)
      (sound.stacked.low_le.trans sound.top) fun each none_ => absurd none_ (by simp)
  | @release block release =>
    have inside : (s.place tasklet).Inside := release ▸ trivial
    refine sound.of_move running rfl rfl rfl trivial (sound.lock.drop tasklet () inside rfl ?_ ?_)
    · exact fun other _ away => absurd rfl away
    · intro other _
      rw [inside_of_move .outside rfl]
      split_ifs with here
      · exact iff_of_false not_false fun both => both.2 ⟨here, rfl⟩
      · simp [here]

/-- In every interleaving of `mem_alloc`, `mem_reset` and `seqread_alloc`: the blocks
that were reserved since the last reset are apart from each other, aligned and in the
heap, the block that a call is about to return is one of them, and a tasklet faults only
when its block does not fit behind the heap pointer. -/
theorem heapCalls_sound {start : State τ} (layout : initial.toNat ≤ WRAM_SIZE) (init : start.Init initial)
    (reach : Reachable (Step initial) start s) :
    s.blocks.Pairwise Block.Apart ∧
      (∀ block ∈ s.blocks, initial.toNat ≤ block.start ∧ block.start + block.bytes ≤ WRAM_SIZE ∧
        block.align ∣ block.start) ∧
      (∀ tasklet block, s.place tasklet = .release (some block) → block ∈ s.blocks) ∧
      (s.faulted = true → ∃ tasklet cache size, s.place tasklet = .nolockLoad cache size ∧
        WRAM_SIZE < (s.heapPointer.toNat + 7) / 8 * 8 + size.toNat) := by
  have sound := reach.invariant (init.sound layout) fun _ _ _ sound step => sound.step step
  refine ⟨sound.stacked.apart, fun block member => ?_, fun tasklet block release => ?_, sound.full⟩
  · obtain ⟨above, below, aligned⟩ := sound.stacked.inside block member
    exact ⟨above, below.trans sound.top, aligned⟩
  · have current := sound.current tasklet
    rw [release] at current
    exact current block rfl

/-- One of two tasklets has reserved a block of 20 bytes, and it is about to return it. -/
theorem heapCalls_sound_block : ∃ s : State (Fin 2), s.blocks.length = 1 ∧ s.blocks.Pairwise Block.Apart ∧
    (∀ block ∈ s.blocks, (64#32).toNat ≤ block.start ∧ block.start + block.bytes ≤ WRAM_SIZE ∧
      block.align ∣ block.start) ∧
    (∀ tasklet block, s.place tasklet = .release (some block) → block ∈ s.blocks) ∧
    (s.faulted = true → ∃ tasklet cache size, s.place tasklet = .nolockLoad cache size ∧
      WRAM_SIZE < (s.heapPointer.toNat + 7) / 8 * 8 + size.toNat) := by
  have start : Reachable (Step 64#32) (⟨64#32, false, false, fun _ => .outside, []⟩ : State (Fin 2)) _ :=
    ⟨[], .start⟩
  have called := start.next (a := 0) ⟨rfl, .call (.memAlloc 20#32) rfl⟩
  have acquired := called.next (a := 0) ⟨rfl, .acquire rfl rfl⟩
  have loaded := acquired.next (a := 0) ⟨rfl, .nolockLoad rfl (by decide) rfl⟩
  have stored := loaded.next (a := 0) ⟨rfl, .nolockStore rfl⟩
  exact ⟨_, rfl, heapCalls_sound (by decide) ⟨rfl, rfl, rfl, fun _ => rfl, rfl⟩ stored⟩

end Invariant

end Upmem.HeapCalls
